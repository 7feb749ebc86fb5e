import NoiseShader.Graph.Wiring

set_option autoImplicit false

/-! # Finding a cycle

A depth-first search that starts from each node in turn, in ascending order, and follows the
dependencies of a node in ascending order. A node is active from when it is entered to when all
its dependencies are followed. The search stops at the first dependency that is active: there
the path it came by leads back to itself.
-/

namespace NoiseShader.Cycle

/-- A node on the path of the search, with the dependencies that remain to be followed. -/
structure Frame where
  uid : UID
  pending : List UID
deriving Repr

/-- How many dependencies remain to be followed along a path, and nodes to be left. -/
def work : List Frame → Nat
  | [] => 0
  | frame :: path => frame.pending.length + 1 + work path

/-- Where a search stands. Nodes that are neither fresh nor active are done with. -/
structure Search where
  /-- The nodes that have not been entered. -/
  fresh : UIDSet
  /-- The nodes that have been entered and not left. -/
  active : UIDSet
  /-- The way to the node that the search is at, newest node first. -/
  path : List Frame
  /-- Where the search has still to start from. -/
  roots : List UID

/-- What comes of a step: the search goes on, or is over with a cycle or without. -/
inductive Progress
  | goesOn (next : Search)
  | over (found : Option (List UID))

/-- The place of a node on a path, counted from the oldest node. -/
def place? (uid : UID) (path : List Frame) : Option Nat :=
  path.reverse.findIdx? fun frame => frame.uid == uid

/-- The path from the place of `uid` on, oldest node first, and `uid` again. A path without `uid`
would be taken as a whole. -/
def close (uid : UID) (path : List Frame) : List UID :=
  (path.reverse.map Frame.uid).drop ((place? uid path).getD 0) ++ [uid]

namespace Search

/-- Before the first step: no node has been entered. -/
def start (uids : List UID) : Search := ⟨.ofList uids compare, ∅, [], uids⟩

/-- Enters a node that `path` has come to. -/
def enter (dependencies : UID → List UID) (s : Search) (uid : UID) (path : List Frame)
    (roots : List UID) : Search :=
  ⟨s.fresh.erase uid, s.active.insert uid, ⟨uid, dependencies uid⟩ :: path, roots⟩

def step (dependencies : UID → List UID) (s : Search) : Progress :=
  match s.path, s.roots with
  | [], [] => .over none
  | [], root :: roots =>
    if root ∈ s.fresh then .goesOn (s.enter dependencies root [] roots)
    else .goesOn { s with roots := roots }
  | ⟨uid, []⟩ :: path, _ => .goesOn { s with active := s.active.erase uid, path := path }
  | ⟨uid, next :: pending⟩ :: path, roots =>
    if next ∈ s.fresh then .goesOn (s.enter dependencies next (⟨uid, pending⟩ :: path) roots)
    else if next ∈ s.active then .over (some (close next s.path))
    else .goesOn { s with path := ⟨uid, pending⟩ :: path }

/-- A step enters a fresh node, or leaves less to be followed. -/
theorem step_decreases {dependencies : UID → List UID} {s t : Search}
    (h : s.step dependencies = .goesOn t) :
    Prod.Lex (· < ·) (· < ·) (t.fresh.size, work t.path + t.roots.length)
      (s.fresh.size, work s.path + s.roots.length) := by
  obtain ⟨fresh, active, path, roots⟩ := s
  unfold step at h
  simp only at h
  split at h
  · cases h
  · split at h
    · next hfresh =>
        obtain rfl := Progress.goesOn.inj h
        exact .left _ _ (size_erase_lt hfresh)
    · obtain rfl := Progress.goesOn.inj h
      exact .right _ (by simp [work])
  · obtain rfl := Progress.goesOn.inj h
    exact .right _ (by simp [work])
  · split at h
    · next hfresh =>
        obtain rfl := Progress.goesOn.inj h
        exact .left _ _ (size_erase_lt hfresh)
    · split at h
      · cases h
      · obtain rfl := Progress.goesOn.inj h
        exact .right _ (by simp [work])

/-- Takes steps until the search is over. -/
def run (dependencies : UID → List UID) (s : Search) : Option (List UID) :=
  match _h : s.step dependencies with
  | .goesOn next => run dependencies next
  | .over found => found
termination_by (s.fresh.size, work s.path + s.roots.length)
decreasing_by exact step_decreases ‹_›

end Search

end Cycle

/-- A cycle of references, as a path that ends where it begins. -/
def Wiring.cycle? (w : Wiring) : Option (List UID) :=
  (Cycle.Search.start w.uids).run w.dependencies

def Graph.cycle? (g : Graph) : Option (List UID) := g.wiring.cycle?

end NoiseShader
