import NoiseShader.Graph.Wiring

set_option autoImplicit false

/-! # Dependencies first

An order of some nodes in which each comes after its dependencies. Where there is a choice,
the least UID goes first. Nodes that depend on a cycle are left out.

Every UID has a counter of its dependencies that are not listed yet. Listing a UID counts its
dependents down, and those whose counter comes to zero are ready to be listed.
-/

namespace NoiseShader

namespace Order

/-- The counters of the UIDs to be listed, and those that are ready and not listed yet. -/
structure Tally where
  counters : Std.TreeMap UID Nat
  ready : UIDSet

namespace Tally

/-- One dependency less for `uid` to wait for. There is no counter below zero. -/
def countDown (t : Tally) (uid : UID) : Option Tally :=
  match t.counters[uid]? with
  | none => some t
  | some 0 => none
  | some (n + 1) =>
    some ⟨t.counters.insert uid n, if n = 0 then t.ready.insert uid else t.ready⟩

/-- How many UIDs are ready or have something to wait for. -/
def unlisted (t : Tally) : Nat :=
  t.ready.size + t.counters.toList.countP fun entry => entry.2 != 0

/-- With the counter of one UID set to `n`, what counts is `n` and the counters of the others. -/
theorem countP_insert (counters : Std.TreeMap UID Nat) (uid : UID) (n : Nat)
    (p : UID × Nat → Bool) :
    (counters.insert uid n).toList.countP p =
      (if p (uid, n) then 1 else 0) +
        (counters.toList.filter fun entry => ¬ uid == entry.1).countP p := by
  rw [Std.TreeMap.toList_insert_perm.countP_eq, List.countP_cons, Nat.add_comm]

theorem countP_of_getElem? {counters : Std.TreeMap UID Nat} {uid : UID} {n : Nat}
    (h : counters[uid]? = some n) (p : UID × Nat → Bool) :
    counters.toList.countP p =
      (if p (uid, n) then 1 else 0) +
        (counters.toList.filter fun entry => ¬ uid == entry.1).countP p := by
  have hsame : (counters.insert uid n).Equiv counters := by
    refine Std.TreeMap.Equiv.of_forall_constGet?_eq fun v => ?_
    rw [Std.TreeMap.getElem?_insert]
    split
    · next heq => rw [← Std.LawfulEqCmp.eq_of_compare heq, h]
    · rfl
  calc counters.toList.countP p
      = (counters.insert uid n).toList.countP p := by rw [hsame.toList_eq]
    _ = _ := countP_insert counters uid n p

theorem unlisted_countDown {t t' : Tally} {uid : UID} (h : t.countDown uid = some t') :
    t'.unlisted ≤ t.unlisted := by
  unfold countDown at h
  split at h
  · obtain rfl := Option.some.inj h
    exact Nat.le_refl _
  · cases h
  · next n hn =>
      obtain rfl := Option.some.inj h
      simp only [unlisted, countP_insert, countP_of_getElem? hn]
      have hready := Std.TreeSet.size_insert_le (t := t.ready) (k := uid)
      by_cases hzero : n = 0
      · simp only [hzero, if_true, bne_self_eq_false, Bool.false_eq_true, if_false]
        simp
        omega
      · simp [hzero]

theorem unlisted_foldlM {t t' : Tally} {uids : List UID} (h : uids.foldlM countDown t = some t') :
    t'.unlisted ≤ t.unlisted := by
  induction uids generalizing t with
  | nil =>
      obtain rfl := Option.some.inj h
      exact Nat.le_refl _
  | cons uid uids ih =>
      rw [List.foldlM_cons, Option.bind_eq_bind, Option.bind_eq_some_iff] at h
      obtain ⟨next, hnext, h⟩ := h
      exact Nat.le_trans (ih h) (unlisted_countDown hnext)

end Tally

/-- Lists the least UID that is ready and counts its dependents down, until none is ready; nothing
if a counter would go below zero. -/
def listByCount? (dependents : UID → List UID) (t : Tally) : Option (List UID) :=
  match hready : t.ready.min? with
  | none => some []
  | some uid =>
    match hcount : (dependents uid).foldlM Tally.countDown { t with ready := t.ready.erase uid } with
    | none => none
    | some next =>
      have : next.unlisted < t.unlisted := by
        have hmem := (Std.TreeSet.min?_eq_some_iff_mem_and_forall.mp hready).1
        have hless := size_erase_lt hmem
        have hle := Tally.unlisted_foldlM hcount
        simp only [Tally.unlisted] at hle ⊢
        omega
      (listByCount? dependents next).map (uid :: ·)
termination_by t.unlisted

/-- For each UID those of `uids` that depend on it. -/
def dependentsOf (dependencies : UID → List UID) (uids : List UID) : Std.TreeMap UID (List UID) :=
  uids.foldl (fun table uid =>
    (dependencies uid).foldl (fun table dependency =>
      table.insert dependency (uid :: table.getD dependency [])) table) ∅

/-- All counters before anything is listed. -/
def Tally.start (dependencies : UID → List UID) (uids : List UID) : Tally where
  counters := .ofList (uids.map fun uid => (uid, (dependencies uid).length)) compare
  ready := .ofList (uids.filter fun uid => (dependencies uid).isEmpty) compare

end Order

/-- The order of the nodes of `subset`, unless a counter would go below zero. Only dependencies
inside `subset` count, and a UID that names no node has none. -/
def Wiring.order? (w : Wiring) (subset : List UID) : Option (List UID) :=
  let uids := ascending subset
  let set : UIDSet := .ofList uids compare
  let inside := fun uid => (w.dependencies uid).filter set.contains
  let dependents := Order.dependentsOf inside uids
  Order.listByCount? (fun uid => dependents.getD uid []) (.start inside uids)

/-- The order of the nodes of `subset`. -/
def Wiring.order (w : Wiring) (subset : List UID) : List UID := (w.order? subset).getD []

def Graph.order (g : Graph) (subset : List UID) : List UID := g.wiring.order subset

end NoiseShader
