import NoiseShader.Storage
import NoiseShader.Proofs.Attempt
import Mathlib.Data.List.Nodup

set_option autoImplicit false

/-! # What holds of every graph

A graph comes from nothing, or from a stored document, and then from edits. `Graph.Built` are
the graphs that any such run can end in, failed edits included, and `Graph.WellFormed` is what
they have in common: UIDs are distinct and below the counter, and each node has the slots that
its kind declares, with the declared values. Which documents are those of graphs, and which graphs
they are of, is said by `Document.graph_eq_ok_iff`.
-/

namespace NoiseShader

/-! ## Runs -/

/-- One call that changes a graph. -/
inductive Edit
  | add (kind : Kind)
  | remove (uid : UID)
  | rename (uid : UID) (name : String)
  | setInput (uid : UID) (slot : Nat) (signal : Signal)
  | setInputNamed (uid : UID) (name : String) (signal : Signal)
  | setPinned (uid : UID) (slot : Nat) (pinned : Bool)
  | reconfigure (uid : UID) (kind : Kind)
  | setOutput (signal : Signal)
  | setName (name : String)
deriving DecidableEq, Repr

namespace Graph

def apply (g : Graph) : Edit → Except EditError Graph
  | .add kind => (g.add kind).map Prod.snd
  | .remove uid => (g.remove uid).map Removal.graph
  | .rename uid name => g.rename uid name
  | .setInput uid slot signal => g.setInput uid slot signal
  | .setInputNamed uid name signal => g.setInputNamed uid name signal
  | .setPinned uid slot pinned => g.setPinned uid slot pinned
  | .reconfigure uid kind => g.reconfigure uid kind
  | .setOutput signal => .ok (g.setOutput signal)
  | .setName name => .ok { g with name := name }

/-- The graph after an edit; a failed one leaves it as it was. -/
def after (g : Graph) (e : Edit) : Graph :=
  match g.apply e with
  | .ok h => h
  | .error _ => g

/-- The graphs that a run can end in: it starts from an empty graph or from one that was
loaded, and goes on with edits that succeed or fail. -/
inductive Built : Graph → Prop
  | empty (name : String) : Built (empty name)
  | document {d : Document} {g : Graph} (h : ofDocument d = .ok g) : Built g
  | text {s : String} {g : Graph} (h : ofText s = .ok g) : Built g
  | bytes {b : List UInt8} {g : Graph} (h : ofBytes b = .ok g) : Built g
  | edit {g : Graph} (h : Built g) (e : Edit) : Built (g.after e)

theorem Built.edits {g : Graph} (hg : g.Built) (edits : List Edit) :
    (edits.foldl after g).Built := by
  induction edits generalizing g with
  | nil => exact hg
  | cons e edits ih => exact ih (hg.edit e)

end Graph

/-! ## The invariant -/

/-- The node has, in order, the slots that its kind declares. -/
def Node.Fits (n : Node) : Prop := n.slots.map Slot.spec = n.kind.slots

/-- A UID lies below the counter, unless the counter is used up. -/
def UID.Below (uid next : UID) : Prop := uid < next ∨ next = UID.last

structure Graph.WellFormed (g : Graph) : Prop where
  nodup : g.uids.Nodup
  fits : ∀ n ∈ g.nodes, n.Fits
  below : ∀ n ∈ g.nodes, n.uid.Below g.nextUID

/-! ## Slots keep their declarations -/

namespace Slot

theorem map_spec_slot (specs : List SlotSpec) :
    (specs.map SlotSpec.slot).map Slot.spec = specs := by
  rw [List.map_map]
  exact List.map_id specs

theorem map_spec_modify (slots : List Slot) (i : Nat) (change : Slot → Slot)
    (hchange : ∀ s, (change s).spec = s.spec) :
    (slots.modify i change).map Slot.spec = slots.map Slot.spec := by
  induction slots generalizing i with
  | nil => simp
  | cons s slots ih =>
      cases i with
      | zero => simp [hchange]
      | succ i => simp [ih]

theorem map_spec_reshape (old : List Slot) (specs : List SlotSpec) :
    (reshape old specs).map Slot.spec = specs := by
  rw [reshape, List.map_map]
  conv_rhs => rw [← List.map_id specs]
  apply List.map_congr_left
  intro spec _
  simp only [Function.comp_apply]
  split <;> rfl

theorem map_spec_detach (uid : UID) (slots : List Slot) :
    (detach uid slots).map Slot.spec = slots.map Slot.spec := by
  rw [detach, List.map_map]
  apply List.map_congr_left
  intro s _
  show Slot.spec (if s.signal.refersTo uid then s.reset else s) = s.spec
  split <;> rfl

/-- Slots of the declared names, given the declared values, are the declared slots. -/
theorem map_spec_zipWith (slots : List Slot) (specs : List SlotSpec)
    (h : slots.map Slot.name = specs.map SlotSpec.name) :
    (slots.zipWith (fun s spec => { s with initial := spec.initial }) specs).map Slot.spec
      = specs := by
  induction slots generalizing specs with
  | nil =>
      cases specs with
      | nil => rfl
      | cons spec specs => simp at h
  | cons s slots ih =>
      cases specs with
      | nil => simp at h
      | cons spec specs =>
          simp only [List.map_cons, List.cons.injEq] at h
          simp only [List.zipWith_cons_cons, List.map_cons, ih specs h.2]
          rw [Slot.spec, h.1]

end Slot

theorem Node.ofKind_fits (uid : UID) (kind : Kind) : (Node.ofKind uid kind).Fits :=
  Slot.map_spec_slot kind.slots

theorem Node.Fits.length {n : Node} (h : n.Fits) : n.slots.length = n.kind.slots.length := by
  have := congrArg List.length h
  simpa using this

/-! ## Looking up nodes -/

namespace Graph

theorem node?_eq_some {g : Graph} {uid : UID} {n : Node} (h : g.node? uid = some n) :
    n ∈ g.nodes ∧ n.uid = uid := by
  have hmem := List.mem_of_find?_eq_some h
  have huid := List.find?_some h
  exact ⟨hmem, by simpa using huid⟩

theorem node?_isSome_iff (g : Graph) (uid : UID) :
    (g.node? uid).isSome ↔ uid ∈ g.uids := by
  simp [node?, uids]

theorem node?_eq_none_iff (g : Graph) (uid : UID) : g.node? uid = none ↔ uid ∉ g.uids := by
  rw [← Option.not_isSome_iff_eq_none, node?_isSome_iff]

theorem mem_uids_of_node? {g : Graph} {uid : UID} {n : Node} (h : g.node? uid = some n) :
    uid ∈ g.uids := by
  rw [← node?_isSome_iff, h]
  rfl

/-- With distinct UIDs a node is found under its own UID and no other. -/
theorem node?_eq_some_iff {g : Graph} (hg : g.uids.Nodup) (uid : UID) (n : Node) :
    g.node? uid = some n ↔ n ∈ g.nodes ∧ n.uid = uid := by
  constructor
  · exact node?_eq_some
  · rintro ⟨hn, rfl⟩
    have hsome : (g.node? n.uid).isSome := by
      rw [node?_isSome_iff]
      exact List.mem_map_of_mem hn
    obtain ⟨m, hm⟩ := Option.isSome_iff_exists.mp hsome
    obtain ⟨hmem, huid⟩ := node?_eq_some hm
    rw [hm, List.inj_on_of_nodup_map hg hmem hn huid]

/-! ## Edits keep the invariant -/

theorem wellFormed_empty (name : String) : (empty name).WellFormed :=
  ⟨List.nodup_nil, by simp [empty], by simp [empty]⟩

theorem uids_replace (g : Graph) (n : Node) : (g.replace n).uids = g.uids := by
  simp only [uids, replace, List.map_map]
  apply List.map_congr_left
  intro m _
  by_cases h : m.uid = n.uid
  · simp [h]
  · simp [h]

theorem wellFormed_replace {g : Graph} (hg : g.WellFormed) {n : Node} (hn : n.Fits)
    (hbelow : n.uid.Below g.nextUID) : (g.replace n).WellFormed := by
  refine ⟨by rw [uids_replace]; exact hg.nodup, ?_, ?_⟩
  · intro m hm
    obtain ⟨k, hk, rfl⟩ := List.mem_map.mp hm
    split
    · exact hn
    · exact hg.fits k hk
  · intro m hm
    obtain ⟨k, hk, rfl⟩ := List.mem_map.mp hm
    split
    · exact hbelow
    · exact hg.below k hk

/-- An edit of one node that succeeds has found the node and put another in its place. -/
theorem edit_eq_ok {g h : Graph} {uid : UID} {change : Node → Except EditError Node}
    (he : g.edit uid change = .ok h) :
    ∃ n m, g.node? uid = some n ∧ change n = .ok m ∧ h = g.replace m := by
  unfold edit at he
  split at he
  · cases he
  · next n hn =>
      obtain ⟨m, hm, rfl⟩ := Attempt.map_eq_ok_iff.mp he
      exact ⟨n, m, hn, hm, rfl⟩

theorem wellFormed_edit {g h : Graph} (hg : g.WellFormed) {uid : UID}
    {change : Node → Except EditError Node} (he : g.edit uid change = .ok h)
    (hchange : ∀ n m, n.Fits → change n = .ok m → m.uid = n.uid ∧ m.Fits) : h.WellFormed := by
  obtain ⟨n, m, hn, hm, rfl⟩ := edit_eq_ok he
  obtain ⟨hmem, _⟩ := node?_eq_some hn
  obtain ⟨huid, hfits⟩ := hchange n m (hg.fits n hmem) hm
  exact wellFormed_replace hg hfits (by rw [huid]; exact hg.below n hmem)

theorem wellFormed_editSlot {g h : Graph} (hg : g.WellFormed) {uid : UID} {slot : Nat}
    {change : Slot → Slot} (he : g.editSlot uid slot change = .ok h)
    (hchange : ∀ s, (change s).spec = s.spec) : h.WellFormed := by
  refine wellFormed_edit hg he ?_
  intro n m hn hm
  split at hm
  · obtain rfl := Except.ok.inj hm
    refine ⟨rfl, ?_⟩
    show (n.slots.modify slot change).map Slot.spec = n.kind.slots
    rw [Slot.map_spec_modify _ _ _ hchange]
    exact hn
  · cases hm

theorem wellFormed_rename {g h : Graph} (hg : g.WellFormed) {uid : UID} {name : String}
    (he : g.rename uid name = .ok h) : h.WellFormed := by
  refine wellFormed_edit hg he ?_
  intro n m hn hm
  obtain rfl := Except.ok.inj hm
  exact ⟨rfl, hn⟩

theorem wellFormed_setInput {g h : Graph} (hg : g.WellFormed) {uid : UID} {slot : Nat}
    {signal : Signal} (he : g.setInput uid slot signal = .ok h) : h.WellFormed :=
  wellFormed_editSlot hg he fun _ => rfl

theorem wellFormed_setPinned {g h : Graph} (hg : g.WellFormed) {uid : UID} {slot : Nat}
    {pinned : Bool} (he : g.setPinned uid slot pinned = .ok h) : h.WellFormed :=
  wellFormed_editSlot hg he fun _ => rfl

theorem wellFormed_setInputNamed {g h : Graph} (hg : g.WellFormed) {uid : UID} {name : String}
    {signal : Signal} (he : g.setInputNamed uid name signal = .ok h) : h.WellFormed := by
  unfold setInputNamed at he
  split at he
  · cases he
  · exact wellFormed_setInput hg he

theorem wellFormed_reconfigure {g h : Graph} (hg : g.WellFormed) {uid : UID} {kind : Kind}
    (he : g.reconfigure uid kind = .ok h) : h.WellFormed := by
  refine wellFormed_edit hg he ?_
  intro n m _ hm
  obtain rfl := Except.ok.inj hm
  exact ⟨rfl, Slot.map_spec_reshape n.slots kind.slots⟩

end Graph

/-! ## The counter -/

namespace UID

theorem toNat_last : UID.last.toNat = 4294967295 := rfl

theorem toNat_lt_last {uid : UID} (h : uid ≠ UID.last) : uid.toNat < UID.last.toNat := by
  have hle : uid.toNat < 2 ^ 32 := uid.toNat_lt
  have hne : uid.toNat ≠ UID.last.toNat := fun heq => h (UInt32.toNat.inj heq)
  rw [toNat_last] at *
  omega

theorem toNat_next {uid : UID} (h : uid ≠ UID.last) : uid.next.toNat = uid.toNat + 1 := by
  have hlt := toNat_lt_last h
  rw [toNat_last] at hlt
  rw [next, if_neg h, UInt32.toNat_add]
  exact Nat.mod_eq_of_lt (by show uid.toNat + 1 < 2 ^ 32; omega)

theorem lt_next {uid : UID} (h : uid ≠ UID.last) : uid < uid.next := by
  rw [UInt32.lt_iff_toNat_lt, toNat_next h]
  omega

theorem le_last (uid : UID) : uid ≤ UID.last := by
  rw [UInt32.le_iff_toNat_le, toNat_last]
  have := uid.toNat_lt
  omega

/-- Whatever lies past the successor of a UID has the UID below it. -/
theorem below_of_next_le {uid bound : UID} (h : uid.next ≤ bound) : uid.Below bound := by
  by_cases hlast : uid = UID.last
  · right
    rw [next, if_pos hlast, hlast] at h
    exact UInt32.le_antisymm (le_last bound) h
  · left
    exact UInt32.lt_of_lt_of_le (lt_next hlast) h

end UID

namespace Graph

theorem wellFormed_add {g h : Graph} (hg : g.WellFormed) {kind : Kind} {uid : UID}
    (he : g.add kind = .ok (uid, h)) : h.WellFormed := by
  unfold add at he
  split at he
  · cases he
  · next hlast =>
      obtain ⟨rfl, rfl⟩ := Prod.mk.inj (Except.ok.inj he)
      have hlt : ∀ n ∈ g.nodes, n.uid < g.nextUID :=
        fun n hn => (hg.below n hn).resolve_right hlast
      have hnew := UID.lt_next hlast
      refine ⟨?_, ?_, ?_⟩
      · -- the new UID is above all others
        have hfresh : g.nextUID ∉ g.uids := by
          intro hmem
          obtain ⟨n, hn, huid⟩ := List.mem_map.mp hmem
          exact absurd (hlt n hn) (by rw [huid]; exact UInt32.lt_irrefl _)
        have : (g.uids ++ [g.nextUID]).Nodup :=
          List.nodup_append.mpr ⟨hg.nodup, List.nodup_singleton _, by
            intro a ha b hb
            rw [List.mem_singleton.mp hb]
            exact fun heq => hfresh (heq ▸ ha)⟩
        simpa [uids, Node.ofKind] using this
      · intro n hn
        rcases List.mem_append.mp hn with hn | hn
        · exact hg.fits n hn
        · rw [List.mem_singleton.mp hn]
          exact Node.ofKind_fits _ _
      · intro n hn
        rcases List.mem_append.mp hn with hn | hn
        · exact Or.inl (UInt32.lt_trans (hlt n hn) hnew)
        · rw [List.mem_singleton.mp hn]
          exact Or.inl hnew

theorem wellFormed_remove {g : Graph} (hg : g.WellFormed) {uid : UID} {r : Removal}
    (he : g.remove uid = .ok r) : r.graph.WellFormed := by
  unfold remove at he
  split at he
  · cases he
  · obtain rfl := Except.ok.inj he
    refine ⟨?_, ?_, ?_⟩
    · have hsub : List.Sublist ((g.nodes.filter fun m => m.uid != uid).map Node.uid) g.uids :=
        List.filter_sublist.map Node.uid
      simpa [uids, Function.comp_def] using hsub.nodup hg.nodup
    · intro n hn
      obtain ⟨m, hm, rfl⟩ := List.mem_map.mp hn
      show (Slot.detach uid m.slots).map Slot.spec = m.kind.slots
      rw [Slot.map_spec_detach]
      exact hg.fits m (List.mem_filter.mp hm).1
    · intro n hn
      obtain ⟨m, hm, rfl⟩ := List.mem_map.mp hn
      exact hg.below m (List.mem_filter.mp hm).1

theorem wellFormed_apply {g h : Graph} (hg : g.WellFormed) {e : Edit}
    (he : g.apply e = .ok h) : h.WellFormed := by
  cases e with
  | add kind =>
      obtain ⟨added, hadded, rfl⟩ := Attempt.map_eq_ok_iff.mp he
      exact wellFormed_add hg hadded
  | remove uid =>
      obtain ⟨r, hr, rfl⟩ := Attempt.map_eq_ok_iff.mp he
      exact wellFormed_remove hg hr
  | rename uid name => exact wellFormed_rename hg he
  | setInput uid slot signal => exact wellFormed_setInput hg he
  | setInputNamed uid name signal => exact wellFormed_setInputNamed hg he
  | setPinned uid slot pinned => exact wellFormed_setPinned hg he
  | reconfigure uid kind => exact wellFormed_reconfigure hg he
  | setOutput signal =>
      obtain rfl := Except.ok.inj he
      exact ⟨hg.nodup, hg.fits, hg.below⟩
  | setName name =>
      obtain rfl := Except.ok.inj he
      exact ⟨hg.nodup, hg.fits, hg.below⟩

theorem wellFormed_after {g : Graph} (hg : g.WellFormed) (e : Edit) : (g.after e).WellFormed := by
  unfold after
  split
  · next h he => exact wellFormed_apply hg he
  · exact hg

end Graph

/-! ## Documents establish the invariant -/

/-- The node has slots of the names that its kind declares, whatever their declared values. -/
def Node.Named (n : Node) : Prop := n.slots.map Slot.name = n.kind.slots.map SlotSpec.name

/-- The node with the declared values of its kind. -/
def Node.restored (n : Node) : Node :=
  { n with slots := n.slots.zipWith (fun s spec => { s with initial := spec.initial }) n.kind.slots }

theorem Node.Named.fits_restored {n : Node} (h : n.Named) : n.restored.Fits :=
  Slot.map_spec_zipWith n.slots n.kind.slots h

namespace Document

theorem checkNode_eq_ok_iff (n m : Node) : checkNode n = .ok m ↔ n.Named ∧ m = n.restored := by
  unfold checkNode Node.Named
  simp only
  split
  · next hnames =>
      rw [Except.ok.injEq]
      exact ⟨fun h => ⟨hnames, h.symm⟩, fun h => h.2.symm⟩
  · next hnames => simp [hnames]

/-- Nodes pass the check if their UIDs are distinct and not seen before, and their slots have
the right names. -/
theorem checkNodes_eq_ok_iff (seen : UIDSet) (nodes out : List Node) :
    checkNodes seen nodes = .ok out ↔ (nodes.map Node.uid).Nodup ∧ (∀ n ∈ nodes, n.uid ∉ seen) ∧
      (∀ n ∈ nodes, n.Named) ∧ out = nodes.map Node.restored := by
  induction nodes generalizing seen out with
  | nil => simp [checkNodes, eq_comm]
  | cons n nodes ih =>
      unfold checkNodes
      by_cases hseen : n.uid ∈ seen
      · simp [hseen]
      · rw [if_neg hseen]
        cases hcheck : checkNode n with
        | error e =>
            have hnamed : ¬ n.Named := by
              intro h
              rw [(checkNode_eq_ok_iff n n.restored).mpr ⟨h, rfl⟩] at hcheck
              cases hcheck
            simp [hnamed]
        | ok checked =>
            obtain ⟨hnamed, rfl⟩ := (checkNode_eq_ok_iff n checked).mp hcheck
            simp only [Attempt.map_eq_ok_iff, ih, List.map_cons, List.nodup_cons, List.mem_map,
              List.forall_mem_cons, Std.TreeSet.mem_insert, not_or]
            constructor
            · rintro ⟨rest, ⟨hnodup, hfresh, hall, rfl⟩, rfl⟩
              refine ⟨⟨?_, hnodup⟩, ⟨hseen, fun m hm => (hfresh m hm).2⟩, ⟨hnamed, hall⟩, rfl⟩
              rintro ⟨m, hm, huid⟩
              exact (hfresh m hm).1 (by simp [huid])
            · rintro ⟨⟨hnew, hnodup⟩, ⟨_, hfresh⟩, ⟨_, hall⟩, rfl⟩
              refine ⟨_, ⟨hnodup, fun m hm => ⟨?_, hfresh m hm⟩, hall, rfl⟩, rfl⟩
              intro hcompare
              exact hnew ⟨m, hm, (Std.LawfulEqCmp.eq_of_compare hcompare).symm⟩

/-- The least counter from `next` on that is past all of the nodes. -/
def raise (next : UID) (nodes : List Node) : UID :=
  nodes.foldl (fun next n => max next n.uid.next) next

theorem max_eq (a b : UID) : max a b = if a ≤ b then b else a := rfl

theorem le_raise (next : UID) (nodes : List Node) : next ≤ raise next nodes := by
  induction nodes generalizing next with
  | nil => exact UInt32.le_refl next
  | cons n nodes ih =>
      refine UInt32.le_trans ?_ (ih (max next n.uid.next))
      rw [max_eq]
      split
      · assumption
      · exact UInt32.le_refl next

theorem next_le_raise (next : UID) {nodes : List Node} {n : Node} (hn : n ∈ nodes) :
    n.uid.next ≤ raise next nodes := by
  induction nodes generalizing next with
  | nil => cases hn
  | cons m nodes ih =>
      rcases List.mem_cons.mp hn with rfl | hn
      · refine UInt32.le_trans ?_ (le_raise (max next n.uid.next) nodes)
        rw [max_eq]
        split
        · exact UInt32.le_refl _
        · next hle => exact UInt32.le_of_lt (UInt32.not_le.mp hle)
      · exact ih (max next m.uid.next) hn

/-- A document is that of a graph if its version is known, its UIDs are distinct and its slots
have the right names. The graph has the declared values of its kinds, and a counter past all of
its nodes. -/
theorem graph_eq_ok_iff (d : Document) (g : Graph) :
    d.graph = .ok g ↔ d.version ≤ currentVersion ∧ (d.nodes.map Node.uid).Nodup ∧
      (∀ n ∈ d.nodes, n.Named) ∧
      g = ⟨d.name, d.nodes.map Node.restored, raise d.nextUID (d.nodes.map Node.restored),
        d.output⟩ := by
  unfold graph
  by_cases hversion : currentVersion < d.version
  · simp [hversion, UInt32.not_le.mpr hversion]
  · rw [if_neg hversion, Attempt.map_eq_ok_iff]
    simp only [checkNodes_eq_ok_iff, UInt32.not_lt.mp hversion, true_and, Std.TreeSet.not_mem_emptyc,
      not_false_eq_true, implies_true]
    constructor
    · rintro ⟨nodes, ⟨hnodup, hnamed, rfl⟩, rfl⟩
      exact ⟨hnodup, hnamed, rfl⟩
    · rintro ⟨hnodup, hnamed, rfl⟩
      exact ⟨_, ⟨hnodup, hnamed, rfl⟩, rfl⟩

theorem wellFormed_graph {d : Document} {g : Graph} (h : d.graph = .ok g) : g.WellFormed := by
  obtain ⟨_, hnodup, hnamed, rfl⟩ := (graph_eq_ok_iff d g).mp h
  refine ⟨?_, ?_, ?_⟩
  · -- restored nodes keep their UIDs
    rwa [Graph.uids, List.map_map]
  · intro n hn
    obtain ⟨m, hm, rfl⟩ := List.mem_map.mp hn
    exact (hnamed m hm).fits_restored
  · intro n hn
    exact UID.below_of_next_le (next_le_raise d.nextUID hn)

end Document

namespace Graph

theorem wellFormed_ofDocument {d : Document} {g : Graph} (h : ofDocument d = .ok g) :
    g.WellFormed :=
  Document.wellFormed_graph (Attempt.mapError_eq_ok_iff.mp h)

/-- Every run ends in a well-formed graph. -/
theorem Built.wellFormed {g : Graph} (h : g.Built) : g.WellFormed := by
  induction h with
  | empty name => exact wellFormed_empty name
  | document h => exact wellFormed_ofDocument h
  | text h =>
      unfold ofText at h
      split at h
      · cases h
      · exact wellFormed_ofDocument h
  | bytes h =>
      unfold ofBytes at h
      split at h
      · cases h
      · exact wellFormed_ofDocument h
  | edit _ e ih => exact wellFormed_after ih e

end Graph

end NoiseShader
