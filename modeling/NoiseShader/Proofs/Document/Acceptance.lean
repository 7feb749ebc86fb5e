import NoiseShader.Proofs.Document.Graph

set_option autoImplicit false

/-! # Which documents are accepted, and as what

Documents can be edited by hand, so all that can be wrong with one can be wrong at once. A
document is refused for its version, or else for the first node that offends against those before
it or against its kind (`Document.graph_eq_error_iff`). One that is accepted comes back in normal
form (`Document.Normalises`): of the current version, with the declared values of the kinds, and
with a counter past the largest UID. The document of a graph is in normal form already, so loading
it gives the graph again.
-/

namespace NoiseShader

/-! ## The first fault -/

namespace Document

/-- What is wrong with a node behind others: its UID is one of theirs, or else it has not the
slots of its kind. -/
inductive Offends (before : List Node) (n : Node) : DocumentError → Prop
  | duplicate (huid : n.uid ∈ before.map Node.uid) : Offends before n (.duplicateUID n.uid)
  | mismatch (huid : n.uid ∉ before.map Node.uid)
      (hnames : n.slots.map Slot.name ≠ n.kind.slots.map SlotSpec.name) :
      Offends before n
        (.slotMismatch n.uid (n.slots.map Slot.name) (n.kind.slots.map SlotSpec.name))

/-- Why a document is refused: its version is too new, or else a node offends and none of those
before it does. -/
inductive FirstFault (d : Document) : DocumentError → Prop
  | version (hversion : currentVersion < d.version) : FirstFault d (.unsupportedVersion d.version)
  | node {before after : List Node} {n : Node} {e : DocumentError}
      (hversion : d.version ≤ currentVersion) (hsplit : d.nodes = before ++ n :: after)
      (hnodup : (before.map Node.uid).Nodup) (hnamed : ∀ m ∈ before, m.Named)
      (hoffends : Offends before n e) : FirstFault d e

theorem checkNode_eq_error_iff (n : Node) (e : DocumentError) :
    checkNode n = .error e ↔ ¬ n.Named ∧
      e = .slotMismatch n.uid (n.slots.map Slot.name) (n.kind.slots.map SlotSpec.name) := by
  unfold checkNode Node.Named
  simp only
  split
  · next hnames => simp [hnames]
  · next hnames =>
      rw [Except.error.injEq]
      exact ⟨fun h => ⟨hnames, h.symm⟩, fun h => h.2.symm⟩

/-- Checking stops at the first node for one of two reasons, or somewhere behind it. -/
theorem checkNodes_cons_eq_error_iff (seen : UIDSet) (n : Node) (nodes : List Node)
    (e : DocumentError) :
    checkNodes seen (n :: nodes) = .error e ↔
      (n.uid ∈ seen ∧ e = .duplicateUID n.uid) ∨
      (n.uid ∉ seen ∧ checkNode n = .error e) ∨
      (n.uid ∉ seen ∧ n.Named ∧ checkNodes (seen.insert n.uid) nodes = .error e) := by
  conv_lhs => unfold checkNodes
  by_cases hseen : n.uid ∈ seen
  · simp [hseen, eq_comm]
  · rw [if_neg hseen]
    cases hcheck : checkNode n with
    | error f =>
        have hnamed := ((checkNode_eq_error_iff n f).mp hcheck).1
        simp [hseen, hnamed]
    | ok m =>
        have hnamed := ((checkNode_eq_ok_iff n m).mp hcheck).1
        simp [hseen, hnamed, Attempt.map_eq_error_iff]

/-- The set of UIDs that were seen is that of the nodes before. -/
def Records (seen : UIDSet) (before : List Node) : Prop :=
  ∀ u, u ∈ seen ↔ u ∈ before.map Node.uid

theorem Records.insert {seen : UIDSet} {before : List Node} (h : Records seen before) (n : Node) :
    Records (seen.insert n.uid) (before ++ [n]) := by
  intro u
  rw [Std.TreeSet.mem_insert, Std.LawfulEqCmp.compare_eq_iff_eq, h u, List.map_append,
    List.mem_append, List.map_singleton, List.mem_singleton, @eq_comm _ n.uid u, or_comm]

/-- Behind nodes that are in order, checking fails at the first one that offends. -/
theorem checkNodes_eq_error_iff {seen : UIDSet} {earlier : List Node}
    (hseen : Records seen earlier) (hearlier : (earlier.map Node.uid).Nodup)
    (nodes : List Node) (e : DocumentError) :
    checkNodes seen nodes = .error e ↔
      ∃ before n after, nodes = before ++ n :: after ∧ ((earlier ++ before).map Node.uid).Nodup ∧
        (∀ m ∈ before, m.Named) ∧ Offends (earlier ++ before) n e := by
  induction nodes generalizing seen earlier with
  | nil => simp [checkNodes]
  | cons n nodes ih =>
      have hnext : n.uid ∉ seen → ((earlier ++ [n]).map Node.uid).Nodup := by
        intro hnew
        rw [hseen] at hnew
        rw [List.map_append, List.map_singleton, ← List.concat_eq_append]
        exact hearlier.concat hnew
      rw [checkNodes_cons_eq_error_iff]
      constructor
      · rintro (⟨hdup, rfl⟩ | ⟨hnew, hcheck⟩ | ⟨hnew, hnamed, hrest⟩)
        · refine ⟨[], n, nodes, rfl, by simpa using hearlier, by simp, ?_⟩
          rw [List.append_nil]
          exact .duplicate ((hseen _).mp hdup)
        · obtain ⟨hnames, rfl⟩ := (checkNode_eq_error_iff n e).mp hcheck
          refine ⟨[], n, nodes, rfl, by simpa using hearlier, by simp, ?_⟩
          rw [List.append_nil]
          exact .mismatch (fun hmem => hnew ((hseen _).mpr hmem)) hnames
        · obtain ⟨before, m, after, rfl, hnodup, hbefore, hoffends⟩ :=
            (ih (hseen.insert n) (hnext hnew)).mp hrest
          rw [List.append_assoc, List.singleton_append] at hnodup hoffends
          exact ⟨n :: before, m, after, rfl, hnodup, List.forall_mem_cons.mpr ⟨hnamed, hbefore⟩,
            hoffends⟩
      · rintro ⟨before, m, after, hsplit, hnodup, hbefore, hoffends⟩
        cases before with
        | nil =>
            obtain ⟨rfl, rfl⟩ := List.cons.inj hsplit
            rw [List.append_nil] at hoffends
            cases hoffends with
            | duplicate hdup => exact .inl ⟨(hseen _).mpr hdup, rfl⟩
            | mismatch hnew hnames =>
                exact .inr (.inl ⟨fun hmem => hnew ((hseen _).mp hmem),
                  (checkNode_eq_error_iff n _).mpr ⟨hnames, rfl⟩⟩)
        | cons n' before =>
            obtain ⟨rfl, rfl⟩ := List.cons.inj hsplit
            obtain ⟨hnamed, hbefore⟩ := List.forall_mem_cons.mp hbefore
            -- the node is not among the earlier ones, as all of them have UIDs of their own
            have hnew : n.uid ∉ seen := by
              rw [hseen]
              rw [List.map_append, List.map_cons, List.nodup_middle] at hnodup
              exact fun hmem => (List.nodup_cons.mp hnodup).1 (List.mem_append_left _ hmem)
            refine .inr (.inr ⟨hnew, hnamed, ?_⟩)
            rw [ih (hseen.insert n) (hnext hnew)]
            refine ⟨before, m, after, rfl, ?_, hbefore, ?_⟩
            · rwa [List.append_assoc, List.singleton_append]
            · rwa [List.append_assoc, List.singleton_append]

/-- A document is refused for its first fault. -/
theorem graph_eq_error_iff (d : Document) (e : DocumentError) :
    d.graph = .error e ↔ d.FirstFault e := by
  have hempty : Records ∅ [] := by
    intro u
    simp
  unfold graph
  by_cases hversion : currentVersion < d.version
  · rw [if_pos hversion, Except.error.injEq]
    constructor
    · rintro rfl
      exact .version hversion
    · rintro (_ | ⟨hle, _⟩)
      · rfl
      · exact absurd hle (UInt32.not_le.mpr hversion)
  · rw [if_neg hversion, Attempt.map_eq_error_iff,
      checkNodes_eq_error_iff hempty List.nodup_nil]
    constructor
    · rintro ⟨before, n, after, hsplit, hnodup, hnamed, hoffends⟩
      exact .node (UInt32.not_lt.mp hversion) hsplit hnodup hnamed hoffends
    · rintro (hnew | ⟨_, hsplit, hnodup, hnamed, hoffends⟩)
      · exact absurd hnew hversion
      · exact ⟨_, _, _, hsplit, hnodup, hnamed, hoffends⟩

end Document

/-! ## The normal form -/

/-- The node `m` is `n` with the declared values of its kind, and all else as it was. -/
structure Node.Restores (n m : Node) : Prop where
  uid : m.uid = n.uid
  name : m.name = n.name
  kind : m.kind = n.kind
  declared : m.slots.map Slot.spec = n.kind.slots
  kept : List.Forall₂ (fun s t => t.name = s.name ∧ t.signal = s.signal ∧ t.pinned = s.pinned)
    n.slots m.slots

/-- Giving slots new declared values leaves the rest of them. -/
theorem Slot.forall₂_zipWith (slots : List Slot) (specs : List SlotSpec)
    (h : slots.length = specs.length) :
    List.Forall₂ (fun s t : Slot => t.name = s.name ∧ t.signal = s.signal ∧ t.pinned = s.pinned) slots
      (slots.zipWith (fun s spec => { s with initial := spec.initial }) specs) := by
  induction slots generalizing specs with
  | nil => exact .nil
  | cons s slots ih =>
      cases specs with
      | nil => cases h
      | cons spec specs => exact .cons ⟨rfl, rfl, rfl⟩ (ih specs (Nat.succ.inj h))

theorem Node.Named.restores {n : Node} (h : n.Named) : n.Restores n.restored := by
  have hlength : n.slots.length = n.kind.slots.length := by
    have := congrArg List.length h
    simpa using this
  exact ⟨rfl, rfl, rfl, Slot.map_spec_zipWith n.slots n.kind.slots h,
    Slot.forall₂_zipWith n.slots n.kind.slots hlength⟩

theorem UID.next_mono {u v : UID} (h : u ≤ v) : u.next ≤ v.next := by
  by_cases hv : v = UID.last
  · have hnext : v.next = UID.last := by rw [UID.next, if_pos hv, hv]
    rw [hnext]
    exact UID.le_last _
  · have hu : u ≠ UID.last := by
      rintro rfl
      exact hv (UInt32.le_antisymm (UID.le_last v) h)
    have hle := UInt32.le_iff_toNat_le.mp h
    rw [UInt32.le_iff_toNat_le, UID.toNat_next hu, UID.toNat_next hv]
    omega

namespace Document

theorem raise_le {next bound : UID} {nodes : List Node} (hnext : next ≤ bound)
    (hnodes : ∀ n ∈ nodes, n.uid.next ≤ bound) : raise next nodes ≤ bound := by
  induction nodes generalizing next with
  | nil => exact hnext
  | cons n nodes ih =>
      obtain ⟨hn, hnodes⟩ := List.forall_mem_cons.mp hnodes
      refine ih ?_ hnodes
      show max next n.uid.next ≤ bound
      rw [max_eq]
      split
      · exact hn
      · exact hnext

/-- The counter goes past the largest UID, if it is not past it already. -/
theorem raise_of_largest {next : UID} {nodes : List Node} {n : Node} (hn : n ∈ nodes)
    (hlargest : ∀ m ∈ nodes, m.uid ≤ n.uid) : raise next nodes = max next n.uid.next := by
  apply UInt32.le_antisymm
  · have hle : next ≤ max next n.uid.next ∧ n.uid.next ≤ max next n.uid.next := by
      rw [max_eq]
      split
      · next hle => exact ⟨hle, UInt32.le_refl _⟩
      · next hnot => exact ⟨UInt32.le_refl _, UInt32.le_of_lt (UInt32.not_le.mp hnot)⟩
    exact raise_le hle.1 fun m hm => UInt32.le_trans (UID.next_mono (hlargest m hm)) hle.2
  · rw [max_eq]
    split
    · exact next_le_raise next hn
    · exact le_raise next nodes

/-- The document `d'` is `d` in normal form. -/
structure Normalises (d d' : Document) : Prop where
  version : d'.version = currentVersion
  name : d'.name = d.name
  output : d'.output = d.output
  nodes : List.Forall₂ Node.Restores d.nodes d'.nodes
  counter : ∀ n ∈ d.nodes, (∀ m ∈ d.nodes, m.uid ≤ n.uid) →
    d'.nextUID = max d.nextUID n.uid.next
  counter_of_empty : d.nodes = [] → d'.nextUID = d.nextUID

theorem raise_map_restored (next : UID) (nodes : List Node) :
    raise next (nodes.map Node.restored) = raise next nodes := by
  unfold raise
  rw [List.foldl_map]
  rfl

theorem normalises_of_graph {d : Document} {g : Graph} (h : d.graph = .ok g) :
    d.Normalises g.document := by
  obtain ⟨_, _, hnamed, rfl⟩ := (graph_eq_ok_iff d g).mp h
  refine ⟨rfl, rfl, rfl, ?_, ?_, ?_⟩
  · show List.Forall₂ Node.Restores d.nodes (d.nodes.map Node.restored)
    rw [List.forall₂_map_right_iff, List.forall₂_same]
    exact fun n hn => (hnamed n hn).restores
  · intro n hn hlargest
    show raise d.nextUID (d.nodes.map Node.restored) = max d.nextUID n.uid.next
    rw [raise_map_restored]
    exact raise_of_largest hn hlargest
  · intro hempty
    show raise d.nextUID (d.nodes.map Node.restored) = d.nextUID
    rw [hempty]
    rfl

end Document

/-! ## The main result -/

namespace Graph

/-- A document is loaded exactly if its version is known, its UIDs are distinct and its slots are
those of the kinds by name; otherwise its first fault is reported. What is loaded is the document in
normal form, so a graph that is saved is loaded again as it was. -/
theorem document_accepted_iff_else_first_fault (d : Document) :
    ((∃ g, ofDocument d = .ok g) ↔ d.version ≤ 1 ∧ (d.nodes.map Node.uid).Nodup ∧
      ∀ n ∈ d.nodes, n.slots.map Slot.name = n.kind.slots.map SlotSpec.name) ∧
    (∀ e, ofDocument d = .error e ↔ ∃ f, e = .document f ∧ d.FirstFault f) ∧
    (∀ g, ofDocument d = .ok g → d.Normalises g.document) ∧
    ∀ g : Graph, g.Built → ofDocument g.document = .ok g := by
  have hload : ∀ g, ofDocument d = .ok g ↔ d.graph = .ok g := fun g => Attempt.mapError_eq_ok_iff
  refine ⟨?_, ?_, ?_, fun g hg => hg.wellFormed.ofDocument_document⟩
  · constructor
    · rintro ⟨g, hg⟩
      obtain ⟨hversion, hnodup, hnamed, _⟩ := (Document.graph_eq_ok_iff d g).mp ((hload g).mp hg)
      exact ⟨hversion, hnodup, hnamed⟩
    · rintro ⟨hversion, hnodup, hnamed⟩
      exact ⟨_, (hload _).mpr ((Document.graph_eq_ok_iff d _).mpr ⟨hversion, hnodup, hnamed, rfl⟩)⟩
  · intro e
    rw [ofDocument, Attempt.mapError_eq_error_iff]
    refine exists_congr fun f => ?_
    rw [Document.graph_eq_error_iff, and_comm, @eq_comm _ e]
  · intro g hg
    exact Document.normalises_of_graph ((hload g).mp hg)

/-- An old document with a counter that is behind, a declared value of its own, the last UID in use
and references to nodes that are not there. -/
def wornDocument : Document :=
  ⟨0, "Worn", 2, .node 9,
    [{ Node.ofKind 7 (.math .sin) with slots := [⟨"Value", Binary32.one, .node 8, true⟩] },
      Node.ofKind UID.last (.coordinate .x)]⟩

/-- The same with a second node 7, which has not the slots of its kind either. -/
def clashingDocument : Document :=
  { wornDocument with
    nodes := wornDocument.nodes ++ [{ Node.ofKind 7 (.math .add) with slots := [] }] }

/-- The counter of the one is used up when it is loaded; of the other the repeated UID is
reported, and not the slots. -/
theorem document_accepted_iff_else_first_fault_worn :
    (∃ g, ofDocument wornDocument = .ok g ∧ g.nextUID = UID.last ∧ g.output = .node 9) ∧
      ofDocument clashingDocument = .error (.document (.duplicateUID 7)) := by
  have hnodup : (wornDocument.nodes.map Node.uid).Nodup := by decide
  have hnamed : ∀ n ∈ wornDocument.nodes,
      n.slots.map Slot.name = n.kind.slots.map SlotSpec.name := by decide
  constructor
  · obtain ⟨haccepted, _, hnormal, _⟩ := document_accepted_iff_else_first_fault wornDocument
    obtain ⟨g, hg⟩ := haccepted.mpr ⟨by decide, hnodup, hnamed⟩
    have hcounter := (hnormal g hg).counter (Node.ofKind UID.last (.coordinate .x)) (by decide)
      (by decide)
    exact ⟨g, hg, hcounter, (hnormal g hg).output⟩
  · obtain ⟨_, hrefused, _, _⟩ := document_accepted_iff_else_first_fault clashingDocument
    have hrepeated : 7 ∈ wornDocument.nodes.map Node.uid := by decide
    exact (hrefused _).mpr
      ⟨_, rfl, .node (by decide) rfl hnodup hnamed (.duplicate hrepeated)⟩

end Graph

end NoiseShader
