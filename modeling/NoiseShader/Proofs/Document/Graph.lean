import NoiseShader.Proofs.Graph.Invariant

set_option autoImplicit false

/-! # Graphs from documents

Loading gives nodes the values that their kinds declare and puts the counter past them. A
well-formed graph has these values and such a counter, so it is the graph of its own document
(`Graph.WellFormed.graph_document`), and saving and loading it changes nothing.
-/

namespace NoiseShader

/-! ## Nodes -/

theorem Node.Fits.named {n : Node} (h : n.Fits) : n.Named := by
  calc n.slots.map Slot.name
      = (n.slots.map Slot.spec).map SlotSpec.name := by rw [List.map_map]; rfl
    _ = n.kind.slots.map SlotSpec.name := by rw [h]

/-- A slot that already has the declared value keeps it. -/
theorem Slot.zipWith_spec (slots : List Slot) :
    slots.zipWith (fun s spec => { s with initial := spec.initial }) (slots.map Slot.spec)
      = slots := by
  induction slots with
  | nil => rfl
  | cons s slots ih =>
      rw [List.map_cons, List.zipWith_cons_cons, ih]
      rfl

theorem Node.Fits.restored {n : Node} (h : n.Fits) : n.restored = n := by
  unfold Node.restored
  rw [← h, Slot.zipWith_spec]

/-! ## The counter -/

/-- What has a UID below it lies past the successor of the UID. -/
theorem UID.next_le_of_below {uid bound : UID} (h : uid.Below bound) : uid.next ≤ bound := by
  rcases h with hlt | rfl
  · have hlast : uid ≠ UID.last := by
      rintro rfl
      exact UInt32.lt_irrefl _ (UInt32.lt_of_lt_of_le hlt (UID.le_last bound))
    rw [UInt32.le_iff_toNat_le, UID.toNat_next hlast]
    exact UInt32.lt_iff_toNat_lt.mp hlt
  · exact UID.le_last _

namespace Document

theorem raise_eq {next : UID} {nodes : List Node} (h : ∀ n ∈ nodes, n.uid.Below next) :
    raise next nodes = next := by
  induction nodes with
  | nil => rfl
  | cons n nodes ih =>
      have hle : n.uid.next ≤ next := UID.next_le_of_below (h n List.mem_cons_self)
      have hmax : max next n.uid.next = next := by
        rw [max_eq]
        split
        · next hge => exact UInt32.le_antisymm hle hge
        · rfl
      show raise (max next n.uid.next) nodes = next
      rw [hmax]
      exact ih fun m hm => h m (List.mem_cons_of_mem _ hm)

end Document

namespace Graph

/-- What a well-formed graph is saved as is loaded as the graph itself. -/
theorem WellFormed.graph_document {g : Graph} (hg : g.WellFormed) : g.document.graph = .ok g := by
  have hrestored : g.nodes.map Node.restored = g.nodes := by
    conv_rhs => rw [← List.map_id g.nodes]
    exact List.map_congr_left fun n hn => (hg.fits n hn).restored
  rw [Document.graph_eq_ok_iff]
  refine ⟨UInt32.le_refl _, hg.nodup, fun n hn => (hg.fits n hn).named, ?_⟩
  show g = ⟨g.name, g.nodes.map Node.restored,
    Document.raise g.nextUID (g.nodes.map Node.restored), g.output⟩
  rw [hrestored, Document.raise_eq hg.below]

theorem WellFormed.ofDocument_document {g : Graph} (hg : g.WellFormed) :
    ofDocument g.document = .ok g := by
  rw [ofDocument, hg.graph_document]
  rfl

end Graph

end NoiseShader
