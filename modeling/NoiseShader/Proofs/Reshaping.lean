import NoiseShader.Proofs.Denotation
import NoiseShader.Proofs.Locality

set_option autoImplicit false

/-! # What a reconfiguration keeps

To reshape slots is to look up, for each slot that is declared, what the old slot of that name holds
(`Slot.carried`). A slot of the same declaration is then carried over as it was, whether it was
edited or not (`Slot.carried_spec`). Everything else follows: slots of the declared layout stay as
they are, to reshape twice is to reshape once, and a layout that is part of another comes back from
it (`Slot.reshape_of_subset`).
-/

namespace NoiseShader

namespace Slot

/-! ## One slot -/

/-- The slot that `spec` declares, with what the first edited old slot of its name holds. -/
def carried (old : List Slot) (spec : SlotSpec) : Slot :=
  ((old.find? fun s => s.name == spec.name && s.isEdited).map fun s =>
    { spec.slot with signal := s.signal, pinned := s.pinned }).getD spec.slot

theorem reshape_eq (old : List Slot) (specs : List SlotSpec) :
    reshape old specs = specs.map (carried old) := by
  refine List.map_congr_left fun spec _ => ?_
  unfold carried
  cases old.find? fun s => s.name == spec.name && s.isEdited with
  | none => rfl
  | some s => rfl

theorem of_find?_edited {old : List Slot} {name : String} {s : Slot}
    (h : (old.find? fun s => s.name == name && s.isEdited) = some s) : s ∈ old ∧ s.name = name := by
  have hfound := List.find?_some h
  simp only [Bool.and_eq_true, beq_iff_eq] at hfound
  exact ⟨List.mem_of_find?_eq_some h, hfound.1⟩

theorem isEdited_eq_false_iff (s : Slot) : s.isEdited = false ↔ s = s.spec.slot := by
  obtain ⟨name, initial, signal, pinned⟩ := s
  simp [isEdited, spec, SlotSpec.slot, and_comm]

/-- What a slot holds is its own again when it is looked up under its own declaration. If it was
not edited it holds what is declared. -/
theorem carried_spec {old : List Slot} (hnames : (old.map Slot.name).Nodup) {t : Slot}
    (ht : t ∈ old) : carried old t.spec = t := by
  unfold carried
  cases hfind : old.find? fun s => s.name == t.spec.name && s.isEdited with
  | none =>
      have hunedited : t.isEdited = false := by
        simpa [spec] using List.find?_eq_none.mp hfind t ht
      exact ((isEdited_eq_false_iff t).mp hunedited).symm
  | some s =>
      -- names are unique, so the slot that was found is `t` itself
      obtain ⟨hs, hname⟩ := of_find?_edited hfind
      obtain rfl := List.inj_on_of_nodup_map hnames hs ht hname
      rfl

/-- A reference is never made up: it comes from an old slot of the same name. -/
theorem exists_of_carried_node {old : List Slot} {spec : SlotSpec} {u : UID}
    (h : (carried old spec).signal = .node u) :
    ∃ s ∈ old, s.name = (carried old spec).name ∧ s.signal = .node u := by
  unfold carried at h ⊢
  cases hfind : old.find? fun s => s.name == spec.name && s.isEdited with
  | none =>
      rw [hfind] at h
      cases h
  | some s =>
      rw [hfind] at h
      obtain ⟨hs, hname⟩ := of_find?_edited hfind
      exact ⟨s, hs, hname, h⟩

/-! ## All slots -/

/-- Slots that are all among the old ones come back under their own declarations. -/
theorem reshape_of_subset {old slots : List Slot} (hnames : (old.map Slot.name).Nodup)
    (hsub : ∀ t ∈ slots, t ∈ old) : reshape old (slots.map Slot.spec) = slots := by
  rw [reshape_eq, List.map_map]
  conv_rhs => rw [← List.map_id slots]
  exact List.map_congr_left fun t ht => carried_spec hnames (hsub t ht)

theorem names_of_layout {slots : List Slot} {kind : Kind} (h : slots.map Slot.spec = kind.slots) :
    (slots.map Slot.name).Nodup := by
  have hnames : slots.map Slot.name = kind.slots.map SlotSpec.name := by
    rw [← h, List.map_map]
    rfl
  rw [hnames]
  exact kind.slots_names_nodup

theorem reshape_of_layout {slots : List Slot} {kind : Kind}
    (h : slots.map Slot.spec = kind.slots) : reshape slots kind.slots = slots := by
  rw [← h]
  exact reshape_of_subset (names_of_layout h) fun _ ht => ht

theorem reshape_reshape (slots : List Slot) (kind : Kind) :
    reshape (reshape slots kind.slots) kind.slots = reshape slots kind.slots :=
  reshape_of_layout (map_spec_reshape slots kind.slots)

/-- A kind that declares all slots of another, and maybe more, keeps what they hold. -/
theorem reshape_reshape_of_subset {slots : List Slot} {k₁ k₂ : Kind}
    (h : slots.map Slot.spec = k₁.slots) (hsub : ∀ spec ∈ k₁.slots, spec ∈ k₂.slots) :
    reshape (reshape slots k₂.slots) k₁.slots = slots := by
  have hkept : ∀ t ∈ slots, t ∈ reshape slots k₂.slots := by
    intro t ht
    have hspec : t.spec ∈ k₂.slots := hsub _ (h ▸ List.mem_map_of_mem ht)
    rw [reshape_eq]
    exact List.mem_map.mpr ⟨t.spec, hspec, carried_spec (names_of_layout h) ht⟩
  conv_lhs => rw [← h]
  exact reshape_of_subset (names_of_layout (map_spec_reshape slots k₂.slots)) hkept

theorem exists_of_reshape_node {slots : List Slot} {specs : List SlotSpec} {t : Slot} {u : UID}
    (ht : t ∈ reshape slots specs) (h : t.signal = .node u) :
    ∃ s ∈ slots, s.name = t.name ∧ s.signal = .node u := by
  rw [reshape_eq] at ht
  obtain ⟨spec, _, rfl⟩ := List.mem_map.mp ht
  exact exists_of_carried_node h

end Slot

/-! ## Noise of more dimensions -/

theorem Dimension.axes_subset {d e : Dimension} (h : d.count ≤ e.count) :
    ∀ axis ∈ d.axes, axis ∈ e.axes :=
  (List.take_sublist_take_left h).subset

/-- Noise has the slots of noise in fewer dimensions, those of cellular noise only if it is cellular
itself. -/
theorem Noise.slots_subset {n m : Noise} (hcount : n.dimension.count ≤ m.dimension.count)
    (hfamily : n.family = .worley → m.family = .worley) : ∀ spec ∈ n.slots, spec ∈ m.slots := by
  have haxes : ∀ declare : Axis → SlotSpec,
      ∀ spec ∈ n.dimension.axes.map declare, spec ∈ m.dimension.axes.map declare := by
    intro declare spec hspec
    obtain ⟨axis, haxis, rfl⟩ := List.mem_map.mp hspec
    exact List.mem_map_of_mem (Dimension.axes_subset hcount axis haxis)
  intro spec hspec
  rw [slots_eq] at hspec ⊢
  rcases List.mem_append.mp hspec with hspec | hspec
  · refine List.mem_append_left _ ?_
    rcases List.mem_append.mp hspec with hspec | hspec
    · exact List.mem_append_left _ (haxes _ spec hspec)
    · exact List.mem_append_right _ hspec
  · refine List.mem_append_right _ ?_
    split at hspec
    · next hworley =>
        rw [if_pos (hfamily hworley)]
        exact haxes _ spec hspec
    · cases hspec

/-! ## Nodes -/

namespace Node

theorem Fits.reconfigured_self {n : Node} (h : n.Fits) : n.reconfigured n.kind = n := by
  have hname : (if n.name = n.kind.displayName then n.kind.displayName else n.name) = n.name := by
    split
    · next heq => exact heq.symm
    · rfl
  rw [reconfigured, hname, Slot.reshape_of_layout h]

/-- There and back, a node loses its name only to that of its kind, and only if it had been given
the name of the other kind. -/
theorem Fits.reconfigured_reconfigured {n : Node} (h : n.Fits) {kind : Kind}
    (hsub : ∀ spec ∈ n.kind.slots, spec ∈ kind.slots) :
    (n.reconfigured kind).reconfigured n.kind =
      { n with name := if n.name = kind.displayName then n.kind.displayName else n.name } := by
  have hslots : Slot.reshape (Slot.reshape n.slots kind.slots) n.kind.slots = n.slots :=
    Slot.reshape_reshape_of_subset h hsub
  have hname : (n.reconfigured kind).reconfigured n.kind =
      { n with
        name := if (n.reconfigured kind).name = kind.displayName then n.kind.displayName
          else (n.reconfigured kind).name
        slots := Slot.reshape (Slot.reshape n.slots kind.slots) n.kind.slots } := rfl
  rw [hname, hslots]
  congr 1
  -- a name that was the kind's own follows the kind out and back
  by_cases hown : n.name = n.kind.displayName
  · simp only [reconfigured, hown, if_true]
    split
    · rfl
    · rfl
  · simp only [reconfigured, hown, if_false]

end Node

/-! ## Graphs -/

namespace Graph

section

variable {g : Graph} {uid : UID} {n m : Node}

theorem reconfigure_of_node? (hn : g.node? uid = some n) (kind : Kind) :
    g.reconfigure uid kind = .ok (g.replace (n.reconfigured kind)) := by
  rw [reconfigure, edit, hn]
  rfl

theorem node?_replace (hg : g.uids.Nodup) (hn : g.node? uid = some n) (hm : m.uid = uid) :
    (g.replace m).node? uid = some m := by
  obtain ⟨hmem, huid⟩ := node?_eq_some hn
  have hplace : m ∈ (g.replace m).nodes := List.mem_map.mpr ⟨n, hmem, if_pos (huid.trans hm.symm)⟩
  exact (node?_eq_some_iff (by rw [uids_replace]; exact hg) uid m).mpr ⟨hplace, hm⟩

theorem replace_replace (g : Graph) {n m : Node} (h : m.uid = n.uid) :
    (g.replace n).replace m = g.replace m := by
  simp only [replace, List.map_map]
  congr 1
  refine List.map_congr_left fun k _ => ?_
  by_cases hk : k.uid = n.uid
  · simp [h, hk]
  · simp [h, hk]

theorem replace_self (hg : g.uids.Nodup) (hn : g.node? uid = some n) : g.replace n = g := by
  obtain ⟨before, after, hsplit⟩ := List.append_of_mem (node?_eq_some hn).1
  rw [replace_of_split hg hsplit rfl, ← hsplit]

theorem reconfigure_self (hg : g.WellFormed) (hn : g.node? uid = some n) :
    g.reconfigure uid n.kind = .ok g := by
  rw [reconfigure_of_node? hn, (hg.fits n (node?_eq_some hn).1).reconfigured_self,
    replace_self hg.nodup hn]

/-- There and back, all that can differ is the name of the node. -/
theorem reconfigure_reconfigure (hg : g.WellFormed) (hn : g.node? uid = some n) {kind : Kind}
    (hsub : ∀ spec ∈ n.kind.slots, spec ∈ kind.slots) :
    ∃ h, g.reconfigure uid kind = .ok h ∧ h.reconfigure uid n.kind = .ok (g.replace
      { n with name := if n.name = kind.displayName then n.kind.displayName else n.name }) := by
  obtain ⟨hmem, huid⟩ := node?_eq_some hn
  have hplaced : (g.replace (n.reconfigured kind)).node? uid = some (n.reconfigured kind) :=
    node?_replace hg.nodup hn huid
  have hagain : ((n.reconfigured kind).reconfigured n.kind).uid = (n.reconfigured kind).uid := rfl
  refine ⟨_, reconfigure_of_node? hn kind, ?_⟩
  rw [reconfigure_of_node? hplaced, replace_replace g hagain,
    (hg.fits n hmem).reconfigured_reconfigured hsub]

end

/-- Reshaping twice is reshaping once, and makes up no reference. Slots of a kind's layout stay as
they are, and so does a graph whose node is given the kind that it has. A kind that declares all
slots of another hands them back unchanged, and a node comes back from it as it was, but for a name
that was the other kind's: then it has the name of its own kind. -/
theorem reconfiguration_keeps :
    (∀ (slots : List Slot) (k : Kind),
      Slot.reshape (Slot.reshape slots k.slots) k.slots = Slot.reshape slots k.slots ∧
      (∀ t ∈ Slot.reshape slots k.slots, ∀ u, t.signal = .node u →
        ∃ s ∈ slots, s.name = t.name ∧ s.signal = .node u) ∧
      (slots.map Slot.spec = k.slots → Slot.reshape slots k.slots = slots)) ∧
    (∀ g : Graph, g.Built → ∀ uid n, g.node? uid = some n → g.reconfigure uid n.kind = .ok g) ∧
    (∀ k₁ k₂ : Kind, (∀ spec ∈ k₁.slots, spec ∈ k₂.slots) →
      (∀ slots : List Slot, slots.map Slot.spec = k₁.slots →
        Slot.reshape (Slot.reshape slots k₂.slots) k₁.slots = slots) ∧
      ∀ g : Graph, g.Built → ∀ uid n, g.node? uid = some n → n.kind = k₁ →
        ∃ h i m, g.reconfigure uid k₂ = .ok h ∧ h.reconfigure uid k₁ = .ok i ∧
          i.node? uid = some m ∧ m.slots = n.slots ∧ m.kind = n.kind ∧
          (m.name = n.name ↔ ¬ (n.name = k₂.displayName ∧ k₁.displayName ≠ k₂.displayName)) ∧
          (m.name = n.name → i = g)) ∧
    ∀ n m : Noise, n.dimension.count ≤ m.dimension.count →
      (n.family = .worley → m.family = .worley) →
      ∀ spec ∈ (Kind.noise n).slots, spec ∈ (Kind.noise m).slots := by
  refine ⟨?_, ?_, ?_, fun n m => Noise.slots_subset⟩
  · intro slots k
    exact ⟨Slot.reshape_reshape slots k, fun t ht u => Slot.exists_of_reshape_node ht,
      Slot.reshape_of_layout⟩
  · intro g hg uid n hn
    exact reconfigure_self hg.wellFormed hn
  · intro k₁ k₂ hsub
    refine ⟨fun slots h => Slot.reshape_reshape_of_subset h hsub, ?_⟩
    rintro g hg uid n hn rfl
    have hnodup := hg.wellFormed.nodup
    obtain ⟨h, hh, hi⟩ := reconfigure_reconfigure hg.wellFormed hn hsub
    refine ⟨h, _, _, hh, hi, node?_replace hnodup hn (node?_eq_some hn).2, rfl, rfl, ?_, ?_⟩
    · by_cases hname : n.name = k₂.displayName
      · simp [hname]
      · simp [hname]
    · intro hname
      simp only at hname
      rw [hname]
      exact replace_self hnodup hn

/-- A noise node that holds a negative zero, a reference, a pinned declared value and what is not a
number, under the name of another kind. -/
def weathered : Graph :=
  [Edit.add (.noise ⟨.perlin, .two, .standard⟩), .setInput 0 0 (.constant ⟨0x80000000⟩),
    .setInput 0 1 (.node 0), .setPinned 0 2 true, .setInput 0 3 (.constant ⟨0x7FC00001⟩),
    .rename 0 "Worley Noise 3D"].foldl after (.empty "Weathered")

/-- As cellular noise in space and back, the node keeps all of it but the name. -/
theorem reconfiguration_keeps_weathered : weathered.Built ∧
    (∀ spec ∈ (Kind.noise ⟨.perlin, .two, .standard⟩).slots,
      spec ∈ (Kind.noise ⟨.worley, .three, .standard⟩).slots) ∧
    ∃ n h i m, weathered.node? 0 = some n ∧ n.kind = .noise ⟨.perlin, .two, .standard⟩ ∧
      n.slots[3]?.map Slot.signal = some (.constant ⟨0x7FC00001⟩) ∧
      weathered.reconfigure 0 (.noise ⟨.worley, .three, .standard⟩) = .ok h ∧
      h.reconfigure 0 n.kind = .ok i ∧ i.node? 0 = some m ∧ m.slots = n.slots ∧
      m.name ≠ n.name := by
  have hbuilt : weathered.Built := (Built.empty "Weathered").edits _
  obtain ⟨_, _, hback, hnoise⟩ := reconfiguration_keeps
  have hsub :=
    hnoise ⟨.perlin, .two, .standard⟩ ⟨.worley, .three, .standard⟩ (by decide) (by decide)
  obtain ⟨n, hn, hkind, hsignal, hname⟩ : ∃ n, weathered.node? 0 = some n ∧
      n.kind = .noise ⟨.perlin, .two, .standard⟩ ∧
      n.slots[3]?.map Slot.signal = some (.constant ⟨0x7FC00001⟩) ∧ n.name = "Worley Noise 3D" :=
    ⟨_, rfl, rfl, rfl, rfl⟩
  obtain ⟨h, i, m, hh, hi, hm, hslots, _, hkept, _⟩ :=
    (hback _ _ hsub).2 weathered hbuilt 0 n hn hkind
  refine ⟨hbuilt, hsub, n, h, i, m, hn, hkind, hsignal, hh, hkind ▸ hi, hm, hslots, ?_⟩
  rw [ne_eq, hkept, not_not, hname]
  decide

end Graph

end NoiseShader
