import NoiseShader.Proofs.Document.Bytes
import NoiseShader.Proofs.Document.Text
import NoiseShader.Proofs.ObjectText.Size

set_option autoImplicit false

/-! # How large a document is

A document that is read has no text and no list beyond the size of what it was read from
(`Document.Text.addressable_of_read?`), so that any graph that can be loaded can also be written as
bytes (`Graph.addressable_of_ofText`, `Graph.addressable_of_ofBytes`).
-/

namespace NoiseShader

namespace ObjectText

/-! ## Records -/

/-- From a value within the limit, the property holds of what is decoded. -/
def Decode.Keeps {α : Type} (decode : Decode α) (limit : Nat) (P : α → Prop) : Prop :=
  ∀ e v x, v.Sized limit → decode e v = some x → P x

/-- Every field holds a value within the limit. -/
def Fields.Sized (limit : Nat) (fields : Fields) : Prop :=
  ∀ entry ∈ fields.entries, entry.2.Sized limit

section

variable {α : Type} {limit : Nat} {P : α → Prop} {decode : Decode α}

theorem asText_keeps (limit : Nat) : Decode.Keeps asText limit fun s => s.toUTF8.size ≤ limit := by
  intro e v x hv h
  cases v with
  | text content =>
      obtain rfl := Option.some.inj h
      exact hv
  | _ => cases h

theorem mapM_keeps {vs : List Value} {xs : List α} (hdecode : decode.Keeps limit P)
    {e : Extensions} (hvs : ∀ v ∈ vs, v.Sized limit) (h : vs.mapM (decode e) = some xs) :
    xs.length = vs.length ∧ ∀ x ∈ xs, P x := by
  induction vs generalizing xs with
  | nil =>
      obtain rfl := Option.some.inj h
      simp
  | cons v vs ih =>
      rw [List.mapM_cons, Option.bind_eq_bind, Option.bind_eq_some_iff] at h
      obtain ⟨x, hx, h⟩ := h
      obtain ⟨rest, hrest, h⟩ := Option.bind_eq_some_iff.mp h
      obtain rfl := Option.some.inj h
      obtain ⟨hlength, hall⟩ := ih (fun v hv => hvs v (List.mem_cons_of_mem _ hv)) hrest
      have hP : P x := hdecode e v x (hvs v List.mem_cons_self) hx
      exact ⟨by rw [List.length_cons, List.length_cons, hlength],
        List.forall_mem_cons.mpr ⟨hP, hall⟩⟩

theorem asList_keeps (hdecode : decode.Keeps limit P) :
    Decode.Keeps (asList decode) limit fun xs => xs.length ≤ limit ∧ ∀ x ∈ xs, P x := by
  intro e v xs hv h
  cases v with
  | list items =>
      obtain ⟨hcount, hitems⟩ := hv
      obtain ⟨hlength, hall⟩ := mapM_keeps hdecode (Value.itemsSized_iff.mp hitems) h
      exact ⟨by omega, hall⟩
  | _ => cases h

theorem Fields.insert?_keeps {known : List String} {room : Nat} {fields next : Fields}
    {field : String × Value} (h : fields.insert? known room field = some next)
    (hfields : fields.Sized limit) (hfield : field.2.Sized limit) : next.Sized limit := by
  unfold insert? at h
  split at h
  · split at h
    · cases h
    · obtain rfl := Option.some.inj h
      exact List.forall_mem_cons.mpr ⟨hfield, hfields⟩
  · split at h
    · obtain rfl := Option.some.inj h
      exact hfields
    · cases h

theorem Fields.foldlM_insert?_keeps {known : List String} {room : Nat} {fields next : Fields}
    {given : List (String × Value)} (h : given.foldlM (insert? known room) fields = some next)
    (hfields : fields.Sized limit) (hgiven : ∀ field ∈ given, field.2.Sized limit) :
    next.Sized limit := by
  induction given generalizing fields with
  | nil =>
      obtain rfl := Option.some.inj h
      exact hfields
  | cons field given ih =>
      obtain ⟨hfield, hgiven⟩ := List.forall_mem_cons.mp hgiven
      rw [List.foldlM_cons, Option.bind_eq_bind, Option.bind_eq_some_iff] at h
      obtain ⟨mid, hmid, h⟩ := h
      exact ih h (insert?_keeps hmid hfields hfield) hgiven

theorem Fields.sized_nil (limit : Nat) : Fields.Sized limit ⟨[]⟩ :=
  fun entry hentry => by cases hentry

theorem Fields.ofList?_keeps {known : List String} {room : Nat} {given : List (String × Value)}
    {fields : Fields} (h : ofList? known room given = some fields)
    (hgiven : ∀ field ∈ given, field.2.Sized limit) : fields.Sized limit :=
  foldlM_insert?_keeps h (sized_nil limit) hgiven

theorem Fields.find?_sized {fields : Fields} (hfields : fields.Sized limit) {name : String}
    {v : Value} (h : fields.find? name = some v) : v.Sized limit := by
  obtain ⟨entry, hentry, rfl⟩ := Option.map_eq_some_iff.mp h
  exact hfields entry (List.mem_of_find?_eq_some hentry)

theorem Fields.required_keeps {fields : Fields} (hfields : fields.Sized limit)
    (hdecode : decode.Keeps limit P) {e : Extensions} {name : String} {x : α}
    (h : fields.required e name decode = some x) : P x := by
  unfold required at h
  split at h
  · cases h
  · next v hv => exact hdecode e v x (find?_sized hfields hv) h

theorem Fields.optional_keeps {fields : Fields} (hfields : fields.Sized limit)
    (hdecode : decode.Keeps limit P) {e : Extensions} {name : String} {otherwise x : α}
    (hotherwise : P otherwise) (h : fields.optional e name decode otherwise = some x) : P x := by
  unfold optional at h
  split at h
  · obtain rfl := Option.some.inj h
    exact hotherwise
  · next v hv => exact hdecode e v x (find?_sized hfields hv) h

theorem asFields_keeps (expected : String) (known : List String) (depth limit : Nat) :
    Decode.Keeps (asFields expected known depth) limit (Fields.Sized limit) := by
  intro e v fields hv h
  unfold asFields at h
  split at h
  · split at h
    · exact Fields.ofList?_keeps h (Value.fieldsSized_iff.mp hv)
    · cases h
  · split at h
    · obtain rfl := Option.some.inj h
      exact Fields.sized_nil limit
    · cases h
  · split at h
    · obtain rfl := Option.some.inj h
      exact Fields.sized_nil limit
    · cases h
  · cases h

theorem asVariantFields_keeps (variant expected : String) (known : List String)
    (depth limit : Nat) :
    Decode.Keeps (asVariantFields variant expected known depth) limit (Fields.Sized limit) := by
  intro e v fields hv h
  unfold asVariantFields at h
  split at h
  · split at h
    · exact Fields.ofList?_keeps h (Value.fieldsSized_iff.mp hv)
    · cases h
  · split at h
    · exact asFields_keeps expected known depth limit e _ fields hv.1 h
    · cases h
  · cases h

end

end ObjectText

/-! ## Documents -/

namespace Document.Text

open ObjectText

section

variable {limit : Nat}

theorem shortText_keeps (hlimit : limit < lengthCount) : Decode.Keeps asText limit ShortText :=
  fun e v s hv h => Nat.lt_of_le_of_lt (asText_keeps limit e v s hv h) hlimit

theorem asFormulas_keeps (hlimit : limit < lengthCount) :
    Decode.Keeps asFormulas limit fun f => ShortText f.distance ∧ ShortText f.combine := by
  intro e v f hv h
  simp only [asFormulas, Option.bind_eq_bind, Option.bind_eq_some_iff, Option.pure_def,
    Option.some.injEq] at h
  obtain ⟨fields, hfields, distance, hdistance, combine, hcombine, rfl⟩ := h
  have hsized := asFields_keeps _ _ _ limit e v fields hv hfields
  exact ⟨Fields.required_keeps hsized (shortText_keeps hlimit) hdistance,
    Fields.required_keeps hsized (shortText_keeps hlimit) hcombine⟩

theorem asNoise_keeps (hlimit : limit < lengthCount) :
    Decode.Keeps asNoise limit Noise.Addressable := by
  intro e v n hv h
  simp only [asNoise, noiseOf, Option.bind_eq_bind, Option.bind_eq_some_iff, Option.pure_def,
    Option.some.injEq] at h
  obtain ⟨fields, hfields, family, _, dimension, _, formulas, hformulas, rfl⟩ := h
  have hsized := asVariantFields_keeps _ _ _ _ limit e v fields hv hfields
  have hstandard : ShortText CellFormulas.standard.distance ∧
      ShortText CellFormulas.standard.combine := by
    decide
  exact Fields.optional_keeps hsized (asFormulas_keeps hlimit) hstandard hformulas

theorem asKind_keeps (hlimit : limit < lengthCount) : Decode.Keeps asKind limit Kind.Addressable := by
  intro e v k hv h
  simp only [asKind, Option.or_eq_some_iff, Option.map_eq_some_iff] at h
  rcases h with ⟨n, hn, rfl⟩ | ⟨_, ⟨operation, _, rfl⟩ | ⟨_, axis, _, rfl⟩⟩
  · exact asNoise_keeps hlimit e v n hv hn
  · exact trivial
  · exact trivial

theorem asSlot_keeps (hlimit : limit < lengthCount) :
    Decode.Keeps asSlot limit fun s => ShortText s.name := by
  intro e v s hv h
  simp only [asSlot, Option.bind_eq_bind, Option.bind_eq_some_iff, Option.pure_def,
    Option.some.injEq] at h
  obtain ⟨fields, hfields, name, hname, initial, _, signal, _, pinned, _, rfl⟩ := h
  have hsized := asFields_keeps _ _ _ limit e v fields hv hfields
  exact Fields.required_keeps hsized (shortText_keeps hlimit) hname

theorem asNode_keeps (hlimit : limit < lengthCount) : Decode.Keeps asNode limit Node.Addressable := by
  intro e v n hv h
  simp only [asNode, Option.bind_eq_bind, Option.bind_eq_some_iff, Option.pure_def,
    Option.some.injEq] at h
  obtain ⟨fields, hfields, uid, _, name, hname, kind, hkind, slots, hslots, rfl⟩ := h
  have hsized := asFields_keeps _ _ _ limit e v fields hv hfields
  obtain ⟨hcount, hall⟩ := Fields.required_keeps hsized (asList_keeps (asSlot_keeps hlimit)) hslots
  exact
    { name := Fields.required_keeps hsized (shortText_keeps hlimit) hname
      kind := Fields.required_keeps hsized (asKind_keeps hlimit) hkind
      count := Nat.lt_of_le_of_lt hcount hlimit
      slots := hall }

theorem asDocument_keeps (hlimit : limit < lengthCount) :
    Decode.Keeps asDocument limit Document.Addressable := by
  intro e v d hv h
  simp only [asDocument, Option.bind_eq_bind, Option.bind_eq_some_iff, Option.pure_def,
    Option.some.injEq] at h
  obtain ⟨fields, hfields, version, _, name, hname, nextUID, _, output, _, nodes, hnodes, rfl⟩ := h
  have hsized := asFields_keeps _ _ _ limit e v fields hv hfields
  obtain ⟨hcount, hall⟩ := Fields.required_keeps hsized (asList_keeps (asNode_keeps hlimit)) hnodes
  exact
    { name := Fields.required_keeps hsized (shortText_keeps hlimit) hname
      count := Nat.lt_of_le_of_lt hcount hlimit
      nodes := hall }

end

/-- What is read from a short text can be written as bytes. -/
theorem addressable_of_read? {text : String} {d : Document} (h : read? text = some d)
    (htext : ShortText text) : d.Addressable := by
  unfold read? at h
  split at h
  · cases h
  · next e v hv => exact asDocument_keeps htext e v d (read?_sized hv) h

end Document.Text

/-! ## Graphs -/

theorem Node.Addressable.restored {n : Node} (h : n.Addressable) : n.restored.Addressable where
  name := h.name
  kind := h.kind
  count := by
    show (List.zipWith _ n.slots n.kind.slots).length < lengthCount
    have hcount := h.count
    rw [List.length_zipWith]
    omega
  slots := by
    intro s hs
    rw [Node.restored, ← List.map_uncurry_zip_eq_zipWith, List.mem_map] at hs
    obtain ⟨⟨t, spec⟩, ht, rfl⟩ := hs
    exact h.slots t (List.of_mem_zip ht).1

theorem Node.Addressable.quiet {n : Node} (h : n.Addressable) : n.quiet.Addressable where
  name := h.name
  kind := h.kind
  count := by
    show (n.slots.map Slot.quiet).length < lengthCount
    rw [List.length_map]
    exact h.count
  slots := List.forall_mem_map.mpr h.slots

namespace Graph

theorem addressable_of_ofDocument {d : Document} {g : Graph} (h : ofDocument d = .ok g)
    (hd : d.Addressable) : g.document.Addressable := by
  obtain ⟨_, _, _, rfl⟩ := (Document.graph_eq_ok_iff d g).mp (Attempt.mapError_eq_ok_iff.mp h)
  exact
    { name := hd.name
      count := by
        show (d.nodes.map Node.restored).length < lengthCount
        rw [List.length_map]
        exact hd.count
      nodes := List.forall_mem_map.mpr fun n hn => (hd.nodes n hn).restored }

theorem addressable_of_ofText {text : String} {g : Graph} (h : ofText text = .ok g)
    (htext : ShortText text) : g.document.Addressable := by
  unfold ofText at h
  split at h
  · cases h
  · next d hd =>
      exact addressable_of_ofDocument h (Document.Text.addressable_of_read? hd htext)

theorem addressable_of_ofBytes {bytes : List UInt8} {g : Graph} (h : ofBytes bytes = .ok g) :
    g.document.Addressable := by
  unfold ofBytes at h
  split at h
  · cases h
  · next d rest hd =>
      exact addressable_of_ofDocument h ((Document.Bytes.exact_document _ _ _).mp hd).1

theorem addressable_quiet {g : Graph} (h : g.document.Addressable) :
    g.quiet.document.Addressable where
  name := h.name
  count := by
    show (g.nodes.map Node.quiet).length < lengthCount
    rw [List.length_map]
    exact h.count
  nodes := List.forall_mem_map.mpr fun n hn => (h.nodes n hn).quiet

end Graph

end NoiseShader
