import NoiseShader.Proofs.Document.Graph
import NoiseShader.Proofs.ObjectText.Reading

set_option autoImplicit false

/-! # Documents read back from text

The text of a document is read as the document itself, but for the payload of constants that are
not numbers (`Document.Text.read?_write`). So a graph is loaded from its text as it was saved, up to
such constants (`Graph.text_round_trip`).
-/

namespace NoiseShader

/-! ## What text keeps -/

/-- A signal with only the sign of what is not a number. -/
def Signal.quiet : Signal → Signal
  | constant x => constant x.quiet
  | node uid => node uid

def Slot.quiet (s : Slot) : Slot := { s with signal := s.signal.quiet }

def Node.quiet (n : Node) : Node := { n with slots := n.slots.map Slot.quiet }

/-- A graph with only the sign of constants that are not numbers. -/
def Graph.quiet (g : Graph) : Graph :=
  { g with nodes := g.nodes.map Node.quiet, output := g.output.quiet }

/-- What a text keeps of a slot. -/
def Slot.spelled (s : Slot) : Slot := { s.quiet with initial := s.initial.quiet }

def Node.spelled (n : Node) : Node := { n with slots := n.slots.map Slot.spelled }

/-- What a text keeps of a document. -/
def Document.spelled (d : Document) : Document :=
  { d with output := d.output.quiet, nodes := d.nodes.map Node.spelled }

namespace Document.Text

open ObjectText

/-! ## Reading values -/

theorem asSignal_signalValue (s : Signal) : asSignal {} (signalValue s) = some s.quiet := by
  cases s with
  | constant x =>
    simp [asSignal, signalValue, asContent, asNumber, number?_spellNumber, Signal.quiet]
  | node uid => simp [asSignal, signalValue, asContent, asWord, word?_spellWord, Signal.quiet]

theorem asFormulas_formulasValue (f : CellFormulas) :
    asFormulas {} (formulasValue f) = some f := by
  rw [asFormulas, formulasValue, asFields_record _ _ (by simp) (by simp)]
  simp [Fields.required, Fields.find?, asText]

theorem asNoise_noiseValue (n : Noise) :
    asNoise {} (.tuple (some "Noise") [noiseValue n]) = some n := by
  have hfamily : asVariant NoiseFamily.all NoiseFamily.label {} (.bare n.family.label) =
      some n.family := by
    cases n.family <;> decide
  have hdimension : asDimension {} (.bare (dimensionName n.dimension)) = some n.dimension := by
    cases n.dimension <;> decide
  rw [asNoise, asVariantFields, if_pos (by simp), noiseValue,
    asFields_record _ _ (by simp) (by simp)]
  simp [noiseOf, Fields.required, Fields.optional, Fields.find?, hfamily, hdimension,
    asFormulas_formulasValue]

theorem asKind_kindValue (k : Kind) : asKind {} (kindValue k) = some k := by
  cases k with
  | noise n => simp [asKind, kindValue, asNoise_noiseValue]
  | math operation =>
    have hoperation : asVariant Operation.all Operation.typeId {} (.bare operation.typeId) =
        some operation := by
      cases operation <;> decide
    simp [asKind, kindValue, asNoise, asVariantFields, asContent, hoperation]
  | coordinate axis =>
    have haxis : asVariant Axis.all Axis.label {} (.bare axis.label) = some axis := by
      cases axis <;> decide
    simp [asKind, kindValue, asNoise, asVariantFields, asContent, haxis]

theorem asSlot_slotValue (s : Slot) : asSlot {} (slotValue s) = some s.spelled := by
  rw [asSlot, slotValue, asFields_record _ _ (by simp) (by simp)]
  simp [Fields.required, Fields.optional, Fields.find?, asText, asNumber, asBool,
    number?_spellNumber, asSignal_signalValue, Slot.spelled, Slot.quiet]

theorem asNode_nodeValue (n : Node) : asNode {} (nodeValue n) = some n.spelled := by
  rw [asNode, nodeValue, asFields_record _ _ (by simp) (by simp)]
  simp [Fields.required, Fields.find?, asText, asWord, word?_spellWord, asKind_kindValue,
    asList_map asSlot_slotValue, Node.spelled]

theorem asDocument_documentValue (d : Document) :
    asDocument {} (documentValue d) = some d.spelled := by
  rw [asDocument, documentValue, asFields_record _ _ (by simp) (by simp)]
  simp [Fields.required, Fields.find?, asText, asWord, word?_spellWord, asSignal_signalValue,
    asList_map asNode_nodeValue, Document.spelled]

/-! ## Writing values

Each value is written with the names of its record and its fields. The proofs go through them in
order: the name is one, then its value can be written. -/

theorem writable_signalValue (s : Signal) : (signalValue s).Writable := by
  cases s with
  | constant x => exact ⟨⟨_, rfl, by decide⟩, isNumberText_spellNumber x, trivial⟩
  | node uid => exact ⟨⟨_, rfl, by decide⟩, isNumberText_spellWord uid, trivial⟩

theorem writable_noiseValue (n : Noise) : (noiseValue n).Writable := by
  have hfamily : isFreeName n.family.label = true := by cases n.family <;> decide
  have hdimension : isFreeName (dimensionName n.dimension) = true := by
    cases n.dimension <;> decide
  refine ⟨⟨_, rfl, by decide⟩, by simp, by decide, hfamily, by decide, hdimension, by decide, ?_,
    trivial⟩
  exact ⟨⟨_, rfl, by decide⟩, by simp, by decide, trivial, by decide, trivial, trivial⟩

theorem writable_kindValue (k : Kind) : (kindValue k).Writable := by
  cases k with
  | noise n => exact ⟨⟨_, rfl, by decide⟩, writable_noiseValue n, trivial⟩
  | math operation =>
    have hoperation : isFreeName operation.typeId = true := by cases operation <;> decide
    exact ⟨⟨_, rfl, by decide⟩, hoperation, trivial⟩
  | coordinate axis =>
    have haxis : isFreeName axis.label = true := by cases axis <;> decide
    exact ⟨⟨_, rfl, by decide⟩, haxis, trivial⟩

theorem writable_slotValue (s : Slot) : (slotValue s).Writable :=
  ⟨⟨_, rfl, by decide⟩, by simp, by decide, trivial, by decide, isNumberText_spellNumber s.initial,
    by decide, writable_signalValue s.signal, by decide, trivial, trivial⟩

theorem writable_nodeValue (n : Node) : (nodeValue n).Writable :=
  ⟨⟨_, rfl, by decide⟩, by simp, by decide, isNumberText_spellWord n.uid, by decide, trivial,
    by decide, writable_kindValue n.kind, by decide,
    Value.allWritable_map writable_slotValue n.slots, trivial⟩

theorem writable_documentValue (d : Document) : (documentValue d).Writable :=
  ⟨⟨_, rfl, by decide⟩, by simp, by decide, isNumberText_spellWord d.version, by decide, trivial,
    by decide, isNumberText_spellWord d.nextUID, by decide, writable_signalValue d.output,
    by decide, Value.allWritable_map writable_nodeValue d.nodes, trivial⟩

/-! ## Nesting -/

theorem height_signalValue (s : Signal) : (signalValue s).height = 2 := by
  cases s <;> rfl

theorem height_kindValue (k : Kind) : (kindValue k).height ≤ 6 := by
  cases k with
  | noise n => exact Nat.le_refl 6
  | math operation => exact Nat.le_of_ble_eq_true rfl
  | coordinate axis => exact Nat.le_of_ble_eq_true rfl

theorem height_slotValue (s : Slot) : (slotValue s).height = 4 := by
  simp [slotValue, Value.height, Value.fieldHeights, height_signalValue]

theorem height_nodeValue (n : Node) : (nodeValue n).height ≤ 8 := by
  have hslots : Value.heights (n.slots.map slotValue) ≤ 5 := by
    simp [Value.heights_le_iff, height_slotValue]
  have hkind := height_kindValue n.kind
  simp only [nodeValue, Value.height, Value.fieldHeights]
  omega

/-- Documents are not nested too deep, however many nodes there are. -/
theorem height_documentValue (d : Document) : (documentValue d).height ≤ maxDepth := by
  have hnodes : Value.heights (d.nodes.map nodeValue) ≤ 9 := by
    rw [Value.heights_le_iff, List.forall_mem_map]
    exact fun n _ => Nat.succ_le_succ (height_nodeValue n)
  have houtput := height_signalValue d.output
  simp only [documentValue, Value.height, Value.fieldHeights, maxDepth]
  omega

/-- The text of a document is read as the document, up to what it does not keep. -/
theorem read?_write (d : Document) : read? (write d) = some d.spelled := by
  rw [read?, write, read?_render (writable_documentValue d) (height_documentValue d)]
  exact asDocument_documentValue d

end Document.Text

/-! ## Graphs -/

theorem Node.Fits.spelled_named {n : Node} (h : n.Fits) : n.spelled.Named := by
  unfold Node.Named Node.spelled
  rw [List.map_map]
  exact h.named

/-- The declared values come back from the kind of the node. -/
theorem Node.Fits.spelled_restored {n : Node} (h : n.Fits) : n.spelled.restored = n.quiet := by
  have hslots : (n.slots.map Slot.spelled).zipWith
      (fun s spec => { s with initial := spec.initial }) n.kind.slots = n.slots.map Slot.quiet := by
    rw [← h, List.zipWith_map, List.zipWith_self]
    rfl
  simp only [Node.restored, Node.spelled, Node.quiet, hslots]

namespace Graph

theorem WellFormed.graph_spelled {g : Graph} (hg : g.WellFormed) :
    g.document.spelled.graph = .ok g.quiet := by
  have huids : ((g.nodes.map Node.spelled).map Node.uid) = g.uids := by
    rw [List.map_map]
    rfl
  have hnodes : (g.nodes.map Node.spelled).map Node.restored = g.nodes.map Node.quiet := by
    rw [List.map_map]
    exact List.map_congr_left fun n hn => (hg.fits n hn).spelled_restored
  rw [Document.graph_eq_ok_iff]
  refine ⟨UInt32.le_refl _, ?_, ?_, ?_⟩
  · show ((g.nodes.map Node.spelled).map Node.uid).Nodup
    rw [huids]
    exact hg.nodup
  · intro m hm
    obtain ⟨n, hn, rfl⟩ := List.mem_map.1 hm
    exact (hg.fits n hn).spelled_named
  · have hbelow : ∀ m ∈ g.nodes.map Node.quiet, m.uid.Below g.nextUID := by
      rw [List.forall_mem_map]
      exact hg.below
    show g.quiet = ⟨g.name, (g.nodes.map Node.spelled).map Node.restored,
      Document.raise g.nextUID ((g.nodes.map Node.spelled).map Node.restored), g.output.quiet⟩
    rw [hnodes, Document.raise_eq hbelow]
    rfl

/-- A graph is loaded from its text as it was saved. The text keeps every name, every UID, every
kind and every constant that is a number, bit for bit; of what is not a number it keeps the sign. -/
theorem text_round_trip (g : Graph) (hg : g.Built) :
    ofText g.toText = .ok g.quiet ∧
    (∀ x : Binary32, x.isNaN = false → x.quiet = x) ∧
    ∀ x : Binary32, x.isNaN = true → x.quiet.isNaN = true ∧ x.quiet.negative = x.negative := by
  refine ⟨?_, fun x => Binary32.quiet_of_not_isNaN, ?_⟩
  · rw [ofText, toText, Document.Text.read?_write]
    simp only [ofDocument, hg.wellFormed.graph_spelled]
    rfl
  · intro x hx
    exact ⟨(Binary32.isNaN_quiet x).trans hx, Binary32.negative_quiet x⟩

/-- Names with quotes, controls and characters past the basic plane, a constant that is not a
number and has a payload, and the least magnitude with a minus sign. -/
def oddEdits : List Edit :=
  [.add (.math .sin), .rename 0 "\x22\\\x27\n\x7f𝄞", .setInput 0 0 (.constant ⟨0xFFC00001⟩),
    .setPinned 0 0 true, .setOutput (.constant ⟨0x80000001⟩)]

theorem text_round_trip_odd : (oddEdits.foldl after (empty "\x00")).Built ∧
    ofText (oddEdits.foldl after (empty "\x00")).toText =
      .ok ⟨"\x00", [⟨0, "\x22\\\x27\n\x7f𝄞", .math .sin,
        [⟨"Value", .zero, .constant ⟨0xFFC00000⟩, true⟩]⟩], 1, .constant ⟨0x80000001⟩⟩ := by
  have hbuilt : (oddEdits.foldl after (empty "\x00")).Built := (Built.empty _).edits oddEdits
  refine ⟨hbuilt, ?_⟩
  rw [(text_round_trip _ hbuilt).1]
  decide

end Graph

end NoiseShader
