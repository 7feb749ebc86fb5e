import NoiseShader.Proofs.ObjectText.Reading
import NoiseShader.Storage
import Mathlib.Logic.Function.Basic

set_option autoImplicit false

/-! # Settings read back from text

The text of settings is a head, an entry for each field and a foot. Any of the entries may be taken
out: what is left is read as the settings with the usual values in those fields
(`Settings.fields_round_trip`).
-/

namespace NoiseShader

namespace ObjectText

/-! ## Fields by key -/

section

variable {κ : Type} [DecidableEq κ] {key : κ → String} {content : κ → Value}

/-- Fields are found by a key that tells them apart. -/
theorem Fields.find?_of_injective (hkey : Function.Injective key) (keys : List κ) (k : κ) :
    Fields.find? ⟨(keys.map fun k => (key k, content k)).reverse⟩ (key k) =
      if k ∈ keys then some (content k) else none := by
  unfold Fields.find?
  cases hfound : (keys.map fun k => (key k, content k)).reverse.find? fun entry =>
      entry.1 == key k with
  | none =>
      have hnone := List.find?_eq_none.mp hfound
      have habsent : k ∉ keys := by
        intro hk
        have hentry : (key k, content k) ∈ keys.map fun k => (key k, content k) :=
          List.mem_map_of_mem hk
        exact hnone _ (List.mem_reverse.mpr hentry) (beq_self_eq_true _)
      rw [if_neg habsent]
      rfl
  | some entry =>
      obtain ⟨k', hk', rfl⟩ :=
        List.mem_map.mp (List.mem_reverse.mp (List.mem_of_find?_eq_some hfound))
      have hsame : key k' = key k := by simpa using List.find?_some hfound
      obtain rfl := hkey hsame
      rw [if_pos hk']
      rfl

/-- A field that may be left out has its own value if it is there. -/
theorem Fields.optional_of_injective {α : Type} (hkey : Function.Injective key) (keys : List κ)
    (k : κ) {decode : Decode α} {x : α} (hx : decode {} (content k) = some x) (otherwise : α) :
    Fields.optional ⟨(keys.map fun k => (key k, content k)).reverse⟩ {} (key k) decode otherwise =
      some (if k ∈ keys then x else otherwise) := by
  unfold Fields.optional
  rw [find?_of_injective hkey]
  by_cases hk : k ∈ keys
  · rw [if_pos hk, if_pos hk]
    exact hx
  · rw [if_neg hk, if_neg hk]

end

end ObjectText

namespace Settings

open ObjectText

/-! ## Fields of settings -/

def dimensionValue : Option Dimension → Value
  | none => .none
  | some d => .some (.bare (dimensionName d))

theorem writable_dimensionValue (d : Option Dimension) : (dimensionValue d).Writable := by
  cases d with
  | none => trivial
  | some d =>
      show isFreeName (dimensionName d) = true
      cases d <;> decide

theorem height_dimensionValue (d : Option Dimension) : (dimensionValue d).height ≤ 1 := by
  cases d with
  | none => exact Nat.zero_le 1
  | some d => exact Nat.le_refl 1

theorem asOption_dimensionValue (d : Option Dimension) :
    asOption asDimension {} (dimensionValue d) = some d := by
  cases d with
  | none => rfl
  | some d => cases d <;> decide

inductive Field
  | functionName
  | outputSymbol
  | seedName
  | includes
  | exposeParameters
  | seedDimension
deriving DecidableEq, Repr

namespace Field

/-- In the order in which they are written. -/
def all : List Field :=
  [functionName, outputSymbol, seedName, includes, exposeParameters, seedDimension]

def key : Field → String
  | functionName => "function_name"
  | outputSymbol => "output_symbol"
  | seedName => "seed_name"
  | includes => "includes"
  | exposeParameters => "expose_parameters"
  | seedDimension => "coordinate_dims"

def content (s : Settings) : Field → Value
  | functionName => .text s.functionName
  | outputSymbol => .text s.outputSymbol
  | seedName => .text s.seedName
  | includes => .list (s.includes.map .text)
  | exposeParameters => .bool s.exposeParameters
  | seedDimension => dimensionValue s.seedDimension

theorem key_injective : Function.Injective key := by
  intro f f' h
  cases f <;> cases f' <;> first | rfl | exact absurd h (by decide)

theorem isName_key (f : Field) : isName f.key.toList = true := by
  cases f <;> decide

theorem key_mem_fieldNames (f : Field) : f.key ∈ Text.fieldNames := by
  cases f <;> decide

theorem writable_content (s : Settings) (f : Field) : (f.content s).Writable := by
  cases f with
  | functionName => trivial
  | outputSymbol => trivial
  | seedName => trivial
  | includes =>
      have htext : ∀ file, (Value.text file).Writable := fun _ => trivial
      exact Value.allWritable_map htext s.includes
  | exposeParameters => trivial
  | seedDimension => exact writable_dimensionValue s.seedDimension

theorem height_content (s : Settings) (f : Field) : (f.content s).height ≤ 2 := by
  cases f with
  | functionName => exact Nat.zero_le 2
  | outputSymbol => exact Nat.zero_le 2
  | seedName => exact Nat.zero_le 2
  | includes =>
      have hitems : Value.heights (s.includes.map .text) ≤ 1 := by
        rw [Value.heights_le_iff, List.forall_mem_map]
        exact fun _ _ => Nat.le_refl 1
      exact Nat.succ_le_succ hitems
  | exposeParameters => exact Nat.zero_le 2
  | seedDimension => exact Nat.le_succ_of_le (height_dimensionValue s.seedDimension)

end Field

/-! ## Entries -/

/-- What the text has of a field: a line for it, or several for a list. -/
def entry (s : Settings) (f : Field) : String :=
  "\n    " ++ f.key ++ ": " ++ String.ofList (ObjectText.write 1 (f.content s)) ++ ","

/-- The text with the entries of some fields. -/
def textOf (s : Settings) (fields : List Field) : String :=
  "CompilerConfig(" ++ String.join (fields.map s.entry) ++ "\n)"

/-- The settings with the usual values in all fields but those that are kept. -/
def keeping (s : Settings) (kept : Field → Bool) : Settings :=
  let usual : Settings := {}
  { functionName := if kept .functionName then s.functionName else usual.functionName
    outputSymbol := if kept .outputSymbol then s.outputSymbol else usual.outputSymbol
    seedName := if kept .seedName then s.seedName else usual.seedName
    includes := if kept .includes then s.includes else usual.includes
    exposeParameters := if kept .exposeParameters then s.exposeParameters else usual.exposeParameters
    seedDimension := if kept .seedDimension then s.seedDimension else usual.seedDimension }

/-- The fields as the text has them. -/
def fieldList (s : Settings) (fields : List Field) : List (String × Value) :=
  fields.map fun f => (f.key, f.content s)

theorem settingsValue_eq (s : Settings) :
    Text.settingsValue s = .record (some "CompilerConfig") (s.fieldList Field.all) := by
  rfl

theorem toList_entry (s : Settings) (f : Field) : (s.entry f).toList =
    newLine 1 ++ f.key.toList ++ ':' :: ' ' :: (ObjectText.write 1 (f.content s) ++ [',']) := by
  have hline : "\n    ".toList = newLine 1 := rfl
  simp [entry, hline]

theorem writeFields_fieldList (s : Settings) (fields : List Field) :
    writeFields 1 (s.fieldList fields) = (String.join (fields.map s.entry)).toList := by
  induction fields with
  | nil => rfl
  | cons f fields ih =>
      rw [List.map_cons, String.join_cons, String.toList_append, toList_entry, ← ih, fieldList,
        List.map_cons, writeFields, ← fieldList]
      simp only [List.append_assoc, List.cons_append, List.nil_append]

theorem textOf_eq_render (s : Settings) (fields : List Field) :
    s.textOf fields = render (.record (some "CompilerConfig") (s.fieldList fields)) := by
  have hopen : "CompilerConfig(".toList = "CompilerConfig".toList ++ ['('] := rfl
  have hclose : "\n)".toList = newLine 0 ++ [')'] := rfl
  delta textOf
  rw [← String.toList_inj, render, String.toList_ofList, ObjectText.write, Nat.zero_add,
    writeFields_fieldList]
  simp only [String.toList_append, hopen, hclose, Option.map_some, Option.getD_some,
    List.append_assoc, List.cons_append, List.nil_append]

/-! ## Reading -/

theorem fieldsWritable_fieldList (s : Settings) (fields : List Field) :
    Value.FieldsWritable (s.fieldList fields) := by
  induction fields with
  | nil => trivial
  | cons f fields ih => exact ⟨f.isName_key, f.writable_content s, ih⟩

theorem height_fieldList (s : Settings) (fields : List Field) :
    (Value.record (some "CompilerConfig") (s.fieldList fields)).height ≤ maxDepth := by
  have hfields : Value.fieldHeights (s.fieldList fields) ≤ 3 := by
    rw [Value.fieldHeights_le_iff, fieldList, List.forall_mem_map]
    exact fun f _ => Nat.succ_le_succ (f.height_content s)
  simp only [Value.height, maxDepth]
  omega

/-- Whatever entries a text has, it is read as something that has their fields. -/
theorem exists_read?_textOf (s : Settings) {fields : List Field} (hnodup : fields.Nodup) :
    ∃ v, ObjectText.read? (s.textOf fields) = some ({}, v) ∧
      asFields "CompilerConfig" Text.fieldNames 0 {} v = some ⟨(s.fieldList fields).reverse⟩ := by
  have hname : isFreeName "CompilerConfig" = true := by decide
  rw [textOf_eq_render]
  by_cases hnil : fields = []
  · subst hnil
    exact ⟨_, read?_render_noFields hname, rfl⟩
  · have hwritable : (Value.record (some "CompilerConfig") (s.fieldList fields)).Writable :=
      ⟨⟨_, rfl, hname⟩, by simpa [fieldList] using hnil, s.fieldsWritable_fieldList fields⟩
    refine ⟨_, read?_render hwritable (s.height_fieldList fields), asFields_record _ _ ?_ ?_⟩
    · rw [fieldList, List.forall_mem_map]
      exact fun f _ => f.key_mem_fieldNames
    · have hkeys : (s.fieldList fields).map Prod.fst = fields.map Field.key := by
        rw [fieldList, List.map_map]
        rfl
      rw [hkeys]
      exact hnodup.map Field.key_injective

/-- A text with any of the entries, in any order, is read as the settings with these fields. -/
theorem read?_textOf (s : Settings) {fields : List Field} (hnodup : fields.Nodup) :
    Text.read? (s.textOf fields) = some (s.keeping fun f => decide (f ∈ fields)) := by
  obtain ⟨v, hread, hfields⟩ := s.exists_read?_textOf hnodup
  have hfield : ∀ {α : Type} (f : Field) {decode : Decode α} {x : α},
      decode {} (f.content s) = some x → ∀ otherwise,
      Fields.optional ⟨(s.fieldList fields).reverse⟩ {} f.key decode otherwise =
        some (if decide (f ∈ fields) = true then x else otherwise) := by
    intro α f decode x hx otherwise
    simp only [decide_eq_true_eq]
    exact Fields.optional_of_injective Field.key_injective fields f hx otherwise
  have hincludes : asList asText {} (.list (s.includes.map .text)) = some s.includes := by
    have hitem : ∀ file, asText {} (.text file) = some (id file) := fun _ => rfl
    rw [asList_map hitem, List.map_id]
  rw [Text.read?, hread]
  -- the reader asks for the fields one after another
  refine Option.bind_eq_some_iff.mpr ⟨_, hfields, ?_⟩
  refine Option.bind_eq_some_iff.mpr ⟨_, hfield .functionName rfl _, ?_⟩
  refine Option.bind_eq_some_iff.mpr ⟨_, hfield .outputSymbol rfl _, ?_⟩
  refine Option.bind_eq_some_iff.mpr ⟨_, hfield .seedName rfl _, ?_⟩
  refine Option.bind_eq_some_iff.mpr ⟨_, hfield .includes hincludes _, ?_⟩
  refine Option.bind_eq_some_iff.mpr ⟨_, hfield .exposeParameters rfl _, ?_⟩
  exact Option.bind_eq_some_iff.mpr
    ⟨_, hfield .seedDimension (asOption_dimensionValue s.seedDimension) _, rfl⟩

/-! ## The main result -/

theorem Field.mem_all (f : Field) : f ∈ Field.all := by
  cases f <;> decide

theorem ofText_textOf_filter (s : Settings) (kept : Field → Bool) :
    ofText (s.textOf (Field.all.filter kept)) = .ok (s.keeping kept) := by
  have hnodup : (Field.all.filter kept).Nodup := List.Nodup.filter kept (by decide)
  have hkept : (fun f => decide (f ∈ Field.all.filter kept)) = kept := by
    funext f
    rw [Bool.eq_iff_iff, decide_eq_true_eq, List.mem_filter, and_iff_right f.mem_all]
  rw [ofText, s.read?_textOf hnodup, hkept]

/-- The text of settings has an entry for each field. It is read as the settings, and without any of
the entries it is read as the settings with the usual values in their fields. -/
theorem fields_round_trip (s : Settings) :
    s.toText = s.textOf Field.all ∧ ofText s.toText = .ok s ∧
    ∀ deleted : Field → Bool, ofText (s.textOf (Field.all.filter fun f => !deleted f)) =
      .ok (s.keeping fun f => !deleted f) := by
  have htext : s.toText = s.textOf Field.all := by
    rw [textOf_eq_render, ← settingsValue_eq]
    rfl
  refine ⟨htext, ?_, fun deleted => s.ofText_textOf_filter _⟩
  have hall := s.ofText_textOf_filter fun _ => true
  rw [List.filter_true, ← htext] at hall
  exact hall

end Settings

end NoiseShader
