import NoiseShader.Proofs.Label
import NoiseShader.Proofs.Occurrence
import NoiseShader.Proofs.Parameter
import Mathlib.Data.Set.Lattice
import Mathlib.Order.CompletePartialOrder

set_option autoImplicit false

/-! # Generated names do not clash

There are five families of generated names: variables, parameters, helpers and the two macros of
each helper. What stands before the first underscore of a name, and whether there is another
underscore behind it, tells them apart (`Graph.names_never_clash`), and names of the library have no
underscore at all.

| family     | before the underscore | behind it        |
|------------|-----------------------|------------------|
| variables  | not `Worley`          | digits           |
| parameters | `param`               | has another      |
| helpers    | `Worley`              | digits           |
| macros     | `WORLEY`              | has another      |
-/

namespace NoiseShader

open Shading

/-! ## The families -/

/-- The variables of all nodes, emitted or not. -/
def Graph.variableNames (g : Graph) : Set String := {x | ∃ n ∈ g.nodes, n.variableName = x}

def Graph.parameterIdentifiers (g : Graph) : Set String :=
  {x | ∃ ps, g.parameters = .ok ps ∧ ∃ p ∈ ps, p.label.identifier = x}

/-- The helpers that any node could have. -/
def Noise.helperNames : Set String := Set.range Noise.helperName

def Worley.distanceMacros : Set String := Set.range Worley.distanceMacro

def Worley.combineMacros : Set String := Set.range Worley.combineMacro

/-- The library functions that noise is taken from. -/
def NoiseFamily.primitives : Set String := {x | ∃ family d, NoiseFamily.primitive family d = x}

/-- The library functions that operations call. -/
def Operation.intrinsics : Set String :=
  {f | ∃ (op : Operation) (inputs : List String) (value : Expr),
    op.expression? (inputs.map .atom) = some value ∧ f ∈ value.term.calls}

/-! ## Parameters -/

namespace Graph

/-- Identifiers of parameters have their form, whatever the nodes and slots are called. -/
theorem isParameter_of_mem {g : Graph} {ps : List Parameter} (h : g.parameters = .ok ps)
    {p : Parameter} (hp : p ∈ ps) : Label.IsParameter p.label.identifier.toList := by
  obtain ⟨_, _, rfl⟩ := (parameters_eq_ok_iff g ps).mp h
  refine Parameter.isParameter_of_mem_assign ?_ hp
  intro t ht
  obtain ⟨_, n, s, _, _, _, hbase⟩ := (mem_tunables g t).mp ht
  rw [hbase]
  exact Label.isParameter_ofSlot n s

theorem isParameter_of_mem_identifiers {g : Graph} {x : String}
    (hx : x ∈ g.parameterIdentifiers) : Label.IsParameter x.toList := by
  obtain ⟨ps, hps, p, hp, rfl⟩ := hx
  exact isParameter_of_mem hps hp

end Graph

theorem Node.not_isParameter_variableName (n : Node) :
    ¬ Label.IsParameter n.variableName.toList := by
  intro hparameter
  obtain ⟨stem, hname, hstem, _⟩ := n.variableName_eq
  exact hparameter.ne hstem.underscore_notMem (.inr (underscore_notMem_toDigits _)) hname

/-! ## Macros -/

namespace Worley

/-- `WORLEY`, an underscore, and more with another one in it. -/
def IsMacro (text : List Char) : Prop :=
  ∃ rest, text = "WORLEY".toList ++ '_' :: rest ∧ '_' ∈ rest

/-- The macro that a formula is put into. -/
def Role.macroName (uid : UID) : Role → String
  | distance => distanceMacro uid
  | combine => combineMacro uid

/-- The word between the underscores of a macro. -/
def Role.word : Role → String
  | distance => "DISTANCE"
  | combine => "COMBINE"

theorem toList_macroName (uid : UID) (role : Role) : (role.macroName uid).toList =
    "WORLEY".toList ++ '_' :: (role.word.toList ++ '_' :: Nat.toDigits 10 uid.toNat) := by
  have hdigits : ∀ front : String,
      (front ++ UID.text uid).toList = front.toList ++ Nat.toDigits 10 uid.toNat := by
    intro front
    rw [String.toList_append, UID.toList_text]
  cases role with
  | distance => exact hdigits "WORLEY_DISTANCE_"
  | combine => exact hdigits "WORLEY_COMBINE_"

theorem isMacro_of_mem {x : String} (hx : x ∈ distanceMacros ∪ combineMacros) :
    IsMacro x.toList := by
  rcases hx with ⟨uid, rfl⟩ | ⟨uid, rfl⟩
  · exact ⟨_, toList_macroName uid .distance, by simp⟩
  · exact ⟨_, toList_macroName uid .combine, by simp⟩

theorem disjoint_macros : Disjoint distanceMacros combineMacros := by
  rw [Set.disjoint_left]
  rintro _ ⟨u, rfl⟩ ⟨v, heq⟩
  have hlist : (Role.combine.macroName v).toList = (Role.distance.macroName u).toList :=
    congrArg String.toList heq
  rw [toList_macroName, toList_macroName] at hlist
  obtain ⟨_, hrest⟩ := split_at_first (by decide) (by decide) hlist
  obtain ⟨hname, _⟩ := split_at_first (by decide) (by decide) hrest
  exact absurd hname (by decide)

/-- A name with other letters before its first underscore is no macro, nor is one with a single
underscore. -/
theorem IsMacro.ne {text : List Char} (h : IsMacro text) {stem rest : List Char}
    (hstem : '_' ∉ stem) (hother : stem ≠ "WORLEY".toList ∨ '_' ∉ rest) :
    text ≠ stem ++ '_' :: rest := by
  obtain ⟨rest', rfl, hmem⟩ := h
  intro heq
  obtain ⟨hname, hrest⟩ := split_at_first (by decide) hstem heq
  rcases hother with hne | hnot
  · exact hne hname.symm
  · exact hnot (hrest ▸ hmem)

end Worley

/-! ## Any two families -/

namespace Graph

variable (g : Graph)

theorem variables_disjoint_parameters : Disjoint g.variableNames g.parameterIdentifiers := by
  rw [Set.disjoint_left]
  rintro _ ⟨n, _, rfl⟩ hparameter
  exact n.not_isParameter_variableName (isParameter_of_mem_identifiers hparameter)

theorem variables_disjoint_helpers : Disjoint g.variableNames Noise.helperNames := by
  rw [Set.disjoint_left]
  rintro _ ⟨n, _, rfl⟩ ⟨uid, heq⟩
  exact n.variableName_ne_helperName uid heq.symm

theorem variables_disjoint_macros :
    Disjoint g.variableNames (Worley.distanceMacros ∪ Worley.combineMacros) := by
  rw [Set.disjoint_left]
  rintro _ ⟨n, _, rfl⟩ hmacro
  obtain ⟨stem, hname, hstem, _⟩ := n.variableName_eq
  exact (Worley.isMacro_of_mem hmacro).ne hstem.underscore_notMem
    (.inr (underscore_notMem_toDigits _)) hname

theorem parameters_disjoint_helpers : Disjoint g.parameterIdentifiers Noise.helperNames := by
  rw [Set.disjoint_left]
  rintro _ hparameter ⟨uid, rfl⟩
  exact (isParameter_of_mem_identifiers hparameter).ne Noise.isStem_helperStem.underscore_notMem
    (.inl (by decide)) (Noise.toList_helperName uid)

theorem parameters_disjoint_macros :
    Disjoint g.parameterIdentifiers (Worley.distanceMacros ∪ Worley.combineMacros) := by
  rw [Set.disjoint_left]
  intro x hparameter hmacro
  obtain ⟨stem, rest, htext, _⟩ := isParameter_of_mem_identifiers hparameter
  exact (Worley.isMacro_of_mem hmacro).ne (by decide) (.inl (by decide)) htext

theorem helpers_disjoint_macros :
    Disjoint Noise.helperNames (Worley.distanceMacros ∪ Worley.combineMacros) := by
  rw [Set.disjoint_left]
  rintro _ ⟨uid, rfl⟩ hmacro
  exact (Worley.isMacro_of_mem hmacro).ne Noise.isStem_helperStem.underscore_notMem
    (.inl (by decide)) (Noise.toList_helperName uid)

/-- Generated names have an underscore. -/
theorem underscore_mem_of_generated {x : String}
    (hx : x ∈ g.variableNames ∪ g.parameterIdentifiers) : '_' ∈ x.toList := by
  rcases hx with ⟨n, _, rfl⟩ | hparameter
  · exact n.underscore_mem_variableName
  · obtain ⟨stem, rest, htext, _⟩ := isParameter_of_mem_identifiers hparameter
    rw [htext]
    simp

/-- Names of the library do not. -/
theorem isLibraryName_of_mem {x : String} (hx : x ∈ NoiseFamily.primitives ∪ Operation.intrinsics) :
    IsLibraryName x := by
  rcases hx with ⟨family, d, rfl⟩ | ⟨op, inputs, value, hvalue, hcall⟩
  · exact family.isLibraryName_primitive d
  · refine Operation.isLibraryName_of_mem_calls ?_ hvalue hcall
    intro e he
    obtain ⟨text, _, rfl⟩ := List.mem_map.mp he
    exact Expr.calls_atom text

/-! ## The main result -/

/-- The variables of nodes are different, and made of letters and digits with the UID behind an
underscore; no generated name is in two of the families, and no variable and no parameter has the
name of a library function. -/
theorem names_never_clash {g : Graph} (hg : g.Built) :
    (∀ n ∈ g.nodes, ∀ m ∈ g.nodes, n ≠ m → n.variableName ≠ m.variableName) ∧
    (∀ n ∈ g.nodes, ∃ stem, IsStem stem ∧
      n.variableName.toList = stem ++ '_' :: (UID.text n.uid).toList) ∧
    [g.variableNames, g.parameterIdentifiers, Noise.helperNames, Worley.distanceMacros,
      Worley.combineMacros].Pairwise Disjoint ∧
    Disjoint (g.variableNames ∪ g.parameterIdentifiers)
      (NoiseFamily.primitives ∪ Operation.intrinsics) := by
  refine ⟨?_, ?_, ?_, ?_⟩
  · -- a variable's name holds the UID, which is the node's own
    intro n hn m hm hne heq
    have huid : n.uid = m.uid := Node.variableName_injective heq
    exact hne (List.inj_on_of_nodup_map hg.wellFormed.nodup hn hm huid)
  · intro n _
    obtain ⟨stem, hname, hstem, _⟩ := n.variableName_eq
    exact ⟨stem, hstem, by rw [hname, UID.toList_text]⟩
  · obtain ⟨hvariables, hvariables'⟩ := Set.disjoint_union_right.mp g.variables_disjoint_macros
    obtain ⟨hparameters, hparameters'⟩ := Set.disjoint_union_right.mp g.parameters_disjoint_macros
    obtain ⟨hhelpers, hhelpers'⟩ := Set.disjoint_union_right.mp helpers_disjoint_macros
    simp only [List.pairwise_cons, List.forall_mem_cons, List.not_mem_nil, false_implies,
      implies_true, and_true, List.Pairwise.nil]
    exact ⟨⟨g.variables_disjoint_parameters, g.variables_disjoint_helpers, hvariables, hvariables'⟩,
      ⟨g.parameters_disjoint_helpers, hparameters, hparameters'⟩, ⟨hhelpers, hhelpers'⟩,
      Worley.disjoint_macros⟩
  · rw [Set.disjoint_left]
    intro x hgenerated hlibrary
    exact (isLibraryName_of_mem hlibrary).2.1 (g.underscore_mem_of_generated hgenerated)

/-- Nodes that are called like a helper and like a parameter. -/
def masquerade : Graph :=
  [Edit.add (.noise ⟨.worley, .one, ⟨"abs($1 - $2)", "$2"⟩⟩), .add (.math .add), .rename 0 "Worley",
    .rename 1 "param", .setInput 1 0 (.node 0), .setOutput (.node 1)].foldl after (.empty "Masks")

theorem names_never_clash_masquerade :
    "nWorley_0" ∈ masquerade.variableNames ∧ "param_1" ∈ masquerade.variableNames ∧
    [masquerade.variableNames, masquerade.parameterIdentifiers, Noise.helperNames,
      Worley.distanceMacros, Worley.combineMacros].Pairwise Disjoint := by
  have hbuilt : masquerade.Built := (Built.empty "Masks").edits _
  refine ⟨?_, ?_, (names_never_clash hbuilt).2.2.1⟩
  · exact ⟨_, List.mem_cons_self, by decide⟩
  · exact ⟨_, List.mem_cons_of_mem _ List.mem_cons_self, by decide⟩

end Graph

end NoiseShader
