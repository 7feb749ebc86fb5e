import NoiseShader.Proofs.Denotation

set_option autoImplicit false

/-! # Names in statements

The names that a term reads and the functions that it calls, and which of them there are in what
nodes compile to: a noise node or an operation reads what its inputs read, all of it and nothing
else (`Kind.mem_references_expression`), and it calls library functions, and a helper exactly if it is
noise with formulas of its own (`Kind.helperName_mem_calls_expression`).
-/

namespace NoiseShader

namespace Shading

namespace Term

mutual

/-- The names that a term reads. -/
def references : Term → List String
  | literal _ => []
  | reference name => [name]
  | negate operand => operand.references
  | binary _ left right => left.references ++ right.references
  | call _ arguments => referencesAll arguments
  | member object _ => object.references

def referencesAll : List Term → List String
  | [] => []
  | t :: ts => t.references ++ referencesAll ts

end

mutual

/-- The functions that a term calls. -/
def calls : Term → List String
  | literal _ => []
  | reference _ => []
  | negate operand => operand.calls
  | binary _ left right => left.calls ++ right.calls
  | call function arguments => function :: callsAll arguments
  | member object _ => object.calls

def callsAll : List Term → List String
  | [] => []
  | t :: ts => t.calls ++ callsAll ts

end

end Term

namespace Expr

theorem mem_references_terms (x : String) (es : List Expr) :
    x ∈ Term.referencesAll (terms es) ↔ ∃ e ∈ es, x ∈ e.term.references := by
  induction es with
  | nil => simp [terms, Term.referencesAll]
  | cons e es ih => simp [terms, Term.referencesAll, ih]

theorem mem_calls_terms (f : String) (es : List Expr) :
    f ∈ Term.callsAll (terms es) ↔ ∃ e ∈ es, f ∈ e.term.calls := by
  induction es with
  | nil => simp [terms, Term.callsAll]
  | cons e es ih => simp [terms, Term.callsAll, ih]

theorem allReadable_iff (es : List Expr) : AllReadable es ↔ ∀ e ∈ es, e.Readable := by
  induction es with
  | nil => simp [AllReadable]
  | cons e es ih => simp [AllReadable, ih]

/-- Literals and names call nothing. -/
theorem calls_atom (text : String) : (atom text).term.calls = [] := by
  rw [term]
  unfold atomTerm
  split
  · rfl
  · split <;> rfl
  · rfl

theorem references_word {text : String} (h : Token.IsWord text.toList) :
    (atom text).term.references = [text] := by
  rw [term, atomTerm_word h, Term.references]

/-- The literal of a number holds no name. -/
theorem references_constant {x : Binary32} {text : String} (h : literal? x = some text) :
    (atom text).term.references = [] := by
  rw [(term_constant h).2]
  split <;> rfl

end Expr

end Shading

open Shading

/-! ## Operations -/

section

variable {inputs : List Expr} {value : Expr} {op : Operation}

theorem exists_of_length_five {es : List Expr} (h : es.length = 5) :
    ∃ a b c d e, es = [a, b, c, d, e] := by
  obtain ⟨a, rest, rfl⟩ := List.exists_cons_of_length_eq_add_one h
  obtain ⟨b, rest, rfl⟩ := List.exists_cons_of_length_eq_add_one (Nat.succ.inj h)
  obtain ⟨c, d, e, rfl⟩ := List.length_eq_three.mp (Nat.succ.inj (Nat.succ.inj h))
  exact ⟨a, b, c, d, e, rfl⟩

theorem Operation.readable_expression (hinputs : ∀ e ∈ inputs, e.Readable)
    (hlength : inputs.length = op.slots.length) (h : op.expression? inputs = some value) :
    value.Readable := by
  cases op with
  | add | subtract | multiply | divide =>
      obtain ⟨a, b, rfl⟩ := List.length_eq_two.mp hlength
      obtain rfl := Option.some.inj h
      exact ⟨hinputs a (by simp), hinputs b (by simp)⟩
  | negate =>
      obtain ⟨a, rfl⟩ := List.length_eq_one_iff.mp hlength
      obtain rfl := Option.some.inj h
      exact hinputs a (by simp)
  | oneMinus =>
      obtain ⟨a, rfl⟩ := List.length_eq_one_iff.mp hlength
      obtain rfl := Option.some.inj h
      exact ⟨.inr (.inl (by decide)), hinputs a (by simp)⟩
  | remap =>
      obtain ⟨v, fromMin, fromMax, toMin, toMax, rfl⟩ := exists_of_length_five hlength
      obtain rfl := Option.some.inj h
      simp only [List.forall_mem_cons] at hinputs
      obtain ⟨hv, hfromMin, hfromMax, htoMin, htoMax, _⟩ := hinputs
      exact ⟨htoMin, ⟨⟨hv, hfromMin⟩, htoMax, htoMin⟩, hfromMax, hfromMin⟩
  | power | min | max | modulo | step | abs | floor | ceil | frac | sqrt | sin | cos | saturate
  | lerp | clamp | smoothStep =>
      obtain rfl := Option.some.inj h
      exact ⟨by decide, (Expr.allReadable_iff inputs).mpr hinputs⟩

/-- An operation reads all its inputs, and nothing else. -/
theorem Operation.mem_references_expression (hlength : inputs.length = op.slots.length)
    (h : op.expression? inputs = some value) (x : String) :
    x ∈ value.term.references ↔ ∃ e ∈ inputs, x ∈ e.term.references := by
  cases op with
  | add | subtract | multiply | divide =>
      obtain ⟨a, b, rfl⟩ := List.length_eq_two.mp hlength
      obtain rfl := Option.some.inj h
      simp [Expr.term, Term.references]
  | negate =>
      obtain ⟨a, rfl⟩ := List.length_eq_one_iff.mp hlength
      obtain rfl := Option.some.inj h
      simp [Expr.term, Term.references]
  | oneMinus =>
      obtain ⟨a, rfl⟩ := List.length_eq_one_iff.mp hlength
      obtain rfl := Option.some.inj h
      have hone : Expr.atomTerm "1.0" = .literal "1.0" := Expr.atomTerm_literal (by decide)
      simp [Expr.term, Term.references, hone]
  | remap =>
      obtain ⟨v, fromMin, fromMax, toMin, toMax, rfl⟩ := exists_of_length_five hlength
      obtain rfl := Option.some.inj h
      simp only [Expr.term, Term.references, List.mem_append, List.exists_mem_cons_iff,
        List.not_mem_nil, false_and, exists_false, or_false]
      tauto
  | power | min | max | modulo | step | abs | floor | ceil | frac | sqrt | sin | cos | saturate
  | lerp | clamp | smoothStep =>
      obtain rfl := Option.some.inj h
      exact Expr.mem_references_terms x inputs

/-- What an operation calls by itself is in the library. -/
theorem Operation.isLibraryName_of_mem_calls (hinputs : ∀ e ∈ inputs, e.term.calls = [])
    (h : op.expression? inputs = some value) {f : String} (hf : f ∈ value.term.calls) :
    IsLibraryName f := by
  have hcall : ∀ name, f ∈ (Expr.call name inputs).term.calls → f = name := by
    intro name hname
    rcases List.mem_cons.mp hname with hname | hname
    · exact hname
    · obtain ⟨e, he, hcalls⟩ := (Expr.mem_calls_terms f inputs).mp hname
      rw [hinputs e he] at hcalls
      cases hcalls
  cases op with
  | add | subtract | multiply | divide =>
      rcases inputs with _ | ⟨a, _ | ⟨b, _⟩⟩
      · cases h
      · cases h
      · obtain rfl := Option.some.inj h
        simp [Expr.term, Term.calls, hinputs] at hf
  | negate =>
      rcases inputs with _ | ⟨a, _⟩
      · cases h
      · obtain rfl := Option.some.inj h
        simp [Expr.term, Term.calls, hinputs] at hf
  | oneMinus =>
      rcases inputs with _ | ⟨a, _⟩
      · cases h
      · obtain rfl := Option.some.inj h
        have hone : (Expr.atomTerm "1.0").calls = [] := Expr.calls_atom "1.0"
        simp [Expr.term, Term.calls, hone, hinputs] at hf
  | remap =>
      rcases inputs with _ | ⟨v, _ | ⟨fromMin, _ | ⟨fromMax, _ | ⟨toMin, _ | ⟨toMax, _⟩⟩⟩⟩⟩
      iterate 5 cases h
      obtain rfl := Option.some.inj h
      simp [Expr.term, Term.calls, hinputs] at hf
  | power | min | max | modulo | step | abs | floor | ceil | frac | sqrt | sin | cos | saturate
  | lerp | clamp | smoothStep =>
      obtain rfl := Option.some.inj h
      rw [hcall _ hf]
      decide

end

/-! ## Noise -/

theorem Noise.not_isLibraryName_helperName (uid : UID) : ¬ IsLibraryName (Noise.helperName uid) := by
  intro h
  apply h.2.1
  rw [Noise.toList_helperName]
  simp

section

variable (d : Dimension) {es : List Expr}

theorem readable_positionArguments (h : ∀ e ∈ es, e.Readable) :
    ∀ e ∈ positionArguments d es, e.Readable := by
  cases d with
  | one => exact h
  | two | three =>
      intro e he
      obtain rfl := List.mem_singleton.mp he
      exact ⟨by decide, (Expr.allReadable_iff es).mpr h⟩

theorem mem_references_positionArguments (x : String) :
    (∃ e ∈ positionArguments d es, x ∈ e.term.references) ↔ ∃ e ∈ es, x ∈ e.term.references := by
  cases d with
  | one => rfl
  | two | three =>
      simp only [positionArguments, List.mem_singleton, exists_eq_left]
      exact Expr.mem_references_terms x es

/-- A vector is made by a call of its type. -/
theorem isLibraryName_of_mem_positionArguments (h : ∀ e ∈ es, e.term.calls = []) :
    ∀ e ∈ positionArguments d es, ∀ f ∈ e.term.calls, IsLibraryName f := by
  cases d with
  | one =>
      intro e he f hf
      rw [h e he] at hf
      cases hf
  | two | three =>
      intro e he f hf
      obtain rfl := List.mem_singleton.mp he
      rcases List.mem_cons.mp hf with rfl | hf
      · decide
      · obtain ⟨e, he, hf⟩ := (Expr.mem_calls_terms f es).mp hf
        rw [h e he] at hf
        cases hf

end

namespace Noise

variable {noise : Noise} {uid : UID} {inputs : List Expr} {value : Expr}

/-- The inputs in the order of the slots, and where they stand in the expression. -/
theorem expression?_parts (hlength : inputs.length = noise.slots.length)
    (h : noise.expression? uid inputs = some value) :
    ∃ position scale weight variance p further,
      inputs = position ++ scale :: weight :: variance ∧
      positionArguments noise.dimension position = [p] ∧
      (further = positionArguments noise.dimension variance ∨ (variance = [] ∧ further = [])) ∧
      value = .binary .multiply weight
        (.call (noise.functionName uid) (.binary .multiply scale p :: further)) := by
  rw [length_slots] at hlength
  unfold expression? at h
  simp only at h
  split at h
  · next p scale weight variance hp hdrop =>
      have hinputs : inputs = inputs.take noise.dimension.count ++ scale :: weight :: variance := by
        rw [← hdrop, List.take_append_drop]
      have hvariance := congrArg List.length hdrop
      rw [List.length_drop, List.length_cons, List.length_cons] at hvariance
      split at h
      · -- as many components of the variance are left as the position has
        next hfamily =>
          rw [if_pos hfamily] at hlength
          have hcount : variance.length = noise.dimension.count := by omega
          rw [if_neg (by omega), ← hcount, List.take_length] at h
          exact ⟨_, scale, weight, variance, p, _, hinputs, hp, .inl rfl, (Option.some.inj h).symm⟩
      · -- nothing is left behind the weight
        next hfamily =>
          rw [if_neg (by simpa using hfamily)] at hlength
          have hnil : variance = [] := List.eq_nil_of_length_eq_zero (by omega)
          exact ⟨_, scale, weight, variance, p, _, hinputs, hp, .inr ⟨hnil, rfl⟩,
            (Option.some.inj h).symm⟩
  · cases h

theorem readable_expression (hinputs : ∀ e ∈ inputs, e.Readable)
    (hlength : inputs.length = noise.slots.length) (h : noise.expression? uid inputs = some value) :
    value.Readable := by
  obtain ⟨position, scale, weight, variance, p, further, rfl, hp, hfurther, rfl⟩ :=
    expression?_parts hlength h
  simp only [List.forall_mem_append, List.forall_mem_cons] at hinputs
  obtain ⟨hposition, hscale, hweight, hvariance⟩ := hinputs
  have hpReadable : p.Readable := by
    refine readable_positionArguments noise.dimension hposition p ?_
    rw [hp]
    exact List.mem_cons_self
  have hfurtherReadable : ∀ e ∈ further, e.Readable := by
    rcases hfurther with rfl | ⟨_, rfl⟩
    · exact readable_positionArguments noise.dimension hvariance
    · simp
  have hword : Token.IsWord (noise.functionName uid).toList := by
    unfold functionName
    split
    · exact isWord_helperName uid
    · exact (noise.family.isLibraryName_primitive noise.dimension).1
  exact ⟨hweight, hword, ⟨hscale, hpReadable⟩, (Expr.allReadable_iff further).mpr hfurtherReadable⟩

/-- Noise reads all its inputs, and nothing else. -/
theorem mem_references_expression (hlength : inputs.length = noise.slots.length)
    (h : noise.expression? uid inputs = some value) (x : String) :
    x ∈ value.term.references ↔ ∃ e ∈ inputs, x ∈ e.term.references := by
  obtain ⟨position, scale, weight, variance, p, further, rfl, hp, hfurther, rfl⟩ :=
    expression?_parts hlength h
  have hposition : x ∈ p.term.references ↔ ∃ e ∈ position, x ∈ e.term.references := by
    rw [← mem_references_positionArguments noise.dimension, hp]
    simp
  have hvariance : (∃ e ∈ further, x ∈ e.term.references) ↔
      ∃ e ∈ variance, x ∈ e.term.references := by
    rcases hfurther with rfl | ⟨rfl, rfl⟩
    · exact mem_references_positionArguments noise.dimension x
    · rfl
  simp only [Expr.term, Expr.terms, Term.references, Term.referencesAll, List.mem_append,
    Expr.mem_references_terms, hposition, hvariance, or_and_right, exists_or, List.mem_cons,
    exists_eq_left]
  simp only [or_assoc, or_left_comm]

/-- Noise calls its function; all else that it calls is in the library. -/
theorem mem_calls_expression (hinputs : ∀ e ∈ inputs, e.term.calls = [])
    (hlength : inputs.length = noise.slots.length) (h : noise.expression? uid inputs = some value) :
    noise.functionName uid ∈ value.term.calls ∧
      ∀ f ∈ value.term.calls, f = noise.functionName uid ∨ IsLibraryName f := by
  obtain ⟨position, scale, weight, variance, p, further, rfl, hp, hfurther, rfl⟩ :=
    expression?_parts hlength h
  simp only [List.forall_mem_append, List.forall_mem_cons] at hinputs
  obtain ⟨hposition, hscale, hweight, hvariance⟩ := hinputs
  have hpCalls : ∀ f ∈ p.term.calls, IsLibraryName f := by
    refine isLibraryName_of_mem_positionArguments noise.dimension hposition p ?_
    rw [hp]
    exact List.mem_cons_self
  have hfurtherCalls : ∀ e ∈ further, ∀ f ∈ e.term.calls, IsLibraryName f := by
    rcases hfurther with rfl | ⟨_, rfl⟩
    · exact isLibraryName_of_mem_positionArguments noise.dimension hvariance
    · simp
  simp only [Expr.term, Expr.terms, Term.calls, Term.callsAll, hscale, hweight, List.nil_append,
    List.mem_cons, List.mem_append, Expr.mem_calls_terms]
  refine ⟨.inl trivial, ?_⟩
  rintro f (rfl | hf | ⟨e, he, hf⟩)
  · exact .inl rfl
  · exact .inr (hpCalls f hf)
  · exact .inr (hfurtherCalls e he f hf)

/-- A helper is called by the noise that it was made for, and by no other. -/
theorem helperName_mem_calls_expression (hinputs : ∀ e ∈ inputs, e.term.calls = [])
    (hlength : inputs.length = noise.slots.length) (h : noise.expression? uid inputs = some value)
    (v : UID) : helperName v ∈ value.term.calls ↔ noise.isCustom = true ∧ v = uid := by
  obtain ⟨hcalled, hcalls⟩ := mem_calls_expression hinputs hlength h
  constructor
  · intro hv
    -- the function of the noise is a helper or in the library, and no helper is in the library
    rcases hcalls _ hv with hv | hv
    · unfold functionName at hv
      split at hv
      · next hcustom => exact ⟨hcustom, helperName_injective hv⟩
      · have hprimitive := noise.family.isLibraryName_primitive noise.dimension
        rw [← hv] at hprimitive
        exact absurd hprimitive (not_isLibraryName_helperName v)
    · exact absurd hv (not_isLibraryName_helperName v)
  · rintro ⟨hcustom, rfl⟩
    rwa [functionName, if_pos hcustom] at hcalled

end Noise

/-! ## Kinds -/

namespace Kind

variable {kind : Kind} {uid : UID} {seed : String} {inputs : List Expr} {value : Expr}

/-- All but coordinates can be read if their inputs can, whatever the name of the seed is. -/
theorem readable_expression (hkind : ∀ axis, kind ≠ .coordinate axis)
    (hinputs : ∀ e ∈ inputs, e.Readable) (hlength : inputs.length = kind.slots.length)
    (h : kind.expression? uid seed inputs = some value) : value.Readable := by
  cases kind with
  | noise noise => exact Noise.readable_expression hinputs hlength h
  | math op => exact Operation.readable_expression hinputs hlength h
  | coordinate axis => exact absurd rfl (hkind axis)

theorem mem_references_expression (hkind : ∀ axis, kind ≠ .coordinate axis)
    (hlength : inputs.length = kind.slots.length)
    (h : kind.expression? uid seed inputs = some value) (x : String) :
    x ∈ value.term.references ↔ ∃ e ∈ inputs, x ∈ e.term.references := by
  cases kind with
  | noise noise => exact Noise.mem_references_expression hlength h x
  | math op => exact Operation.mem_references_expression hlength h x
  | coordinate axis => exact absurd rfl (hkind axis)

theorem helperName_mem_calls_expression (hinputs : ∀ e ∈ inputs, e.term.calls = [])
    (hlength : inputs.length = kind.slots.length)
    (h : kind.expression? uid seed inputs = some value) (v : UID) :
    Noise.helperName v ∈ value.term.calls ↔
      v = uid ∧ ∃ noise, kind = .noise noise ∧ noise.isCustom = true := by
  cases kind with
  | noise noise =>
      rw [Noise.helperName_mem_calls_expression hinputs hlength h, and_comm]
      simp
  | math op =>
      constructor
      · intro hv
        exact absurd (Operation.isLibraryName_of_mem_calls hinputs h hv)
          (Noise.not_isLibraryName_helperName v)
      · rintro ⟨_, noise, hnoise, _⟩
        cases hnoise
  | coordinate axis =>
      obtain rfl := Option.some.inj h
      simp [Expr.term, Term.calls]

end Kind

end NoiseShader
