import NoiseShader.Parameter
import NoiseShader.Proofs.Name
import Mathlib.Data.List.Nodup
import Mathlib.Data.List.Perm.Subperm

set_option autoImplicit false

/-! # Labels of parameters

A label that is taken gets the least number from two on that makes both its parts free. Such a
number is always found within the bound of the search (`Taken.unique_cases`), because every part in
use spoils one number at most. So no two parameters share a name or an identifier
(`Parameter.assign_pairwise`), and every identifier is `param`, an underscore, letters and digits,
another underscore and more (`Label.IsParameter`).
-/

namespace NoiseShader

/-! ## The search for a free number -/

/-- Texts that differ in the number at their end differ. -/
theorem append_toString_injective (front : String) {j k : Nat}
    (h : front ++ toString j = front ++ toString k) : j = k := by
  have hlist := congrArg String.toList h
  simp only [String.toList_append, Nat.toString_eq_ofList_toDigits, String.toList_ofList] at hlist
  exact toDigits_injective (List.append_cancel_left hlist)

namespace Taken

theorem isFree_iff (t : Taken) (l : Label) :
    t.isFree l = true ↔ l.name ∉ t.names ∧ l.identifier ∉ t.identifiers := by
  simp only [isFree, Bool.and_eq_true, Bool.not_eq_true', Bool.eq_false_iff, ne_eq,
    Std.TreeSet.contains_iff_mem]

theorem isFree_insert (t : Taken) (l m : Label) :
    (t.insert l).isFree m = true ↔
      t.isFree m = true ∧ m.name ≠ l.name ∧ m.identifier ≠ l.identifier := by
  rw [isFree_iff, isFree_iff]
  unfold insert
  simp only [Std.TreeSet.mem_insert, Std.LawfulEqCmp.compare_eq_iff_eq, not_or]
  constructor
  · rintro ⟨⟨hname, hnames⟩, hidentifier, hidentifiers⟩
    exact ⟨⟨hnames, hidentifiers⟩, fun h => hname h.symm, fun h => hidentifier h.symm⟩
  · rintro ⟨⟨hnames, hidentifiers⟩, hname, hidentifier⟩
    exact ⟨⟨fun h => hname h.symm, hnames⟩, fun h => hidentifier h.symm, hidentifiers⟩

/-- The search stops at the first free number, or behind the last one that it tries. -/
theorem leastFree_cases (t : Taken) (l : Label) (tries k : Nat) :
    ∃ j ≤ tries, t.leastFree l tries k = k + j ∧
      (∀ i < j, t.isFree (l.numbered (k + i)) = false) ∧
      (j < tries → t.isFree (l.numbered (k + j)) = true) := by
  induction tries generalizing k with
  | zero => exact ⟨0, Nat.le_refl 0, rfl, by simp, by simp⟩
  | succ tries ih =>
      unfold leastFree
      by_cases hfree : t.isFree (l.numbered k) = true
      · rw [if_pos hfree]
        exact ⟨0, Nat.zero_le _, rfl, by simp, fun _ => hfree⟩
      · rw [if_neg hfree]
        obtain ⟨j, hj, hresult, hspoiled, hlast⟩ := ih (k + 1)
        refine ⟨j + 1, by omega, by omega, ?_, ?_⟩
        · intro i hi
          cases i with
          | zero => simpa using hfree
          | succ i =>
              rw [show k + (i + 1) = k + 1 + i by omega]
              exact hspoiled i (by omega)
        · intro hlt
          rw [show k + (j + 1) = k + 1 + j by omega]
          exact hlast (by omega)

/-- Numbers that lead to different elements of a set are no more than the set has elements. -/
theorem length_le_size {f : Nat → String} (hf : ∀ j k, f j = f k → j = k) {ks : List Nat}
    (hks : ks.Nodup) {set : Std.TreeSet String} (h : ∀ k ∈ ks, f k ∈ set) :
    ks.length ≤ set.size := by
  have hnodup : (ks.map f).Nodup := hks.map hf
  have hsubset : ks.map f ⊆ set.toList := by
    intro x hx
    obtain ⟨k, hk, rfl⟩ := List.mem_map.mp hx
    exact Std.TreeSet.mem_toList.mpr (h k hk)
  have hle := (List.subperm_of_subset hnodup hsubset).length_le
  rwa [List.length_map, Std.TreeSet.length_toList] at hle

/-- Each name and each identifier in use spoils one number at most. -/
theorem spoiled_le (t : Taken) (l : Label) {ks : List Nat} (hks : ks.Nodup)
    (h : ∀ k ∈ ks, t.isFree (l.numbered k) = false) :
    ks.length ≤ t.names.size + t.identifiers.size := by
  -- the numbers that are spoiled by a name, and those that are not
  have hnames : (ks.filter fun k => t.names.contains (l.numbered k).name).length ≤ t.names.size := by
    refine length_le_size (fun _ _ => append_toString_injective (l.name ++ " ")) (hks.filter _) ?_
    intro k hk
    exact Std.TreeSet.contains_iff_mem.mp (List.mem_filter.mp hk).2
  have hidentifiers : (ks.filter fun k => !t.names.contains (l.numbered k).name).length ≤
      t.identifiers.size := by
    refine length_le_size (fun _ _ => append_toString_injective (l.identifier ++ "_"))
      (hks.filter _) ?_
    intro k hk
    obtain ⟨hmem, hname⟩ := List.mem_filter.mp hk
    have hspoiled := h k hmem
    rw [isFree, hname, Bool.true_and, Bool.not_eq_false'] at hspoiled
    exact Std.TreeSet.contains_iff_mem.mp hspoiled
  have htotal := List.length_eq_length_filter_add (l := ks)
    (fun k => t.names.contains (l.numbered k).name)
  omega

/-- A label that is free stays as it is; one that is not gets the least number from two on with
which it is free. -/
theorem unique_cases (t : Taken) (l : Label) :
    (t.isFree l = true ∧ t.unique l = l) ∨
      (t.isFree l = false ∧ ∃ k, 2 ≤ k ∧ t.unique l = l.numbered k ∧
        t.isFree (l.numbered k) = true ∧
        ∀ i, 2 ≤ i → i < k → t.isFree (l.numbered i) = false) := by
  unfold unique
  by_cases hfree : t.isFree l = true
  · exact .inl ⟨hfree, by rw [if_pos hfree]⟩
  · right
    rw [if_neg hfree]
    obtain ⟨j, hj, hresult, hspoiled, hlast⟩ :=
      t.leastFree_cases l (t.names.size + t.identifiers.size) 2
    refine ⟨by simpa using hfree, 2 + j, by omega, by rw [hresult], ?_, ?_⟩
    · -- otherwise all numbers tried are spoiled, and the one behind them as well
      by_contra hnot
      have hall : ∀ k ∈ List.range' 2 (j + 1), t.isFree (l.numbered k) = false := by
        intro k hk
        obtain ⟨hge, hlt⟩ := List.mem_range'_1.mp hk
        by_cases heq : k = 2 + j
        · rw [heq]
          simpa using hnot
        · have hk' := hspoiled (k - 2) (by omega)
          rwa [show 2 + (k - 2) = k by omega] at hk'
      have hle := t.spoiled_le l List.nodup_range' hall
      rw [List.length_range'] at hle
      exact hnot (hlast (by omega))
    · intro i hge hlt
      have hi := hspoiled (i - 2) (by omega)
      rwa [show 2 + (i - 2) = i by omega] at hi

theorem isFree_unique (t : Taken) (l : Label) : t.isFree (t.unique l) = true := by
  rcases t.unique_cases l with ⟨hfree, heq⟩ | ⟨_, k, _, heq, hfree, _⟩
  · rw [heq]
    exact hfree
  · rw [heq]
    exact hfree

end Taken

/-! ## The labels that are given -/

namespace Parameter

/-- A label is given only if it is free. -/
theorem isFree_of_mem_assign {taken : Taken} {ts : List Tunable} {p : Parameter}
    (hp : p ∈ assign taken ts) : taken.isFree p.label = true := by
  induction ts generalizing taken with
  | nil => cases hp
  | cons t ts ih =>
      rcases List.mem_cons.mp hp with rfl | hp
      · exact taken.isFree_unique t.base
      · exact ((taken.isFree_insert _ _).mp (ih hp)).1

theorem assign_pairwise (taken : Taken) (ts : List Tunable) :
    (assign taken ts).Pairwise fun p q =>
      p.label.name ≠ q.label.name ∧ p.label.identifier ≠ q.label.identifier := by
  induction ts generalizing taken with
  | nil => exact .nil
  | cons t ts ih =>
      refine .cons ?_ (ih _)
      intro q hq
      have hfree := (taken.isFree_insert _ _).mp (isFree_of_mem_assign hq)
      exact ⟨hfree.2.1.symm, hfree.2.2.symm⟩

/-- The label of a parameter is that of its constant, or has a number as well. -/
theorem label_of_mem_assign {taken : Taken} {ts : List Tunable} {p : Parameter}
    (hp : p ∈ assign taken ts) :
    ∃ t ∈ ts, p.label = t.base ∨ ∃ k, p.label = t.base.numbered k := by
  induction ts generalizing taken with
  | nil => cases hp
  | cons t ts ih =>
      rcases List.mem_cons.mp hp with rfl | hp
      · refine ⟨t, List.mem_cons_self, ?_⟩
        rcases taken.unique_cases t.base with ⟨_, heq⟩ | ⟨_, k, _, heq, _⟩
        · exact .inl heq
        · exact .inr ⟨k, heq⟩
      · obtain ⟨u, hu, hlabel⟩ := ih hp
        exact ⟨u, List.mem_cons_of_mem _ hu, hlabel⟩

end Parameter

/-! ## The form of identifiers -/

namespace Label

/-- `param`, an underscore, letters and digits, another underscore, and what else a word can
hold. -/
def IsParameter (text : List Char) : Prop :=
  ∃ stem rest, text = "param".toList ++ '_' :: (stem ++ '_' :: rest) ∧ IsStem stem ∧
    ∀ c ∈ rest, Shading.Token.isWordChar c = true

theorem isParameter_ofSlot (n : Node) (s : Slot) : IsParameter (ofSlot n s).identifier.toList := by
  refine ⟨(NoiseShader.identifier n.name).toList, (NoiseShader.identifier s.name).toList, ?_,
    isStem_identifier n.name, ?_⟩
  · simp [ofSlot]
  · intro c hc
    have halphanumeric := (isStem_identifier s.name).alphanumeric c hc
    simp [Shading.Token.isWordChar, halphanumeric]

theorem IsParameter.numbered {l : Label} (h : IsParameter l.identifier.toList) (k : Nat) :
    IsParameter (l.numbered k).identifier.toList := by
  obtain ⟨stem, rest, htext, hstem, hrest⟩ := h
  refine ⟨stem, rest ++ '_' :: Nat.toDigits 10 k, ?_, hstem, ?_⟩
  · simp [Label.numbered, htext]
  · intro c hc
    rcases List.mem_append.mp hc with hc | hc
    · exact hrest c hc
    · rcases List.mem_cons.mp hc with rfl | hc
      · rfl
      · exact Shading.Token.isWordChar_of_isDigit
          (Nat.isDigit_of_mem_toDigits (by decide) (by decide) hc)

theorem IsParameter.isWord {text : List Char} (h : IsParameter text) :
    Shading.Token.IsWord text := by
  obtain ⟨stem, rest, rfl, hstem, hrest⟩ := h
  refine ⟨'p', "aram".toList ++ '_' :: (stem ++ '_' :: rest), rfl, by decide, ?_⟩
  intro c hc
  rcases List.mem_append.mp hc with hc | hc
  · have haram : "aram".toList.all Shading.Token.isWordChar = true := by decide
    exact List.all_eq_true.mp haram c hc
  · rcases List.mem_cons.mp hc with rfl | hc
    · rfl
    · rcases List.mem_append.mp hc with hc | hc
      · simp [Shading.Token.isWordChar, hstem.alphanumeric c hc]
      · rcases List.mem_cons.mp hc with rfl | hc
        · rfl
        · exact hrest c hc

/-- Before the first underscore stands `param`, and there is another underscore behind it. -/
theorem IsParameter.ne {text : List Char} (h : IsParameter text) {stem rest : List Char}
    (hstem : '_' ∉ stem) (hother : stem ≠ "param".toList ∨ '_' ∉ rest) :
    text ≠ stem ++ '_' :: rest := by
  obtain ⟨stem', rest', rfl, _, _⟩ := h
  intro heq
  obtain ⟨hparam, hrest⟩ := split_at_first (by decide) hstem heq
  rcases hother with hne | hnot
  · exact hne hparam.symm
  · apply hnot
    rw [← hrest]
    simp

end Label

/-- All identifiers of parameters have the form. -/
theorem Parameter.isParameter_of_mem_assign {taken : Taken} {ts : List Tunable}
    (hts : ∀ t ∈ ts, Label.IsParameter t.base.identifier.toList) {p : Parameter}
    (hp : p ∈ assign taken ts) : Label.IsParameter p.label.identifier.toList := by
  obtain ⟨t, ht, hlabel | ⟨k, hlabel⟩⟩ := label_of_mem_assign hp
  · rw [hlabel]
    exact hts t ht
  · rw [hlabel]
    exact (hts t ht).numbered k

end NoiseShader
