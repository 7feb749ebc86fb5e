import NoiseShader.Proofs.Exposure
import NoiseShader.Proofs.Label

set_option autoImplicit false

/-! # What the parameters of a graph are

The parameters stand for the unpinned constants of the nodes in the emission order, and each label
is determined by the labels before it: the plain one if both its parts are free, and else the one
with the least number from two on (`Label.Given`). The set of what is taken is tied to the
parameters that took it (`Taken.Holds`), and a step of the assignment keeps the tie.
-/

namespace NoiseShader

namespace Label

/-- Neither part of the label belongs to one of the parameters. -/
def FreeOf (earlier : List Parameter) (l : Label) : Prop :=
  ∀ p ∈ earlier, l.name ≠ p.label.name ∧ l.identifier ≠ p.label.identifier

/-- The label that a name and an identifier lead to, after some parameters. -/
inductive Given (earlier : List Parameter) (name identifier : String) : Label → Prop
  | plain (free : FreeOf earlier ⟨name, identifier⟩) : Given earlier name identifier ⟨name, identifier⟩
  | numbered (k : Nat) (taken : ¬FreeOf earlier ⟨name, identifier⟩) (two_le : 2 ≤ k)
      (free : FreeOf earlier ⟨name ++ " " ++ toString k, identifier ++ "_" ++ toString k⟩)
      (least : ∀ j, 2 ≤ j → j < k →
        ¬FreeOf earlier ⟨name ++ " " ++ toString j, identifier ++ "_" ++ toString j⟩) :
      Given earlier name identifier ⟨name ++ " " ++ toString k, identifier ++ "_" ++ toString k⟩

end Label

/-! ## What is taken, and by whom -/

namespace Taken

/-- Just the labels of these parameters are taken. -/
def Holds (t : Taken) (earlier : List Parameter) : Prop :=
  ∀ l, t.isFree l = true ↔ l.FreeOf earlier

theorem holds_empty : empty.Holds [] := by
  intro l
  rw [isFree_iff]
  simp [empty, Label.FreeOf]

theorem Holds.insert {t : Taken} {earlier : List Parameter} (h : t.Holds earlier) (p : Parameter) :
    (t.insert p.label).Holds (earlier ++ [p]) := by
  intro l
  rw [isFree_insert, h l]
  unfold Label.FreeOf
  rw [List.forall_mem_append, List.forall_mem_singleton]

theorem Holds.isFree_eq_false {t : Taken} {earlier : List Parameter} (h : t.Holds earlier)
    {l : Label} (hl : t.isFree l = false) : ¬l.FreeOf earlier := by
  intro hfree
  rw [(h l).mpr hfree] at hl
  cases hl

theorem Holds.given {t : Taken} {earlier : List Parameter} (h : t.Holds earlier) (l : Label) :
    Label.Given earlier l.name l.identifier (t.unique l) := by
  rcases t.unique_cases l with ⟨hfree, heq⟩ | ⟨htaken, k, hk, heq, hfree, hleast⟩
  · rw [heq]
    exact .plain ((h l).mp hfree)
  · rw [heq]
    refine .numbered k (h.isFree_eq_false htaken) hk ((h _).mp hfree) ?_
    intro j hj hjk
    exact h.isFree_eq_false (hleast j hj hjk)

end Taken

/-- Each parameter stands for one of the constants, and has the label that is due after the
parameters before it. -/
theorem Parameter.given_of_assign {taken : Taken} {earlier : List Parameter}
    (h : taken.Holds earlier) {ts : List Tunable} {before after : List Parameter} {p : Parameter}
    (hsplit : assign taken ts = before ++ p :: after) :
    ∃ t ∈ ts, p.node = t.node ∧ p.slot = t.slot ∧
      Label.Given (earlier ++ before) t.base.name t.base.identifier p.label := by
  induction ts generalizing taken earlier before with
  | nil => simp [assign] at hsplit
  | cons t ts ih =>
      rw [assign] at hsplit
      cases before with
      | nil =>
          obtain ⟨rfl, _⟩ := List.cons.inj hsplit
          refine ⟨t, List.mem_cons_self, rfl, rfl, ?_⟩
          rw [List.append_nil]
          exact h.given t.base
      | cons q before =>
          -- `q` took the label of `t`, so the rest is labelled with `q` among the earlier ones
          obtain ⟨hq, hrest⟩ := List.cons.inj hsplit
          have hlabel : q.label = taken.unique t.base := by rw [← hq]
          rw [← hlabel] at hrest
          obtain ⟨u, hu, hnode, hslot, hgiven⟩ := ih (h.insert q) hrest
          refine ⟨u, List.mem_cons_of_mem _ hu, hnode, hslot, ?_⟩
          rwa [List.append_assoc, List.singleton_append] at hgiven

namespace Graph

theorem given_of_parameters {g : Graph} {before after : List Parameter} {p : Parameter}
    (h : g.parameters = .ok (before ++ p :: after)) :
    ∃ n s, g.node? p.node = some n ∧ n.slots[p.slot]? = some s ∧
      Label.Given before (n.name ++ " " ++ s.name)
        ("param_" ++ identifier n.name ++ "_" ++ identifier s.name) p.label := by
  obtain ⟨_, _, hsplit⟩ := (parameters_eq_ok_iff g _).mp h
  obtain ⟨t, ht, hnode, hslot, hgiven⟩ := Parameter.given_of_assign Taken.holds_empty hsplit.symm
  obtain ⟨_, n, s, hn, hs, _, hbase⟩ := (mem_tunables g t).mp ht
  rw [hbase] at hgiven
  rw [hnode, hslot]
  exact ⟨n, s, hn, hs, hgiven⟩

theorem isFinite_of_mem_parameters {g : Graph} {ps : List Parameter} (h : g.parameters = .ok ps)
    {p : Parameter} (hp : p ∈ ps) : p.value.isFinite = true := by
  obtain ⟨_, hfinite, rfl⟩ := (parameters_eq_ok_iff g ps).mp h
  have hvalues := Parameter.map_assign (fun _ _ value => value) .empty g.tunables
  have hmem : p.value ∈ g.tunables.map fun t => t.value := by
    rw [← hvalues]
    exact List.mem_map_of_mem hp
  obtain ⟨t, ht, heq⟩ := List.mem_map.mp hmem
  rw [← heq]
  exact hfinite t ht

theorem parameters_labels_nodup {g : Graph} {ps : List Parameter} (h : g.parameters = .ok ps) :
    (ps.map fun p => p.label.name).Nodup ∧ (ps.map fun p => p.label.identifier).Nodup := by
  obtain ⟨_, _, rfl⟩ := (parameters_eq_ok_iff g ps).mp h
  have hpairwise := Parameter.assign_pairwise .empty g.tunables
  simp only [List.Nodup, List.pairwise_map]
  exact ⟨hpairwise.imp And.left, hpairwise.imp And.right⟩

/-- The parameters of a graph, all told: which constants they stand for and in which order, and
how they are labelled. -/
theorem parameters_exact_and_labelled {g : Graph} {ps : List Parameter}
    (h : g.parameters = .ok ps) :
    ∃ plan, g.plan = .ok plan ∧
      (∀ u i x, (∃ p ∈ ps, p.site = (u, i) ∧ p.value = x) ↔
        u ∈ plan.order ∧ ∃ n s, g.node? u = some n ∧ n.slots[i]? = some s ∧
          s.pinned = false ∧ s.signal = .constant x) ∧
      (ps.map Parameter.site).Pairwise (SitePrecedes plan.order) ∧
      (∀ p ∈ ps, p.value.isFinite = true) ∧
      (ps.map fun p => p.label.name).Nodup ∧
      (ps.map fun p => p.label.identifier).Nodup ∧
      ∀ before p after, ps = before ++ p :: after →
        ∃ n s, g.node? p.node = some n ∧ n.slots[p.slot]? = some s ∧
          Label.Given before (n.name ++ " " ++ s.name)
            ("param_" ++ identifier n.name ++ "_" ++ identifier s.name) p.label := by
  obtain ⟨hplannable, _⟩ := (parameters_eq_ok_iff g ps).mp h
  obtain ⟨diagnostics, hplan⟩ := hplannable.exists_plan
  refine ⟨_, hplan, ?_, parameters_ordered h, fun p hp => isFinite_of_mem_parameters h hp,
    (parameters_labels_nodup h).1, (parameters_labels_nodup h).2, ?_⟩
  · intro u i x
    simp only [mem_parameters_iff h, Slot.tunable?_eq_some_iff]
  · rintro before p after rfl
    exact given_of_parameters h

/-- Two sines whose names lead to one identifier, and their sum. -/
def echoes : Graph :=
  [Edit.add (.math .sin), .add (.math .sin), .add (.math .add), .rename 0 "Wave",
    .rename 1 "Wave!", .setInput 2 0 (.node 0), .setInput 2 1 (.node 1),
    .setOutput (.node 2)].foldl after (.empty "Echoes")

theorem echoes_compilable : echoes.Compilable {} := by
  have hkinds : ∀ n ∈ echoes.nodes, n.kind = .math .sin ∨ n.kind = .math .add := by decide
  refine compilable_of_descending (by decide) rfl (by decide) ?_ (by decide) ?_
  · intro target htarget
    obtain rfl : 2 = target := Signal.node.inj htarget
    decide
  · intro n hn noise hnoise
    rcases hkinds n hn with hkind | hkind <;> rw [hkind] at hnoise <;> cases hnoise

/-- The slots that are wired offer nothing. Of the two that are left, one has a number. -/
theorem parameters_exact_and_labelled_echoes : ∃ ps, echoes.parameters = .ok ps ∧
    (¬∃ p ∈ ps, p.site = (2, 0)) ∧
    ∃ before p after, ps = before ++ p :: after ∧ p.site = (1, 0) ∧
      Label.Given before "Wave! Value" "param_Wave_Value" p.label ∧
      ∃ q ∈ ps, q.site = (0, 0) ∧ q.label.identifier ≠ p.label.identifier := by
  obtain ⟨ps, hps⟩ := exists_parameters (s := {}) echoes_compilable
  obtain ⟨plan, hplan, hmem, _, _, _, hidentifiers, hgiven⟩ := parameters_exact_and_labelled hps
  obtain ⟨hplannable, horder⟩ := plan_eq_ok hplan
  have hreached : ∀ u, echoes.Refers 2 u → u ∈ plan.order := by
    intro u hu
    rw [horder]
    exact (mem_emissionOrder hplannable.acyclic u).mpr (Reaches.step ⟨2, rfl, by decide, .refl⟩ hu)
  obtain ⟨p, hp, hsite, _⟩ := (hmem 1 0 Binary32.zero).mpr
    ⟨hreached 1 ⟨_, rfl, by decide, by decide⟩, _, _, rfl, rfl, rfl, rfl⟩
  obtain ⟨q, hq, hsite', _⟩ := (hmem 0 0 Binary32.zero).mpr
    ⟨hreached 0 ⟨_, rfl, by decide, by decide⟩, _, _, rfl, rfl, rfl, rfl⟩
  refine ⟨ps, hps, ?_, ?_⟩
  · rintro ⟨r, hr, hsite⟩
    obtain ⟨_, n, s, hn, hs, _, hsignal⟩ := (hmem 2 0 r.value).mp ⟨r, hr, hsite, rfl⟩
    obtain rfl := Option.some.inj hn
    obtain rfl := Option.some.inj hs
    cases hsignal
  · obtain ⟨before, after, hsplit⟩ := List.append_of_mem hp
    obtain ⟨n, s, hn, hs, hlabel⟩ := hgiven before p after hsplit
    obtain ⟨hnode, hslot⟩ := Prod.mk.inj hsite
    rw [hnode] at hn
    rw [hslot] at hs
    obtain rfl := Option.some.inj hn
    obtain rfl := Option.some.inj hs
    refine ⟨before, p, after, hsplit, hsite, hlabel, q, hq, hsite', ?_⟩
    intro heq
    obtain rfl := List.inj_on_of_nodup_map hidentifiers hq hp heq
    rw [hsite] at hsite'
    cases hsite'

end Graph

end NoiseShader
