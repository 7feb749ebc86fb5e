import NoiseShader.Proofs.Document.Graph

set_option autoImplicit false

/-! # The UIDs of a run

A run edits a graph and, now and then, saves it and loads it again. Its counter is a bound on
its whole history: every UID that was given out lies below it, and every UID that was ever in the
graph does unless the counter is used up. So no UID is given out that was there before
(`Graph.Built.uids_never_reused`).
-/

namespace NoiseShader

/-! ## Runs -/

inductive Step
  | edit (e : Edit)
  /-- The graph is saved as a document and loaded again. -/
  | reload
deriving DecidableEq, Repr

namespace Graph

/-- The graph after a step; a failed one leaves it as it was. -/
def advance (g : Graph) : Step → Graph
  | .edit e => g.after e
  | .reload =>
    match ofDocument g.document with
    | .ok h => h
    | .error _ => g

def run (g : Graph) (steps : List Step) : Graph := steps.foldl advance g

/-- The UID that a step gives out. -/
def given? (g : Graph) : Step → Option UID
  | .edit (.add kind) =>
    match g.add kind with
    | .ok (uid, _) => some uid
    | .error _ => none
  | _ => none

/-- The UIDs that a run gives out, in turn. -/
def given (g : Graph) : List Step → List UID
  | [] => []
  | s :: steps => (g.given? s).toList ++ (g.advance s).given steps

/-- The UIDs that are in the graph at any point of a run, its start and its end included. -/
def everPresent (g : Graph) : List Step → List UID
  | [] => g.uids
  | s :: steps => g.uids ++ (g.advance s).everPresent steps

/-! ## What one step does to the counter -/

theorem add_eq_ok_iff (g : Graph) (kind : Kind) (uid : UID) (h : Graph) :
    g.add kind = .ok (uid, h) ↔ g.nextUID ≠ UID.last ∧ uid = g.nextUID ∧
      h = { g with nodes := g.nodes ++ [Node.ofKind g.nextUID kind], nextUID := g.nextUID.next } := by
  unfold add
  split
  · next hlast => simp [hlast]
  · next hlast =>
      simp only [Except.ok.injEq, Prod.mk.injEq, ne_eq, hlast, not_false_eq_true, true_and]
      exact ⟨fun h => ⟨h.1.symm, h.2.symm⟩, fun h => ⟨h.1.symm, h.2.symm⟩⟩

theorem add_of_exhausted {g : Graph} (h : g.nextUID = UID.last) (kind : Kind) :
    g.add kind = .error .uidsExhausted := if_pos h

theorem after_of_exhausted {g : Graph} (h : g.nextUID = UID.last) (kind : Kind) :
    g.after (.add kind) = g := by
  simp only [after, apply, add_of_exhausted h, Except.map]

theorem nextUID_edit {g h : Graph} {uid : UID} {change : Node → Except EditError Node}
    (he : g.edit uid change = .ok h) : h.nextUID = g.nextUID := by
  obtain ⟨_, _, _, _, rfl⟩ := edit_eq_ok he
  rfl

/-- Edits other than adding a node leave the counter alone. -/
theorem nextUID_apply {g h : Graph} {e : Edit} (he : g.apply e = .ok h)
    (hadd : ∀ kind, e ≠ .add kind) : h.nextUID = g.nextUID := by
  cases e with
  | add kind => exact absurd rfl (hadd kind)
  | remove uid =>
      obtain ⟨r, hr, rfl⟩ := Attempt.map_eq_ok_iff.mp he
      unfold remove at hr
      split at hr
      · cases hr
      · obtain rfl := Except.ok.inj hr
        rfl
  | rename uid name => exact nextUID_edit he
  | setInput uid slot signal => exact nextUID_edit he
  | setInputNamed uid name signal =>
      have hnamed : g.setInputNamed uid name signal = .ok h := he
      unfold setInputNamed at hnamed
      split at hnamed
      · cases hnamed
      · exact nextUID_edit hnamed
  | setPinned uid slot pinned => exact nextUID_edit he
  | reconfigure uid kind => exact nextUID_edit he
  | setOutput signal =>
      obtain rfl := Except.ok.inj he
      rfl
  | setName name =>
      obtain rfl := Except.ok.inj he
      rfl

theorem advance_reload {g : Graph} (hg : g.WellFormed) : g.advance .reload = g := by
  rw [advance, hg.ofDocument_document]

/-- A step gives out the counter and raises it by one, or gives out nothing and leaves it. -/
theorem advance_cases {g : Graph} (hg : g.WellFormed) (s : Step) :
    (g.nextUID ≠ UID.last ∧ g.given? s = some g.nextUID ∧
      (g.advance s).nextUID = g.nextUID.next) ∨
    (g.given? s = none ∧ (g.advance s).nextUID = g.nextUID) := by
  cases s with
  | reload => exact .inr ⟨rfl, by rw [advance_reload hg]⟩
  | edit e =>
      by_cases hadd : ∃ kind, e = .add kind
      · obtain ⟨kind, rfl⟩ := hadd
        by_cases hlast : g.nextUID = UID.last
        · refine .inr ⟨?_, congrArg nextUID (after_of_exhausted hlast kind)⟩
          simp only [given?, add_of_exhausted hlast]
        · have hok := (add_eq_ok_iff g kind _ _).mpr ⟨hlast, rfl, rfl⟩
          refine .inl ⟨hlast, by simp only [given?, hok], ?_⟩
          simp only [advance, after, apply, hok, Except.map]
      · have hother : ∀ kind, e ≠ .add kind := fun kind h => hadd ⟨kind, h⟩
        refine .inr ⟨?_, ?_⟩
        · cases e with
          | add kind => exact absurd rfl (hother kind)
          | _ => rfl
        · show (g.after e).nextUID = g.nextUID
          unfold after
          split
          · next h he => exact nextUID_apply he hother
          · rfl

theorem wellFormed_advance {g : Graph} (hg : g.WellFormed) (s : Step) :
    (g.advance s).WellFormed := by
  cases s with
  | edit e => exact wellFormed_after hg e
  | reload => rw [advance_reload hg]; exact hg

theorem nextUID_le_advance {g : Graph} (hg : g.WellFormed) (s : Step) :
    g.nextUID ≤ (g.advance s).nextUID := by
  rcases advance_cases hg s with ⟨hlast, _, hnext⟩ | ⟨_, hnext⟩
  · rw [hnext]
    exact UInt32.le_of_lt (UID.lt_next hlast)
  · rw [hnext]
    exact UInt32.le_refl _

/-! ## What a run does to the counter -/

theorem wellFormed_run {g : Graph} (hg : g.WellFormed) (steps : List Step) :
    (g.run steps).WellFormed := by
  induction steps generalizing g with
  | nil => exact hg
  | cons s steps ih => exact ih (wellFormed_advance hg s)

theorem nextUID_le_run {g : Graph} (hg : g.WellFormed) (steps : List Step) :
    g.nextUID ≤ (g.run steps).nextUID := by
  induction steps generalizing g with
  | nil => exact UInt32.le_refl _
  | cons s steps ih =>
      exact UInt32.le_trans (nextUID_le_advance hg s) (ih (wellFormed_advance hg s))

/-- What a run gives out lies between its counter at the start and at the end. -/
theorem given_bounds {g : Graph} (hg : g.WellFormed) (steps : List Step) :
    ∀ uid ∈ g.given steps, g.nextUID ≤ uid ∧ uid < (g.run steps).nextUID := by
  induction steps generalizing g with
  | nil => simp [given]
  | cons s steps ih =>
      intro uid huid
      have hg' := wellFormed_advance hg s
      rcases List.mem_append.mp huid with huid | huid
      · rcases advance_cases hg s with ⟨hlast, hgiven, hnext⟩ | ⟨hgiven, _⟩
        · obtain rfl : g.nextUID = uid := by simpa [hgiven, eq_comm] using huid
          refine ⟨UInt32.le_refl _, UInt32.lt_of_lt_of_le (UID.lt_next hlast) ?_⟩
          rw [← hnext]
          exact nextUID_le_run hg' steps
        · simp [hgiven] at huid
      · obtain ⟨hlow, hhigh⟩ := ih hg' uid huid
        exact ⟨UInt32.le_trans (nextUID_le_advance hg s) hlow, hhigh⟩

theorem given_pairwise {g : Graph} (hg : g.WellFormed) (steps : List Step) :
    (g.given steps).Pairwise (· < ·) := by
  induction steps generalizing g with
  | nil => exact .nil
  | cons s steps ih =>
      have hg' := wellFormed_advance hg s
      unfold given
      rcases advance_cases hg s with ⟨hlast, hgiven, hnext⟩ | ⟨hgiven, _⟩
      · rw [hgiven, Option.toList_some, List.singleton_append, List.pairwise_cons]
        refine ⟨?_, ih hg'⟩
        intro uid huid
        have hlow := (given_bounds hg' steps uid huid).1
        rw [hnext] at hlow
        exact UInt32.lt_of_lt_of_le (UID.lt_next hlast) hlow
      · rw [hgiven, Option.toList_none, List.nil_append]
        exact ih hg'

end Graph

theorem UID.Below.mono {uid a b : UID} (h : uid.Below a) (hab : a ≤ b) : uid.Below b := by
  rcases h with hlt | rfl
  · exact .inl (UInt32.lt_of_lt_of_le hlt hab)
  · exact .inr (UInt32.le_antisymm (UID.le_last b) hab)

namespace Graph

/-- The counter bounds everything that was ever in the graph. -/
theorem everPresent_below {g : Graph} (hg : g.WellFormed) (steps : List Step) :
    ∀ uid ∈ g.everPresent steps, uid.Below (g.run steps).nextUID := by
  have hstart : ∀ uid ∈ g.uids, uid.Below (g.run steps).nextUID := by
    intro uid huid
    obtain ⟨n, hn, rfl⟩ := List.mem_map.mp huid
    exact (hg.below n hn).mono (nextUID_le_run hg steps)
  induction steps generalizing g with
  | nil => exact hstart
  | cons s steps ih =>
      intro uid huid
      have hg' := wellFormed_advance hg s
      rcases List.mem_append.mp huid with huid | huid
      · exact hstart uid huid
      · refine ih hg' ?_ uid huid
        intro v hv
        obtain ⟨n, hn, rfl⟩ := List.mem_map.mp hv
        exact (hg'.below n hn).mono (nextUID_le_run hg' steps)

/-! ## The main result -/

/-- Wherever a run stands, adding a node gives out the counter, which no node ever had, and
raises it by one; and once the counter is used up no node can be added. -/
theorem Built.uids_never_reused {g : Graph} (hg : g.Built) (steps : List Step) :
    (g.given steps).Pairwise (· < ·) ∧ UID.last ∉ g.given steps ∧
    ofDocument (g.run steps).document = .ok (g.run steps) ∧
    (∀ more, (g.run steps).nextUID ≤ ((g.run steps).run more).nextUID) ∧
    (∀ kind uid h, (g.run steps).add kind = .ok (uid, h) →
      uid = (g.run steps).nextUID ∧ h.nextUID.toNat = (g.run steps).nextUID.toNat + 1 ∧
      uid ≠ UID.last ∧ uid ∉ g.everPresent steps ∧ ∀ v ∈ g.given steps, v < uid) ∧
    ((g.run steps).nextUID = UID.last → ∀ more kind,
      ((g.run steps).run more).add kind = .error .uidsExhausted ∧
      ((g.run steps).run more).after (.add kind) = (g.run steps).run more) := by
  have hwell := hg.wellFormed
  have hrun := wellFormed_run hwell steps
  refine ⟨given_pairwise hwell steps, ?_, hrun.ofDocument_document, nextUID_le_run hrun, ?_, ?_⟩
  · intro hlast
    have hlt := (given_bounds hwell steps _ hlast).2
    exact UInt32.lt_irrefl _ (UInt32.lt_of_lt_of_le hlt (UID.le_last _))
  · intro kind uid h hadd
    obtain ⟨hlast, rfl, rfl⟩ := (add_eq_ok_iff _ _ _ _).mp hadd
    refine ⟨rfl, UID.toNat_next hlast, hlast, ?_, fun v hv => (given_bounds hwell steps v hv).2⟩
    intro hmem
    rcases everPresent_below hwell steps _ hmem with hlt | hused
    · exact UInt32.lt_irrefl _ hlt
    · exact hlast hused
  · intro hlast more kind
    have hused : ((g.run steps).run more).nextUID = UID.last := by
      refine UInt32.le_antisymm (UID.le_last _) ?_
      rw [← hlast]
      exact nextUID_le_run hrun more
    exact ⟨add_of_exhausted hused kind, after_of_exhausted hused kind⟩

/-- A node is added, removed, and the graph loaded again. -/
def scrapSteps : List Step := [.edit (.add (.math .sin)), .edit (.remove 0), .reload]

/-- The UID of the removed node is not given out a second time. -/
theorem uids_never_reused_scrap : (empty "Scrap").Built ∧
    (empty "Scrap").everPresent scrapSteps = [0] ∧
    ∃ uid h, ((empty "Scrap").run scrapSteps).add (.coordinate .x) = .ok (uid, h) ∧ uid = 1 ∧
      uid ∉ (empty "Scrap").everPresent scrapSteps := by
  obtain ⟨_, _, _, _, hadd, _⟩ := (Built.empty "Scrap").uids_never_reused scrapSteps
  exact ⟨.empty "Scrap", rfl, _, _, rfl, rfl, (hadd (.coordinate .x) _ _ rfl).2.2.2.1⟩

end Graph

end NoiseShader
