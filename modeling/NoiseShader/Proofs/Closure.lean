import NoiseShader.Proofs.Extraction
import NoiseShader.Proofs.Helper
import NoiseShader.Proofs.Namespace

set_option autoImplicit false

/-! # Shader files are closed

Whatever a generated file uses, it has: its statements read parameters of the signature, the seed
and variables that are declared before, they call helpers that stand in front of the function, and the
seed has every axis that is read (`Graph.shader_file_closed`). In return, all that the file has is
used: every helper is called by the statement of its node, every parameter is read in one slot of one
statement, and a seed whose dimension is not fixed has no more components than are read.
-/

namespace NoiseShader

open Shading

/-! ## What is closed -/

/-- All axes of the seed that are read by nodes of the order are there in the dimension. -/
def Graph.AxesFit (g : Graph) (order : List UID) (d : Dimension) : Prop :=
  ∀ u ∈ order, ∀ n axis, g.node? u = some n → n.kind = .coordinate axis → axis.index < d.count

namespace ShaderFile

/-- The statement `d` at a place of the file uses only what is there, as the node `n` asks for. -/
structure ClosedStatement (f : ShaderFile) (g : Graph) (place : Nat) (n : Node) (d : Declaration) :
    Prop where
  variableName : d.variableName = n.variableName
  /-- Exactly the slots of the node that have a parameter are replaced by its identifier. -/
  inputs : ∃ inputs : List Expr, inputs.length = n.slots.length ∧
    n.kind.expression? n.uid f.settings.seedName inputs = some d.value ∧
    ∀ p ∈ f.parameters, ∀ j : Nat,
      inputs[j]? = some (.atom p.label.identifier) ↔ p.site = (n.uid, j)
  /-- A coordinate reads the seed. -/
  coordinate : ∀ axis, n.kind = .coordinate axis →
    d.value = .component f.settings.seedName axis
  /-- The text of any other statement reads parameters of its node, all of them, and variables
  that are declared before; and it calls a helper exactly if that is there for its node. -/
  reading : (∀ axis, n.kind ≠ .coordinate axis) → ∃ t,
    readDeclaration d.render = some (n.variableName, t) ∧
    (∀ x ∈ t.references, (∃ p ∈ f.parameters, p.node = n.uid ∧ p.label.identifier = x) ∨
      ∃ j v m, j < place ∧ f.program.order[j]? = some v ∧ g.node? v = some m ∧
        m.variableName = x) ∧
    (∀ p ∈ f.parameters, p.label.identifier ∈ t.references ↔ p.node = n.uid) ∧
    ∀ v, Noise.helperName v ∈ t.calls ↔ v = n.uid ∧ ∃ noise h, n.kind = .noise noise ∧
      h ∈ f.program.helpers ∧ Worley.functionHeader v noise.dimension ∈ h.lines

/-- The file, generated from the graph, uses only what is there. -/
structure Closed (f : ShaderFile) (g : Graph) : Prop where
  nodup : f.program.order.Nodup
  /-- One helper for each emitted node with formulas of its own, in order. -/
  helpers : List.Forall₂ (fun n h => Worley.Helper.IsFor h n)
    ((f.program.order.filterMap g.node?).filter Node.isCustom) f.program.helpers
  /-- The helpers stand before the function. -/
  text : f.text =
    joinLines (header f.graphName :: (f.settings.includes.map includeLine ++ [""])) ++
    String.join (f.program.helpers.map fun h => h.text ++ "\n") ++
    joinLines (f.signature :: "\x7b" :: (f.program.lines.map (indented 1) ++
      [indented 1 ("return " ++ f.settings.outputSymbol ++ ";"), "\x7d"]))
  /-- The function takes the seed, and then the parameters in order. -/
  signature : f.signature = "float " ++ f.settings.functionName ++ "(" ++
    String.intercalate ", " ((f.seedDimension.typeName ++ " " ++ f.settings.seedName) ::
      f.parameters.map fun p => "float " ++ p.label.identifier) ++ ")"
  identifiers : (f.parameters.map fun p => p.label.identifier).Nodup
  /-- The constant of a parameter is held by the node of one statement. -/
  placed : ∀ p ∈ f.parameters, ∃! i : Nat, f.program.order[i]? = some p.node
  statements : f.program.statements.length = f.program.order.length ∧
    ∀ (i : Nat) (u : UID), f.program.order[i]? = some u → ∃ n d, g.node? u = some n ∧
      f.program.statements[i]? = some d ∧ f.ClosedStatement g i n d
  /-- The result is a literal, or the variable of an emitted node. -/
  output : (∃ x literal, g.output = .constant x ∧ literal? x = some literal ∧
      f.program.output = ⟨f.settings.outputSymbol, .atom literal⟩) ∨
    ∃ v m, g.output = .node v ∧ v ∈ f.program.order ∧ g.node? v = some m ∧
      f.program.output = ⟨f.settings.outputSymbol, .atom m.variableName⟩
  axes : g.AxesFit f.program.order f.seedDimension
  /-- A dimension that is not fixed is the least one. -/
  least : f.settings.seedDimension = none →
    ∀ d, g.AxesFit f.program.order d → f.seedDimension.count ≤ d.count

end ShaderFile

/-! ## The text -/

theorem joinLines_append (xs ys : List String) :
    joinLines (xs ++ ys) = joinLines xs ++ joinLines ys := by
  rw [joinLines, List.map_append, String.join_append]
  rfl

theorem joinLines_helpers (helpers : List Worley.Helper) :
    joinLines (helpers.flatMap fun h => h.lines ++ [""]) =
      String.join (helpers.map fun h => h.text ++ "\n") := by
  induction helpers with
  | nil => rfl
  | cons h helpers ih =>
      have hblank : joinLines [""] = "\n" := by decide
      rw [List.flatMap_cons, joinLines_append, ih, joinLines_append, hblank, List.map_cons,
        String.join_cons]
      rfl

theorem ShaderFile.text_eq (f : ShaderFile) : f.text =
    joinLines (header f.graphName :: (f.settings.includes.map includeLine ++ [""])) ++
    String.join (f.program.helpers.map fun h => h.text ++ "\n") ++
    joinLines (f.signature :: "\x7b" :: (f.program.lines.map (indented 1) ++
      [indented 1 ("return " ++ f.settings.outputSymbol ++ ";"), "\x7d"])) := by
  have hlines : f.lines =
      (header f.graphName :: (f.settings.includes.map includeLine ++ [""])) ++
      (f.program.helpers.flatMap fun h => h.lines ++ [""]) ++
      (f.signature :: "\x7b" :: (f.program.lines.map (indented 1) ++
        [indented 1 ("return " ++ f.settings.outputSymbol ++ ";"), "\x7d"])) := by
    simp [lines, bodyLines]
  rw [text, hlines, joinLines_append, joinLines_append, joinLines_helpers]

/-! ## The dimension of the seed -/

/-- A maximum is bounded if all that it is taken over is. -/
theorem foldl_max_le_iff (weight : Node → Nat) (nodes : List Node) (start bound : Nat) :
    nodes.foldl (fun count n => max count (weight n)) start ≤ bound ↔
      start ≤ bound ∧ ∀ n ∈ nodes, weight n ≤ bound := by
  induction nodes generalizing start with
  | nil => simp
  | cons n nodes ih =>
      rw [List.foldl_cons, ih, List.forall_mem_cons, Nat.max_le, and_assoc]

theorem Dimension.count_ofCount (k : Nat) : (ofCount k).count = max 1 (min k 3) := by
  unfold ofCount
  by_cases hone : k ≤ 1
  · rw [if_pos hone, count]
    omega
  · rw [if_neg hone]
    by_cases htwo : k = 2
    · rw [if_pos htwo, count]
      omega
    · rw [if_neg htwo, count]
      omega

theorem Dimension.count_pos (d : Dimension) : 1 ≤ d.count := by
  cases d <;> decide

theorem Axis.index_lt (axis : Axis) : axis.index < 3 := by
  cases axis <;> decide

/-- The components that a kind reads fit in a dimension if its axis does. -/
theorem Kind.seedComponents_le_iff (kind : Kind) (bound : Nat) :
    kind.seedComponents ≤ bound ↔ ∀ axis, kind = .coordinate axis → axis.index < bound := by
  cases kind with
  | coordinate axis =>
      rw [seedComponents]
      constructor
      · intro hle other hother
        obtain rfl := Kind.coordinate.inj hother
        omega
      · intro h
        have hlt := h axis rfl
        omega
  | noise noise => simp [seedComponents]
  | math op => simp [seedComponents]

namespace Graph

/-- The components that are counted are those that the axes of the order need. -/
theorem seedComponents_le_iff {g : Graph} {options : Options} {p : Program}
    (h : g.compileWith options = .ok p) (d : Dimension) :
    p.seedComponents ≤ d.count ↔ g.AxesFit p.order d := by
  obtain ⟨_, _, _, _, _, _, rfl⟩ := compileWith_eq_program h
  show g.emitted.foldl (fun count n => max count n.kind.seedComponents) 0 ≤ d.count ↔
    g.AxesFit g.emissionOrder d
  rw [foldl_max_le_iff (fun n => n.kind.seedComponents)]
  simp only [Kind.seedComponents_le_iff, emitted, List.mem_filterMap, Nat.zero_le, true_and]
  constructor
  · intro hle u hu n axis hn hkind
    exact hle n ⟨u, hu, hn⟩ axis hkind
  · rintro hfit n ⟨u, hu, hn⟩ axis hkind
    exact hfit u hu n axis hn hkind

/-! ## Parameters that are offered -/

/-- What is known of the parameters of a file, be they exposed or not. -/
structure Offered (g : Graph) (ps : List Parameter) : Prop where
  isParameter : ∀ p ∈ ps, Label.IsParameter p.label.identifier.toList
  sites : (ps.map Parameter.site).Nodup
  identifiers : (ps.map fun p => p.label.identifier).Nodup
  held : ∀ p ∈ ps, p.node ∈ g.emissionOrder ∧ ∃ n s, g.node? p.node = some n ∧
    n.slots[p.slot]? = some s ∧ s.signal = .constant p.value

theorem offered_of_parameters {g : Graph} {ps : List Parameter} (h : g.parameters = .ok ps) :
    g.Offered ps := by
  refine ⟨fun p hp => isParameter_of_mem h hp, parameters_sites_nodup h,
    (parameters_labels_nodup h).2, ?_⟩
  intro p hp
  obtain ⟨hu, n, s, hn, hs, hx⟩ :=
    (mem_parameters_iff h p.node p.slot p.value).mp ⟨p, hp, rfl, rfl⟩
  exact ⟨hu, n, s, hn, hs, ((s.tunable?_eq_some_iff p.value).mp hx).2⟩

theorem offered_nil (g : Graph) : g.Offered [] := by
  refine ⟨?_, .nil, .nil, ?_⟩
  · intro p hp
    cases hp
  · intro p hp
    cases hp

theorem offered_of_exposure {g : Graph} {expose : Bool} {ps : List Parameter}
    (h : (if expose then g.parameters else .ok []) = .ok ps) : g.Offered ps := by
  cases expose with
  | true => exact offered_of_parameters h
  | false =>
      obtain rfl : [] = ps := Except.ok.inj h
      exact offered_nil g

/-- An identifier belongs to one parameter. -/
theorem Offered.eq_of_identifier {g : Graph} {ps : List Parameter} (h : g.Offered ps)
    {p q : Parameter} (hp : p ∈ ps) (hq : q ∈ ps)
    (heq : p.label.identifier = q.label.identifier) : p = q :=
  List.inj_on_of_nodup_map h.identifiers hp hq heq

/-! ## What inputs read -/

section

variable {g : Graph} {ps : List Parameter} {n : Node} {inputs : List Expr}

/-- An input reads the parameter of its slot, or the variable of the node that the slot names, or
nothing. -/
theorem Resolves.reads (hps : g.Offered ps) {u : UID} {j : Nat} {signal : Signal} {e : Expr}
    (h : g.Resolves (.ofParameters ps) u j signal e) :
    e.Readable ∧ e.term.calls = [] ∧ ∀ x ∈ e.term.references,
      (∃ p ∈ ps, p.site = (u, j) ∧ p.label.identifier = x) ∨
        ∃ v m, signal = .node v ∧ g.node? v = some m ∧ m.variableName = x := by
  cases h with
  | @bound _ identifier hbound =>
      obtain ⟨p, hp, hsite, rfl⟩ := (Bindings.find?_ofParameters hps.sites u j _).mp hbound
      have hword := (hps.isParameter p hp).isWord
      refine ⟨.inl hword, Expr.calls_atom _, ?_⟩
      intro x hx
      rw [Expr.references_word hword, List.mem_singleton] at hx
      exact .inl ⟨p, hp, hsite, hx.symm⟩
  | @literal _ text _ htext =>
      refine ⟨(Expr.term_constant htext).1, Expr.calls_atom _, ?_⟩
      intro x hx
      rw [Expr.references_constant htext] at hx
      cases hx
  | @node v m hm =>
      have hword := m.isWord_variableName
      refine ⟨.inl hword, Expr.calls_atom _, ?_⟩
      intro x hx
      rw [Expr.references_word hword, List.mem_singleton] at hx
      exact .inr ⟨v, m, rfl, hm, hx.symm⟩

/-- Every input stands for a slot. -/
theorem Inputs.exists_slot (h : g.Inputs (.ofParameters ps) n inputs) {j : Nat} {e : Expr}
    (he : inputs[j]? = some e) :
    ∃ s, n.slots[j]? = some s ∧ g.Resolves (.ofParameters ps) n.uid j s.signal e := by
  have hj : j < n.slots.length := by
    rw [← h.length_eq]
    exact (List.getElem?_eq_some_iff.mp he).1
  have hs := List.getElem?_eq_getElem hj
  exact ⟨_, hs, h.resolves j _ e hs he⟩

/-- An input that reads the identifier of a parameter is that of the parameter's slot. -/
theorem Inputs.site_of_reads (hps : g.Offered ps) (h : g.Inputs (.ofParameters ps) n inputs)
    {p : Parameter} (hp : p ∈ ps) {j : Nat} {e : Expr} (he : inputs[j]? = some e)
    (hreads : p.label.identifier ∈ e.term.references) : p.site = (n.uid, j) := by
  obtain ⟨s, _, hresolves⟩ := h.exists_slot he
  rcases (hresolves.reads hps).2.2 _ hreads with ⟨q, hq, hsite, heq⟩ | ⟨_, m, _, _, heq⟩
  · rw [← hps.eq_of_identifier hq hp heq]
    exact hsite
  · -- variables do not look like parameters
    have hparameter := hps.isParameter p hp
    rw [← heq] at hparameter
    exact absurd hparameter m.not_isParameter_variableName

/-- Exactly the slots with a parameter have an identifier for input. -/
theorem Inputs.eq_identifier_iff (hps : g.Offered ps) (hn : g.node? n.uid = some n)
    (h : g.Inputs (.ofParameters ps) n inputs) {p : Parameter} (hp : p ∈ ps) (j : Nat) :
    inputs[j]? = some (.atom p.label.identifier) ↔ p.site = (n.uid, j) := by
  have hword := (hps.isParameter p hp).isWord
  constructor
  · intro he
    refine h.site_of_reads hps hp he ?_
    rw [Expr.references_word hword]
    exact List.mem_singleton_self _
  · intro hsite
    obtain ⟨hnode, rfl⟩ := Prod.mk.inj hsite
    obtain ⟨_, m, s, hm, hs, hsignal⟩ := hps.held p hp
    obtain rfl : m = n := by
      rw [hnode] at hm
      exact Option.some.inj (hm.symm.trans hn)
    have hj : p.slot < inputs.length := by
      rw [h.length_eq]
      exact (List.getElem?_eq_some_iff.mp hs).1
    have he := List.getElem?_eq_getElem hj
    have hresolves := h.resolves p.slot s _ hs he
    rw [hsignal] at hresolves
    have hbound := (Bindings.find?_ofParameters hps.sites m.uid p.slot _).mpr ⟨p, hp, hsite, rfl⟩
    rw [he, hresolves.eq_identifier hbound]

end

/-! ## Helpers that are there -/

/-- No two helpers are for the same node. -/
theorem nodup_helpers {g : Graph} {options : Options} {p : Program}
    (h : g.compileWith options = .ok p) : (p.helpers.map Worley.Helper.node).Nodup := by
  obtain ⟨_, _, emissions, _, hemissions, hhelpers, _⟩ := compileWith_eq_ok h
  have hfor := forall₂_helpers hemissions
  rw [← hhelpers] at hfor
  -- the helpers are those of nodes from the order, which names no node twice
  have hemitted : g.emitted.Pairwise fun m n => m.uid ≠ n.uid := by
    refine List.pairwise_filterMap.mpr ((emissionOrder_nodup g).imp ?_)
    intro u v hne m hm n hn heq
    exact hne ((node?_eq_some hm).2.symm.trans (heq.trans (node?_eq_some hn).2))
  have hnodes : (g.emitted.filter Node.isCustom).map Node.uid =
      p.helpers.map Worley.Helper.node := by
    rw [← List.forall₂_eq_eq_eq, List.forall₂_map_left_iff, List.forall₂_map_right_iff]
    refine hfor.imp ?_
    rintro n helper ⟨_, _, _, hhelper⟩
    exact (Worley.helper_eq_ok hhelper).1.symm
  rw [← hnodes, List.Nodup, List.pairwise_map]
  exact hemitted.filter _

/-- The function of an emitted noise node is defined by a helper exactly if the node has formulas
of its own. -/
theorem exists_helper_iff {g : Graph} {options : Options} {p : Program}
    (h : g.compileWith options = .ok p) {n : Node} (hn : g.node? n.uid = some n)
    (hu : n.uid ∈ g.emissionOrder) {noise : Noise} (hkind : n.kind = .noise noise) :
    (∃ helper ∈ p.helpers, Worley.functionHeader n.uid noise.dimension ∈ helper.lines) ↔
      noise.isCustom = true := by
  obtain ⟨_, _, emissions, _, hemissions, hhelpers, _⟩ := compileWith_eq_ok h
  have hfor := forall₂_helpers hemissions
  rw [← hhelpers] at hfor
  constructor
  · rintro ⟨helper, hmem, hheader⟩
    obtain ⟨m, hm, noise', hkind', hcustom, hhelper⟩ := Attempt.exists_of_mem hfor.flip hmem
    obtain ⟨v, _, hv⟩ := List.mem_filterMap.mp (List.mem_filter.mp hm).1
    obtain ⟨huid, _⟩ := (Worley.functionHeader_mem_lines_iff hhelper _ _).mp hheader
    -- a helper that defines the function of the node is for a node with the same UID
    obtain rfl : n = m := by
      rw [← (node?_eq_some hv).2, ← huid] at hv
      exact Option.some.inj (hn.symm.trans hv)
    obtain rfl : noise = noise' := Kind.noise.inj (hkind.symm.trans hkind')
    exact hcustom
  · intro hcustom
    have hmem : n ∈ g.emitted.filter Node.isCustom := by
      refine List.mem_filter.mpr ⟨List.mem_filterMap.mpr ⟨_, hu, hn⟩, ?_⟩
      rw [Node.isCustom, hkind]
      exact hcustom
    obtain ⟨helper, hmem, noise', hkind', _, hhelper⟩ := Attempt.exists_of_mem hfor hmem
    obtain rfl : noise = noise' := Kind.noise.inj (hkind.symm.trans hkind')
    exact ⟨helper, hmem, (Worley.functionHeader_mem_lines_iff hhelper _ _).mpr ⟨rfl, rfl⟩⟩

/-! ## Statements -/

section

variable {g : Graph} {s : Settings} {ps : List Parameter} {p : Program}

/-- What a statement reads is declared: in the signature, or by a statement before it. -/
theorem declared_of_reads (hps : g.Offered ps) (hp : g.compileWith (s.options ps) = .ok p)
    {i : Nat} {n : Node} (hi : p.order[i]? = some n.uid) (hn : g.node? n.uid = some n)
    {inputs : List Expr} (hinputs : g.Inputs (.ofParameters ps) n inputs) {e : Expr}
    (he : e ∈ inputs) {x : String} (hx : x ∈ e.term.references) :
    (∃ q ∈ ps, q.node = n.uid ∧ q.label.identifier = x) ∨
      ∃ j v m, j < i ∧ p.order[j]? = some v ∧ g.node? v = some m ∧ m.variableName = x := by
  obtain ⟨j, hj⟩ := List.getElem?_of_mem he
  obtain ⟨slot, hslot, hresolves⟩ := hinputs.exists_slot hj
  rcases (hresolves.reads hps).2.2 x hx with ⟨q, hq, hsite, hname⟩ | ⟨v, m, hsignal, hm, hname⟩
  · exact .inl ⟨q, hq, (Prod.mk.inj hsite).1, hname⟩
  · have htarget : v ∈ n.targets :=
      (mem_targets_iff n v).mpr ⟨slot, List.mem_of_getElem? hslot, hsignal⟩
    obtain ⟨k, hk, hv⟩ := target_before hp hi hn htarget
    exact .inr ⟨k, v, m, hk, hv, hm, hname⟩

/-- A statement that is no coordinate can be read, and uses only what is there. -/
theorem reading_of_statement (hps : g.Offered ps) (hp : g.compileWith (s.options ps) = .ok p)
    {i : Nat} {n : Node} (hi : p.order[i]? = some n.uid) (hn : g.node? n.uid = some n)
    (hfits : n.Fits) {inputs : List Expr} (hinputs : g.Inputs (.ofParameters ps) n inputs)
    {value : Expr} (hvalue : n.kind.expression? n.uid s.seedName inputs = some value)
    (hkind : ∀ axis, n.kind ≠ .coordinate axis) :
    ∃ t, readDeclaration (Declaration.render ⟨n.variableName, value⟩) = some (n.variableName, t) ∧
      (∀ x ∈ t.references, (∃ q ∈ ps, q.node = n.uid ∧ q.label.identifier = x) ∨
        ∃ j v m, j < i ∧ p.order[j]? = some v ∧ g.node? v = some m ∧ m.variableName = x) ∧
      (∀ q ∈ ps, q.label.identifier ∈ t.references ↔ q.node = n.uid) ∧
      ∀ v, Noise.helperName v ∈ t.calls ↔ v = n.uid ∧ ∃ noise h, n.kind = .noise noise ∧
        h ∈ p.helpers ∧ Worley.functionHeader v noise.dimension ∈ h.lines := by
  have hlength : inputs.length = n.kind.slots.length := hinputs.length_eq.trans hfits.length
  have hresolves : ∀ e ∈ inputs, e.Readable ∧ e.term.calls = [] := by
    intro e he
    obtain ⟨j, hj⟩ := List.getElem?_of_mem he
    obtain ⟨slot, _, hresolves⟩ := hinputs.exists_slot hj
    exact ⟨(hresolves.reads hps).1, (hresolves.reads hps).2.1⟩
  have hreadable : value.Readable :=
    Kind.readable_expression hkind (fun e he => (hresolves e he).1) hlength hvalue
  have hreferences := Kind.mem_references_expression hkind hlength hvalue
  refine ⟨value.term, readDeclaration_render ⟨n.variableName, value⟩ n.isWord_variableName hreadable,
    ?_, ?_, ?_⟩
  · intro x hx
    obtain ⟨e, he, hx⟩ := (hreferences x).mp hx
    exact declared_of_reads hps hp hi hn hinputs he hx
  · intro q hq
    rw [hreferences]
    constructor
    · rintro ⟨e, he, hreads⟩
      obtain ⟨j, hj⟩ := List.getElem?_of_mem he
      exact (Prod.mk.inj (hinputs.site_of_reads hps hq hj hreads)).1
    · intro hnode
      -- the slot of the parameter has its identifier for input
      have hslot : inputs[q.slot]? = some (.atom q.label.identifier) := by
        rw [hinputs.eq_identifier_iff hps hn hq, Parameter.site, hnode]
      refine ⟨_, List.mem_of_getElem? hslot, ?_⟩
      rw [Expr.references_word (hps.isParameter q hq).isWord]
      exact List.mem_singleton_self _
  · -- both sides say that the node has formulas of its own
    intro v
    have hemitted : n.uid ∈ g.emissionOrder := by
      rw [← (compileWith_eq_ok hp).2.1]
      exact List.mem_of_getElem? hi
    rw [Kind.helperName_mem_calls_expression (fun e he => (hresolves e he).2) hlength hvalue]
    constructor
    · rintro ⟨rfl, noise, hnoise, hcustom⟩
      obtain ⟨h, hmem, hheader⟩ := (exists_helper_iff hp hn hemitted hnoise).mpr hcustom
      exact ⟨rfl, noise, h, hnoise, hmem, hheader⟩
    · rintro ⟨rfl, noise, h, hnoise, hmem, hheader⟩
      exact ⟨rfl, noise, hnoise, (exists_helper_iff hp hn hemitted hnoise).mp ⟨h, hmem, hheader⟩⟩

theorem closedStatement_at (hg : g.Built) (hps : g.Offered ps)
    (hp : g.compileWith (s.options ps) = .ok p) {i : Nat} {u : UID} (hu : p.order[i]? = some u) :
    ∃ n d, g.node? u = some n ∧ p.statements[i]? = some d ∧
      ShaderFile.ClosedStatement ⟨g.name, s, ps, p⟩ g i n d := by
  obtain ⟨n, e, hn, hemit, hstatement⟩ := emission_at hp hu
  obtain ⟨_, _, inputs, value, hinputs, hvalue, he⟩ := emit_eq_ok hemit
  obtain ⟨hmem, rfl⟩ := node?_eq_some hn
  have hfits := hg.wellFormed.fits n hmem
  rw [he] at hstatement
  refine ⟨n, _, hn, hstatement, rfl, ?_, ?_, ?_⟩
  · exact ⟨inputs, hinputs.length_eq, hvalue,
      fun q hq j => hinputs.eq_identifier_iff hps hn hq j⟩
  · intro axis hkind
    rw [hkind] at hvalue
    exact (Option.some.inj hvalue).symm
  · exact reading_of_statement hps hp hu hn hfits hinputs hvalue

end

/-! ## The seed -/

section

variable {g : Graph} {s : Settings} {ps : List Parameter} {p : Program}

theorem axesFit_seedDimension (hp : g.compileWith (s.options ps) = .ok p) :
    g.AxesFit p.order (ShaderFile.seedDimension ⟨g.name, s, ps, p⟩) := by
  show g.AxesFit p.order (s.seedDimension.getD (.ofCount p.seedComponents))
  cases hfixed : s.seedDimension with
  | some d =>
      -- a coordinate outside of a fixed dimension is a fault
      obtain ⟨_, horder, _, _, hemissions, _⟩ := compileWith_eq_ok hp
      intro u hu n axis hn hkind
      rw [horder] at hu
      exact (clean_of_emissions hemissions hu hn).axis axis d hkind hfixed
  | none =>
      -- three components are always enough
      have hthree : p.seedComponents ≤ Dimension.count .three := by
        rw [seedComponents_le_iff hp]
        intro u _ n axis _ _
        exact axis.index_lt
      rw [Option.getD_none, ← seedComponents_le_iff hp, Dimension.count_ofCount]
      rw [Dimension.count] at hthree
      omega

/-- A dimension that has all the axes has room for the components that were counted. -/
theorem seedDimension_le (hp : g.compileWith (s.options ps) = .ok p)
    (hopen : s.seedDimension = none) {d : Dimension} (hd : g.AxesFit p.order d) :
    (ShaderFile.seedDimension ⟨g.name, s, ps, p⟩).count ≤ d.count := by
  show (s.seedDimension.getD (.ofCount p.seedComponents)).count ≤ d.count
  have hcounted := (seedComponents_le_iff hp d).mpr hd
  have hone := d.count_pos
  rw [hopen, Option.getD_none, Dimension.count_ofCount]
  omega

end

/-! ## The result of the function -/

theorem resolve_output_cases {g : Graph} {value : Expr}
    (h : g.wiring.resolve .output g.output = .ok value) :
    (∃ x literal, g.output = .constant x ∧ literal? x = some literal ∧ value = .atom literal) ∨
      ∃ v m, g.output = .node v ∧ g.node? v = some m ∧ value = .atom m.variableName := by
  have hresolves := resolves_of_resolve h 0 0
  cases houtput : g.output with
  | constant x =>
      rw [houtput] at hresolves
      obtain ⟨literal, hliteral, hvalue⟩ := hresolves.eq_literal rfl
      exact .inl ⟨x, literal, rfl, hliteral, hvalue⟩
  | node v =>
      rw [houtput] at hresolves
      cases hresolves with
      | @node _ m hm => exact .inr ⟨v, m, rfl, hm, rfl⟩

/-! ## The main result -/

/-- Every generated file is closed. -/
theorem shader_file_closed {g : Graph} (hg : g.Built) {s : Settings} {f : ShaderFile}
    (h : g.generate s = .ok f) : f.Closed g := by
  obtain ⟨ps, p, hps, hp, rfl⟩ := (generate_eq_ok_iff g s f).mp h
  have hoffered := offered_of_exposure hps
  obtain ⟨hplan, horder, emissions, value, hemissions, hhelpers, _, hvalue, houtput⟩ :=
    compileWith_eq_ok hp
  exact {
    nodup := nodup_order hp
    helpers := by
      show List.Forall₂ _ ((p.order.filterMap g.node?).filter _) p.helpers
      rw [horder, hhelpers]
      exact forall₂_helpers hemissions
    text := ShaderFile.text_eq _
    signature := rfl
    identifiers := hoffered.identifiers
    placed := by
      intro q hq
      have hmem : q.node ∈ p.order := by
        rw [horder]
        exact (hoffered.held q hq).1
      obtain ⟨i, hi⟩ := List.getElem?_of_mem hmem
      refine ⟨i, hi, ?_⟩
      intro j hj
      have hlength : i < p.order.length := (List.getElem?_eq_some_iff.mp hi).1
      exact ((List.getElem?_inj hlength (nodup_order hp)).mp (hi.trans hj.symm)).symm
    statements := ⟨length_statements hp, fun i u hu => closedStatement_at hg hoffered hp hu⟩
    output := by
      show (∃ x literal, _ ∧ _ ∧ p.output = _) ∨ ∃ v m, _ ∧ v ∈ p.order ∧ _ ∧ p.output = _
      rw [houtput]
      rcases resolve_output_cases hvalue with ⟨x, literal, hx, hliteral, rfl⟩ | ⟨v, m, hv, hm, rfl⟩
      · exact .inl ⟨x, literal, hx, hliteral, rfl⟩
      · have hreached : v ∈ p.order := by
          rw [horder, mem_emissionOrder hplan.acyclic]
          exact ⟨v, hv, hplan.output v hv, .refl⟩
        exact .inr ⟨v, m, hv, hreached, hm, rfl⟩
    axes := axesFit_seedDimension hp
    least := fun hopen d hd => seedDimension_le hp hopen hd }

/-- Cellular noise with formulas of its own. -/
def ridges : Noise := ⟨.worley, .two, ⟨"length($1 - $2)", "$2 - $1"⟩⟩

/-- Ridges along the second axis. -/
def cells : Graph :=
  [Edit.add (.coordinate .y), .add (.noise ridges), .setInput 1 1 (.node 0),
    .setOutput (.node 1)].foldl after (.empty "Cells")

theorem cells_built : cells.Built := (Built.empty "Cells").edits _

theorem cells_compilable : cells.Compilable {} := by
  have hkinds : ∀ n ∈ cells.nodes, n.kind = .coordinate .y ∨ n.kind = .noise ridges := by decide
  refine compilable_of_descending (by decide) rfl (by decide) ?_ (by decide) ?_
  · intro target htarget
    obtain rfl : 1 = target := Signal.node.inj htarget
    decide
  · intro n hn noise hnoise _ _
    rcases hkinds n hn with hkind | hkind <;> rw [hkind] at hnoise <;> cases hnoise
    decide

theorem shader_file_closed_cells : cells.Built ∧ ∃ f, cells.generate {} = .ok f ∧ f.Closed cells ∧
    ∃ h ∈ f.program.helpers, Worley.functionHeader 1 .two ∈ h.lines := by
  obtain ⟨f, hf⟩ := (exists_file_iff cells_built.wellFormed.fits {}).mpr cells_compilable
  have hclosed := shader_file_closed cells_built hf
  refine ⟨cells_built, f, hf, hclosed, ?_⟩
  rcases hclosed.output with ⟨x, _, hx, _⟩ | ⟨v, m, hv, hmem, hm, _⟩
  · cases hx
  · obtain rfl : 1 = v := Signal.node.inj hv
    have hm' : (cells.node? 1).map (fun n => (n.uid, n.kind)) = some (1, .noise ridges) := by decide
    rw [hm, Option.map_some, Option.some.injEq, Prod.mk.injEq] at hm'
    have hcustom : m.isCustom = true := by
      rw [Node.isCustom, hm'.2]
      decide
    obtain ⟨h, hh, noise, hkind, _, hhelper⟩ := Attempt.exists_of_mem hclosed.helpers
      (List.mem_filter.mpr ⟨List.mem_filterMap.mpr ⟨1, hmem, hm⟩, hcustom⟩)
    obtain rfl : ridges = noise := Kind.noise.inj (hm'.2.symm.trans hkind)
    exact ⟨h, hh, (Worley.functionHeader_mem_lines_iff hhelper 1 .two).mpr ⟨hm'.1.symm, rfl⟩⟩

end Graph

end NoiseShader
