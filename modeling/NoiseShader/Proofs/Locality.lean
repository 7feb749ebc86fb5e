import NoiseShader.Proofs.Representation

set_option autoImplicit false

/-! # What an edit fails with, and what it leaves alone

An edit that adds a node or changes one in its place is refused for one reason at a time, a node
that is not there before all others (`Graph.Refuses`). If it is not refused it puts one node in the
place of another, or behind the last, and everything else stays (`Graph.Becomes`). The two together
say all that such an edit can do (`Graph.edits_atomic_and_local`).
-/

namespace NoiseShader

/-! ## What an edit makes of a node -/

/-- The node that an edit changes in its place. -/
def Edit.node? : Edit → Option UID
  | rename uid _ => some uid
  | setInput uid _ _ => some uid
  | setInputNamed uid _ _ => some uid
  | setPinned uid _ _ => some uid
  | reconfigure uid _ => some uid
  | _ => none

/-- The slot that an edit names by its place. -/
def Edit.slot? : Edit → Option Nat
  | setInput _ slot _ => some slot
  | setPinned _ slot _ => some slot
  | _ => none

/-- The edit adds a node or changes one in its place. -/
def Edit.Local (e : Edit) : Prop := (∃ kind, e = .add kind) ∨ ∃ uid, e.node? = some uid

namespace Node

/-- The node as another kind. -/
def reconfigured (kind : Kind) (n : Node) : Node where
  uid := n.uid
  name := if n.name = n.kind.displayName then kind.displayName else n.name
  kind := kind
  slots := Slot.reshape n.slots kind.slots

/-- The second node is the first with a change to one slot, and to no other. -/
inductive SlotBecomes (slot : Nat) (change : Slot → Slot) (n : Node) : Node → Prop
  | intro {front back : List Slot} {s : Slot} (h : n.slots = front ++ s :: back)
      (hslot : front.length = slot) :
      SlotBecomes slot change n { n with slots := front ++ change s :: back }

/-- What the edit makes of the node that it names. -/
inductive Becomes (n : Node) : Edit → Node → Prop
  | rename {uid : UID} {name : String} : Becomes n (.rename uid name) { n with name := name }
  | setInput {uid : UID} {slot : Nat} {signal : Signal} {m : Node}
      (h : n.SlotBecomes slot (fun s => { s with signal := signal }) m) :
      Becomes n (.setInput uid slot signal) m
  | setInputNamed {uid : UID} {slot : Nat} {signal : Signal} {s : Slot} {m : Node}
      (hs : n.slots[slot]? = some s) (h : Becomes n (.setInput uid slot signal) m) :
      Becomes n (.setInputNamed uid s.name signal) m
  | setPinned {uid : UID} {slot : Nat} {pinned : Bool} {m : Node}
      (h : n.SlotBecomes slot (fun s => { s with pinned := pinned }) m) :
      Becomes n (.setPinned uid slot pinned) m
  | reconfigure {uid : UID} {kind : Kind} :
      Becomes n (.reconfigure uid kind) (n.reconfigured kind)

theorem SlotBecomes.uid_eq {slot : Nat} {change : Slot → Slot} {n m : Node}
    (h : n.SlotBecomes slot change m) : m.uid = n.uid := by
  cases h
  rfl

theorem Becomes.uid_eq {n m : Node} {e : Edit} (h : n.Becomes e m) : m.uid = n.uid := by
  induction h with
  | rename => rfl
  | setInput h => exact h.uid_eq
  | setInputNamed _ _ ih => exact ih
  | setPinned h => exact h.uid_eq
  | reconfigure => rfl

theorem slotBecomes_iff (slot : Nat) (change : Slot → Slot) (n m : Node) :
    n.SlotBecomes slot change m ↔
      slot < n.slots.length ∧ m = { n with slots := n.slots.modify slot change } := by
  constructor
  · rintro ⟨h, rfl⟩
    rw [h]
    refine ⟨by simp, ?_⟩
    simp [List.modify_eq_take_drop]
  · rintro ⟨hslot, rfl⟩
    obtain ⟨front, s, back, h, hfront, hmodify⟩ := List.exists_of_modify change hslot
    rw [hmodify]
    exact .intro h hfront

end Node

namespace Graph

/-! ## Edits of one node -/

section

variable {g h : Graph} {uid : UID} {change : Node → Except EditError Node}

theorem edit_eq_error_iff {err : EditError} : g.edit uid change = .error err ↔
    (uid ∉ g.uids ∧ err = .nodeNotFound uid) ∨
      ∃ n, g.node? uid = some n ∧ change n = .error err := by
  unfold edit
  cases hn : g.node? uid with
  | none =>
      have habsent := (node?_eq_none_iff g uid).mp hn
      simp [habsent, eq_comm]
  | some n =>
      have hpresent := mem_uids_of_node? hn
      simp [hpresent, Attempt.map_eq_error_iff]

theorem node?_of_split (hg : g.uids.Nodup) {before after : List Node} {n : Node}
    (h : g.nodes = before ++ n :: after) : g.node? n.uid = some n :=
  (node?_eq_some_iff hg n.uid n).mpr ⟨by simp [h], rfl⟩

/-- A node that is put in for another stands in its place; the UIDs of all others differ. -/
theorem replace_of_split (hg : g.uids.Nodup) {before after : List Node} {n m : Node}
    (h : g.nodes = before ++ n :: after) (huid : m.uid = n.uid) :
    g.replace m = { g with nodes := before ++ m :: after } := by
  rw [uids, h, List.map_append, List.map_cons, List.nodup_middle, List.nodup_cons,
    List.mem_append, not_or] at hg
  obtain ⟨⟨hbefore, hafter⟩, _⟩ := hg
  have hkeep : ∀ nodes : List Node, n.uid ∉ nodes.map Node.uid →
      nodes.map (fun k => if k.uid = m.uid then m else k) = nodes := by
    intro nodes hnodes
    conv_rhs => rw [← List.map_id nodes]
    refine List.map_congr_left fun k hk => if_neg ?_
    rw [huid]
    exact fun heq => hnodes (List.mem_map.mpr ⟨k, hk, heq⟩)
  rw [replace, h, List.map_append, List.map_cons, hkeep before hbefore, hkeep after hafter,
    if_pos huid.symm]

/-- An edit of one node that succeeds has put another in its place, and no more. -/
theorem edit_eq_ok_iff (hg : g.uids.Nodup)
    (hchange : ∀ n m, change n = .ok m → m.uid = n.uid) : g.edit uid change = .ok h ↔
    ∃ before n m after, g.nodes = before ++ n :: after ∧ n.uid = uid ∧ change n = .ok m ∧
      h = { g with nodes := before ++ m :: after } := by
  constructor
  · intro he
    obtain ⟨n, m, hn, hm, rfl⟩ := edit_eq_ok he
    obtain ⟨hmem, huid⟩ := node?_eq_some hn
    obtain ⟨before, after, hsplit⟩ := List.append_of_mem hmem
    exact ⟨before, n, m, after, hsplit, huid, hm, replace_of_split hg hsplit (hchange n m hm)⟩
  · rintro ⟨before, n, m, after, hsplit, rfl, hm, rfl⟩
    rw [edit, node?_of_split hg hsplit, ← replace_of_split hg hsplit (hchange n m hm)]
    simp only [hm]
    rfl

end

theorem editSlot_eq_error_iff {g : Graph} {uid : UID} {slot : Nat} {change : Slot → Slot}
    {err : EditError} : g.editSlot uid slot change = .error err ↔
    (uid ∉ g.uids ∧ err = .nodeNotFound uid) ∨
      ∃ n, g.node? uid = some n ∧ n.slots.length ≤ slot ∧
        err = .slotOutOfRange uid slot n.slots.length := by
  rw [editSlot, edit_eq_error_iff]
  refine or_congr_right (exists_congr fun n => and_congr_right fun _ => ?_)
  by_cases hslot : slot < n.slots.length
  · simp [hslot]
  · simp [hslot, Nat.le_of_not_lt hslot, eq_comm]

/-! ## Slots by name -/

theorem slotIndex_eq_error_iff {g : Graph} {uid : UID} {name : String} {err : EditError} :
    g.slotIndex uid name = .error err ↔
    (uid ∉ g.uids ∧ err = .nodeNotFound uid) ∨
      ∃ n, g.node? uid = some n ∧ (∀ s ∈ n.slots, s.name ≠ name) ∧
        err = .unknownSlot uid name := by
  unfold slotIndex
  cases hn : g.node? uid with
  | none =>
      have habsent := (node?_eq_none_iff g uid).mp hn
      simp [habsent, eq_comm]
  | some n =>
      have hpresent := mem_uids_of_node? hn
      have hnone : n.slotIndex? name = none ↔ ∀ s ∈ n.slots, s.name ≠ name := by
        simp [Node.slotIndex?]
      simp only [hpresent, not_true, false_and, false_or, Option.some.injEq, exists_eq_left',
        ← hnone]
      cases n.slotIndex? name with
      | none => simp [eq_comm]
      | some slot => simp

/-- With distinct names there is only one place at which a name can be found. -/
theorem slotIndex_eq_ok_iff {g : Graph} (hg : g.WellFormed) {uid : UID} {name : String}
    {slot : Nat} : g.slotIndex uid name = .ok slot ↔
    ∃ n s, g.node? uid = some n ∧ n.slots[slot]? = some s ∧ s.name = name := by
  unfold slotIndex
  cases hn : g.node? uid with
  | none => simp
  | some n =>
      have hnames := (hg.fits n (node?_eq_some hn).1).names_nodup
      have hindex : n.slotIndex? name = some slot ↔
          ∃ s, n.slots[slot]? = some s ∧ s.name = name := by
        constructor
        · intro hslot
          obtain ⟨hlt, hname, _⟩ := List.findIdx?_eq_some_iff_getElem.mp hslot
          exact ⟨_, List.getElem?_eq_getElem hlt, by simpa using hname⟩
        · rintro ⟨s, hs, rfl⟩
          exact Node.slotIndex?_eq_some hnames hs
      simp only [Option.some.injEq, exists_and_left, exists_eq_left', ← hindex]
      cases n.slotIndex? name with
      | none => simp
      | some found => simp

/-- A slot that was found by its name is there. -/
theorem setInputNamed_eq_error_iff {g : Graph} (hg : g.WellFormed) {uid : UID} {name : String}
    {signal : Signal} {err : EditError} :
    g.setInputNamed uid name signal = .error err ↔ g.slotIndex uid name = .error err := by
  unfold setInputNamed
  cases hslot : g.slotIndex uid name with
  | error e => simp
  | ok slot =>
      obtain ⟨n, s, hn, hs, _⟩ := (slotIndex_eq_ok_iff hg).mp hslot
      obtain ⟨hlt, _⟩ := List.getElem?_eq_some_iff.mp hs
      simp only [reduceCtorEq, iff_false]
      -- the place lies below the number of slots, so nothing is left to fail at
      intro herr
      rcases editSlot_eq_error_iff.mp herr with ⟨habsent, _⟩ | ⟨m, hm, hle, _⟩
      · exact habsent (mem_uids_of_node? hn)
      · obtain rfl := Option.some.inj (hn.symm.trans hm)
        exact Nat.not_le_of_lt hlt hle

theorem setInputNamed_eq_ok_iff {g h : Graph} {uid : UID} {name : String} {signal : Signal} :
    g.setInputNamed uid name signal = .ok h ↔
      ∃ slot, g.slotIndex uid name = .ok slot ∧ g.setInput uid slot signal = .ok h := by
  unfold setInputNamed
  cases g.slotIndex uid name with
  | error e => simp
  | ok slot => simp

/-! ## What is refused -/

/-- Why an edit is refused. A node that is not there comes first: the other reasons that an edit of
one node can have take the node to be there. -/
inductive Refuses (g : Graph) : Edit → EditError → Prop
  | exhausted {kind : Kind} (h : g.nextUID = UID.last) : Refuses g (.add kind) .uidsExhausted
  | absent {e : Edit} {uid : UID} (he : e.node? = some uid) (h : uid ∉ g.uids) :
      Refuses g e (.nodeNotFound uid)
  | range {e : Edit} {uid : UID} {slot : Nat} {n : Node} (he : e.node? = some uid)
      (hslot : e.slot? = some slot) (hn : g.node? uid = some n) (h : n.slots.length ≤ slot) :
      Refuses g e (.slotOutOfRange uid slot n.slots.length)
  | unnamed {uid : UID} {name : String} {signal : Signal} {n : Node} (hn : g.node? uid = some n)
      (h : ∀ s ∈ n.slots, s.name ≠ name) :
      Refuses g (.setInputNamed uid name signal) (.unknownSlot uid name)

section

variable {g : Graph} {e : Edit} {uid : UID} {err : EditError}

/-- An edit of a node that takes no slot fails only where there is no node. -/
theorem refuses_iff_absent (he : e.node? = some uid) (hslot : e.slot? = none)
    (hname : ∀ name signal, e ≠ .setInputNamed uid name signal) :
    g.Refuses e err ↔ uid ∉ g.uids ∧ err = .nodeNotFound uid := by
  constructor
  · intro h
    cases h with
    | exhausted _ => cases he
    | absent he' habsent =>
        obtain rfl := Option.some.inj (he.symm.trans he')
        exact ⟨habsent, rfl⟩
    | range _ hslot' _ _ => rw [hslot] at hslot'; cases hslot'
    | unnamed _ _ =>
        obtain rfl := Option.some.inj he
        exact absurd rfl (hname _ _)
  · rintro ⟨habsent, rfl⟩
    exact .absent he habsent

theorem refuses_iff_range {slot : Nat} (he : e.node? = some uid) (hslot : e.slot? = some slot) :
    g.Refuses e err ↔ (uid ∉ g.uids ∧ err = .nodeNotFound uid) ∨
      ∃ n, g.node? uid = some n ∧ n.slots.length ≤ slot ∧
        err = .slotOutOfRange uid slot n.slots.length := by
  constructor
  · intro h
    cases h with
    | exhausted _ => cases he
    | absent he' habsent =>
        obtain rfl := Option.some.inj (he.symm.trans he')
        exact .inl ⟨habsent, rfl⟩
    | range he' hslot' hn hle =>
        obtain rfl := Option.some.inj (he.symm.trans he')
        obtain rfl := Option.some.inj (hslot.symm.trans hslot')
        exact .inr ⟨_, hn, hle, rfl⟩
    | unnamed _ _ => cases hslot
  · rintro (⟨habsent, rfl⟩ | ⟨n, hn, hle, rfl⟩)
    · exact .absent he habsent
    · exact .range he hslot hn hle

theorem refuses_setInputNamed_iff {name : String} {signal : Signal} :
    g.Refuses (.setInputNamed uid name signal) err ↔ g.slotIndex uid name = .error err := by
  rw [slotIndex_eq_error_iff]
  constructor
  · intro h
    cases h with
    | absent he habsent =>
        obtain rfl := Option.some.inj he
        exact .inl ⟨habsent, rfl⟩
    | range _ hslot _ _ => cases hslot
    | unnamed hn hnames => exact .inr ⟨_, hn, hnames, rfl⟩
  · rintro (⟨habsent, rfl⟩ | ⟨n, hn, hnames, rfl⟩)
    · exact .absent rfl habsent
    · exact .unnamed hn hnames

theorem apply_eq_error_iff (hg : g.WellFormed) (he : e.Local) :
    g.apply e = .error err ↔ g.Refuses e err := by
  cases e with
  | add kind =>
      show (g.add kind).map Prod.snd = .error err ↔ _
      rw [Attempt.map_eq_error_iff, add]
      constructor
      · intro h
        split at h
        · next hlast =>
            obtain rfl := Except.error.inj h
            exact .exhausted hlast
        · cases h
      · rintro (hlast | ⟨he, _⟩ | ⟨he, _⟩)
        · exact if_pos hlast
        · cases he
        · cases he
  | rename uid name =>
      rw [refuses_iff_absent rfl rfl (by simp), apply, rename, edit_eq_error_iff]
      simp
  | setInput uid slot signal => exact editSlot_eq_error_iff.trans (refuses_iff_range rfl rfl).symm
  | setInputNamed uid name signal =>
      exact (setInputNamed_eq_error_iff hg).trans refuses_setInputNamed_iff.symm
  | setPinned uid slot pinned => exact editSlot_eq_error_iff.trans (refuses_iff_range rfl rfl).symm
  | reconfigure uid kind =>
      rw [refuses_iff_absent rfl rfl (by simp), apply, reconfigure, edit_eq_error_iff]
      simp
  | remove _ | setOutput _ | setName _ =>
      rcases he with ⟨kind, he⟩ | ⟨uid, he⟩ <;> cases he

end

/-! ## What becomes of a graph -/

/-- What the edit makes of the graph: a new node stands behind all others, or one node changes in
its place. -/
inductive Becomes (g : Graph) : Edit → Graph → Prop
  | append {kind : Kind} (h : g.nextUID ≠ UID.last) :
      Becomes g (.add kind) { g with
        nodes := g.nodes ++ [Node.ofKind g.nextUID kind]
        nextUID := g.nextUID.next }
  | change {e : Edit} {before after : List Node} {n m : Node} (he : e.node? = some n.uid)
      (h : g.nodes = before ++ n :: after) (hm : n.Becomes e m) :
      Becomes g e { g with nodes := before ++ m :: after }

section

variable {g h : Graph} {e : Edit} {uid : UID}

theorem becomes_iff (he : e.node? = some uid) : g.Becomes e h ↔
    ∃ before n m after, g.nodes = before ++ n :: after ∧ n.uid = uid ∧ n.Becomes e m ∧
      h = { g with nodes := before ++ m :: after } := by
  constructor
  · intro hbecomes
    cases hbecomes with
    | append _ => cases he
    | change he' hsplit hm =>
        exact ⟨_, _, _, _, hsplit, Option.some.inj (he'.symm.trans he), hm, rfl⟩
  · rintro ⟨before, n, m, after, hsplit, rfl, hm, rfl⟩
    exact .change he hsplit hm

theorem edit_eq_ok_iff_becomes (hg : g.uids.Nodup) {change : Node → Except EditError Node}
    (he : e.node? = some uid) (hchange : ∀ n m, change n = .ok m ↔ n.Becomes e m) :
    g.edit uid change = .ok h ↔ g.Becomes e h := by
  rw [edit_eq_ok_iff hg fun n m hm => ((hchange n m).mp hm).uid_eq, becomes_iff he]
  simp only [hchange]

theorem editSlot_eq_ok_iff_becomes (hg : g.uids.Nodup) {slot : Nat} {change : Slot → Slot}
    (he : e.node? = some uid)
    (hchange : ∀ n m : Node, n.Becomes e m ↔ n.SlotBecomes slot change m) :
    g.editSlot uid slot change = .ok h ↔ g.Becomes e h := by
  refine edit_eq_ok_iff_becomes hg he fun n m => ?_
  rw [hchange, Node.slotBecomes_iff]
  by_cases hslot : slot < n.slots.length
  · simp [hslot, eq_comm]
  · simp [hslot]

theorem setInput_eq_ok_iff_becomes (hg : g.uids.Nodup) {slot : Nat} {signal : Signal} :
    g.setInput uid slot signal = .ok h ↔ g.Becomes (.setInput uid slot signal) h := by
  refine editSlot_eq_ok_iff_becomes hg rfl fun n m => ⟨?_, .setInput⟩
  rintro ⟨⟩
  assumption

theorem setInputNamed_eq_ok_iff_becomes (hg : g.WellFormed) {name : String} {signal : Signal} :
    g.setInputNamed uid name signal = .ok h ↔ g.Becomes (.setInputNamed uid name signal) h := by
  simp only [setInputNamed_eq_ok_iff, setInput_eq_ok_iff_becomes hg.nodup, slotIndex_eq_ok_iff hg]
  constructor
  · rintro ⟨slot, ⟨n, s, hn, hs, rfl⟩, hset⟩
    obtain ⟨before, m, k, after, hsplit, rfl, hk, rfl⟩ := (becomes_iff rfl).mp hset
    obtain rfl := Option.some.inj (hn.symm.trans (node?_of_split hg.nodup hsplit))
    exact .change rfl hsplit (.setInputNamed hs hk)
  · intro hset
    obtain ⟨before, n, m, after, hsplit, rfl, hm, rfl⟩ := (becomes_iff rfl).mp hset
    cases hm with
    | @setInputNamed _ slot _ s _ hs hm =>
        exact ⟨slot, ⟨n, s, node?_of_split hg.nodup hsplit, hs, rfl⟩, .change rfl hsplit hm⟩

theorem add_eq_ok_iff_becomes {kind : Kind} :
    (g.add kind).map Prod.snd = .ok h ↔ g.Becomes (.add kind) h := by
  rw [Attempt.map_eq_ok_iff, add]
  constructor
  · rintro ⟨added, hadded, rfl⟩
    split at hadded
    · cases hadded
    · next hlast =>
        obtain rfl := Except.ok.inj hadded
        exact .append hlast
  · intro hbecomes
    cases hbecomes with
    | append hlast => exact ⟨_, if_neg hlast, rfl⟩
    | change he => cases he

theorem apply_eq_ok_iff (hg : g.WellFormed) (he : e.Local) :
    g.apply e = .ok h ↔ g.Becomes e h := by
  cases e with
  | add kind => exact add_eq_ok_iff_becomes
  | rename uid name =>
      refine edit_eq_ok_iff_becomes hg.nodup rfl fun n m => ?_
      rw [Except.ok.injEq]
      exact ⟨fun heq => heq ▸ .rename, fun hm => by cases hm; rfl⟩
  | setInput uid slot signal => exact setInput_eq_ok_iff_becomes hg.nodup
  | setInputNamed uid name signal => exact setInputNamed_eq_ok_iff_becomes hg
  | setPinned uid slot pinned =>
      refine editSlot_eq_ok_iff_becomes hg.nodup rfl fun n m => ⟨?_, .setPinned⟩
      rintro ⟨⟩
      assumption
  | reconfigure uid kind =>
      refine edit_eq_ok_iff_becomes hg.nodup rfl fun n m => ?_
      rw [Except.ok.injEq]
      exact ⟨fun heq => heq ▸ .reconfigure, fun hm => by cases hm; rfl⟩
  | remove _ | setOutput _ | setName _ =>
      rcases he with ⟨kind, he⟩ | ⟨uid, he⟩ <;> cases he

/-- Whatever an edit makes of a graph, the name, the output and the order of the nodes stay, and so
does every node but the one that it names. -/
theorem Becomes.frame (hh : g.Becomes e h) :
    h.name = g.name ∧ h.output = g.output ∧ g.uids <+: h.uids ∧
      ∀ u ∈ g.uids, e.node? ≠ some u → h.node? u = g.node? u := by
  cases hh with
  | append hlast =>
      refine ⟨rfl, rfl, ?_, ?_⟩
      · simp [uids]
      · intro u hu _
        -- the search for a node that is there ends before it comes to the new one
        obtain ⟨n, hn⟩ := Option.isSome_iff_exists.mp ((node?_isSome_iff g u).mpr hu)
        show (g.nodes ++ [_]).find? _ = _
        rw [List.find?_append]
        rw [node?] at hn ⊢
        simp [hn]
  | @change _ before after n m he hsplit hm =>
      refine ⟨rfl, rfl, ?_, ?_⟩
      · simp [uids, hsplit, hm.uid_eq]
      · intro u _ hu
        have hne : n.uid ≠ u := fun heq => hu (heq ▸ he)
        simp [node?, hsplit, List.find?_append, hm.uid_eq, hne]

end

/-- An edit that adds a node or changes one is refused for a reason of its own and then changes
nothing; otherwise it does what `Becomes` says and leaves the rest alone. To wire a slot by its name
is to wire it at the place where the name is found. -/
theorem edits_atomic_and_local {g : Graph} (hg : g.Built) :
    (∀ e : Edit, e.Local →
      (∀ err, g.apply e = .error err ↔ g.Refuses e err) ∧
      (∀ err, g.Refuses e err → g.after e = g) ∧
      (∀ h, g.apply e = .ok h ↔ g.Becomes e h) ∧
      ∀ h, g.Becomes e h → g.after e = h ∧ h.name = g.name ∧ h.output = g.output ∧
        g.uids <+: h.uids ∧ ∀ u ∈ g.uids, e.node? ≠ some u → h.node? u = g.node? u) ∧
    ∀ uid name,
      (∀ slot, g.slotIndex uid name = .ok slot ↔
        ∃ n s, g.node? uid = some n ∧ n.slots[slot]? = some s ∧ s.name = name) ∧
      (∀ slot signal, g.slotIndex uid name = .ok slot →
        g.setInputNamed uid name signal = g.setInput uid slot signal) ∧
      ∀ err signal, g.slotIndex uid name = .error err →
        g.setInputNamed uid name signal = .error err := by
  have hwell := hg.wellFormed
  refine ⟨fun e he => ?_, fun uid name => ⟨fun slot => slotIndex_eq_ok_iff hwell, ?_, ?_⟩⟩
  · refine ⟨fun err => apply_eq_error_iff hwell he, ?_, fun h => apply_eq_ok_iff hwell he, ?_⟩
    · intro err hrefuses
      rw [after, (apply_eq_error_iff hwell he).mpr hrefuses]
    · intro h hbecomes
      refine ⟨?_, hbecomes.frame⟩
      rw [after, (apply_eq_ok_iff hwell he).mpr hbecomes]
  · intro slot signal hslot
    simp only [setInputNamed, hslot]
  · intro err signal herr
    simp only [setInputNamed, herr]

/-- A node that is not there is reported although the slot is not there either; the weight of the
noise is its slot 3. -/
theorem edits_atomic_and_local_ramp : ramp.Built ∧
    (Edit.Local (.setInput 7 4294967296 .zero) ∧
      ramp.apply (.setInput 7 4294967296 .zero) = .error (.nodeNotFound 7)) ∧
    (Edit.Local (.setPinned 1 4294967296 true) ∧
      ramp.apply (.setPinned 1 4294967296 true) = .error (.slotOutOfRange 1 4294967296 4) ∧
      ramp.after (.setPinned 1 4294967296 true) = ramp) ∧
    (ramp.slotIndex 1 "Weight" = .ok 3 ∧
      ramp.setInputNamed 1 "Weight" (.node 0) = ramp.setInput 1 3 (.node 0)) := by
  obtain ⟨hedits, hnames⟩ := edits_atomic_and_local ramp_built
  have hinput : Edit.Local (.setInput 7 4294967296 .zero) := .inr ⟨7, rfl⟩
  have hpin : Edit.Local (.setPinned 1 4294967296 true) := .inr ⟨1, rfl⟩
  have habsent : ramp.Refuses (.setInput 7 4294967296 .zero) (.nodeNotFound 7) :=
    .absent rfl (by decide)
  have hrange : ramp.Refuses (.setPinned 1 4294967296 true) (.slotOutOfRange 1 4294967296 4) :=
    .range (n := Node.ofKind 1 (.noise ⟨.perlin, .two, .standard⟩)) rfl rfl rfl (by decide)
  have hweight : ramp.slotIndex 1 "Weight" = .ok 3 :=
    ((hnames 1 "Weight").1 3).mpr ⟨_, _, rfl, rfl, rfl⟩
  exact ⟨ramp_built, ⟨hinput, ((hedits _ hinput).1 _).mpr habsent⟩,
    ⟨hpin, ((hedits _ hpin).1 _).mpr hrange, (hedits _ hpin).2.1 _ hrange⟩,
    hweight, (hnames 1 "Weight").2.1 3 _ hweight⟩

end Graph

end NoiseShader
