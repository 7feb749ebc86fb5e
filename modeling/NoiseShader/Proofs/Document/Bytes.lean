import NoiseShader.Proofs.Document.Graph
import Mathlib.Algebra.Ring.Nat

set_option autoImplicit false

/-! # The byte form of documents

A document has one byte form, and nothing else is read as that document. This is put together
from the parts of a document: `Exact` says that a decoder takes from the front of some bytes
exactly what an encoder writes of a value that fits, and leaves the rest, and it is passed on from
the fields of a record to the record and from items to lists.

What has to fit are lengths, which are words of 64 bits: `Document.Addressable` are the documents
whose texts and lists are all shorter than `2 ^ 64`, as those in a machine's memory are.
-/

namespace NoiseShader

/-! ## What fits -/

/-- The number of lengths that can be written. -/
def lengthCount : Nat := 2 ^ 64

/-- The text has fewer bytes than can be counted. -/
def ShortText (s : String) : Prop := s.toUTF8.size < lengthCount

instance (s : String) : Decidable (ShortText s) := inferInstanceAs (Decidable (_ < _))

def Noise.Addressable (n : Noise) : Prop :=
  ShortText n.formulas.distance ∧ ShortText n.formulas.combine

def Kind.Addressable : Kind → Prop
  | .noise n => n.Addressable
  | _ => True

structure Node.Addressable (n : Node) : Prop where
  name : ShortText n.name
  kind : n.kind.Addressable
  count : n.slots.length < lengthCount
  slots : ∀ s ∈ n.slots, ShortText s.name

structure Document.Addressable (d : Document) : Prop where
  name : ShortText d.name
  count : d.nodes.length < lengthCount
  nodes : ∀ n ∈ d.nodes, n.Addressable

namespace Document.Bytes

/-- Decoding takes what encoding writes of the values that fit, and nothing else. -/
def Exact {α : Type} (decode : Decoder α) (encode : α → List UInt8) (fits : α → Prop) : Prop :=
  ∀ bytes x rest, decode bytes = some (x, rest) ↔ fits x ∧ bytes = encode x ++ rest

/-! ## Numbers -/

theorem exact_nat (width : Nat) :
    Exact (decodeNat width) (encodeNat width) (· < 256 ^ width) := by
  intro bytes n rest
  induction width generalizing bytes n rest with
  | zero => simp [decodeNat, encodeNat, eq_comm]
  | succ width ih =>
      rw [encodeNat, List.cons_append, Nat.pow_succ]
      cases bytes with
      | nil => simp [decodeNat]
      | cons b bytes =>
          have hb : b.toNat < 256 := b.toNat_lt
          simp only [decodeNat, Option.map_eq_some_iff, Prod.exists, Prod.mk.injEq, ih,
            List.cons.injEq]
          constructor
          · rintro ⟨high, _, ⟨hhigh, rfl⟩, rfl, rfl⟩
            have hdiv : (b.toNat + 256 * high) / 256 = high := by omega
            have hmod : (b.toNat + 256 * high) % 256 = b.toNat := by omega
            refine ⟨by omega, ?_, by rw [hdiv]⟩
            rw [← UInt8.ofNat_mod_size]
            show b = UInt8.ofNat ((b.toNat + 256 * high) % 256)
            rw [hmod, UInt8.ofNat_toNat]
          · rintro ⟨hn, rfl, rfl⟩
            refine ⟨n / 256, rest, ⟨by omega, rfl⟩, ?_, rfl⟩
            rw [UInt8.toNat_ofNat']
            omega

/-- A value that is written as a number that fits, and got back from it, is written exactly. -/
theorem Exact.convert {α β : Type} {decode : Decoder α} {encode : α → List UInt8}
    {fits : α → Prop} (h : Exact decode encode fits) (pack : α → β) (unpack : β → α)
    (hpack : ∀ x, fits x → unpack (pack x) = x) (hunpack : ∀ y, pack (unpack y) = y)
    (hfits : ∀ y, fits (unpack y)) :
    Exact (fun bytes => (decode bytes).map fun (x, rest) => (pack x, rest))
      (fun y => encode (unpack y)) (fun _ => True) := by
  intro bytes y rest
  simp only [Option.map_eq_some_iff, Prod.exists, Prod.mk.injEq, h bytes, true_and]
  constructor
  · rintro ⟨x, _, ⟨hx, rfl⟩, rfl, rfl⟩
    rw [hpack x hx]
  · rintro rfl
    exact ⟨unpack y, rest, ⟨hfits y, rfl⟩, hunpack y, rfl⟩

theorem exact_word : Exact decodeWord encodeWord fun _ => True := by
  refine (exact_nat 4).convert UInt32.ofNat UInt32.toNat ?_ (fun _ => UInt32.ofNat_toNat) ?_
  · intro n hn
    exact UInt32.toNat_ofNat_of_lt' hn
  · intro x
    exact x.toNat_lt

theorem exact_number : Exact decodeNumber encodeNumber fun _ => True :=
  exact_word.convert Binary32.mk Binary32.bits (fun _ _ => rfl) (fun _ => rfl) fun _ => trivial

theorem exact_length : Exact decodeLength encodeLength (· < lengthCount) := exact_nat 8

theorem exact_bool : Exact decodeBool encodeBool fun _ => True := by
  intro bytes b rest
  cases bytes with
  | nil => simp [decodeBool, encodeBool]
  | cons byte bytes =>
      simp only [decodeBool, encodeBool, true_and, List.cons_append, List.nil_append,
        List.cons.injEq]
      by_cases hzero : byte = 0
      · cases b <;> simp [hzero]
      · by_cases hone : byte = 1
        · cases b <;> simp [hone]
        · cases b <;> simp [hzero, hone]

/-! ## Texts and lists -/

theorem splitBytes_eq_some_iff (n : Nat) (bytes front rest : List UInt8) :
    splitBytes n bytes = some (front, rest) ↔ front.length = n ∧ bytes = front ++ rest := by
  induction n generalizing bytes front rest with
  | zero =>
      rw [splitBytes, Option.some.injEq, Prod.mk.injEq, List.length_eq_zero_iff]
      constructor
      · rintro ⟨rfl, rfl⟩
        exact ⟨rfl, rfl⟩
      · rintro ⟨rfl, rfl⟩
        exact ⟨rfl, rfl⟩
  | succ n ih =>
      cases bytes with
      | nil =>
          rw [splitBytes]
          constructor
          · intro h
            cases h
          · rintro ⟨hlength, hnil⟩
            obtain ⟨rfl, _⟩ := List.append_eq_nil_iff.mp hnil.symm
            cases hlength
      | cons b bytes =>
          simp only [splitBytes, Option.map_eq_some_iff, Prod.exists, Prod.mk.injEq, ih]
          constructor
          · rintro ⟨tail, _, ⟨hlength, rfl⟩, rfl, rfl⟩
            exact ⟨by rw [List.length_cons, hlength], rfl⟩
          · rintro ⟨hlength, hsplit⟩
            cases front with
            | nil => cases hlength
            | cons c tail =>
                obtain ⟨rfl, rfl⟩ := List.cons.inj hsplit
                exact ⟨tail, rest, ⟨Nat.succ.inj hlength, rfl⟩, rfl, rfl⟩

/-- Bytes are the UTF-8 form of at most one text. -/
theorem fromUTF8?_eq_some_iff (content : List UInt8) (s : String) :
    String.fromUTF8? ⟨content.toArray⟩ = some s ↔ content = s.toUTF8.data.toList := by
  unfold String.fromUTF8?
  constructor
  · intro h
    split at h
    · obtain rfl := Option.some.inj h
      rfl
    · cases h
  · rintro rfl
    exact dif_pos s.isValidUTF8

theorem encodeText_eq (s : String) :
    encodeText s = encodeLength s.toUTF8.size ++ s.toUTF8.data.toList := rfl

theorem exact_text : Exact decodeText encodeText ShortText := by
  intro bytes s rest
  have hsize : s.toUTF8.data.toList.length = s.toUTF8.size := Array.length_toList
  rw [encodeText_eq, List.append_assoc]
  constructor
  · intro h
    unfold decodeText at h
    split at h
    · cases h
    · next n more hlength =>
        obtain ⟨hn, rfl⟩ := (exact_length _ _ _).mp hlength
        split at h
        · cases h
        · next content more' hsplit =>
            obtain ⟨rfl, rfl⟩ := (splitBytes_eq_some_iff _ _ _ _).mp hsplit
            obtain ⟨t, ht, heq⟩ := Option.map_eq_some_iff.mp h
            obtain ⟨rfl, rfl⟩ := Prod.mk.inj heq
            obtain rfl := (fromUTF8?_eq_some_iff _ _).mp ht
            exact ⟨hn, rfl⟩
  · rintro ⟨hshort, rfl⟩
    have hlength := (exact_length _ _ (s.toUTF8.data.toList ++ rest)).mpr ⟨hshort, rfl⟩
    have hsplit := (splitBytes_eq_some_iff _ _ _ rest).mpr ⟨hsize, rfl⟩
    have hutf8 := (fromUTF8?_eq_some_iff s.toUTF8.data.toList s).mpr rfl
    simp only [decodeText, hlength, hsplit, hutf8, Option.map_some]

section Lists

variable {α : Type} {decode : Decoder α} {encode : α → List UInt8} {fits : α → Prop}

theorem decodeItems_eq_some_iff (h : Exact decode encode fits) (n : Nat) (bytes : List UInt8)
    (xs : List α) (rest : List UInt8) :
    decodeItems decode n bytes = some (xs, rest) ↔
      xs.length = n ∧ (∀ x ∈ xs, fits x) ∧ bytes = xs.flatMap encode ++ rest := by
  induction n generalizing bytes xs with
  | zero =>
      rw [decodeItems, Option.some.injEq, Prod.mk.injEq, List.length_eq_zero_iff]
      constructor
      · rintro ⟨rfl, rfl⟩
        simp
      · rintro ⟨rfl, _, rfl⟩
        simp
  | succ n ih =>
      rw [decodeItems]
      constructor
      · intro hread
        split at hread
        · cases hread
        · next x more hx =>
            obtain ⟨⟨tail, more'⟩, htail, heq⟩ := Option.map_eq_some_iff.mp hread
            obtain ⟨rfl, rfl⟩ := Prod.mk.inj heq
            obtain ⟨hfits, rfl⟩ := (h _ _ _).mp hx
            obtain ⟨rfl, hall, rfl⟩ := (ih _ _).mp htail
            exact ⟨rfl, List.forall_mem_cons.mpr ⟨hfits, hall⟩, by simp⟩
      · rintro ⟨hlength, hall, rfl⟩
        cases xs with
        | nil => cases hlength
        | cons x tail =>
            obtain ⟨hfits, hall⟩ := List.forall_mem_cons.mp hall
            rw [List.flatMap_cons, List.append_assoc, (h _ x _).mpr ⟨hfits, rfl⟩]
            simp only [(ih _ tail).mpr ⟨Nat.succ.inj hlength, hall, rfl⟩, Option.map_some]

theorem Exact.list (h : Exact decode encode fits) :
    Exact (decodeList decode) (encodeList encode)
      fun xs => xs.length < lengthCount ∧ ∀ x ∈ xs, fits x := by
  intro bytes xs rest
  unfold decodeList encodeList
  constructor
  · intro hread
    split at hread
    · cases hread
    · next n more hlength =>
        obtain ⟨hn, rfl⟩ := (exact_length _ _ _).mp hlength
        obtain ⟨rfl, hall, rfl⟩ := (decodeItems_eq_some_iff h _ _ _ _).mp hread
        exact ⟨⟨hn, hall⟩, by rw [List.append_assoc]⟩
  · rintro ⟨⟨hn, hall⟩, rfl⟩
    rw [List.append_assoc, (exact_length _ _ _).mpr ⟨hn, rfl⟩]
    exact (decodeItems_eq_some_iff h _ _ _ _).mpr ⟨rfl, hall, rfl⟩

end Lists

/-! ## Variants -/

/-- The list has every value once, and fewer than can be numbered. -/
structure Lists {α : Type} (all : List α) : Prop where
  nodup : all.Nodup
  complete : ∀ x, x ∈ all
  short : all.length < 256 ^ 4

theorem exact_variant {α : Type} [BEq α] [LawfulBEq α] {all : List α} (h : Lists all) :
    Exact (decodeVariant all) (encodeVariant all) fun _ => True := by
  intro bytes x rest
  have hplace : all.idxOf x < all.length := List.idxOf_lt_length_of_mem (h.complete x)
  unfold decodeVariant encodeVariant
  rw [true_and]
  constructor
  · intro hread
    split at hread
    · cases hread
    · next i more hi =>
        obtain ⟨_, rfl⟩ := (exact_nat 4 _ _ _).mp hi
        obtain ⟨y, hy, heq⟩ := Option.map_eq_some_iff.mp hread
        obtain ⟨rfl, rfl⟩ := Prod.mk.inj heq
        obtain ⟨hlt, rfl⟩ := List.getElem?_eq_some_iff.mp hy
        rw [h.nodup.idxOf_getElem]
  · rintro rfl
    rw [(exact_nat 4 _ _ _).mpr ⟨Nat.lt_trans hplace h.short, rfl⟩]
    simp [List.getElem?_eq_getElem hplace]

theorem lists_noiseFamily : Lists NoiseFamily.all :=
  ⟨by decide, fun x => by cases x <;> decide, by decide⟩

theorem lists_dimension : Lists Dimension.all :=
  ⟨by decide, fun x => by cases x <;> decide, by decide⟩

theorem lists_operation : Lists Operation.all :=
  ⟨by decide, fun x => by cases x <;> decide, by decide⟩

theorem lists_axis : Lists Axis.all :=
  ⟨by decide, fun axis => by cases axis <;> decide, by decide⟩

/-! ## Variants with content -/

theorem Exact.wrapped {α β : Type} {decode : Decoder α} {encode : α → List UInt8} {fits : α → Prop}
    (h : Exact decode encode fits) (wrap : α → β) (bytes : List UInt8) (y : β)
    (rest : List UInt8) :
    ((decode bytes).map fun (x, rest) => (wrap x, rest)) = some (y, rest) ↔
      ∃ x, fits x ∧ wrap x = y ∧ bytes = encode x ++ rest := by
  simp only [Option.map_eq_some_iff, Prod.exists, Prod.mk.injEq, h bytes]
  constructor
  · rintro ⟨x, _, ⟨hx, rfl⟩, rfl, rfl⟩
    exact ⟨x, hx, rfl, rfl⟩
  · rintro ⟨x, hx, rfl, rfl⟩
    exact ⟨x, rest, ⟨hx, rfl⟩, rfl, rfl⟩

theorem exact_signal : Exact decodeSignal encodeSignal fun _ => True := by
  intro bytes signal rest
  unfold decodeSignal
  rw [true_and]
  constructor
  · intro h
    split at h
    · next more htag =>
        obtain ⟨_, rfl⟩ := (exact_nat 4 _ _ _).mp htag
        obtain ⟨x, _, rfl, rfl⟩ := (exact_number.wrapped _ _ _ _).mp h
        rw [encodeSignal, List.append_assoc]
    · next more htag =>
        obtain ⟨_, rfl⟩ := (exact_nat 4 _ _ _).mp htag
        obtain ⟨uid, _, rfl, rfl⟩ := (exact_word.wrapped _ _ _ _).mp h
        rw [encodeSignal, List.append_assoc]
    · cases h
  · rintro rfl
    cases signal with
    | constant x =>
        rw [encodeSignal, List.append_assoc, (exact_nat 4 _ _ _).mpr ⟨by decide, rfl⟩]
        exact (exact_number.wrapped _ _ _ _).mpr ⟨x, trivial, rfl, rfl⟩
    | node uid =>
        rw [encodeSignal, List.append_assoc, (exact_nat 4 _ _ _).mpr ⟨by decide, rfl⟩]
        exact (exact_word.wrapped _ _ _ _).mpr ⟨uid, trivial, rfl, rfl⟩

theorem exact_noise : Exact decodeNoise encodeNoise Noise.Addressable := by
  intro bytes noise rest
  simp only [decodeNoise, Option.bind_eq_bind, Option.bind_eq_some_iff, Prod.exists, Option.pure_def,
    Option.some.injEq, Prod.mk.injEq, exact_variant lists_noiseFamily _, exact_variant lists_dimension _,
    exact_text _, true_and, encodeNoise, List.append_assoc]
  constructor
  · rintro ⟨family, _, rfl, dimension, _, rfl, distance, _, ⟨hdistance, rfl⟩, combine, _,
      ⟨hcombine, rfl⟩, rfl, rfl⟩
    exact ⟨⟨hdistance, hcombine⟩, rfl⟩
  · rintro ⟨⟨hdistance, hcombine⟩, rfl⟩
    exact ⟨_, _, rfl, _, _, rfl, _, _, ⟨hdistance, rfl⟩, _, _, ⟨hcombine, rfl⟩, rfl, rfl⟩

theorem exact_kind : Exact decodeKind encodeKind Kind.Addressable := by
  intro bytes kind rest
  have hoperation := exact_variant lists_operation
  have haxis := exact_variant lists_axis
  unfold decodeKind
  constructor
  · intro h
    split at h
    · next more htag =>
        obtain ⟨_, rfl⟩ := (exact_nat 4 _ _ _).mp htag
        obtain ⟨noise, hnoise, rfl, rfl⟩ := (exact_noise.wrapped _ _ _ _).mp h
        exact ⟨hnoise, by rw [encodeKind, List.append_assoc]⟩
    · next more htag =>
        obtain ⟨_, rfl⟩ := (exact_nat 4 _ _ _).mp htag
        obtain ⟨operation, _, rfl, rfl⟩ := (hoperation.wrapped _ _ _ _).mp h
        exact ⟨trivial, by rw [encodeKind, List.append_assoc]⟩
    · next more htag =>
        obtain ⟨_, rfl⟩ := (exact_nat 4 _ _ _).mp htag
        obtain ⟨axis, _, rfl, rfl⟩ := (haxis.wrapped _ _ _ _).mp h
        exact ⟨trivial, by rw [encodeKind, List.append_assoc]⟩
    · cases h
  · rintro ⟨hkind, rfl⟩
    cases kind with
    | noise noise =>
        rw [encodeKind, List.append_assoc, (exact_nat 4 _ _ _).mpr ⟨by decide, rfl⟩]
        exact (exact_noise.wrapped _ _ _ _).mpr ⟨noise, hkind, rfl, rfl⟩
    | math operation =>
        rw [encodeKind, List.append_assoc, (exact_nat 4 _ _ _).mpr ⟨by decide, rfl⟩]
        exact (hoperation.wrapped _ _ _ _).mpr ⟨operation, trivial, rfl, rfl⟩
    | coordinate axis =>
        rw [encodeKind, List.append_assoc, (exact_nat 4 _ _ _).mpr ⟨by decide, rfl⟩]
        exact (haxis.wrapped _ _ _ _).mpr ⟨axis, trivial, rfl, rfl⟩

/-! ## Slots, nodes and documents -/

theorem exact_slot : Exact decodeSlot encodeSlot fun s => ShortText s.name := by
  intro bytes s rest
  simp only [decodeSlot, Option.bind_eq_bind, Option.bind_eq_some_iff, Prod.exists, Option.pure_def,
    Option.some.injEq, Prod.mk.injEq, exact_text _, exact_number _, exact_signal _, exact_bool _,
    true_and, encodeSlot, List.append_assoc]
  constructor
  · rintro ⟨name, _, ⟨hname, rfl⟩, initial, _, rfl, signal, _, rfl, pinned, _, rfl, rfl, rfl⟩
    exact ⟨hname, rfl⟩
  · rintro ⟨hname, rfl⟩
    exact ⟨_, _, ⟨hname, rfl⟩, _, _, rfl, _, _, rfl, _, _, rfl, rfl, rfl⟩

theorem exact_node : Exact decodeNode encodeNode Node.Addressable := by
  intro bytes n rest
  simp only [decodeNode, Option.bind_eq_bind, Option.bind_eq_some_iff, Prod.exists, Option.pure_def,
    Option.some.injEq, Prod.mk.injEq, exact_word _, exact_text _, exact_kind _, exact_slot.list _,
    true_and, encodeNode, List.append_assoc]
  constructor
  · rintro ⟨uid, _, rfl, name, _, ⟨hname, rfl⟩, kind, _, ⟨hkind, rfl⟩, slots, _,
      ⟨⟨hcount, hslots⟩, rfl⟩, rfl, rfl⟩
    exact ⟨⟨hname, hkind, hcount, hslots⟩, rfl⟩
  · rintro ⟨⟨hname, hkind, hcount, hslots⟩, rfl⟩
    exact ⟨_, _, rfl, _, _, ⟨hname, rfl⟩, _, _, ⟨hkind, rfl⟩, _, _, ⟨⟨hcount, hslots⟩, rfl⟩, rfl, rfl⟩

theorem exact_document : Exact decode encode Addressable := by
  intro bytes d rest
  simp only [decode, Option.bind_eq_bind, Option.bind_eq_some_iff, Prod.exists, Option.pure_def,
    Option.some.injEq, Prod.mk.injEq, exact_word _, exact_text _, exact_signal _, exact_node.list _,
    true_and, encode, List.append_assoc]
  constructor
  · rintro ⟨version, _, rfl, name, _, ⟨hname, rfl⟩, nextUID, _, rfl, output, _, rfl, nodes, _,
      ⟨⟨hcount, hnodes⟩, rfl⟩, rfl, rfl⟩
    exact ⟨⟨hname, hcount, hnodes⟩, rfl⟩
  · rintro ⟨⟨hname, hcount, hnodes⟩, rfl⟩
    exact ⟨_, _, rfl, _, _, ⟨hname, rfl⟩, _, _, rfl, _, _, rfl, _, _, ⟨⟨hcount, hnodes⟩, rfl⟩, rfl, rfl⟩

/-! ## The main result -/

section Prefixes

variable {α : Type} {decode : Decoder α} {encode : α → List UInt8} {fits : α → Prop}

/-- Of two byte forms, one of which goes on where the other ends, both are the same. -/
theorem Exact.prefix_free (h : Exact decode encode fits) {x y : α} (hx : fits x) (hy : fits y)
    {more rest : List UInt8} (heq : encode x ++ more = encode y ++ rest) : x = y ∧ more = rest := by
  have hread : decode (encode x ++ more) = some (x, more) := (h _ _ _).mpr ⟨hx, rfl⟩
  have hread' : decode (encode x ++ more) = some (y, rest) := (h _ _ _).mpr ⟨hy, heq⟩
  rw [hread] at hread'
  exact Prod.mk.inj (Option.some.inj hread')

/-- What is cut off from a byte form is not read at all. -/
theorem Exact.decode_front (h : Exact decode encode fits) {x : α} (hx : fits x)
    {front back : List UInt8} (heq : encode x = front ++ back) (hback : back ≠ []) :
    decode front = none := by
  cases hread : decode front with
  | none => rfl
  | some result =>
      obtain ⟨y, rest⟩ := result
      obtain ⟨hy, rfl⟩ := (h _ _ _).mp hread
      have hwhole : encode x ++ [] = encode y ++ (rest ++ back) := by
        rw [List.append_nil, heq, List.append_assoc]
      have hnil := (h.prefix_free hx hy hwhole).2
      exact absurd (List.append_eq_nil_iff.mp hnil.symm).2 hback

end Prefixes

end Document.Bytes

namespace Graph

open Document.Bytes (encode decode exact_document)

/-- A document is read from its own byte form, whatever follows it, and from nothing else. So no
form goes on where another ends, and a built graph is loaded as it was saved. -/
theorem bytes_exact_and_canonical :
    (∀ d : Document, d.Addressable → ∀ t, decode (encode d ++ t) = some (d, t)) ∧
    (∀ b (d : Document) t, decode b = some (d, t) → d.Addressable ∧ b = encode d ++ t) ∧
    (∀ d : Document, d.Addressable → ∀ front back, encode d = front ++ back → back ≠ [] →
      decode front = none) ∧
    (∀ d d' : Document, d.Addressable → d'.Addressable → encode d = encode d' → d = d') ∧
    ∀ g : Graph, g.Built → g.document.Addressable → ofBytes g.toBytes = .ok g := by
  refine ⟨?_, ?_, ?_, ?_, ?_⟩
  · intro d hd t
    exact (exact_document _ _ _).mpr ⟨hd, rfl⟩
  · intro b d t h
    exact (exact_document _ _ _).mp h
  · intro d hd front back heq hback
    exact exact_document.decode_front hd heq hback
  · intro d d' hd hd' heq
    exact (exact_document.prefix_free hd hd' (congrArg (· ++ []) heq)).1
  · intro g hg hd
    have hread : decode (encode g.document) = some (g.document, []) :=
      (exact_document _ _ _).mpr ⟨hd, (List.append_nil _).symm⟩
    rw [ofBytes, toBytes, hread]
    exact hg.wellFormed.ofDocument_document

/-- A document of no graph: its version is unknown, a node lacks its slot, and the output is not
a number but has a payload. -/
def oddDocument : Document :=
  ⟨7, "π \x22", 0, .constant ⟨0xFFC00001⟩, [⟨UID.last, "", .math .sin, []⟩]⟩

theorem bytes_exact_and_canonical_odd : oddDocument.Addressable ∧
    decode (encode oddDocument ++ [1, 2]) = some (oddDocument, [1, 2]) := by
  have hodd : oddDocument.Addressable := by
    refine ⟨by decide, by decide, ?_⟩
    intro n hn
    obtain rfl := List.mem_singleton.mp hn
    exact ⟨by decide, trivial, by decide, by simp⟩
  exact ⟨hodd, bytes_exact_and_canonical.1 oddDocument hodd [1, 2]⟩

end Graph

end NoiseShader
