import NoiseShader.Decimal.Layout

set_option autoImplicit false

/-! # Numbers of the object text

A number is kept as it is spelled until it is known what it stands for: the same spelling may
be read as an integer of 32 bits or as a single-precision number. Underscores between digits
are ignored, and a suffix may name the type.
-/

namespace NoiseShader.ObjectText

def hexValue? (c : Char) : Option Nat :=
  if c.isDigit then some (c.toNat - '0'.toNat)
  else if 'a' ≤ c ∧ c ≤ 'f' then some (c.toNat - 'a'.toNat + 10)
  else if 'A' ≤ c ∧ c ≤ 'F' then some (c.toNat - 'A'.toNat + 10)
  else none

/-- The value of digits in a base, most significant first. -/
def digitsValue? (base : Nat) : (value : Nat) → List Char → Option Nat
  | value, [] => some value
  | value, c :: cs =>
    match hexValue? c with
    | none => none
    | some digit => if digit < base then digitsValue? base (value * base + digit) cs else none

/-- A spelling cut into its sign and what follows. -/
def splitSign : List Char → Bool × List Char
  | '-' :: cs => (true, cs)
  | '+' :: cs => (false, cs)
  | cs => (false, cs)

/-! ## Integers -/

def isIntegerChar (c : Char) : Bool := (hexValue? c).isSome || c == '_'

inductive IntegerType
  | signed (bits : Nat)
  | unsigned (bits : Nat)
deriving DecidableEq, Repr

def IntegerType.ofSuffix? (suffix : List Char) : Option IntegerType :=
  match String.ofList suffix with
  | "i8" => some (.signed 8)
  | "i16" => some (.signed 16)
  | "i32" => some (.signed 32)
  | "i64" => some (.signed 64)
  | "u8" => some (.unsigned 8)
  | "u16" => some (.unsigned 16)
  | "u32" => some (.unsigned 32)
  | "u64" => some (.unsigned 64)
  | _ => none

/-- Whether a type has the integer with this sign and magnitude. -/
def IntegerType.holds (type : IntegerType) (negative : Bool) (magnitude : Nat) : Bool :=
  match type with
  | signed bits =>
    let bound := Nat.pow 2 (bits - 1)
    if negative then decide (magnitude ≤ bound) else decide (magnitude < bound)
  | unsigned bits => if negative then magnitude == 0 else decide (magnitude < Nat.pow 2 bits)

/-- An integer as spelled, with the type that it names. -/
structure IntegerSpelling where
  negative : Bool
  magnitude : Nat
  type : Option IntegerType
deriving Repr

def digitsOf? (base : Nat) (cs : List Char) : Option Nat :=
  match cs with
  | [] => none
  | '_' :: _ => none
  | _ => digitsValue? base 0 (cs.filter (· != '_'))

/-- The magnitude of an integer without suffix; a prefix `0b`, `0o` or `0x` gives the base. -/
def magnitude? : List Char → Option Nat
  | '0' :: 'b' :: cs => digitsOf? 2 cs
  | '0' :: 'o' :: cs => digitsOf? 8 cs
  | '0' :: 'x' :: cs => digitsOf? 16 cs
  | cs => digitsOf? 10 cs

/-- Reads an integer. A suffix is looked for behind the leading digits, hexadecimal ones
included; `0o` and `0x` are not such digits, so these spellings take no suffix. -/
def IntegerSpelling.read? (spelling : List Char) : Option IntegerSpelling :=
  let (negative, cs) := splitSign spelling
  match IntegerType.ofSuffix? (cs.dropWhile isIntegerChar) with
  | some type => (magnitude? (cs.takeWhile isIntegerChar)).map fun m => ⟨negative, m, some type⟩
  | none => (magnitude? cs).map fun m => ⟨negative, m, none⟩

/-- An unsigned integer of 32 bits. A suffix, if there is one, has to say so. -/
def word? (spelling : List Char) : Option UInt32 :=
  match IntegerSpelling.read? spelling with
  | none => none
  | some i =>
    let type := IntegerType.unsigned 32
    if i.type.getD type = type ∧ type.holds i.negative i.magnitude then
      some (UInt32.ofNat i.magnitude)
    else none

/-- Whether a spelling is an integer that fits the type it names, or 64 bits. -/
def isInteger (spelling : List Char) : Bool :=
  match IntegerSpelling.read? spelling with
  | none => false
  | some i =>
    (i.type.getD (if i.negative then .signed 64 else .unsigned 64)).holds i.negative i.magnitude

/-! ## Decimals -/

/-- A decimal without its underscores. They may stand after a digit or after the mark of the
exponent, and not right after a point. -/
def dropUnderscores (allowed : Bool) : List Char → Option (List Char)
  | [] => some []
  | c :: cs =>
    if c = '_' then if allowed then dropUnderscores allowed cs else none
    else
      let next := if c.isDigit || c == 'e' || c == 'E' then true else c != '.' && allowed
      (dropUnderscores next cs).map (c :: ·)

/-- The value of the exponent that follows a decimal's digits. -/
def exponent? : List Char → Option Int
  | [] => some 0
  | c :: cs =>
    if c = 'e' ∨ c = 'E' then
      let (negative, digits) := splitSign cs
      if digits.isEmpty || !digits.all Char.isDigit then none
      else (digitsValue? 10 0 digits).map fun n => if negative then -(n : Int) else n
    else none

/-- The digits after the point, if there is one, and the rest. -/
def splitFraction : List Char → List Char × List Char
  | '.' :: cs => (cs.takeWhile Char.isDigit, cs.dropWhile Char.isDigit)
  | cs => ([], cs)

/-- An unsigned decimal: digits, of which some may follow a point, then an exponent. -/
def decimal? (cs : List Char) : Option Decimal :=
  let whole := cs.takeWhile Char.isDigit
  let (fraction, rest) := splitFraction (cs.dropWhile Char.isDigit)
  if whole.isEmpty && fraction.isEmpty then none
  else
    match digitsValue? 10 0 (whole ++ fraction), exponent? rest with
    | some coefficient, some exponent => some ⟨coefficient, exponent - fraction.length⟩
    | _, _ => none

/-- The code of a number that is spelled by a name. -/
def namedCode? (name : List Char) : Option Nat :=
  match String.ofList name with
  | "inf" => some Binary32.infinityCode
  | "NaN" => some Binary32.quietCode
  | _ => none

def dropSuffix (suffix : List Char) (cs : List Char) : List Char :=
  if suffix.isSuffixOf cs then cs.take (cs.length - suffix.length) else cs

/-- A number with the sign and the digits, or the name, that are left when its suffix is
gone. -/
def unsuffixed? (spelling : List Char) : Option Binary32 :=
  let (negative, cs) := splitSign spelling
  match namedCode? cs with
  | some code => some (.ofCode negative code)
  | none =>
    match dropUnderscores false spelling with
    | none => none
    | some plain => (decimal? (splitSign plain).2).map fun d => .ofCode negative d.nearestCode

/-- A single-precision number. A suffix, if there is one, has to say so. -/
def number? (spelling : List Char) : Option Binary32 :=
  unsuffixed? (dropSuffix ['f', '3', '2'] spelling)

/-- Whether a spelling is a number with a point or an exponent, or could have one. -/
def isDecimal (spelling : List Char) : Bool :=
  (number? spelling).isSome || (unsuffixed? (dropSuffix ['f', '6', '4'] spelling)).isSome

/-! ## Spelling -/

/-- Numbers never have an exponent. -/
def numberLayout : Layout where
  tie := .up
  isPlain _ := true
  plusSign := false

/-- How a single-precision number is spelled; what is not a number keeps its sign only. -/
def spellNumber (x : Binary32) : List Char :=
  (if x.negative then ['-'] else []) ++
    if x.isNaN then ['N', 'a', 'N']
    else if x.isFinite then numberLayout.magnitude x.code
    else ['i', 'n', 'f']

def spellWord (n : UInt32) : List Char := Decimal.digits n.toNat

end NoiseShader.ObjectText
