import NoiseShader.ObjectText.Token

set_option autoImplicit false

/-! # What an option holds

If the content of an option is written without parentheses of its own, the text behind the
parenthesis has to tell whether fields, one value or several follow. A name at its front often
settles that. Otherwise the characters are searched for a comma between the first two values:
brackets are counted, and literals and comments are passed over. A comment that follows a literal
directly is not passed over: its characters count like all others.
-/

namespace NoiseShader.ObjectText

inductive Content
  | nothing
  | fields
  | one
  | several
deriving DecidableEq, Repr

/-! ## Literals -/

/-- How far a literal goes that can stand at the front of a text. -/
inductive Reach
  /-- There is no literal, or one with a mistake in it. -/
  | absent
  /-- The literal has no end. -/
  | endless
  /-- The literal ends, and the rest follows. -/
  | upTo (rest : List Char)
deriving DecidableEq, Repr

/-- What follows a literal, or the whole text if there is none. -/
def Reach.rest? (cs : List Char) : Reach → Option (List Char)
  | absent => some cs
  | endless => none
  | upTo rest => some rest

/-- A literal up to a quote that is not escaped. That there is a quote at all is seen before its
escapes are read. -/
def quotedReach (escape : List Char → Option (List Char)) : Nat → List Char → Reach
  | 0, _ => .endless
  | fuel + 1, cs =>
    if !cs.contains '\x22' then .endless
    else
      match cs.dropWhile fun c => c != '\x22' && c != '\\' with
      | '\\' :: rest =>
        match escape rest with
        | some rest => quotedReach escape fuel rest
        | none => .absent
      | _ :: rest => .upTo rest
      | [] => .endless

/-- A raw literal, read behind its `r`. -/
def rawReach (cs : List Char) : Reach :=
  match cs.dropWhile (· == '#') with
  | '\x22' :: _ =>
    match rawText? cs with
    | some (_, rest) => .upTo rest
    | none => .endless
  | _ => .absent

def charReach : List Char → Reach
  | '\x27' :: cs =>
    match skipChar? cs with
    | some rest => .upTo rest
    | none => .absent
  | _ => .absent

def textReach (bound : Nat) : List Char → Reach
  | '\x22' :: cs => quotedReach (fun cs => (textEscape? cs).map Prod.snd) bound cs
  | 'r' :: cs => rawReach cs
  | _ => .absent

def bytesReach (bound : Nat) : List Char → Reach
  | 'b' :: '\x22' :: cs => quotedReach (fun cs => (escaped? cs).map Prod.snd) bound cs
  | 'b' :: 'r' :: cs => rawReach cs
  | _ => .absent

/-- What follows a character, a text and a byte string, of which each may be missing. -/
def skipLiterals (bound : Nat) (cs : List Char) : Option (List Char) := do
  let cs ← (charReach cs).rest? cs
  let cs ← (textReach bound cs).rest? cs
  (bytesReach bound cs).rest? cs

/-! ## Commas -/

/-- The content whose first value is followed by a comma: there is a second value unless the
parenthesis is closed. -/
def afterComma (cs : List Char) : Option Content :=
  match skipBlanks .plain cs with
  | none => none
  | some (')' :: _) => some .one
  | some _ => some .several

def isOpening (c : Char) : Bool := c == '(' || c == '[' || c == '\x7b'

def isClosing (c : Char) : Bool := c == ')' || c == ']' || c == '\x7d'

/-- Searches for the comma behind the first value, with `depth` brackets open inside it. The
first number bounds the characters. -/
def commaSearch (bound : Nat) : Nat → (depth : Nat) → List Char → Option Content
  | 0, _, _ => none
  | fuel + 1, depth, cs =>
    match (skipBlanks .plain cs).bind (skipLiterals bound) with
    | none => none
    | some [] => none
    | some (c :: cs) =>
      if isOpening c then commaSearch bound fuel (depth + 1) cs
      else if isClosing c then
        match depth with
        | 0 => some .one
        | depth + 1 => commaSearch bound fuel depth cs
      else if c == ',' && depth == 0 then afterComma cs
      else commaSearch bound fuel depth cs

/-- What the text behind the parenthesis of an option begins with. The text is shorter than
`bound`. -/
def content? (bound : Nat) (cs : List Char) : Option Content :=
  match skipBlanks .plain cs with
  | none => none
  | some (')' :: _) => some .nothing
  | some cs =>
    match token? bound cs with
    | some (.name _ _, rest) =>
      match skipBlanks .plain rest with
      | none => none
      | some (':' :: _) => some .fields
      | some (',' :: rest) => afterComma rest
      | some (')' :: _) => some .one
      | some rest => commaSearch bound bound 0 rest
    | _ => commaSearch bound bound 0 cs

end NoiseShader.ObjectText
