import NoiseShader.Text.Word
import NoiseShader.ObjectText.Number

set_option autoImplicit false

/-! # Tokens of the object text

The object text is a notation for records, variants, lists and plain values. Here it is cut
into tokens; blanks and comments between them are dropped. Every token keeps the text behind it,
since what parentheses mean can depend on that text.
-/

namespace NoiseShader.ObjectText

inductive Token
  /-- A single character such as a bracket or a comma. -/
  | mark (c : Char)
  /-- A name; a raw one, written after `r#`, is never taken for a keyword. -/
  | name (raw : Bool) (text : String)
  | number (spelling : List Char)
  | text (content : String)
  /-- A character, byte or byte string, which no record here has a use for. -/
  | foreign
deriving DecidableEq, Repr

/-- The characters with the property `Pattern_White_Space`. -/
def isSpace (c : Char) : Bool :=
  c == ' ' || c == '\t' || c == '\n' || c == '\r' || c == '\x0b' || c == '\x0c' ||
    c == '\u0085' || c == '\u200e' || c == '\u200f' || c == '\u2028' || c == '\u2029'

def isMark (c : Char) : Bool :=
  c == '(' || c == ')' || c == '[' || c == ']' || c == '\x7b' || c == '\x7d' || c == ':' ||
    c == ',' || c == '#' || c == '!'

/-- The characters that a raw name and the spelling of a number go on with. -/
def isRawChar (c : Char) : Bool := Text.isWordChar c || c == '.' || c == '+' || c == '-'

def startsNumber (c : Char) : Bool := c.isDigit || c == '+' || c == '-' || c == '.'

/-- Where the blanks between tokens can have led: out of all comments, into one that ends with
its line, or into `depth + 1` comments inside one another. -/
inductive Blank
  | plain
  | line
  | block (depth : Nat)

/-- What follows the blanks and comments at the front of a text, if the comments are closed. -/
def skipBlanks : Blank → List Char → Option (List Char)
  | .plain, '/' :: '/' :: cs => skipBlanks .line cs
  | .plain, '/' :: '*' :: cs => skipBlanks (.block 0) cs
  | .plain, '/' :: _ => none
  | .plain, c :: cs => if isSpace c then skipBlanks .plain cs else some (c :: cs)
  | .line, '\n' :: cs => skipBlanks .plain cs
  | .line, _ :: cs => skipBlanks .line cs
  | .block depth, '/' :: '*' :: cs => skipBlanks (.block (depth + 1)) cs
  | .block (depth + 1), '*' :: '/' :: cs => skipBlanks (.block depth) cs
  | .block 0, '*' :: '/' :: cs => skipBlanks .plain cs
  | .block depth, _ :: cs => skipBlanks (.block depth) cs
  | .block _, [] => none
  | _, [] => some []

/-! ## Escapes -/

/-- A byte given by two hexadecimal digits. -/
def hexByte? : List Char → Option (UInt8 × List Char)
  | a :: b :: cs =>
    match hexValue? a, hexValue? b with
    | some high, some low => some (UInt8.ofNat (16 * high + low), cs)
    | _, _ => none
  | _ => none

/-- The character that some bytes encode. -/
def decodeChar? (bytes : List UInt8) : Option Char :=
  match String.fromUTF8? ⟨bytes.toArray⟩ with
  | none => none
  | some s =>
    match s.toList with
    | [c] => some c
    | _ => none

/-- The character that begins with the given bytes and goes on with at most `more` bytes, each
escaped like them. -/
def byteChar? (bytes : List UInt8) : (more : Nat) → List Char → Option (Char × List Char)
  | more, cs =>
    match decodeChar? bytes with
    | some c => some (c, cs)
    | none =>
      match more, cs with
      | more + 1, '\\' :: 'x' :: cs =>
        match hexByte? cs with
        | some (b, cs) => byteChar? (bytes ++ [b]) more cs
        | none => none
      | _, _ => none

/-- The character with a number of up to six digits, given in braces. -/
def numberedChar? : List Char → Option (Char × List Char)
  | '\x7b' :: cs =>
    let digits := cs.takeWhile (· != '\x7d')
    match digitsValue? 16 0 digits, cs.dropWhile (· != '\x7d') with
    | some n, _ :: rest =>
      if digits.isEmpty || 6 < digits.length then none
      else if n.isValidChar then some (Char.ofNat n, rest) else none
    | _, _ => none
  | _ => none

def plainEscape? : Char → Option Char
  | '\x27' => some '\x27'
  | '\x22' => some '\x22'
  | '\\' => some '\\'
  | 'n' => some '\n'
  | 'r' => some '\r'
  | 't' => some '\t'
  | '0' => some '\x00'
  | _ => none

/-- What an escape stands for, read behind its backslash. -/
inductive Escaped
  | char (c : Char)
  | byte (b : UInt8)

def escaped? : List Char → Option (Escaped × List Char)
  | 'x' :: cs => (hexByte? cs).map fun (b, rest) => (.byte b, rest)
  | 'u' :: cs => (numberedChar? cs).map fun (c, rest) => (.char c, rest)
  | c :: cs => (plainEscape? c).map fun c => (.char c, cs)
  | [] => none

/-- An escape in text: a byte above 127 begins a character of several. -/
def textEscape? (cs : List Char) : Option (Char × List Char) :=
  match escaped? cs with
  | none => none
  | some (.char c, rest) => some (c, rest)
  | some (.byte b, rest) => byteChar? [b] 3 rest

/-! ## Literals -/

/-- The content of a text and what follows its closing quote. The first argument bounds the
number of characters. -/
def textBody : Nat → List Char → Option (List Char × List Char)
  | 0, _ => none
  | _, [] => none
  | fuel + 1, c :: cs =>
    if c = '\x22' then some ([], cs)
    else if c = '\\' then
      match textEscape? cs with
      | none => none
      | some (d, rest) => (textBody fuel rest).map fun (s, rest) => (d :: s, rest)
    else (textBody fuel cs).map fun (s, rest) => (c :: s, rest)

/-- What follows the closing quote of a byte string. -/
def bytesBody : Nat → List Char → Option (List Char)
  | 0, _ => none
  | _, [] => none
  | fuel + 1, c :: cs =>
    if c = '\x22' then some cs
    else if c = '\\' then
      match escaped? cs with
      | none => none
      | some (_, rest) => bytesBody fuel rest
    else bytesBody fuel cs

/-- The content of a raw text, up to a quote with as many number signs as it began with. -/
def rawBody (closing : List Char) : List Char → Option (List Char × List Char)
  | [] => none
  | c :: cs =>
    if closing.isPrefixOf (c :: cs) then some ([], (c :: cs).drop closing.length)
    else (rawBody closing cs).map fun (s, rest) => (c :: s, rest)

/-- A raw text, read behind its `r`. -/
def rawText? (cs : List Char) : Option (List Char × List Char) :=
  let hashes := cs.takeWhile (· == '#')
  match cs.dropWhile (· == '#') with
  | '\x22' :: rest => rawBody ('\x22' :: hashes) rest
  | _ => none

/-- What follows a character literal, read behind its first apostrophe. -/
def skipChar? : List Char → Option (List Char)
  | '\\' :: cs =>
    match escaped? cs with
    | some (.char _, '\x27' :: rest) => some rest
    | some (.byte b, '\x27' :: rest) => if b < 128 then some rest else none
    | _ => none
  | _ :: '\x27' :: rest => some rest
  | _ => none

/-- What follows a byte literal, read behind its first apostrophe. -/
def skipByte? : List Char → Option (List Char)
  | '\\' :: 'u' :: _ => none
  | '\\' :: cs =>
    match escaped? cs with
    | some (_, '\x27' :: rest) => some rest
    | _ => none
  | c :: '\x27' :: rest => if c.toNat < 128 then some rest else none
  | _ => none

/-! ## Tokens -/

def rawName? (cs : List Char) : Option (Token × List Char) :=
  let name := cs.takeWhile isRawChar
  if name.isEmpty then none
  else some (.name true (String.ofList name), cs.dropWhile isRawChar)

/-- The first token of a text that begins with one, and is shorter than `bound`. -/
def token? (bound : Nat) : List Char → Option (Token × List Char)
  | [] => none
  | 'b' :: '\x22' :: cs => (bytesBody bound cs).map fun rest => (.foreign, rest)
  | 'b' :: '\x27' :: cs => (skipByte? cs).map fun rest => (.foreign, rest)
  | 'b' :: 'r' :: '\x22' :: cs => (rawText? ('\x22' :: cs)).map fun (_, rest) => (.foreign, rest)
  | 'b' :: 'r' :: '#' :: cs => (rawText? ('#' :: cs)).map fun (_, rest) => (.foreign, rest)
  | 'r' :: '\x22' :: cs =>
    (rawText? ('\x22' :: cs)).map fun (s, rest) => (.text (String.ofList s), rest)
  | 'r' :: '#' :: '\x22' :: cs =>
    (rawText? ('#' :: '\x22' :: cs)).map fun (s, rest) => (.text (String.ofList s), rest)
  | 'r' :: '#' :: '#' :: cs =>
    (rawText? ('#' :: '#' :: cs)).map fun (s, rest) => (.text (String.ofList s), rest)
  | 'r' :: '#' :: cs => rawName? cs
  | '\x22' :: cs =>
    (textBody bound cs).map fun (s, rest) => (.text (String.ofList s), rest)
  | '\x27' :: cs => (skipChar? cs).map fun rest => (.foreign, rest)
  | c :: cs =>
    if isMark c then some (.mark c, cs)
    else if startsNumber c then
      some (.number (c :: cs.takeWhile isRawChar), cs.dropWhile isRawChar)
    else if Text.isWordStart c then
      some (.name false (String.ofList (c :: cs.takeWhile Text.isWordChar)),
        cs.dropWhile Text.isWordChar)
    else none

/-- A token and the text behind it. -/
structure Lexeme where
  token : Token
  after : List Char
deriving DecidableEq, Repr

/-- Collects the tokens of a text that is shorter than `bound`, newest first in `found`. There
are fewer to come than the number says. -/
def lexemesFrom (bound : Nat) (found : List Lexeme) : Nat → List Char → Option (List Lexeme)
  | 0, _ => none
  | fuel + 1, cs =>
    match skipBlanks .plain cs with
    | none => none
    | some [] => some found.reverse
    | some (c :: cs) =>
      match token? bound (c :: cs) with
      | some (token, rest) => lexemesFrom bound (⟨token, rest⟩ :: found) fuel rest
      | none => none

/-- The tokens of a text that is shorter than `bound`, if it has no mistake in it. -/
def lexemes? (bound : Nat) (cs : List Char) : Option (List Lexeme) :=
  lexemesFrom bound [] bound cs

end NoiseShader.ObjectText
