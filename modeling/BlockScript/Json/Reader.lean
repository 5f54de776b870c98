import BlockScript.Json.Basic

/-!
# Reading JSON

A reader takes a value off the front of a text. Where it fails it says what it missed and how many
characters were left, from which `ReadError` finds the line and the column. Whole numbers have a
greatest length, and arrays and objects a greatest depth; a text that goes beyond one of these is not
read on. Beyond the standard the reader takes `NaN`, `Infinity` and `-Infinity`. A key that is repeated
keeps its first place and its last value.
-/

namespace BlockScript.Json

/-! ## Errors -/

/-- What is wrong with a JSON text. -/
inductive Flaw where
  | expectingValue
  | expectingName
  | expectingColon
  | expectingComma
  | extraData
  | invalidEscape
  | invalidUnicodeEscape
  | invalidControl
  | unterminatedString
  | byteOrderMark
  deriving DecidableEq, Repr

/-- A flaw in words. -/
def Flaw.message : Flaw → String
  | .expectingValue => "Expecting value"
  | .expectingName => "Expecting property name enclosed in double quotes"
  | .expectingColon => "Expecting ':' delimiter"
  | .expectingComma => "Expecting ',' delimiter"
  | .extraData => "Extra data"
  | .invalidEscape => "Invalid \\escape"
  | .invalidUnicodeEscape => "Invalid \\uXXXX escape"
  | .invalidControl => "Invalid control character at"
  | .unterminatedString => "Unterminated string starting at"
  | .byteOrderMark => "Unexpected UTF-8 BOM (decode using utf-8-sig)"

/-- A bound that a JSON text goes beyond. -/
inductive Excess where
  /-- A whole number has so many digits. -/
  | digits (count : Nat)
  /-- An array starts inside too many arrays and objects. -/
  | arrayDepth
  /-- An object starts inside too many arrays and objects. -/
  | objectDepth
  deriving DecidableEq, Repr

/-- The greatest number of digits of a whole number. -/
def digitLimit : Nat := 4300

/-- The greatest number of arrays and objects inside one another. -/
def depthLimit : Nat := 990

/-- An excess in words. -/
def Excess.message : Excess → Text
  | .digits count =>
    "Exceeds the limit (".toList ++ Text.ofNat digitLimit ++
      " digits) for integer string conversion: value has ".toList ++ Text.ofNat count ++
      " digits; use sys.set_int_max_str_digits() to increase the limit".toList
  | .arrayDepth =>
    "maximum recursion depth exceeded while decoding a JSON array from a unicode string".toList
  | .objectDepth =>
    "maximum recursion depth exceeded while decoding a JSON object from a unicode string".toList

/-- Why reading stops: at a flaw, with the number of characters from its place to the end of the text,
or at an excess. -/
inductive Mishap where
  | flaw (f : Flaw) (left : Nat)
  | excess (e : Excess)
  deriving DecidableEq, Repr

/-- A flaw and its place: the number of characters before it, and its line and column, which count
from one. -/
structure PlacedFlaw where
  flaw : Flaw
  position : Nat
  line : Nat
  column : Nat
  deriving DecidableEq, Repr

/-- Why a text is not read. -/
inductive ReadError where
  | flaw (f : PlacedFlaw)
  | excess (e : Excess)
  deriving DecidableEq, Repr

/-- A flaw in a text at the place with so many characters behind it. -/
def Flaw.locate (text : Text) (left : Nat) (f : Flaw) : PlacedFlaw :=
  let position := text.length - left
  let before := text.take position
  { flaw := f
    position := position
    line := before.count '\n' + 1
    column := (before.reverse.takeWhile (· ≠ '\n')).length + 1 }

/-- A mishap in a text, with its place. -/
def Mishap.locate (text : Text) : Mishap → ReadError
  | .flaw f left => .flaw (f.locate text left)
  | .excess e => .excess e

/-- A flaw and its place in words. -/
def PlacedFlaw.message (e : PlacedFlaw) : Text :=
  e.flaw.message.toList ++ ": line ".toList ++ Text.ofNat e.line ++ " column ".toList ++
    Text.ofNat e.column ++ " (char ".toList ++ Text.ofNat e.position ++ ")".toList

/-- A reader of the front of a text, with the rest of the text. -/
abbrev Read (α : Type) := Except Mishap (α × Text)

/-- Fail at the front of a text. -/
def fail {α : Type} (flaw : Flaw) (rest : Text) : Read α := .error (.flaw flaw rest.length)

/-! ## Blanks, numbers and strings -/

/-- The characters that may stand between the parts of a value. -/
def isSpace (c : Char) : Bool := c == ' ' || c == '\t' || c == '\n' || c == '\r'

/-- Skip the blanks in front. -/
def skipSpace (t : Text) : Text := t.dropWhile isSpace

/-- The value of a row of decimal digits. -/
def digitsValue (digits : Text) : Nat := digits.foldl (fun n c => 10 * n + (c.toNat - 48)) 0

/-- The digits in front of a text, and the rest. -/
def spanDigits (t : Text) : Text × Text := (t.takeWhile Char.isDigit, t.dropWhile Char.isDigit)

/-- The whole part of a number: a zero, or digits that do not start with one. -/
def readWhole : Text → Option (Text × Text)
  | '0' :: rest => some (['0'], rest)
  | c :: rest => if c.isDigit then some (spanDigits (c :: rest)) else none
  | [] => none

/-- The fraction of a number, if a point and a digit come next. -/
def readFraction : Text → Option (Text × Text)
  | '.' :: c :: rest => if c.isDigit then some (spanDigits (c :: rest)) else none
  | _ => none

/-- The exponent of a number, if there is one with at least one digit. -/
def readExponent : Text → Option (Int × Text)
  | c :: rest =>
    if c = 'e' ∨ c = 'E' then
      let (negative, rest) := match rest with
        | '-' :: r => (true, r)
        | '+' :: r => (false, r)
        | r => (false, r)
      match spanDigits rest with
      | ([], _) => none
      | (digits, rest) =>
        let n : Int := digitsValue digits
        some (if negative then -n else n, rest)
    else none
  | [] => none

/-- A number whose whole part has been read. -/
def readAfterWhole (negative : Bool) (whole rest : Text) : Read Json :=
  match readFraction rest, readExponent rest with
  | none, none =>
    if digitLimit < whole.length then .error (.excess (.digits whole.length))
    else
      let n : Int := digitsValue whole
      .ok (.num (.whole (if negative then -n else n)), rest)
  | none, some (exponent, rest) =>
    .ok (.num (.decimal negative (digitsValue whole) exponent), rest)
  | some (fraction, rest), _ =>
    let (exponent, rest) := (readExponent rest).getD (0, rest)
    .ok (.num (.decimal negative (digitsValue (whole ++ fraction)) (exponent - fraction.length)),
      rest)

/-- A number in front of a text. -/
def readNumber (t : Text) : Read Json :=
  let (negative, magnitude) := match t with
    | '-' :: rest => (true, rest)
    | _ => (false, t)
  match readWhole magnitude with
  | some (whole, rest) => readAfterWhole negative whole rest
  | none => fail .expectingValue t

/-- The value of a hexadecimal digit. -/
def hexDigit? (c : Char) : Option Nat :=
  if '0' ≤ c ∧ c ≤ '9' then some (c.toNat - 48)
  else if 'a' ≤ c ∧ c ≤ 'f' then some (c.toNat - 87)
  else if 'A' ≤ c ∧ c ≤ 'F' then some (c.toNat - 55)
  else none

/-- The value of four hexadecimal digits. -/
def hexValue? (a b c d : Char) : Option Nat := do
  some (((← hexDigit? a) * 16 + (← hexDigit? b)) * 256 + (← hexDigit? c) * 16 + (← hexDigit? d))

/-- The character written by a backslash and a letter or sign. -/
def escapedChar? : Char → Option Char
  | '"' => some '"'
  | '\\' => some '\\'
  | '/' => some '/'
  | 'b' => some '\x08'
  | 'f' => some '\x0c'
  | 'n' => some '\n'
  | 'r' => some '\r'
  | 't' => some '\t'
  | _ => none

/-- The character of a code unit; a surrogate without its partner is no character. -/
def unitChar (n : Nat) : Char :=
  if 0xd800 ≤ n ∧ n ≤ 0xdfff then Char.ofNat 0xfffd else Char.ofNat n

/-- The character of a high and a low surrogate. -/
def pairChar (high low : Nat) : Char :=
  Char.ofNat (0x10000 + (high - 0xd800) * 0x400 + (low - 0xdc00))

/-- The characters of a string after its opening quote; `opened` is the number of characters from
that quote to the end of the text, and `done` holds what has been read, backwards. -/
def readChars (opened : Nat) (done : Text) : Text → Read Text
  | [] => .error (.flaw .unterminatedString opened)
  | '"' :: rest => .ok (done.reverse, rest)
  | '\\' :: 'u' :: a :: b :: c :: d :: '\\' :: 'u' :: e :: f :: g :: h :: x :: rest =>
    let here := 'u' :: a :: b :: c :: d :: '\\' :: 'u' :: e :: f :: g :: h :: x :: rest
    match hexValue? a b c d with
    | none => fail .invalidUnicodeEscape here
    | some high =>
      if 0xd800 ≤ high ∧ high ≤ 0xdbff then
        match hexValue? e f g h with
        | none => fail .invalidUnicodeEscape ('u' :: e :: f :: g :: h :: x :: rest)
        | some low =>
          if 0xdc00 ≤ low ∧ low ≤ 0xdfff then
            readChars opened (pairChar high low :: done) (x :: rest)
          else
            readChars opened (unitChar high :: done)
              ('\\' :: 'u' :: e :: f :: g :: h :: x :: rest)
      else
        readChars opened (unitChar high :: done) ('\\' :: 'u' :: e :: f :: g :: h :: x :: rest)
  | '\\' :: 'u' :: a :: b :: c :: d :: x :: rest =>
    match hexValue? a b c d with
    | none => fail .invalidUnicodeEscape ('u' :: a :: b :: c :: d :: x :: rest)
    | some n => readChars opened (unitChar n :: done) (x :: rest)
  | '\\' :: 'u' :: rest => fail .invalidUnicodeEscape ('u' :: rest)
  | ['\\'] => .error (.flaw .unterminatedString opened)
  | '\\' :: c :: rest =>
    match escapedChar? c with
    | some e => readChars opened (e :: done) rest
    | none => fail .invalidEscape ('\\' :: c :: rest)
  | c :: rest =>
    if c.toNat < 0x20 then fail .invalidControl (c :: rest)
    else readChars opened (c :: done) rest

/-- A string after its opening quote. -/
def readString (rest : Text) : Read Text := readChars (rest.length + 1) [] rest

/-! ## Values -/

mutual

/-- A value in front of a text. The first argument bounds the number of steps, the second says how many
arrays and objects may still be opened inside one another. -/
def readValue : Nat → Nat → Text → Read Json
  | 0, _, t => fail .expectingValue t
  | fuel + 1, room, t =>
    match t with
    | '"' :: rest => (readString rest).map fun r => (.str r.1, r.2)
    | '[' :: rest =>
      match room with
      | 0 => .error (.excess .arrayDepth)
      | room + 1 =>
        match skipSpace rest with
        | ']' :: rest => .ok (.arr [], rest)
        | rest => (readItems fuel room [] rest).map fun r => (.arr r.1, r.2)
    | '\x7b' :: rest =>
      match room with
      | 0 => .error (.excess .objectDepth)
      | room + 1 =>
        match skipSpace rest with
        | '\x7d' :: rest => .ok (.obj [], rest)
        | rest => (readFields fuel room [] rest).map fun r => (.obj r.1, r.2)
    | 'n' :: 'u' :: 'l' :: 'l' :: rest => .ok (.null, rest)
    | 't' :: 'r' :: 'u' :: 'e' :: rest => .ok (.bool true, rest)
    | 'f' :: 'a' :: 'l' :: 's' :: 'e' :: rest => .ok (.bool false, rest)
    | 'N' :: 'a' :: 'N' :: rest => .ok (.num .undefined, rest)
    | 'I' :: 'n' :: 'f' :: 'i' :: 'n' :: 'i' :: 't' :: 'y' :: rest =>
      .ok (.num (.infinite false), rest)
    | '-' :: 'I' :: 'n' :: 'f' :: 'i' :: 'n' :: 'i' :: 't' :: 'y' :: rest =>
      .ok (.num (.infinite true), rest)
    | t => readNumber t

/-- The items of an array up to its closing bracket, after those in `done`, which is backwards. -/
def readItems : Nat → Nat → List Json → Text → Read (List Json)
  | 0, _, _, t => fail .expectingValue t
  | fuel + 1, room, done, t =>
    match readValue fuel room t with
    | .error m => .error m
    | .ok (item, rest) =>
      match skipSpace rest with
      | ']' :: rest => .ok ((item :: done).reverse, rest)
      | ',' :: rest => readItems fuel room (item :: done) (skipSpace rest)
      | rest => fail .expectingComma rest

/-- The fields of an object up to its closing brace, after those in `done`. -/
def readFields : Nat → Nat → Dictionary Json → Text → Read (Dictionary Json)
  | 0, _, _, t => fail .expectingName t
  | fuel + 1, room, done, t =>
    match t with
    | '"' :: rest =>
      match readString rest with
      | .error m => .error m
      | .ok (name, rest) =>
        match skipSpace rest with
        | ':' :: rest =>
          match readValue fuel room (skipSpace rest) with
          | .error m => .error m
          | .ok (value, rest) =>
            let done := Dictionary.put name value done
            match skipSpace rest with
            | '\x7d' :: rest => .ok (done, rest)
            | ',' :: rest => readFields fuel room done (skipSpace rest)
            | rest => fail .expectingComma rest
        | rest => fail .expectingColon rest
    | t => fail .expectingName t

end

/-- The steps that suffice for a text: every second step takes a character. -/
def stepBound (t : Text) : Nat := 2 * t.length + 2

/-- A whole text as a value, blanks around it aside. -/
def readAll (t : Text) : Except Mishap Json :=
  match t with
  | '\uFEFF' :: _ => .error (.flaw .byteOrderMark t.length)
  | _ =>
    match readValue (stepBound t) depthLimit (skipSpace t) with
    | .error m => .error m
    | .ok (value, rest) =>
      match skipSpace rest with
      | [] => .ok value
      | rest => .error (.flaw .extraData rest.length)

/-- The value that a JSON text writes. -/
def parse (t : Text) : Except ReadError Json := (readAll t).mapError (·.locate t)

end BlockScript.Json
