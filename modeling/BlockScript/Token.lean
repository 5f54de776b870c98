import BlockScript.Bracket

/-!
# Tokens

A line is cut into literal text and bracketed arguments. Brackets nest, except inside square ones,
and `<` and `>` are brackets only where they are not comparison signs. So every character is first
given a role, in view of what stands before and after it, and the line is then cut by the roles alone.
The tokens of a line, put together, are the line again.
-/

namespace BlockScript

/-! ## Comparison signs -/

/-- Whether the next character that is not a space opens a bracket. -/
def opensNext (after : Text) : Bool :=
  match after.dropWhile (· = ' ') with
  | c :: _ => (Bracket.ofOpener? c).isSome
  | [] => false

/-- Whether the last character that is not a space closes a bracket, in a text read backwards. -/
def closesLast (before : Text) : Bool :=
  match before.dropWhile (· = ' ') with
  | c :: _ => (Bracket.ofCloser? c).isSome
  | [] => false

/-- A test that tells, for some text, whether so many of its characters start a block whose own text
holds a comparison sign. -/
structure SignTest where
  holds : Nat → Bool

/-- A rule that gives each text its test. -/
abbrev SignRule := Text → SignTest

/-- No block holds a comparison sign in its own text. -/
def SignRule.none : SignRule := fun _ => ⟨fun _ => false⟩

/-- Whether a character is a comparison sign, between the text before it, read backwards, and the text
after it. It stands between two arguments, or so many characters as are before it start a block whose
own text holds such a sign. A sign does not start a text. -/
def isComparison (verbal : Nat → Bool) (before : Text) (c : Char) (after : Text) : Bool :=
  (c == '<' || c == '>') && !before.isEmpty &&
    (opensNext after && closesLast before || verbal before.length)

/-! ## Roles -/

/-- What a character does to the nesting of brackets. -/
inductive Role where
  | opens (b : Bracket)
  | closes (b : Bracket)
  | plain
  deriving DecidableEq, Repr

/-- The role of a bracket or other character that is no comparison sign. -/
def Role.ofChar (c : Char) : Role :=
  match Bracket.ofOpener? c with
  | some b => .opens b
  | none =>
    match Bracket.ofCloser? c with
    | some b => .closes b
    | none => .plain

/-- A character with its role. -/
structure Glyph where
  char : Char
  role : Role
  deriving DecidableEq, Repr

/-- The characters of a text with their roles, after a text that is given backwards. -/
def glyphsFrom (verbal : Nat → Bool) (before : Text) : Text → List Glyph
  | [] => []
  | c :: rest =>
    ⟨c, if isComparison verbal before c rest then .plain else .ofChar c⟩ ::
      glyphsFrom verbal (c :: before) rest

/-- The characters of a text with their roles. -/
def glyphs (rule : SignRule) (t : Text) : List Glyph := glyphsFrom (rule t).holds [] t

/-- The positions of the comparison signs of a text that follows `before`, which is given
backwards. -/
def comparisonsFrom (verbal : Nat → Bool) (before : Text) : Text → List Nat
  | [] => []
  | c :: rest =>
    let later := comparisonsFrom verbal (c :: before) rest
    if isComparison verbal before c rest then before.length :: later else later

/-- The positions of the comparison signs of a text. -/
def comparisons (rule : SignRule) (t : Text) : List Nat := comparisonsFrom (rule t).holds [] t

/-! ## Cutting -/

/-- A part of a line. -/
inductive Token where
  /-- Text outside brackets. -/
  | literal (t : Text)
  /-- An argument with its brackets. -/
  | bracketed (t : Text)
  deriving DecidableEq, Repr

/-- The text of a token, brackets included. -/
def Token.text : Token → Text
  | .literal t => t
  | .bracketed t => t

/-- The tokens of a line, and the outermost bracket that is left open at its end. -/
structure Tokens where
  tokens : List Token
  unclosed : Option Bracket
  deriving DecidableEq, Repr

namespace Tokens

/-- Put a token in front. -/
def cons (token : Token) (ts : Tokens) : Tokens := { ts with tokens := token :: ts.tokens }

/-- Put literal text, read backwards, in front, if there is any. -/
def consLiteral (read : Text) (ts : Tokens) : Tokens :=
  if read.isEmpty then ts else ts.cons (.literal read.reverse)

/-- The texts of the tokens. -/
def texts (ts : Tokens) : List Text := ts.tokens.map Token.text

end Tokens

/-- The open brackets after a character, innermost first, when `top` is the innermost one before it.
Inside square brackets nothing opens. -/
def Role.nest (top : Bracket) (outer : List Bracket) : Role → List Bracket
  | .opens b => if top = .square then top :: outer else b :: top :: outer
  | .closes b => if b = top then outer else top :: outer
  | .plain => top :: outer

/-- Cut glyphs into tokens, inside the given open brackets and after the characters of the present
token, which are given backwards. -/
def cut : List Bracket → Text → List Glyph → Tokens
  | [], read, [] => .consLiteral read ⟨[], none⟩
  | top :: outer, read, [] => ⟨[.bracketed read.reverse], (top :: outer).getLast?⟩
  | [], read, g :: rest =>
    match g.role with
    | .opens b => .consLiteral read (cut [b] [g.char] rest)
    | _ => cut [] (g.char :: read) rest
  | top :: outer, read, g :: rest =>
    match g.role.nest top outer with
    | [] => .cons (.bracketed (g.char :: read).reverse) (cut [] [] rest)
    | nested => cut nested (g.char :: read) rest

/-- The tokens of a text. -/
def tokenize (rule : SignRule) (t : Text) : Tokens := cut [] [] (glyphs rule t)

/-! ## Nothing is lost -/

theorem map_char_glyphsFrom (verbal : Nat → Bool) (before t : Text) :
    (glyphsFrom verbal before t).map Glyph.char = t := by
  induction t generalizing before with
  | nil => rfl
  | cons c rest ih => simp [glyphsFrom, ih]

@[simp] theorem Tokens.texts_cons (token : Token) (ts : Tokens) :
    (ts.cons token).texts = token.text :: ts.texts := rfl

theorem Tokens.flatten_texts_consLiteral (read : Text) (ts : Tokens) :
    (ts.consLiteral read).texts.flatten = read.reverse ++ ts.texts.flatten := by
  unfold Tokens.consLiteral
  split
  · simp_all
  · simp [Token.text]

theorem flatten_texts_cut (nested : List Bracket) (read : Text) (gs : List Glyph) :
    (cut nested read gs).texts.flatten = read.reverse ++ gs.map Glyph.char := by
  -- what has been read of the first token stands in front of the glyphs that are left
  induction gs generalizing nested read with
  | nil =>
    cases nested with
    | nil =>
      rw [cut, Tokens.flatten_texts_consLiteral]
      rfl
    | cons top outer => simp [cut, Tokens.texts, Token.text]
  | cons g rest ih =>
    cases nested with
    | nil =>
      simp only [cut]
      split
      · simp [Tokens.flatten_texts_consLiteral, ih]
      · simp [ih]
    | cons top outer =>
      simp only [cut]
      split
      · simp [Token.text, ih]
      · simp [ih]

/-- The texts that `tokenize` gives, put together, are the text. -/
theorem flatten_texts_tokenize (rule : SignRule) (t : Text) :
    (tokenize rule t).texts.flatten = t := by
  simp [tokenize, glyphs, flatten_texts_cut, map_char_glyphsFrom]

end BlockScript
