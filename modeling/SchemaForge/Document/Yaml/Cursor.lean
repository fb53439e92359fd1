/-!
# Places in a YAML text

Indentation is part of YAML's grammar, so a reader has to know the line and the column where it
stands. A `Cursor` is the rest of a text together with that place.
-/

namespace SchemaForge.Yaml

/-- The characters that end a line. -/
def isBreak (c : Char) : Bool :=
  c == '\n' || c == '\r' || c == '\u0085' || c == '\u2028' || c == '\u2029'

/-- A blank inside a line. -/
def isSpace (c : Char) : Bool := c == ' ' || c == '\t'

/-- Blanks, line ends and the end of the text, which end words and let indicators stand alone. -/
def endsWord : Option Char → Bool
  | none => true
  | some c => isSpace c || isBreak c

/-- The characters that a text may hold. -/
def isAllowed (c : Char) : Bool :=
  let n := c.toNat
  n == 9 || n == 10 || n == 13 || (0x20 ≤ n && n ≤ 0x7E) || n == 0x85 ||
    (0xA0 ≤ n && n ≤ 0xD7FF) || (0xE000 ≤ n && n ≤ 0xFFFD) || 0x10000 ≤ n

/-- The mark that may stand at the start of a text and takes no column. -/
def byteOrderMark : Char := '\uFEFF'

/-- The rest of a text and the place where it starts. -/
structure Cursor where
  rest : List Char
  index : Nat := 0
  line : Nat := 0
  column : Nat := 0

namespace Cursor

/-- The character at the cursor. -/
def peek? (c : Cursor) : Option Char := c.rest.head?

/-- The character some places after the cursor. -/
def peekAt? (c : Cursor) (n : Nat) : Option Char := c.rest[n]?

/-- Whether the cursor stands at a character. -/
def at? (c : Cursor) (x : Char) : Bool := c.peek? == some x

/-- One character further. -/
def next (c : Cursor) : Cursor :=
  match c.rest with
  | [] => c
  | x :: rest =>
    if isBreak x && !(x == '\r' && rest.head? == some '\n') then
      ⟨rest, c.index + 1, c.line + 1, 0⟩
    else if x == byteOrderMark then ⟨rest, c.index + 1, c.line, c.column⟩
    else ⟨rest, c.index + 1, c.line, c.column + 1⟩

/-- Some characters further. -/
def skip (c : Cursor) : Nat → Cursor
  | 0 => c
  | n + 1 => c.next.skip n

/-- The characters of a class at the cursor, and the cursor after them. -/
def take (c : Cursor) (p : Char → Bool) : List Char × Cursor :=
  let taken := c.rest.takeWhile p
  (taken, c.skip taken.length)

/-- The cursor after the characters of a class. -/
def skipWhile (c : Cursor) (p : Char → Bool) : Cursor := (c.take p).2

/-- The cursor at the end of its line. -/
def skipLine (c : Cursor) : Cursor := c.skipWhile fun x => !isBreak x

/-- The line end at the cursor, if there is one, and the cursor after it. The separators of lines
and paragraphs stay what they are, all other line ends become a line feed. -/
def lineBreak (c : Cursor) : List Char × Cursor :=
  match c.rest with
  | '\r' :: '\n' :: _ => (['\n'], c.skip 2)
  | x :: _ =>
    if x == '\u2028' || x == '\u2029' then ([x], c.next)
    else if isBreak x then (['\n'], c.next)
    else ([], c)
  | [] => ([], c)

/-- Whether a given indicator of three characters stands alone at the cursor. -/
def atMarker (c : Cursor) (x : Char) : Bool :=
  c.rest.take 3 == [x, x, x] && endsWord (c.peekAt? 3)

/-- Whether the start or end of a document stands at the cursor. -/
def atSeparator (c : Cursor) : Bool := c.atMarker '-' || c.atMarker '.'

end Cursor

end SchemaForge.Yaml
