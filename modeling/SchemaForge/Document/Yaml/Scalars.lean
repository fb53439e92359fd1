import SchemaForge.Document.Json.Reader
import SchemaForge.Document.Yaml.Cursor

/-!
# Scalars of a YAML text

The three notations of scalars: plain words, which end where an indicator begins; quoted texts; and
blocks of indented lines. Line ends inside plain and quoted scalars are folded: one becomes a blank,
and of several the first is dropped.

Every reader takes a bound on its steps, for which the length of the text will do.
-/

namespace SchemaForge.Yaml

/-- What a line end and the empty lines after it are folded to. -/
def folded (first more : List Char) : List Char :=
  if first != ['\n'] then first ++ more
  else if more.isEmpty then [' ']
  else more

/-! ## Plain scalars -/

/-- The characters that end a plain word inside brackets. -/
def isFlowIndicator (c : Char) : Bool :=
  c == ',' || c == '[' || c == ']' || c == '{' || c == '}'

/-- Whether a colon before the given character ends a plain word. -/
def colonEnds (flow : Bool) (next : Option Char) : Bool :=
  endsWord next || (flow && (next.map isFlowIndicator).getD false)

/-- The length of the plain word at the start of a text. -/
def wordLength (flow : Bool) : List Char → Nat
  | [] => 0
  | c :: cs =>
    if endsWord (some c) || (c == ':' && colonEnds flow cs.head?) ||
        (flow && (isFlowIndicator c || c == '?')) then 0
    else wordLength flow cs + 1

/-- The empty lines after a line end; none if a document starts or ends there. -/
def emptyLines : Nat → Cursor → Option (List Char) × Cursor
  | 0, c => (none, c)
  | fuel + 1, c =>
    if c.atSeparator then (none, c)
    else
      let c := c.skipWhile (· == ' ')
      match c.lineBreak with
      | ([], _) => (some [], c)
      | (b, c) =>
        let (more, c) := emptyLines fuel c
        (more.map (b ++ ·), c)

/-- What stands between two words of a plain scalar, empty if the scalar ends; and whether a line
ended. -/
def betweenWords (fuel : Nat) (c : Cursor) : List Char × Cursor × Bool :=
  let (spaces, c) := c.take (· == ' ')
  match c.lineBreak with
  | ([], _) => (spaces, c, false)
  | (b, c) =>
    match emptyLines fuel c with
    | (some more, c) => (folded b more, c, true)
    | (none, c) => ([], c, true)

/-- A plain scalar: its text, the cursor after it, and whether a line ended behind its last word.
`indent` is the least column of a continuation line. -/
def readPlain (flow : Bool) (indent : Nat) : Nat → Bool → Cursor → List Char × Cursor × Bool
  | 0, ended, c => ([], c, ended)
  | fuel + 1, ended, c =>
    match c.rest.take (wordLength flow c.rest) with
    | [] => ([], c, ended)
    | word =>
      let (between, d, ended) := betweenWords fuel (c.skip word.length)
      if between.isEmpty || d.at? '#' || (!flow && d.column < indent) then (word, d, ended)
      else
        match readPlain flow indent fuel ended d with
        | ([], e, ended) => (word, e, ended)
        | (more, e, ended) => (word ++ between ++ more, e, ended)

/-! ## Quoted scalars -/

/-- The empty lines after a line end inside quotes; a document may neither start nor end there. -/
def quotedLines : Nat → Cursor → Option (List Char × Cursor)
  | 0, _ => none
  | fuel + 1, c =>
    if c.atSeparator then none
    else
      let c := c.skipWhile isSpace
      match c.lineBreak with
      | ([], _) => some ([], c)
      | (b, c) => (quotedLines fuel c).map fun (more, c) => (b ++ more, c)

/-- Blanks and line ends inside quotes. -/
def quotedSpaces (fuel : Nat) (c : Cursor) : Option (List Char × Cursor) :=
  let (spaces, c) := c.take isSpace
  match c.lineBreak with
  | ([], _) => some (spaces, c)
  | (b, c) => (quotedLines fuel c).map fun (more, c) => (folded b more, c)

/-- The characters that one letter after a backslash stands for. -/
def escapes : List (Char × Char) :=
  [('0', '\x00'), ('a', '\x07'), ('b', '\x08'), ('t', '\t'), ('\t', '\t'), ('n', '\n'),
   ('v', '\x0b'), ('f', '\x0c'), ('r', '\r'), ('e', '\x1b'), (' ', ' '), ('"', '"'),
   ('\\', '\\'), ('/', '/'), ('N', '\u0085'), ('_', '\u00a0'), ('L', '\u2028'), ('P', '\u2029')]

/-- The letters that announce a character's number, and the number of its digits. -/
def escapeWidths : List (Char × Nat) := [('x', 2), ('u', 4), ('U', 8)]

/-- The value of a hexadecimal digit. -/
def hexValue? (c : Char) : Option Nat :=
  if c.isDigit then some (c.toNat - '0'.toNat)
  else if 'a' ≤ c && c ≤ 'f' then some (c.toNat - 'a'.toNat + 10)
  else if 'A' ≤ c && c ≤ 'F' then some (c.toNat - 'A'.toNat + 10)
  else none

/-- The number that hexadecimal digits write. -/
def hexNumber? (digits : List Char) : Option Nat :=
  digits.foldlM (fun n c => (hexValue? c).map (n * 16 + ·)) 0

/-- The character of a number of the given width at the start of a text. -/
def numberedChar? (width : Nat) (cs : List Char) : Option Char :=
  let digits := cs.take width
  if digits.length == width then
    match hexNumber? digits with
    | some n => if h : n.isValidChar then some (Char.ofNatAux n h) else none
    | none => none
  else none

/-- An escape, after its backslash. -/
def readEscape (fuel : Nat) (c : Cursor) : Option (List Char × Cursor) :=
  match c.rest with
  | [] => none
  | x :: rest =>
    match escapes.lookup x, escapeWidths.lookup x with
    | some y, _ => some ([y], c.next)
    | none, some width => (numberedChar? width rest).map fun y => ([y], c.skip (width + 1))
    | none, none => if isBreak x then quotedLines fuel c.lineBreak.2 else none

/-- A quoted scalar, after its opening quote. -/
def readQuoted (double : Bool) : Nat → Cursor → Option (List Char × Cursor)
  | 0, _ => none
  | fuel + 1, c =>
    match c.rest with
    | [] => none
    | x :: rest =>
      if isSpace x || isBreak x then
        match quotedSpaces fuel c with
        | some (text, d) => (readQuoted double fuel d).map fun (more, e) => (text ++ more, e)
        | none => none
      else if double && x == '\\' then
        match readEscape fuel c.next with
        | some (text, d) => (readQuoted double fuel d).map fun (more, e) => (text ++ more, e)
        | none => none
      else if !double && x == '\'' && rest.head? == some '\'' then
        (readQuoted double fuel (c.skip 2)).map fun (more, e) => ('\'' :: more, e)
      else if x == (if double then '"' else '\'') then some ([], c.next)
      else (readQuoted double fuel c.next).map fun (more, e) => (x :: more, e)

/-! ## Block scalars -/

/-- What becomes of the line ends after the last line of a block. -/
inductive Chomping where
  | strip
  | clip
  | keep
deriving DecidableEq, Repr

def chomping? : Option Char → Option Chomping
  | some '+' => some .keep
  | some '-' => some .strip
  | _ => none

/-- An explicit indentation, which is never zero. -/
def increment? : Option Char → Option (Option Nat)
  | some d => if d.isDigit then (if d == '0' then none else some (some (d.toNat - '0'.toNat)))
    else some none
  | none => some none

/-- The indicators after the start of a block, in either order. -/
def blockIndicators (c : Cursor) : Option (Chomping × Option Nat × Cursor) := do
  match chomping? c.peek? with
  | some chomping =>
    let c := c.next
    match ← increment? c.peek? with
    | some n => return (chomping, some n, c.next)
    | none => return (chomping, none, c)
  | none =>
    match ← increment? c.peek? with
    | some n =>
      let c := c.next
      match chomping? c.peek? with
      | some chomping => return (chomping, some n, c.next)
      | none => return (.clip, some n, c)
    | none => return (.clip, none, c)

/-- The rest of the line on which a block starts, where only a comment may stand. -/
def blockHeaderEnd (c : Cursor) : Option Cursor :=
  if c.at? '\t' || !endsWord c.peek? then none
  else
    let c := c.skipWhile (· == ' ')
    let c := if c.at? '#' then c.skipLine else c
    match c.lineBreak with
    | ([], _) => if c.peek?.isNone then some c else none
    | (_, c) => some c

/-- The empty lines before a block, and the greatest column reached in them. -/
def blockStart : Nat → Nat → Cursor → List Char × Nat × Cursor
  | 0, widest, c => ([], widest, c)
  | fuel + 1, widest, c =>
    let (spaces, c) := c.take (· == ' ')
    let widest := if spaces.isEmpty then widest else max widest c.column
    match c.lineBreak with
    | ([], _) => ([], widest, c)
    | (b, c) =>
      let (more, widest, c) := blockStart fuel widest c
      (b ++ more, widest, c)

/-- The cursor after the indentation of a line, at most up to a column. -/
def skipIndent (indent : Nat) (c : Cursor) : Cursor :=
  c.skip (min (indent - c.column) (c.rest.takeWhile (· == ' ')).length)

/-- The empty lines at the cursor, and the cursor in the indentation of the line after them. -/
def blockBreaks (indent : Nat) : Nat → Cursor → List Char × Cursor
  | 0, c => ([], c)
  | fuel + 1, c =>
    let c := skipIndent indent c
    match c.lineBreak with
    | ([], _) => ([], c)
    | (b, c) =>
      let (more, c) := blockBreaks indent fuel c
      (b ++ more, c)

/-- The lines of a block: their text, the line end after the last one, the empty lines after that,
and the cursor after all of them. -/
structure BlockLines where
  text : List Char
  lastBreak : List Char
  after : List Char
  cursor : Cursor

/-- Whether a line of a block starts at the cursor. -/
def atLine (indent : Nat) (c : Cursor) : Bool := c.column == indent && c.peek?.isSome

/-- What a line end inside a block becomes. In a folded block it is a blank, unless one of the lines
beside it starts with a blank or empty lines follow. -/
def blockFold (fold : Bool) (line next : Cursor) (lineEnd more : List Char) : List Char :=
  let indented (c : Cursor) := (c.peek?.map isSpace).getD false
  if fold && lineEnd == ['\n'] && !indented line && !indented next then
    (if more.isEmpty then [' '] else [])
  else lineEnd

/-- The lines of a block, the first of which comes after the empty lines `before`. -/
def blockLines (fold : Bool) (indent : Nat) : Nat → List Char → Cursor → BlockLines
  | 0, before, c => ⟨[], [], before, c⟩
  | fuel + 1, before, c =>
    if atLine indent c then
      let (line, d) := c.take fun x => !isBreak x
      let (lineEnd, d) := d.lineBreak
      let (more, d) := blockBreaks indent fuel d
      if atLine indent d then
        let rest := blockLines fold indent fuel more d
        { rest with text := before ++ line ++ blockFold fold c d lineEnd more ++ rest.text }
      else ⟨before ++ line, lineEnd, more, d⟩
    else ⟨[], [], before, c⟩

/-- A block scalar, after its indicator; `least` is the least column of its lines. -/
def readBlock (fold : Bool) (least : Nat) (c : Cursor) : Option (List Char × Cursor) := do
  let fuel := c.rest.length + 1
  let (chomping, increment, c) ← blockIndicators c
  let c ← blockHeaderEnd c
  let lines :=
    match increment with
    | some n =>
      let indent := least + n - 1
      let (before, c) := blockBreaks indent fuel c
      blockLines fold indent fuel before c
    | none =>
      let (before, widest, c) := blockStart fuel 0 c
      blockLines fold (max least widest) fuel before c
  let text := lines.text ++ (if chomping == .strip then [] else lines.lastBreak) ++
    (if chomping == .keep then lines.after else [])
  return (text, lines.cursor)

end SchemaForge.Yaml
