import SchemaForge.Document.Yaml.Scalars
import SchemaForge.Document.Yaml.Token

/-!
# Reading tokens

The tokens of a YAML text. The lexer keeps the columns of the block collections it is in, the
brackets that are open, and at each level of brackets the place of the last token that may turn out
to be a key. Such a key has to be followed by its colon on the same line, within 1024 characters;
one that starts a line of a block map has to be a key.
-/

namespace SchemaForge.Yaml

/-- A token that may turn out to start a key. -/
structure KeyPlace where
  slot : Nat
  /-- Nothing but a key may stand there. -/
  required : Bool
  index : Nat
  line : Nat
  column : Nat

structure Lexer where
  cursor : Cursor
  /-- The columns of the open block collections, the innermost first. -/
  indents : List Nat := []
  /-- The place of a key outside the brackets and inside each of them, the innermost last. -/
  key : Option KeyPlace := none
  outer : List (Option KeyPlace) := []
  /-- A key without an indicator may stand here. -/
  keyAllowed : Bool := true
  /-- The number of slots made. -/
  slots : Nat := 0
  /-- The tokens read, the last one first. -/
  tokens : List Token := []

namespace Lexer

/-- Whether some bracket is open. -/
def inFlow (l : Lexer) : Bool := !l.outer.isEmpty

def push (l : Lexer) (t : Token) : Lexer := { l with tokens := t :: l.tokens }

/-- The least column of what belongs to the innermost block collection. -/
def leastColumn (l : Lexer) : Nat :=
  match l.indents with
  | [] => 0
  | i :: _ => i + 1

/-! ## Blocks -/

/-- Ends the block collections that stand further right than a column. -/
def closeBlocks (column : Nat) : List Nat → List Token → List Nat × List Token
  | [], tokens => ([], tokens)
  | i :: is, tokens =>
    if column < i then closeBlocks column is (.blockEnd :: tokens) else (i :: is, tokens)

/-- Ends the block collections that the cursor has left; inside brackets columns do not count. -/
def leaveBlocks (l : Lexer) : Lexer :=
  if l.inFlow then l
  else
    let (indents, tokens) := closeBlocks l.cursor.column l.indents l.tokens
    { l with indents, tokens }

/-- Ends all block collections. -/
def leaveAllBlocks (l : Lexer) : Lexer :=
  { l with indents := [], tokens := l.indents.map (fun _ => .blockEnd) ++ l.tokens }

/-- Whether a block collection starts at a column. -/
def opensBlock (l : Lexer) (column : Nat) : Bool :=
  match l.indents with
  | [] => true
  | i :: _ => i < column

/-- Starts a block collection unless one of that column is open. -/
def openBlock (l : Lexer) (column : Nat) (start : Token) : Lexer :=
  if l.opensBlock column then { l.push start with indents := column :: l.indents } else l

/-! ## Keys -/

/-- Whether a key can no longer be completed at the cursor. -/
def isStale (c : Cursor) (k : KeyPlace) : Bool := k.line != c.line || 1024 < c.index - k.index

/-- Gives up a place for a key; a required one cannot be given up. -/
def giveUp (k : Option KeyPlace) : Option (Option KeyPlace) :=
  match k with
  | some k => if k.required then none else some none
  | none => some none

/-- Gives up a place for a key if it is stale. -/
def refresh (c : Cursor) (k : Option KeyPlace) : Option (Option KeyPlace) :=
  match k with
  | some place => if isStale c place then giveUp k else some k
  | none => some none

/-- Gives up all places for keys that are stale. -/
def dropStaleKeys (l : Lexer) : Option Lexer := do
  let key ← refresh l.cursor l.key
  let outer ← l.outer.mapM (refresh l.cursor)
  return { l with key, outer }

/-- Gives up the place for a key at the present level. -/
def dropKey (l : Lexer) : Option Lexer := do return { l with key := ← giveUp l.key }

/-- Notes that the token to come may start a key. -/
def noteKey (l : Lexer) : Option Lexer := do
  if l.keyAllowed then
    let required := !l.inFlow && l.indents.head? == some l.cursor.column
    let l ← l.dropKey
    let place : KeyPlace :=
      { slot := l.slots, required, index := l.cursor.index, line := l.cursor.line,
        column := l.cursor.column }
    return { l.push (.slot l.slots) with slots := l.slots + 1, key := some place }
  else return l

/-! ## Tokens -/

/-- The character at the cursor is a token by itself. -/
def single (l : Lexer) (t : Token) : Lexer := { l.push t with cursor := l.cursor.next }

/-- A bracket that opens a flow collection. -/
def openFlow (l : Lexer) (t : Token) : Option Lexer := do
  let l ← l.noteKey
  return { l.single t with outer := l.key :: l.outer, key := none, keyAllowed := true }

/-- A bracket that closes a flow collection. -/
def closeFlow (l : Lexer) (t : Token) : Option Lexer :=
  match l.outer with
  | [] => none
  | key :: outer => some { l.single t with key, outer, keyAllowed := false }

/-- A comma between brackets. -/
def comma (l : Lexer) : Option Lexer := do
  let l ← l.dropKey
  return { l.single .comma with keyAllowed := true }

/-- The dash before an item. -/
def blockItem (l : Lexer) : Option Lexer := do
  let l ←
    if l.inFlow then pure l
    else if l.keyAllowed then pure (l.openBlock l.cursor.column .listStart)
    else none
  let l ← l.dropKey
  return { l.single .item with keyAllowed := true }

/-- The indicator of a key. -/
def markedKey (l : Lexer) : Option Lexer := do
  let l ←
    if l.inFlow then pure l
    else if l.keyAllowed then pure (l.openBlock l.cursor.column .mapStart)
    else none
  let l ← l.dropKey
  return { l.single .key with keyAllowed := !l.inFlow }

/-- The colon before a value, which makes the token before it a key. -/
def colon (l : Lexer) : Option Lexer := do
  match l.key with
  | some place =>
    let opens := !l.inFlow && l.opensBlock place.column
    let start := if opens then [.key, .mapStart] else [.key]
    let l := { l with
      tokens := Token.fill place.slot start l.tokens
      indents := if opens then place.column :: l.indents else l.indents
      key := none }
    return { l.single .value with keyAllowed := false }
  | none =>
    let l ←
      if l.inFlow then pure l
      else if l.keyAllowed then pure (l.openBlock l.cursor.column .mapStart)
      else none
    return { l.single .value with keyAllowed := !l.inFlow }

/-- The characters of the names of anchors. -/
def isNameChar (c : Char) : Bool := c.isAlphanum || c == '-' || c == '_'

/-- Whether the name of an anchor may end before a character. -/
def endsName (c : Option Char) : Bool :=
  endsWord c || (c.map fun x => "?:,]\x7d%@\x60".toList.contains x).getD false

/-- An anchor or a reference to one. -/
def named (l : Lexer) (token : String → Token) : Option Lexer := do
  let l ← l.noteKey
  let (name, c) := l.cursor.next.take isNameChar
  if name.isEmpty || !endsName c.peek? then none
  else return { l.push (token (String.ofList name)) with cursor := c, keyAllowed := false }

/-- A quoted scalar. -/
def quoted (l : Lexer) (double : Bool) : Option Lexer := do
  let l ← l.noteKey
  let (text, c) ← readQuoted double (l.cursor.rest.length + 1) l.cursor.next
  return { l.push (.scalar (String.ofList text) false) with cursor := c, keyAllowed := false }

/-- A block scalar. -/
def block (l : Lexer) (fold : Bool) : Option Lexer := do
  let l ← l.dropKey
  let (text, c) ← readBlock fold (max 1 l.leastColumn) l.cursor.next
  return { l.push (.scalar (String.ofList text) false) with cursor := c, keyAllowed := true }

/-- A plain scalar; a key may follow it only if its line has ended. -/
def plain (l : Lexer) : Option Lexer := do
  let l ← l.noteKey
  let (text, c, ended) :=
    readPlain l.inFlow l.leastColumn (l.cursor.rest.length + 1) false l.cursor
  return { l.push (.scalar (String.ofList text) true) with cursor := c, keyAllowed := ended }

/-- A line that starts or ends a document. -/
def separator (l : Lexer) (t : Token) : Option Lexer := do
  let l ← l.leaveAllBlocks.dropKey
  return { l.push t with cursor := l.cursor.skip 3, keyAllowed := false }

/-- The characters that never start a plain scalar, besides those that do if a word follows. -/
def isIndicator (c : Char) : Bool := "-?:,[]\x7b\x7d#&*!|>'\"%@\x60".toList.contains c

/-- Whether a plain scalar starts with a character before another. -/
def startsPlain (flow : Bool) (c : Char) (next : Option Char) : Bool :=
  (!endsWord (some c) && !isIndicator c) ||
    (!endsWord next && (c == '-' || (!flow && (c == '?' || c == ':'))))

/-- Blanks, comments and line ends before a token. A key may stand at the start of a line. -/
def skipGap : Nat → Lexer → Lexer
  | 0, l => l
  | fuel + 1, l =>
    let c := l.cursor.skipWhile (· == ' ')
    let c := if c.at? '#' then c.skipLine else c
    match c.lineBreak with
    | ([], _) => { l with cursor := c }
    | (_, c) => skipGap fuel { l with cursor := c, keyAllowed := l.keyAllowed || !l.inFlow }

/-- Reads the token that starts with the given character at the cursor. -/
def token (l : Lexer) (c : Char) : Option Lexer :=
  let next := l.cursor.peekAt? 1
  let alone := l.inFlow || endsWord next
  if c == '-' && l.cursor.column == 0 && l.cursor.atMarker '-' then l.separator .documentStart
  else if c == '.' && l.cursor.column == 0 && l.cursor.atMarker '.' then l.separator .documentEnd
  else if c == '[' then l.openFlow .openList
  else if c == '{' then l.openFlow .openMap
  else if c == ']' then l.closeFlow .closeList
  else if c == '}' then l.closeFlow .closeMap
  else if c == ',' then l.comma
  else if c == '-' && endsWord next then l.blockItem
  else if c == '?' && alone then l.markedKey
  else if c == ':' && alone then l.colon
  else if c == '*' then l.named .reference
  else if c == '&' then l.named .anchor
  else if c == '|' && !l.inFlow then l.block false
  else if c == '>' && !l.inFlow then l.block true
  else if c == '\'' then l.quoted false
  else if c == '"' then l.quoted true
  else if startsPlain l.inFlow c next then l.plain
  else none

/-- Reads all tokens; every step reads at least one character. -/
def run : Nat → Lexer → Option Lexer
  | 0, _ => none
  | fuel + 1, l => do
    let l ← (l.skipGap (l.cursor.rest.length + 1)).dropStaleKeys
    match l.cursor.peek? with
    | none => l.leaveAllBlocks.dropKey
    | some c =>
      let l ← l.leaveBlocks.token c
      run fuel l

end Lexer

/-- The tokens of a text. -/
def tokens? (text : List Char) : Option (List Token) := do
  if text.all isAllowed then
    let start : Cursor := { rest := text }
    let start := if start.at? byteOrderMark then start.next else start
    let l ← Lexer.run (text.length + 2) { cursor := start }
    return Token.settled l.tokens.reverse
  else none

end SchemaForge.Yaml
