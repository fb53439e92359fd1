import SchemaForge.Text.Blank
import SchemaForge.Text.Identifiers
import SchemaForge.Text.Quoted

/-!
# Checking regular expressions

Decides whether a text is a regular expression. The expression is cut into tokens, characters and
pairs of a backslash and a character, and read by recursive descent. Of what is read only that is
kept on which validity depends: which groups there are, which of them are closed, and how many
characters each part may match, since a look-behind has to have one length.

The readers go down by a bound on their number of steps, taken from the number of tokens.
-/

namespace SchemaForge.Pattern

open Text

/-- Why a text is not accepted. -/
inductive Rejection where
  | invalid
  /-- The expression asks for ASCII and for all characters at once. -/
  | conflictingFlags
  /-- A repetition count is beyond the greatest one. -/
  | countTooLarge
deriving DecidableEq, Repr

/-! ## Tokens -/

/-- A character by itself, one after a backslash, or a backslash at the end of the text. -/
inductive Token where
  | plain (c : Char)
  | escaped (c : Char)
  | cut
deriving DecidableEq, Repr

/-- The tokens of a text. -/
def tokenize : List Char → List Token
  | [] => []
  | ['\\'] => [.cut]
  | '\\' :: c :: cs => .escaped c :: tokenize cs
  | c :: cs => .plain c :: tokenize cs

/-! ## Widths -/

/-- The greatest count of a repetition, which stands for no limit. -/
def noLimit : Nat := 4294967295

/-- The greatest width. -/
def maxWidth : Nat := 1 <<< 64

/-- The least and the greatest number of characters that a part matches. -/
structure Width where
  least : Nat
  most : Nat
deriving DecidableEq, Repr

namespace Width

def zero : Width := ⟨0, 0⟩
def one : Width := ⟨1, 1⟩

def cap (w : Width) : Width := ⟨min w.least maxWidth, min w.most maxWidth⟩

/-- One part after another. -/
def seq (a b : Width) : Width := cap ⟨a.least + b.least, a.most + b.most⟩

/-- One part or another. -/
def alt (a b : Width) : Width := ⟨min a.least b.least, max a.most b.most⟩

/-- A part a number of times. -/
def times (w : Width) (low high : Nat) : Width :=
  cap ⟨w.least * low, if high == noLimit && w.most != 0 then maxWidth else w.most * high⟩

end Width

/-! ## State -/

/-- What an item is, as far as a repetition after it is concerned. -/
inductive ItemKind where
  /-- A position, which cannot be repeated. -/
  | anchor
  /-- A repetition, which cannot be repeated again. -/
  | repetition
  | other
deriving DecidableEq, Repr

structure Item where
  kind : ItemKind
  width : Width

def Item.one : Item := ⟨.other, .one⟩
def Item.empty : Item := ⟨.other, .zero⟩
def Item.anchor : Item := ⟨.anchor, .zero⟩

/-- Flags that an expression can set for itself. -/
structure Flags where
  verbose : Bool := false
  ascii : Bool := false
  unicode : Bool := false
  template : Bool := false
  /-- Flags without a bearing on validity. -/
  others : List Char := []

/-- The rest of the tokens and what has been read so far. -/
structure State where
  rest : List Token
  /-- The number of the next group. -/
  groups : Nat := 1
  names : List (String × Nat) := []
  /-- The closed groups. -/
  closed : List (Nat × Width) := []
  /-- Inside a look-behind, the number of the first group opened in it. -/
  behind : Option Nat := none
  /-- Groups that conditions refer to by number. -/
  conditions : List Nat := []
  flags : Flags := {}
  hasRepetition : Bool := false
  /-- There is a look-behind that matches texts of different lengths. -/
  unevenBehind : Bool := false

abbrev Reader := StateT State (Except Rejection)

def reject {α : Type} : Reader α := throw .invalid

/-- The next token. -/
def peek : Reader (Option Token) := return (← get).rest.head?

/-- Takes the next token. A backslash at the end of the text is rejected once it comes next. -/
def take : Reader (Option Token) := do
  let st ← get
  if st.rest.tail.head? == some .cut then reject
  else
    set { st with rest := st.rest.tail }
    return st.rest.head?

/-- Takes the next token if it is a certain character. -/
def accept (c : Char) : Reader Bool := do
  if (← peek) == some (.plain c) then
    discard take
    return true
  else return false

/-- Takes up to a number of characters of a class. -/
def takeClass (p : Char → Bool) : Nat → Reader (List Char)
  | 0 => return []
  | n + 1 => do
    match ← peek with
    | some (.plain c) =>
      if p c then
        discard take
        return c :: (← takeClass p n)
      else return []
    | _ => return []

/-- The text up to a closing character; escapes never end it. -/
def takeUntil (stop : Char) : Nat → Reader (List Char)
  | 0 => reject
  | n + 1 => do
    match ← take with
    | none => reject
    | some (.plain c) => if c == stop then return [] else return c :: (← takeUntil stop n)
    | some (.escaped c) => return '\\' :: c :: (← takeUntil stop n)
    | some .cut => reject

/-! ## Escapes -/

def isOctal (c : Char) : Bool := '0' ≤ c && c ≤ '7'

def octalValue (cs : List Char) : Nat := cs.foldl (fun n c => n * 8 + (c.toNat - 0x30)) 0

def decimalValue (cs : List Char) : Nat := cs.foldl (fun n c => n * 10 + (c.toNat - 0x30)) 0

def hexNumber (cs : List Char) : Nat := cs.foldl (fun n c => n * 16 + (Quoted.hexValue? c).getD 0) 0

/-- Exactly `n` hexadecimal digits. -/
def hexEscape (n : Nat) : Reader Nat := do
  let ds ← takeClass (fun c => (Quoted.hexValue? c).isSome) n
  if ds.length == n then return hexNumber ds else reject

/-- The escapes that are written the same inside and outside a class; gives the character. -/
def commonEscape (c : Char) : Reader (Option Nat) := do
  if c == 'x' then return some (← hexEscape 2)
  else if c == 'u' then return some (← hexEscape 4)
  else if c == 'U' then
    let n ← hexEscape 8
    if n < 0x110000 then return some n else reject
  else return none

/-- A member of a class: a character, or a class of its own. -/
inductive Member where
  | char (n : Nat)
  | set
deriving DecidableEq, Repr

/-- An escape inside a class. -/
def classEscape (c : Char) : Reader Member := do
  if c == 'a' then return .char 7
  else if c == 'b' then return .char 8
  else if c == 'f' then return .char 12
  else if c == 'n' then return .char 10
  else if c == 'r' then return .char 13
  else if c == 't' then return .char 9
  else if c == 'v' then return .char 11
  else if "dDsSwW".toList.contains c then return .set
  else
    match ← commonEscape c with
    | some n => return .char n
    | none =>
      if isOctal c then
        let n := octalValue (c :: (← takeClass isOctal 2))
        if n ≤ 255 then return .char n else reject
      else if c.isDigit || c.isAlpha then reject
      else return .char c.toNat

/-- A group is closed. -/
def isClosed (st : State) (group : Nat) : Bool := st.closed.any (·.1 == group)

/-- Inside a look-behind only groups closed before it may be referred to. -/
def checkBehind (group : Nat) : Reader Unit := do
  let st ← get
  match st.behind with
  | none => return ()
  | some first => if isClosed st group && group < first then return () else reject

/-- A reference to a group, which has to be closed. -/
def groupReference (group : Nat) : Reader Item := do
  let st ← get
  match st.closed.find? (·.1 == group) with
  | none => reject
  | some (_, width) =>
    checkBehind group
    return ⟨.other, width⟩

/-- A number escape: three octal digits are a character, anything else refers to a group. -/
def numberEscape (c : Char) : Reader Item := do
  match ← peek with
  | some (.plain d) =>
    if d.isDigit then
      discard take
      match ← peek with
      | some (.plain e) =>
        if isOctal c && isOctal d && isOctal e then
          discard take
          if octalValue [c, d, e] ≤ 255 then return .one else reject
        else groupReference (decimalValue [c, d])
      | _ => groupReference (decimalValue [c, d])
    else groupReference (decimalValue [c])
  | _ => groupReference (decimalValue [c])

/-- An escape outside a class. -/
def escape (c : Char) : Reader Item := do
  if "AbBZ".toList.contains c then return .anchor
  else if "dDsSwW".toList.contains c then return .one
  else if "afnrtv".toList.contains c then return .one
  else
    match ← commonEscape c with
    | some _ => return .one
    | none =>
      if c == '0' then
        discard (takeClass isOctal 2)
        return .one
      else if c.isDigit then numberEscape c
      else if c.isAlpha then reject
      else return .one

/-! ## Classes -/

/-- The members of a class up to its closing bracket, of which `count` have been read. -/
def classMembers (count : Nat) : Nat → Reader Unit
  | 0 => reject
  | fuel + 1 => do
    match ← take with
    | none => reject
    | some t =>
      if t == .plain ']' && count != 0 then return ()
      else
        let low ← member t
        if ← accept '-' then
          match ← take with
          | none => reject
          | some u =>
            if u == .plain ']' then return ()
            else
              match low, ← member u with
              | .char a, .char b => if a ≤ b then classMembers (count + 1) fuel else reject
              | _, _ => reject
        else classMembers (count + 1) fuel
where
  member : Token → Reader Member
    | .plain c => return .char c.toNat
    | .escaped c => classEscape c
    | .cut => reject

/-! ## Repetitions -/

/-- The counts of a repetition in braces; none if the brace stands for itself. -/
def braceCounts (fuel : Nat) : Reader (Option (Nat × Nat)) := do
  let start ← get
  if (← peek) == some (.plain '}') then return none
  else
    let low ← takeClass Char.isDigit fuel
    let high ← if ← accept ',' then takeClass Char.isDigit fuel else pure low
    if ← accept '}' then
      let a := if low.isEmpty then 0 else decimalValue low
      let b := if high.isEmpty then noLimit else decimalValue high
      if !low.isEmpty && noLimit ≤ a then throw .countTooLarge
      else if !high.isEmpty && noLimit ≤ b then throw .countTooLarge
      else if b < a then reject
      else return some (a, b)
    else
      set start
      return none

/-- Repeats the last of some items, which stand in reverse order. -/
def repeatLast (items : List Item) (low high : Nat) : Reader (List Item) := do
  match items with
  | [] => reject
  | item :: before =>
    if item.kind == .other then
      let more ← accept '?'
      if !more then discard (accept '+')
      modify fun st => { st with hasRepetition := true }
      return ⟨.repetition, item.width.times low high⟩ :: before
    else reject

/-! ## Groups -/

/-- The letters of flags. -/
def isFlag (c : Char) : Bool := "iLmsxatu".toList.contains c

/-- Adds a flag; the flags for character sets exclude each other. -/
def addFlag (flags : Flags) (c : Char) : Option Flags :=
  if c == 'L' then none
  else if c == 'a' then if flags.unicode then none else some { flags with ascii := true }
  else if c == 'u' then if flags.ascii then none else some { flags with unicode := true }
  else if c == 'x' then some { flags with verbose := true }
  else if c == 't' then some { flags with template := true }
  else some { flags with others := c :: flags.others }

/-- The flags to turn on, from a first letter, and the character after them. -/
def onFlags (flags : Flags) (c : Char) : Nat → Reader (Flags × Char)
  | 0 => reject
  | fuel + 1 => do
    match addFlag flags c with
    | none => reject
    | some flags =>
      match ← take with
      | some (.plain d) =>
        if d == ')' || d == '-' || d == ':' then return (flags, d)
        else if isFlag d then onFlags flags d fuel
        else reject
      | _ => reject

/-- The flags to turn off, from a first letter up to the colon. -/
def offFlags (flags : Flags) (c : Char) : Nat → Reader Flags
  | 0 => reject
  | fuel + 1 => do
    if c == 'a' || c == 'u' || c == 'L' then reject
    else
      match addFlag flags c with
      | none => reject
      | some flags =>
        match ← take with
        | some (.plain d) =>
          if d == ':' then return flags
          else if isFlag d then offFlags flags d fuel
          else reject
        | _ => reject

/-- Whether a flag is both turned on and turned off. -/
def clash (on off : Flags) : Bool :=
  (on.verbose && off.verbose) || on.others.any off.others.contains

/-- The flags of a group; none if they are set for the whole expression. -/
def groupFlags (c : Char) (fuel : Nat) : Reader (Option (Flags × Flags)) := do
  let (on, d) ← if c == '-' then pure ({}, '-') else onFlags {} c fuel
  if d == ')' then
    modify fun st => { st with flags :=
      { st.flags with
        verbose := st.flags.verbose || on.verbose
        ascii := st.flags.ascii || on.ascii
        unicode := st.flags.unicode || on.unicode
        template := st.flags.template || on.template } }
    return none
  else if on.template then reject
  else
    let off ←
      if d == '-' then
        match ← take with
        | some (.plain e) => if isFlag e then offFlags {} e fuel else reject
        | _ => reject
      else pure {}
    if off.template || clash on off then reject else return some (on, off)

/-- Opens a group, by name if it has one; a name is given only once. -/
def openGroup (name : Option String) : Reader Nat := do
  let st ← get
  let group := st.groups
  match name with
  | none => set { st with groups := group + 1 }
  | some n =>
    if st.names.any (·.1 == n) then reject
    else set { st with groups := group + 1, names := (n, group) :: st.names }
  return group

/-- The name of a group, up to a closing character. -/
def groupName (stop : Char) (fuel : Nat) : Reader String := do
  let cs ← takeUntil stop fuel
  if isIdentifier cs then return String.ofList cs else reject

/-- The number that a group condition writes: digits, with blanks around and low lines between. -/
def conditionNumber? (cs : List Char) : Option Nat :=
  let body := trim isBlank cs
  let body := if body.head? == some '+' then body.tail else body
  let digits := body.filter (· != '_')
  let apart := splitAt '_' body
  if apart.any List.isEmpty || digits.isEmpty || !digits.all Char.isDigit then none
  else some (decimalValue digits)

/-- The group that a condition refers to. -/
def conditionGroup (fuel : Nat) : Reader Unit := do
  let cs ← takeUntil ')' fuel
  let st ← get
  if isIdentifier cs then
    match st.names.find? (·.1 == String.ofList cs) with
    | none => reject
    | some (_, group) => checkBehind group
  else
    match conditionNumber? cs with
    | none => reject
    | some group =>
      if group == 0 || 1073741823 ≤ group then reject
      else
        set { st with conditions := group :: st.conditions }
        checkBehind group

/-- Skips a comment group. -/
def skipComment : Nat → Reader Unit
  | 0 => reject
  | n + 1 => do
    match ← take with
    | none => reject
    | some t => if t == .plain ')' then return () else skipComment n

/-- Skips a comment of a verbose expression, up to the end of the line. -/
def skipLine : Nat → Reader Unit
  | 0 => return ()
  | n + 1 => do
    match ← take with
    | none => return ()
    | some t => if t == .plain '\n' then return () else skipLine n

def isVerboseGap (c : Char) : Bool := c == ' ' || (9 ≤ c.toNat && c.toNat ≤ 13)

/-- The width of some items, which stand in reverse order. -/
def widthOf (items : List Item) : Width := items.foldr (fun i w => w.seq i.width) .zero

mutual

/-- Alternatives up to a closing parenthesis or the end. -/
def alternatives : Nat → Bool → Bool → Bool → Reader Width
  | 0, _, _, _ => reject
  | fuel + 1, verbose, top, first => do
    let items ← items fuel verbose (top && first) []
    let width := widthOf items
    if ← accept '|' then
      let st ← get
      let verbose := if top then st.flags.verbose else verbose
      return width.alt (← alternatives fuel verbose top false)
    else return width

/-- Items up to a bar, a closing parenthesis or the end, put in front of those read before. -/
def items : Nat → Bool → Bool → List Item → Reader (List Item)
  | 0, _, _, _ => reject
  | fuel + 1, verbose, first, before => do
    match ← peek with
    | none => return before
    | some .cut => reject
    | some (.escaped c) =>
      discard take
      let item ← escape c
      items fuel verbose first (item :: before)
    | some (.plain c) =>
      if c == '|' || c == ')' then return before
      else
        discard take
        if verbose && isVerboseGap c then items fuel verbose first before
        else if verbose && c == '#' then
          skipLine fuel
          items fuel verbose first before
        else if c == '[' then
          discard (accept '^')
          classMembers 0 fuel
          items fuel verbose first (.one :: before)
        else if c == '*' then
          items fuel verbose first (← repeatLast before 0 noLimit)
        else if c == '+' then
          items fuel verbose first (← repeatLast before 1 noLimit)
        else if c == '?' then
          items fuel verbose first (← repeatLast before 0 1)
        else if c == '{' then
          match ← braceCounts fuel with
          | none => items fuel verbose first (.one :: before)
          | some (low, high) => items fuel verbose first (← repeatLast before low high)
        else if c == '^' || c == '$' then items fuel verbose first (.anchor :: before)
        else if c == '(' then
          let item ← group fuel verbose (first && before.isEmpty)
          match item with
          | some item => items fuel verbose first (item :: before)
          | none =>
            let st ← get
            let verbose := verbose || (first && before.isEmpty && st.flags.verbose)
            items fuel verbose first before
        else items fuel verbose first (.one :: before)

/-- A group, after its opening parenthesis; none for a comment or flags of the whole expression. -/
def group : Nat → Bool → Bool → Reader (Option Item)
  | 0, _, _ => reject
  | fuel + 1, verbose, first => do
    if ← accept '?' then
      match ← take with
      | some (.plain 'P') =>
        if ← accept '<' then
          let name ← groupName '>' fuel
          return some (← captured fuel verbose (some name))
        else if ← accept '=' then
          let name ← groupName ')' fuel
          match (← get).names.find? (·.1 == name) with
          | none => reject
          | some (_, group) => return some (← groupReference group)
        else reject
      | some (.plain ':') => return some ⟨.other, ← enclosed fuel verbose⟩
      | some (.plain '>') => return some ⟨.other, ← enclosed fuel verbose⟩
      | some (.plain '#') =>
        skipComment fuel
        return none
      | some (.plain '=') =>
        discard (enclosed fuel verbose)
        return some .empty
      | some (.plain '!') =>
        discard (enclosed fuel verbose)
        return some .empty
      | some (.plain '<') =>
        match ← take with
        | some (.plain c) =>
          if c == '=' || c == '!' then
            let outer := (← get).behind
            modify fun st => { st with behind := some (outer.getD st.groups) }
            let width ← alternatives fuel verbose false false
            modify fun st => { st with
              behind := outer
              unevenBehind := st.unevenBehind || width.least != width.most ||
                4294967295 < width.least }
            if ← accept ')' then return some .empty else reject
          else reject
        | _ => reject
      | some (.plain '(') =>
        conditionGroup fuel
        let yes := widthOf (← items fuel verbose false [])
        let width ←
          if ← accept '|' then
            let no := widthOf (← items fuel verbose false [])
            pure (yes.alt no)
          else pure ⟨0, yes.most⟩
        if ← accept ')' then return some ⟨.other, width⟩ else reject
      | some (.plain c) =>
        if isFlag c || c == '-' then
          match ← groupFlags c fuel with
          | none => if first then return none else reject
          | some (on, off) =>
            return some ⟨.other, ← enclosed fuel ((verbose || on.verbose) && !off.verbose)⟩
        else reject
      | _ => reject
    else return some (← captured fuel verbose none)

/-- A capturing group, after its name. -/
def captured : Nat → Bool → Option String → Reader Item
  | 0, _, _ => reject
  | fuel + 1, verbose, name => do
    let number ← openGroup name
    let width ← enclosed fuel verbose
    modify fun st => { st with closed := (number, width) :: st.closed }
    return ⟨.other, width⟩

/-- Alternatives and the closing parenthesis after them. -/
def enclosed : Nat → Bool → Reader Width
  | 0, _ => reject
  | fuel + 1, verbose => do
    let width ← alternatives fuel verbose false false
    if ← accept ')' then return width else reject

end

/-! ## Whole expressions -/

/-- Whether what was read up to its end is a regular expression. -/
def settle (st : State) : Except Rejection Unit :=
  if st.flags.ascii && st.flags.unicode then .error .conflictingFlags
  else if !st.rest.isEmpty then .error .invalid
  else if st.conditions.any (st.groups ≤ ·) then .error .invalid
  else if st.unevenBehind || (st.flags.template && st.hasRepetition) then .error .invalid
  else .ok ()

/-- Accepts exactly the regular expressions. -/
def check (pattern : List Char) : Except Rejection Unit :=
  let tokens := tokenize pattern
  match (alternatives (4 * tokens.length + 8) false true true).run { rest := tokens } with
  | .error r => .error r
  | .ok (_, st) => settle st

end SchemaForge.Pattern
