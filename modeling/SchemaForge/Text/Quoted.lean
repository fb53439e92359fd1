import SchemaForge.Text.Search

/-!
# Quoted texts

A text between double quotes, in which the quote, the backslash and the control characters are
written as escapes. `encode` writes a quoted text and `decode` reads one; a writer may also be
told to write every character beyond ASCII as an escape, in UTF-16 units.
-/

namespace SchemaForge.Text.Quoted

/-! ## Hexadecimal -/

/-- The digit of a value below sixteen, in lower case. -/
def hexDigit (n : Nat) : Char :=
  if n < 10 then Char.ofNat (0x30 + n) else Char.ofNat (0x61 + (n - 10))

/-- The value of a hexadecimal digit, in either case. -/
def hexValue? (c : Char) : Option Nat :=
  let n := c.toNat
  if 0x30 ≤ n && n ≤ 0x39 then some (n - 0x30)
  else if 0x61 ≤ n && n ≤ 0x66 then some (n - 0x61 + 10)
  else if 0x41 ≤ n && n ≤ 0x46 then some (n - 0x41 + 10)
  else none

theorem hexValue?_hexDigit {n : Nat} (h : n < 16) : hexValue? (hexDigit n) = some n := by
  have all : ∀ m ∈ List.range 16, hexValue? (hexDigit m) = some m := by decide
  exact all n (List.mem_range.mpr h)

/-- The last `width` hexadecimal digits of a number. -/
def hex : (width n : Nat) → List Char
  | 0, _ => []
  | width + 1, n => hex width (n / 16) ++ [hexDigit (n % 16)]

/-- A UTF-16 unit as an escape. -/
def unitEscape (n : Nat) : List Char := '\\' :: 'u' :: hex 4 n

/-! ## Writing -/

/-- A character as it stands in a quoted text. -/
def escape (asciiOnly : Bool) (c : Char) : List Char :=
  if c == '"' then ['\\', '"']
  else if c == '\\' then ['\\', '\\']
  else if c == '\n' then ['\\', 'n']
  else if c == '\r' then ['\\', 'r']
  else if c == '\t' then ['\\', 't']
  else if c.toNat == 8 then ['\\', 'b']
  else if c.toNat == 12 then ['\\', 'f']
  else if c.toNat < 0x20 then unitEscape c.toNat
  else if asciiOnly && 0x7E < c.toNat then
    if c.toNat < 0x10000 then unitEscape c.toNat
    else
      let n := c.toNat - 0x10000
      unitEscape (0xD800 + n / 0x400) ++ unitEscape (0xDC00 + n % 0x400)
  else [c]

/-- The inside of a quoted text. -/
def encodeChars (asciiOnly : Bool) : List Char → List Char
  | [] => []
  | c :: cs => escape asciiOnly c ++ encodeChars asciiOnly cs

/-- A quoted text. -/
def encode (asciiOnly : Bool) (cs : List Char) : List Char :=
  '"' :: (encodeChars asciiOnly cs ++ ['"'])

/-! ## Reading -/

/-- The character of a one-letter escape. -/
def shortEscape? (c : Char) : Option Char :=
  if c == '"' || c == '\\' || c == '/' then some c
  else if c == 'n' then some '\n'
  else if c == 'r' then some '\r'
  else if c == 't' then some '\t'
  else if c == 'b' then some (Char.ofNat 8)
  else if c == 'f' then some (Char.ofNat 12)
  else none

/-- The number of four hexadecimal digits. -/
def hex4? (a b c d : Char) : Option Nat := do
  let a ← hexValue? a
  let b ← hexValue? b
  let c ← hexValue? c
  let d ← hexValue? d
  return ((a * 16 + b) * 16 + c) * 16 + d

def isHighUnit (n : Nat) : Bool := 0xD800 ≤ n && n < 0xDC00

def isLowUnit (n : Nat) : Bool := 0xDC00 ≤ n && n < 0xE000

/-- The character of a unit that is no half of a pair; a lone half stands for the replacement
character. -/
def unitChar (n : Nat) : Char :=
  if isHighUnit n || isLowUnit n then Char.ofNat 0xFFFD else Char.ofNat n

/-- The character that an unfinished pair stands for. -/
def pending : Option Nat → List Char
  | none => []
  | some _ => [Char.ofNat 0xFFFD]

/--
Reads the inside of a quoted text up to its closing quote and gives what follows it.

`high` is the first half of a pair of units whose second half may follow.
-/
def decodeChars (high : Option Nat) : List Char → Option (List Char × List Char)
  | [] => none
  | '"' :: rest => some (pending high, rest)
  | '\\' :: 'u' :: a :: b :: c :: d :: rest =>
    match hex4? a b c d with
    | none => none
    | some n =>
      match high with
      | some h =>
        if isLowUnit n then
          (decodeChars none rest).map fun (cs, tail) =>
            (Char.ofNat (0x10000 + (h - 0xD800) * 0x400 + (n - 0xDC00)) :: cs, tail)
        else if isHighUnit n then
          (decodeChars (some n) rest).map fun (cs, tail) => (Char.ofNat 0xFFFD :: cs, tail)
        else
          (decodeChars none rest).map fun (cs, tail) =>
            (Char.ofNat 0xFFFD :: unitChar n :: cs, tail)
      | none =>
        if isHighUnit n then decodeChars (some n) rest
        else (decodeChars none rest).map fun (cs, tail) => (unitChar n :: cs, tail)
  | '\\' :: e :: rest =>
    match shortEscape? e with
    | none => none
    | some c => (decodeChars none rest).map fun (cs, tail) => (pending high ++ c :: cs, tail)
  | c :: rest =>
    if c == '\\' || c.toNat < 0x20 then none
    else (decodeChars none rest).map fun (cs, tail) => (pending high ++ c :: cs, tail)

/-- Reads a whole quoted text. -/
def decode : List Char → Option (List Char)
  | '"' :: rest =>
    match decodeChars none rest with
    | some (cs, []) => some cs
    | _ => none
  | _ => none

end SchemaForge.Text.Quoted
