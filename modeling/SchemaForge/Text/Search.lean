/-!
# Finding and splitting

Operations on texts as lists of characters: starting, containing, splitting at a character,
replacing every occurrence of a text, and joining.
-/

namespace SchemaForge.Text

/-- Whether `part` stands at the start of the text. -/
def startsWith : (part text : List Char) → Bool
  | [], _ => true
  | _ :: _, [] => false
  | p :: ps, c :: cs => p == c && startsWith ps cs

theorem startsWith_iff_isPrefix : ∀ {part text : List Char},
    startsWith part text = true ↔ part <+: text
  | [], _ => by simp [startsWith]
  | _ :: _, [] => by simp [startsWith]
  | p :: part, c :: text => by
    rw [startsWith, Bool.and_eq_true, startsWith_iff_isPrefix, List.cons_prefix_cons, beq_iff_eq]

/-- Whether `part` stands at the end of the text. -/
def endsWith (part text : List Char) : Bool := startsWith part.reverse text.reverse

theorem endsWith_iff_isSuffix {part text : List Char} :
    endsWith part text = true ↔ part <:+ text := by
  rw [endsWith, startsWith_iff_isPrefix, List.reverse_prefix]

/-- Whether `part` stands somewhere in the text. -/
def contains (part : List Char) : List Char → Bool
  | [] => part.isEmpty
  | c :: cs => startsWith part (c :: cs) || contains part cs

/-- The pieces between the occurrences of a character; one piece more than there are occurrences. -/
def splitAt (sep : Char) : List Char → List (List Char)
  | [] => [[]]
  | c :: cs =>
    match splitAt sep cs with
    | [] => [[]]
    | piece :: rest => if c == sep then [] :: piece :: rest else (c :: piece) :: rest

theorem splitAt_ne_nil (sep : Char) (cs : List Char) : splitAt sep cs ≠ [] := by
  cases cs with
  | nil => simp [splitAt]
  | cons c cs =>
    simp only [splitAt]
    split
    · simp
    · split <;> simp

/-- The part after the last occurrence of a character, the whole text if there is none. -/
def afterLast (sep : Char) (cs : List Char) : List Char :=
  (cs.reverse.takeWhile (· != sep)).reverse

/-- The maximal runs of characters outside a class, in order. -/
def words (isSeparator : Char → Bool) : List Char → List (List Char)
  | [] => []
  | c :: cs =>
    if isSeparator c then words isSeparator cs
    else
      match cs, words isSeparator cs with
      | d :: _, w :: ws => if isSeparator d then [c] :: w :: ws else (c :: w) :: ws
      | _, ws => [c] :: ws

example : words (· == ' ') " ab c ".toList = ["ab".toList, "c".toList] := by decide

/-- The text with every run of characters of a class made into one other character. -/
def collapse (p : Char → Bool) (mark : Char) : List Char → List Char
  | [] => []
  | c :: cs =>
    if p c then
      match cs with
      | d :: _ => if p d then collapse p mark cs else mark :: collapse p mark cs
      | [] => [mark]
    else c :: collapse p mark cs

/-- Texts with a separator between each two of them. -/
def join (sep : String) (parts : List String) : String := String.intercalate sep parts

end SchemaForge.Text
