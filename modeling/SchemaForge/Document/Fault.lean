/-!
# Faults

What can be wrong with a value that does not have the form its place asks for. A fault says which
use of the value failed; the value itself may be any document.
-/

namespace SchemaForge

/-- A use of a value that the value does not admit. -/
inductive Fault where
  /-- The value is of a kind that the operation does not work on. -/
  | wrongKind
  /-- The value has no members of the kind asked for. -/
  | noMember
  /-- There is no entry of the given name. -/
  | noEntry
  /-- There is no element at the given position. -/
  | noElement
  /-- The value is of the right kind but not one of those allowed. -/
  | badValue (message : String)
  /-- A number is beyond what the operation can count to. -/
  | tooLarge
deriving DecidableEq, Repr, Inhabited

end SchemaForge
