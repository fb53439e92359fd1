import SchemaForge.Document.Display

/-!
# Options with a fixed choice

The options whose value is one of a few words.
-/

namespace SchemaForge

/-- Which properties are visible: all, those a request may send, or those a response may hold. -/
inductive Visibility where
  | all
  | request
  | response
deriving DecidableEq, Repr, Inhabited

/-- How strict the validators of objects with declared properties are. -/
inductive ObjectMode where
  | strict
  | normal
  | loose
deriving DecidableEq, Repr, Inhabited

/-- What an object without declared properties becomes. -/
inductive EmptyObject where
  | strict
  | loose
  | record
deriving DecidableEq, Repr, Inhabited

/-- Whether a named enum is only a validator or also a declaration of its own. -/
inductive EnumStyle where
  | zod
  | typescript
deriving DecidableEq, Repr, Inhabited

/-- A type of choices: its members in order, and their words. -/
class Choice (α : Type) where
  members : List α
  word : α → String
  /-- The name of the type in messages. -/
  typeName : String

instance : Choice Visibility where
  members := [.all, .request, .response]
  word
    | .all => "all"
    | .request => "request"
    | .response => "response"
  typeName := "SchemaType"

instance : Choice ObjectMode where
  members := [.strict, .normal, .loose]
  word
    | .strict => "strict"
    | .normal => "normal"
    | .loose => "loose"
  typeName := "ObjectMode"

instance : Choice EmptyObject where
  members := [.strict, .loose, .record]
  word
    | .strict => "strict"
    | .loose => "loose"
    | .record => "record"
  typeName := "EmptyObjectBehavior"

instance : Choice EnumStyle where
  members := [.zod, .typescript]
  word
    | .zod => "zod"
    | .typescript => "typescript"
  typeName := "EnumType"

namespace Choice

variable {α : Type} [Choice α]

/-- The words of all members. -/
def words (α : Type) [Choice α] : List String := (members : List α).map word

/-- The member that a value names. -/
def ofValue? (v : Value) : Option α :=
  members.find? fun m => v == .text (word m)

/-- The member that a value names; any other value is a fault. -/
def ofValue (v : Value) : Except Fault α :=
  match ofValue? v with
  | some m => .ok m
  | none => .error (.badValue (v.shown ++ " is not a valid " ++ typeName α))

end Choice

end SchemaForge
