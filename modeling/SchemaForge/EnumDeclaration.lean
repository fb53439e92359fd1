import SchemaForge.Config.Choice
import SchemaForge.Expression.Printer
import SchemaForge.Naming.Member

/-!
# Named enums

A named schema that is an enum becomes a validator over its values as texts or, if asked, a
declaration of an enum together with a validator that refers to it. Null is never a member.
-/

namespace SchemaForge

/-- A compiled enum: its validator and, for a declared one, its name and declaration. -/
structure EnumDeclaration where
  validator : Expression
  name : Option String := none
  code : Option String := none
deriving Inhabited

namespace EnumDeclaration

open Text

/-- The name of a declaration: an ending `EnumOptions` becomes `Enum`, which others get. -/
def nameOf (typeName : String) : String :=
  let ending := "EnumOptions".toList
  let cs := typeName.toList
  if endsWith ending cs then String.ofList (cs.take (cs.length - ending.length)) ++ "Enum"
  else typeName ++ "Enum"

/-- An enum value as a text. -/
def valueText : Value → String
  | .bool b => Json.boolText b
  | .float x =>
    match x.toInt? with
    | some n => intText n
    | none => Scalar.decimals.write x
  | v => v.display

/-- The value of a member: numbers as they are, all else as texts. -/
def memberValue : Value → String
  | .int n => intText n
  | .float x =>
    match x.toInt? with
    | some n => intText n
    | none => Json.decimals.write x
  | v => Literal.string (valueText v)

/-- The values that become members. -/
def memberValues (values : List Value) : List Value := values.filter fun v => !v.isNull

/-- The names of members, allocated one after another. -/
def memberNames (used : List String) : List Value → List String
  | [] => []
  | v :: vs =>
    let name := Naming.freeName (Naming.memberCandidate v) used
    name :: memberNames (used ++ [name]) vs

/-- The members of an enum: their names and values. -/
def members (values : List Value) : List (String × String) :=
  let values := memberValues values
  (memberNames [] values).zip (values.map memberValue)

/-- The declaration of an enum. -/
def declaration (name : String) (values : List Value) : String :=
  let lines := (members values).map fun m => "  " ++ m.1 ++ " = " ++ m.2 ++ ","
  "export enum " ++ name ++ " \x7b\n" ++ join "\n" lines ++ "\n\x7d"

/-- Compiles a named enum. -/
def ofValues (typeName : String) (values : List Value) (style : EnumStyle) : EnumDeclaration :=
  match style with
  | .typescript =>
    let name := nameOf typeName
    { validator := zod "enum" [.identifier name]
      name := some name
      code := some (declaration name values) }
  | .zod =>
    let literals := (memberValues values).map fun v => Node.literal (.text (valueText v))
    { validator := zod "enum" [.array literals] }

end EnumDeclaration

end SchemaForge
