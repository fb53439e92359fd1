import SchemaForge.Document.Display
import SchemaForge.Log

/-!
# Comments

The comment before a schema or property: its title, description and examples and a mark for
deprecated ones, on one line, followed by a block of warnings if definitions conflict. Schema text
is escaped so that it can neither close the comment nor start a tag.
-/

namespace SchemaForge.Comment

open Text

/-- The end of a comment is broken by a backslash, and so is the start of a tag. -/
def escapeChars : List Char → List Char
  | [] => []
  | '*' :: '/' :: cs => '*' :: '\\' :: '/' :: escapeChars cs
  | c :: cs => if c == '@' then '\\' :: '@' :: escapeChars cs else c :: escapeChars cs

def escape (s : String) : String := String.ofList (escapeChars s.toList)

/-! ## Examples -/

mutual

/-- The first thing in a document that JSON cannot write, in words. -/
def obstacle? : Value → Option String
  | .scalar (.date _) => some "Object of type date is not JSON serializable"
  | .scalar (.moment _) => some "Object of type datetime is not JSON serializable"
  | .scalar _ => none
  | .list items => obstacleIn? items
  | .object fields => obstacleOf? fields

def obstacleIn? : List Value → Option String
  | [] => none
  | v :: vs => (obstacle? v).orElse fun _ => obstacleIn? vs

def obstacleOf? : List (Scalar × Value) → Option String
  | [] => none
  | (.date _, _) :: _ => some "keys must be str, int, float, bool or None, not date"
  | (.moment _, _) :: _ => some "keys must be str, int, float, bool or None, not datetime"
  | (_, v) :: fields => (obstacle? v).orElse fun _ => obstacleOf? fields

end

/-- The examples of a schema as a tag. -/
def exampleText (schema : Fields) : Except Fault (Option String) := do
  match schema.value "examples" with
  | .list (e :: es) =>
    let parts ← (e :: es).mapM (Json.write Json.literal)
    return some ("@example " ++ join ", " parts)
  | _ =>
    match schema.get? "example" with
    | some e =>
      let part ← Json.write Json.literal e
      return some ("@example " ++ part)
    | none => return none

/-- What a failed example is reported as. -/
def exampleWarning (schema : Fields) : LogRecord :=
  let examples :=
    match schema.value "examples" with
    | .list (e :: es) => e :: es
    | _ => [schema.value "example"]
  warn .comments ("Could not serialize schema example: " ++ (obstacleIn? examples).getD "")

/-! ## Comments -/

/-- A text that is not empty, escaped. -/
def textPart (v : Value) : List String :=
  match v with
  | .text s => if s == "" then [] else [escape s]
  | _ => []

/--
The comment of a schema, and a warning if an example cannot be written. A title equal to the name is
not repeated; without descriptions only the mark for deprecated schemas is left.
-/
def ofSchema (schema : Value) (name : Scalar) (descriptions : Bool) : String × List LogRecord :=
  match schema with
  | .object fields =>
    let schema : Fields := fields
    let deprecated := (schema.value "deprecated").isSet
    if !descriptions then (if deprecated then "/** @deprecated */" else "", [])
    else
      let title := schema.value "title"
      let title := if title.same (.scalar name) then [] else textPart title
      let (example?, log) :=
        match exampleText schema with
        | .ok e => (e.toList, [])
        | .error _ => ([], [exampleWarning schema])
      let parts := title ++ textPart (schema.value "description") ++ example? ++
        (if deprecated then ["@deprecated"] else [])
      (if parts.isEmpty then "" else "/** " ++ join " " parts ++ " */", log)
  | _ => ("", [])

/-- The comment with a block of warnings about conflicting definitions. -/
def withConflicts (comment : String) (conflicts : List String) : String :=
  if conflicts.isEmpty then comment
  else
    let lines := " * @warning allOf property conflicts detected:" ::
      conflicts.map fun c => " * - " ++ escape c
    let block := join "\n" lines
    if comment == "" then "/**\n" ++ block ++ "\n */"
    else
      let cs := comment.toList
      String.ofList (cs.take (cs.length - 3)) ++ "\n" ++ block ++ "\n */"

end SchemaForge.Comment
