import SchemaForge.Document.Json.Reader
import SchemaForge.Document.Yaml.Reader
import SchemaForge.Files.FileTree
import SchemaForge.Logged
import SchemaForge.Text.Blank

/-!
# Loading documents

Documents are JSON or YAML. The ending of a file's name may say which; otherwise JSON is tried first
and YAML second. A document has to be an object. A specification has to be of a version that is
supported, as far as it names one.
-/

namespace SchemaForge

open Text

/-- What is known of the format of a text. -/
inductive Format where
  | json
  | yaml
  | unknown
deriving DecidableEq, Repr

namespace Format

/-- The format that a word names. -/
def ofWord (word : String) : Format :=
  if word == "json" then .json else if word == "yaml" then .yaml else .unknown

/-- The ending of a file's name from its last dot on; a dot at either end of the name starts no
ending. -/
def endingOf (name : String) : List Char :=
  let cs := name.toList
  let ending := afterLast '.' cs
  if ending.isEmpty || cs.length ≤ ending.length + 1 then [] else '.' :: ending

/-- The format that the name of a file suggests. -/
def ofName (name : String) : Format :=
  let ending := String.ofList ((endingOf name).map Char.toLower)
  if ending == ".json" then .json
  else if ending == ".yaml" || ending == ".yml" then .yaml
  else .unknown

end Format

namespace Loading

/-! ## Texts -/

/-- A document has to be an object. -/
def requireObject (role : DocumentRole) (v : Value) : Except Failure Value :=
  match v with
  | .object fields => .ok (.object fields)
  | .null => .error (.notAMapping role "empty document")
  | v => .error (.notAMapping role v.kindName)

/-- Reads a text as YAML. -/
def parseYaml (role : DocumentRole) (text : String) : Except Failure Value :=
  match Yaml.parse text with
  | .ok v => requireObject role v
  | .error .unreadable => .error (.unreadable role)
  | .error (.fault f) => .error (.fault f)

/-- Reads a text as a document. -/
def parse (role : DocumentRole) (format : Format) (text : String) : Except Failure Value :=
  match format with
  | .yaml => parseYaml role text
  | format =>
    match Json.parse? text with
    | some v => requireObject role v
    | none => if format == .json then .error (.invalidJson role) else parseYaml role text

/-! ## Versions -/

/-- What a specification of an unknown version is reported as. -/
def versionRecords (version : Value) : List LogRecord :=
  match version with
  | .null => [warn .loader "Document has no 'openapi' field, treating it as OpenAPI 3.x"]
  | v =>
    if startsWith "3.".toList v.display.toList then []
    else [warn .loader ("Unsupported OpenAPI version " ++ v.display ++ ", generating anyway")]

/-- Refuses specifications of the older kind and reports unknown versions. -/
def checkVersion (document : Value) : Logged Unit := do
  let fields ← document.fields
  match fields.get? "swagger" with
  | some version => throw (.unsupportedVersion version)
  | none => Logged.report (versionRecords (fields.value "openapi"))

/-! ## Files -/

/-- Whether a text holds nothing but blanks. -/
def isVoid (text : String) : Bool := text.toList.all isBlank

/-- The text of a file and its format. -/
def readFile (role : DocumentRole) (files : FileTree) (source : String) :
    Except Failure (String × Format) :=
  match files.read? source with
  | some text => .ok (text, .ofName (FileTree.nameOf source))
  | none => .error (.fileNotFound role (files.textOf (files.pathOf source)))

/-- The source that stands for the standard input. -/
def standardInput : String := "-"

/-- Loads a specification from a file or from the standard input. -/
def loadSpecification (files : FileTree) (input : String) (source : String) : Logged Value := do
  let (text, format) ←
    if source == standardInput then pure (input, .unknown)
    else monadLift (readFile .specification files source)
  if isVoid text then throw (.emptyDocument source)
  let document ← parse .specification format text
  checkVersion document
  return document

/-- Loads a configuration from a file; an empty file sets no option. -/
def loadConfiguration (files : FileTree) (source : String) : Except Failure Value := do
  let (text, format) ← readFile .configuration files source
  if isVoid text then return .object [] else parse .configuration format text

end Loading

end SchemaForge
