import SchemaForge.Command.Arguments
import SchemaForge.Files.Writing
import SchemaForge.Loading

/-!
# Running the command

The command loads a specification, generates a module from it and writes the module. What it did is
an `Outcome`: an exit code, what was printed, and the files as they are then. Failures of the
program's own kinds are printed and give exit code 1, and arguments that cannot be used give exit
code 2; faults and failures of the file system are passed on.
-/

namespace SchemaForge.Command

open Text

/-! ## The header's command line -/

/-- The value of an option or argument in a header: an existing file by its name only. -/
def shownValue (files : FileTree) (value : String) : String :=
  if files.exists? value then FileTree.nameOf value else value

/-- A value of any kind in a header. -/
def shownParameter (files : FileTree) (v : Value) : String :=
  match v with
  | .text s => shownValue files s
  | v => v.display

/-- The words of an option with a value; an empty value is left out. -/
def valueWords (files : FileTree) (name : String) (value : Option String) : List String :=
  match value with
  | some v => if v == "" then [] else [name, shownValue files v]
  | none => []

def flagWords (name : String) (given : Bool) : List String := if given then [name] else []

/-- The command line that arguments stand for. Options are written in a fixed order. -/
def commandLine (files : FileTree) (a : Arguments) : String :=
  join " " <|
    [ModuleText.programName, shownValue files a.source, shownValue files a.target] ++
    valueWords files "--config" a.config ++
    valueWords files "--mode" (a.mode.map Choice.word) ++
    valueWords files "--schema-type" (a.visibility.map Choice.word) ++
    flagWords "--default-nullable" a.defaultNullable ++
    valueWords files "--empty-object-behavior" (a.emptyObject.map Choice.word) ++
    valueWords files "--enum-type" (a.enumStyle.map Choice.word) ++
    valueWords files "--prefix" a.constPrefix ++
    valueWords files "--suffix" a.constSuffix ++
    a.stripped.flatMap (fun v => ["--strip-schema-prefix", shownValue files v]) ++
    flagWords "--use-describe" a.useDescribe ++
    flagWords "--no-descriptions" a.noDescriptions ++
    flagWords "--separate-types-file" a.separateTypes ++
    flagWords "--stats" a.stats ++
    flagWords "--verbose" a.verbose

/-! ## Arguments and files -/

/-- The arguments with their paths made absolute. The standard input is no path. -/
def absolute (files : FileTree) (a : Arguments) : Arguments :=
  { a with
    source := if a.source == Loading.standardInput then a.source else files.resolve a.source
    target := files.resolve a.target
    config := a.config.map files.resolve }

/-- The arguments, if they can be used with the files there are: a configuration has to exist. -/
def usable? (files : FileTree) (args : List String) : Option Arguments := do
  let a ← Arguments.read? args
  let a := absolute files a
  if a.config.all files.exists? then some a else none

/-! ## Running -/

/-- What a run of the command did. -/
structure Outcome where
  exitCode : Nat
  stdout : String := ""
  stderr : String := ""
  files : FileTree

/-- The fields of the configuration that arguments name; none if they name none. -/
def fileFields (files : FileTree) (a : Arguments) : Except Failure Fields :=
  match a.config with
  | some source => do Failure.lift (← Loading.loadConfiguration files source).fields
  | none => .ok []

/-- The configuration of a run: that of the file, with what arguments set. -/
def configOf (files : FileTree) (a : Arguments) : Except Failure Config := do
  Config.ofFields (a.override (← fileFields files a))

/-- Writes a generated module and reports it. -/
def writeModule (files : FileTree) (target : String) (r : Generation) (text : String) :
    Logged FileTree := do
  let (result, files) := Files.write files target text true
  monadLift result
  Logged.report [⟨.info, .assembly,
    "Wrote " ++ intText r.definitions.length ++ " schemas to " ++ target⟩]
  return files

/-- Loads, generates and writes. -/
def perform (files : FileTree) (input : String) (a : Arguments) :
    Logged (Generation × FileTree) := do
  let document ← Loading.loadSpecification files input a.source
  let config ← configOf files a
  let generator ← Generator.ofDocument document config
  let result ← generator.run
  let text ← ModuleText.render config (commandLine files a) result
  let files ← writeModule files a.target result text
  return (result, files)

/-- Texts as lines. -/
def asLines (lines : List String) : String := String.join (lines.map (· ++ "\n"))

/-- The log as it is printed: warnings only, or everything. -/
def logLines (verbose : Bool) (log : List LogRecord) : List String :=
  (log.filter fun r => verbose || r.isWarning).map LogRecord.line

/-- Whether a failure is one of the program's own kinds. -/
def isReported (f : Failure) : Bool :=
  match f.failureClass with
  | .fault _ => false
  | .fileSystem => false
  | _ => true

/-- Runs the command in a file tree, with a text on its standard input. -/
def run (files : FileTree) (input : String) (args : List String) : Except Failure Outcome :=
  match usable? files args with
  | none => .ok { exitCode := 2, files }
  | some a =>
    let (result, log) := (perform files input a).result
    let log := logLines a.verbose log
    match result with
    | .ok (r, files) => .ok {
        exitCode := 0
        stdout := asLines
          ["Generated " ++ intText r.definitions.length ++ " schemas in " ++ a.target]
        stderr := asLines (log ++ r.warnings.map ("Warning: " ++ ·))
        files }
    | .error f =>
      if isReported f then .ok {
        exitCode := 1
        stderr := asLines (log ++ ["Error: " ++ f.message])
        files }
      else .error f

end SchemaForge.Command
