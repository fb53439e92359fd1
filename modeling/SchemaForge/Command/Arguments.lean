import SchemaForge.Config.Basic

/-!
# Arguments of the command

The options of the command line: which there are, how they are read from arguments, and how they
override a configuration.

An option with a value takes the next argument, or what follows its name and an equals sign; a short
one also what follows its letter. Short flags may be written together. After two hyphens nothing is
an option. Everything else is positional: where the specification is and where the module goes.
-/

namespace SchemaForge.Command

/-- Whether an option takes a value. -/
inductive Arity where
  | flag
  | value
deriving DecidableEq, Repr

structure OptionSpec where
  name : String
  letter : Option Char := none
  arity : Arity

/-- All options. -/
def options : List OptionSpec :=
  [{ name := "--config", letter := some 'c', arity := .value },
   { name := "--mode", letter := some 'm', arity := .value },
   { name := "--schema-type", arity := .value },
   { name := "--default-nullable", arity := .flag },
   { name := "--empty-object-behavior", arity := .value },
   { name := "--enum-type", arity := .value },
   { name := "--prefix", arity := .value },
   { name := "--suffix", arity := .value },
   { name := "--strip-schema-prefix", arity := .value },
   { name := "--use-describe", arity := .flag },
   { name := "--no-descriptions", arity := .flag },
   { name := "--separate-types-file", arity := .flag },
   { name := "--stats", arity := .flag },
   { name := "--verbose", letter := some 'v', arity := .flag }]

/-- Arguments as they were given: options with their values in order, and the other arguments. -/
structure Given where
  options : List (String × String) := []
  positional : List String := []

namespace Given

def addOption (g : Given) (name value : String) : Given :=
  { g with options := g.options ++ [(name, value)] }

def addPositional (g : Given) (arg : String) : Given :=
  { g with positional := g.positional ++ [arg] }

/-- The values of an option, in order. -/
def values (g : Given) (name : String) : List String :=
  (g.options.filter fun o => o.1 == name).map (·.2)

/-- The last value of an option. -/
def last? (g : Given) (name : String) : Option String := (g.values name).getLast?

def has (g : Given) (name : String) : Bool := g.options.any fun o => o.1 == name

end Given

/-! ## Reading -/

/-- An option name with what follows its equals sign. -/
def splitEquals (arg : List Char) : String × Option String :=
  match arg.dropWhile (· != '=') with
  | [] => (String.ofList arg, none)
  | _ :: value => (String.ofList (arg.takeWhile (· != '=')), some (String.ofList value))

/-- Letters of short options: what they give, and the arguments that are left. -/
def readLetters (g : Given) (args : List String) : List Char → Option (Given × List String)
  | [] => some (g, args)
  | c :: cs => do
    let option ← options.find? fun o => o.letter == some c
    match option.arity with
    | .flag => readLetters (g.addOption option.name "") args cs
    | .value =>
      if cs.isEmpty then
        match args with
        | value :: args => some (g.addOption option.name value, args)
        | [] => none
      else some (g.addOption option.name (String.ofList cs), args)

/-- A long option: what it gives, and the arguments that are left. -/
def readLong (g : Given) (args : List String) (option : OptionSpec) (value : Option String) :
    Option (Given × List String) :=
  match option.arity, value, args with
  | .flag, none, args => some (g.addOption option.name "", args)
  | .flag, some _, _ => none
  | .value, some value, args => some (g.addOption option.name value, args)
  | .value, none, value :: args => some (g.addOption option.name value, args)
  | .value, none, [] => none

/-- An argument that starts with a hyphen: what it gives, and the arguments that are left. -/
def readOption (g : Given) (arg : String) (args : List String) : Option (Given × List String) :=
  let (name, value) := splitEquals arg.toList
  match options.find? fun o => o.name == name with
  | some option => readLong g args option value
  | none =>
    match arg.toList with
    | '-' :: '-' :: _ => none
    | _ :: letters => readLetters g args letters
    | [] => none

/-- Whether an argument is read as an option. -/
def isOption (arg : String) : Bool :=
  match arg.toList with
  | '-' :: _ :: _ => true
  | _ => false

/-- Reads all arguments; every step uses one at least. -/
def readAll : Nat → Given → List String → Option Given
  | 0, _, _ => none
  | _ + 1, g, [] => some g
  | fuel + 1, g, arg :: args =>
    if arg == "--" then some (args.foldl Given.addPositional g)
    else if isOption arg then
      match readOption g arg args with
      | some (g, args) => readAll fuel g args
      | none => none
    else readAll fuel (g.addPositional arg) args

/-! ## Arguments -/

/-- The arguments of the command. -/
structure Arguments where
  /-- The specification. -/
  source : String
  /-- The module to write. -/
  target : String
  config : Option String := none
  mode : Option ObjectMode := none
  visibility : Option Visibility := none
  emptyObject : Option EmptyObject := none
  enumStyle : Option EnumStyle := none
  constPrefix : Option String := none
  constSuffix : Option String := none
  stripped : List String := []
  defaultNullable : Bool := false
  useDescribe : Bool := false
  noDescriptions : Bool := false
  separateTypes : Bool := false
  stats : Bool := false
  verbose : Bool := false

/-- The choice that an option names; none if it is not one of those there are. -/
def chosen? {α : Type} [Choice α] (value : Option String) : Option (Option α) :=
  match value with
  | none => some none
  | some word => (Choice.ofValue? (.text word)).map some

/-- The arguments that were given, if they can be used. -/
def Arguments.ofGiven? (g : Given) : Option Arguments := do
  match g.positional with
  | [source, target] =>
    let mode ← chosen? (g.last? "--mode")
    let visibility ← chosen? (g.last? "--schema-type")
    let emptyObject ← chosen? (g.last? "--empty-object-behavior")
    let enumStyle ← chosen? (g.last? "--enum-type")
    return {
      source, target, mode, visibility, emptyObject, enumStyle
      config := g.last? "--config"
      constPrefix := g.last? "--prefix"
      constSuffix := g.last? "--suffix"
      stripped := g.values "--strip-schema-prefix"
      defaultNullable := g.has "--default-nullable"
      useDescribe := g.has "--use-describe"
      noDescriptions := g.has "--no-descriptions"
      separateTypes := g.has "--separate-types-file"
      stats := g.has "--stats"
      verbose := g.has "--verbose" }
  | _ => none

/-- Reads the arguments of the command; none if they cannot be used. -/
def Arguments.read? (args : List String) : Option Arguments :=
  (readAll (args.length + 1) {} args).bind ofGiven?

/-! ## Overriding a configuration -/

/-- Sets a field if there is a value for it. -/
def setIf (name : String) (value : Option Value) (fields : Fields) : Fields :=
  match value with
  | some v => fields.put (.text name) v
  | none => fields

/-- The value of an option with a fixed choice. -/
def choiceValue {α : Type} [Choice α] (choice : Option α) : Option Value :=
  choice.map fun c => .text (Choice.word c)

/-- A value for a flag that was given. -/
def flagValue (given : Bool) (value : Bool) : Option Value :=
  if given then some (.bool value) else none

/-- The options that arguments set, each with its value if it was given. -/
def Arguments.settings (a : Arguments) : List (String × Option Value) :=
  let stripped :=
    if a.stripped.isEmpty then none else some (Value.list (a.stripped.map Value.text))
  [("mode", choiceValue a.mode),
   ("schema_type", choiceValue a.visibility),
   ("empty_object_behavior", choiceValue a.emptyObject),
   ("enum_type", choiceValue a.enumStyle),
   ("prefix", a.constPrefix.map Value.text),
   ("suffix", a.constSuffix.map Value.text),
   ("strip_schema_prefix", stripped),
   ("default_nullable", flagValue a.defaultNullable true),
   ("use_describe", flagValue a.useDescribe true),
   ("include_descriptions", flagValue a.noDescriptions false),
   ("separate_types_file", flagValue a.separateTypes true),
   ("show_stats", flagValue a.stats true)]

/-- The fields of a configuration with those set that arguments give. -/
def Arguments.override (a : Arguments) (fields : Fields) : Fields :=
  a.settings.foldl (fun fields f => setIf f.1 f.2 fields) fields

end SchemaForge.Command
