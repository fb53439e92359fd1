import SchemaForge.Config.Choice
import SchemaForge.Failure

/-!
# Configuration

The options of a run, read from the fields of a document and written back to them. Options with a
fixed choice are checked when they are read; all other options keep the value they were given, and
what is wrong with it shows only where it is used.

A field may be spelled with low lines or in camel case. Of fields for the same option the last one
counts, and fields for no option are ignored.
-/

namespace SchemaForge

/-- Options that requests or responses may set apart from the rest. -/
structure Overrides where
  mode : Option ObjectMode := none
  /-- Null if not set. -/
  useDescribe : Value := .null
  /-- Null if not set. -/
  includeDescriptions : Value := .null
deriving DecidableEq, Repr, Inhabited

/-- The overrides option: overrides, or whatever value stands in their place. -/
inductive OverridesOption where
  | overrides (o : Overrides)
  | other (v : Value)
deriving DecidableEq, Repr

instance : Inhabited OverridesOption := ⟨.overrides {}⟩

structure Config where
  mode : ObjectMode := .normal
  visibility : Visibility := .all
  /-- Property values are nullable unless they say otherwise. -/
  defaultNullable : Value := .bool false
  emptyObject : EmptyObject := .loose
  enumStyle : EnumStyle := .zod
  constPrefix : Value := .null
  constSuffix : Value := .null
  /-- Prefixes that the names of schemas lose. -/
  stripped : Value := .null
  includeDescriptions : Value := .bool true
  useDescribe : Value := .bool false
  /-- A regular expression for date-times, in place of the built-in check. -/
  dateTimePattern : Value := .null
  /-- Types come from a file of their own. -/
  separateTypes : Value := .bool false
  typesPath : Value := .text "./types"
  showStats : Value := .bool false
  /-- The capacity of the cache of escaped patterns. -/
  cacheSize : Value := .int 1000
  /-- The greatest depth to which schemas may be nested. -/
  maxDepth : Value := .int 100
  request : OverridesOption := .overrides {}
  response : OverridesOption := .overrides {}
deriving DecidableEq, Repr, Inhabited

/-! ## Names of options -/

/-- The camel-case spellings of options, and the spellings with low lines. -/
def optionAliases : List (String × String) :=
  [("schemaType", "schema_type"), ("defaultNullable", "default_nullable"),
   ("emptyObjectBehavior", "empty_object_behavior"), ("enumType", "enum_type"),
   ("stripSchemaPrefix", "strip_schema_prefix"), ("includeDescriptions", "include_descriptions"),
   ("useDescribe", "use_describe"),
   ("customDateTimeFormatRegex", "custom_date_time_format_regex"),
   ("separateTypesFile", "separate_types_file"), ("typesImportPath", "types_import_path"),
   ("showStats", "show_stats"), ("cacheSize", "cache_size"), ("maxDepth", "max_depth")]

/-- The spelling of an option with low lines. -/
def optionName (name : String) : String := (optionAliases.lookup name).getD name

/-- The option that a field names; only texts name options. -/
def optionOf : Scalar → Except Failure String
  | .text name => .ok (optionName name)
  | _ => .error (.fault .wrongKind)

/-! ## Overrides -/

namespace Overrides

/-- Sets an override by its name; other names are ignored. -/
def setOption (o : Overrides) (name : String) (v : Value) : Except Failure Overrides :=
  if name == "mode" then do
    let mode ← Failure.lift (Choice.ofValue v)
    return { o with mode := some mode }
  else if name == "use_describe" then .ok { o with useDescribe := v }
  else if name == "include_descriptions" then .ok { o with includeDescriptions := v }
  else .ok o

/-- Reads overrides from the fields of a document. -/
def ofFields (fields : Fields) : Except Failure Overrides :=
  fields.foldlM (fun o f => do o.setOption (← optionOf f.1) f.2) {}

/-- The overrides that are set, as fields. -/
def toFields (o : Overrides) : Fields :=
  (match o.mode with
    | some m => [(.text "mode", .text (Choice.word m))]
    | none => []) ++
  (if o.useDescribe.isNull then [] else [(.text "use_describe", o.useDescribe)]) ++
  (if o.includeDescriptions.isNull then []
    else [(.text "include_descriptions", o.includeDescriptions)])

end Overrides

/-! ## Configurations -/

namespace Config

/-- The member that the value of an option names. -/
def choose {α : Type} [Choice α] (option : String) (v : Value) : Except Failure α :=
  match Choice.ofValue? v with
  | some m => .ok m
  | none => .error (.badChoice v option (Choice.words α))

def overridesOf (v : Value) : Except Failure OverridesOption :=
  match v with
  | .object fields => do return .overrides (← Overrides.ofFields fields)
  | v => .ok (.other v)

/-- Sets an option by its name; other names are ignored. -/
def setOption (c : Config) (name : String) (v : Value) : Except Failure Config :=
  match name with
  | "mode" => do return { c with mode := ← choose name v }
  | "schema_type" => do return { c with visibility := ← choose name v }
  | "empty_object_behavior" => do return { c with emptyObject := ← choose name v }
  | "enum_type" => do return { c with enumStyle := ← choose name v }
  | "request" => do return { c with request := ← overridesOf v }
  | "response" => do return { c with response := ← overridesOf v }
  | "default_nullable" => .ok { c with defaultNullable := v }
  | "prefix" => .ok { c with constPrefix := v }
  | "suffix" => .ok { c with constSuffix := v }
  | "strip_schema_prefix" => .ok { c with stripped := v }
  | "include_descriptions" => .ok { c with includeDescriptions := v }
  | "use_describe" => .ok { c with useDescribe := v }
  | "custom_date_time_format_regex" => .ok { c with dateTimePattern := v }
  | "separate_types_file" => .ok { c with separateTypes := v }
  | "types_import_path" => .ok { c with typesPath := v }
  | "show_stats" => .ok { c with showStats := v }
  | "cache_size" => .ok { c with cacheSize := v }
  | "max_depth" => .ok { c with maxDepth := v }
  | _ => .ok c

/-- Reads a configuration from the fields of a document. -/
def ofFields (fields : Fields) : Except Failure Config :=
  fields.foldlM (fun c f => do c.setOption (← optionOf f.1) f.2) {}

/-- Reads a configuration from a document, which has to be an object. -/
def ofValue (v : Value) : Except Failure Config := do ofFields (← Failure.lift v.fields)

/-- The overrides as fields; whatever else stands in their place has none. -/
def overridesValue : OverridesOption → Except Fault Value
  | .overrides o => .ok (.object o.toFields)
  | .other _ => .error .noMember

/-- The options of a configuration, its overrides apart, as fields. -/
def options (c : Config) : Fields :=
  [(.text "mode", .text (Choice.word c.mode)),
   (.text "schema_type", .text (Choice.word c.visibility)),
   (.text "default_nullable", c.defaultNullable),
   (.text "empty_object_behavior", .text (Choice.word c.emptyObject)),
   (.text "enum_type", .text (Choice.word c.enumStyle)),
   (.text "prefix", c.constPrefix),
   (.text "suffix", c.constSuffix),
   (.text "strip_schema_prefix", c.stripped),
   (.text "include_descriptions", c.includeDescriptions),
   (.text "use_describe", c.useDescribe),
   (.text "custom_date_time_format_regex", c.dateTimePattern),
   (.text "separate_types_file", c.separateTypes),
   (.text "types_import_path", c.typesPath),
   (.text "show_stats", c.showStats),
   (.text "cache_size", c.cacheSize),
   (.text "max_depth", c.maxDepth)]

/-- The configuration as fields. -/
def toFields (c : Config) : Except Fault Fields := do
  let request ← overridesValue c.request
  let response ← overridesValue c.response
  return c.options ++ [(.text "request", request), (.text "response", response)]

/-- Whether a configuration is read back from its own fields. -/
def roundTrips (c : Config) : Except Failure Bool := do
  let fields ← Failure.lift c.toFields
  let again ← ofFields fields
  return again == c

end Config

end SchemaForge
