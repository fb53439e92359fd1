import SchemaForge.Expression.Printer

/-!
# Formats of strings

What is known of string formats, content encodings and media types: which constructor checks them,
or which refinement of a plain string.
-/

namespace SchemaForge.Formats

/-- How a format is checked. -/
inductive Rule where
  /-- By a constructor of its own. -/
  | constructor (name : String)
  /-- By a refinement, with the message for a text that fails it. -/
  | refinement (test message : String)
  /-- In the same way as another format. -/
  | sameAs (name : String)

/-- Formats, encodings or media types with their rules. -/
abbrev Table := List (String × Rule)

/-- The values of `format`. -/
def formats : Table :=
  [("uuid", .constructor "uuid"),
   ("email", .constructor "email"),
   ("uri", .constructor "url"),
   ("url", .constructor "url"),
   ("uri-reference", .refinement
      "(val) => !/\\s/.test(val)"
      "Must be a valid URI reference"),
   ("hostname", .refinement
      "(val) => /^(?=.\x7b1,253\x7d$)(?:(?!-)[A-Za-z0-9-]\x7b1,63\x7d(?<!-)\\.)*(?!-)[A-Za-z0-9-]\x7b1,63\x7d(?<!-)$/.test(val)"
      "Must be a valid hostname"),
   ("byte", .constructor "base64"),
   ("binary", .constructor "string"),
   ("date", .constructor "iso.date"),
   ("time", .constructor "iso.time"),
   ("duration", .refinement
      "(val) => /^P(?:(?:\\d+Y)?(?:\\d+M)?(?:\\d+D)?(?:T(?:\\d+H)?(?:\\d+M)?(?:\\d+(?:\\.\\d+)?S)?)?|\\d+W)$/.test(val) && !/^PT?$/.test(val)"
      "Must be a valid ISO 8601 duration"),
   ("ipv4", .constructor "ipv4"),
   ("ipv6", .constructor "ipv6"),
   ("emoji", .constructor "emoji"),
   ("base64", .constructor "base64"),
   ("base64url", .constructor "base64url"),
   ("nanoid", .constructor "nanoid"),
   ("cuid", .constructor "cuid"),
   ("cuid2", .constructor "cuid2"),
   ("ulid", .constructor "ulid"),
   ("cidr", .constructor "cidrv4"),
   ("cidrv4", .constructor "cidrv4"),
   ("cidrv6", .constructor "cidrv6"),
   ("json-pointer", .refinement
      "(val) => val === \"\" || /^(\\/([^~/]|~0|~1)+)+$/.test(val)"
      "Must be a valid JSON Pointer (RFC 6901)"),
   ("relative-json-pointer", .refinement
      "(val) => /^(0|[1-9]\\d*)(#|(\\/([^~/]|~0|~1)+)*)$/.test(val)"
      "Must be a valid relative JSON Pointer")]

/-- The values of `contentEncoding`. -/
def contentEncodings : Table :=
  [("base64", .constructor "base64"),
   ("base64url", .constructor "base64url"),
   ("quoted-printable", .refinement
      "(val) => /^[\\x20-\\x7E\\r\\n=]*$/.test(val)"
      "Must be valid quoted-printable encoding"),
   ("7bit", .constructor "string"),
   ("8bit", .constructor "string"),
   ("binary", .constructor "string")]

/-- The values of `contentMediaType`. -/
def mediaTypes : Table :=
  [("application/json", .refinement
      "(val) => \x7b try \x7b JSON.parse(val); return true; \x7d catch \x7b return false; \x7d \x7d"
      "Must be valid JSON"),
   ("application/xml", .refinement
      "(val) => \x7b try \x7b if (typeof DOMParser !== \"undefined\") \x7b const parser = new DOMParser(); const doc = parser.parseFromString(val, \"text/xml\"); return !doc.querySelector(\"parsererror\"); \x7d return /^\\s*<[^>]+>/.test(val); \x7d catch \x7b return false; \x7d \x7d"
      "Must be valid XML"),
   ("text/xml", .sameAs "application/xml"),
   ("application/yaml", .refinement
      "(val) => \x7b try \x7b return val.trim().length > 0 && !/^[[\x7b]/.test(val.trim()); \x7d catch \x7b return false; \x7d \x7d"
      "Must be valid YAML"),
   ("application/x-yaml", .sameAs "application/yaml"),
   ("text/yaml", .sameAs "application/yaml"),
   ("text/html", .refinement
      "(val) => /<[^>]+>/.test(val)"
      "Must contain HTML tags"),
   ("text/plain", .refinement
      "() => true"
      "Plain text content")]

/-- The tables by name. -/
def table? (name : String) : Option Table :=
  [("formats", formats), ("content_encodings", contentEncodings),
   ("media_types", mediaTypes)].lookup name

/-- The rule of a name, where a rule that points to another one is followed a number of times. -/
def Table.follow (table : Table) : Nat → String → Option Rule
  | 0, _ => none
  | steps + 1, name =>
    match table.lookup name with
    | some (.sameAs other) => Table.follow table steps other
    | rule => rule

/-- The rule of a name. -/
def Table.rule? (table : Table) (name : String) : Option Rule := table.follow (table.length + 1) name

/-- The rule of a value; only texts have rules, and what cannot be a name is a fault. -/
def Table.ruleOf (table : Table) (v : Value) : Except Fault (Option Rule) :=
  match v with
  | .text name => .ok (table.rule? name)
  | .scalar _ => .ok none
  | _ => .error .wrongKind

/-- An expression with the refinement of a rule. -/
def Rule.refine (rule : Rule) (e : Expression) : Expression :=
  match rule with
  | .refinement test message => e.andThen "refine" [codeText test, messageOptions message]
  | _ => e

/-- The validator of a rule. -/
def Rule.validator (rule : Rule) : Expression :=
  match rule with
  | .constructor name => zod name []
  | _ => rule.refine (zod "string" [])

/-- A rule as a document. -/
def Rule.toValue : Rule → Value
  | .constructor name => .object [(.text "call", .text name)]
  | .refinement test message => .object [(.text "refine", .text test), (.text "message", .text message)]
  | .sameAs name => .object [(.text "same_as", .text name)]

end SchemaForge.Formats
