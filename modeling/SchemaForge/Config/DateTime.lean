import SchemaForge.Expression.Printer
import SchemaForge.Failure
import SchemaForge.Pattern.Spelling

/-!
# The validator of date-times

Date-times are checked by the validation library itself or, if a pattern is given, by a regular
expression. The pattern is checked before anything is generated.
-/

namespace SchemaForge.DateTime

/-- What a rejected pattern is reported as. -/
def rejected (pattern : String) : Pattern.Rejection → Failure
  | .invalid => .badDateTimePattern pattern
  | .conflictingFlags => .fault (.badValue "ASCII and UNICODE flags are incompatible")
  | .countTooLarge => .fault .tooLarge

/-- The validator of date-times for the value of the pattern option. -/
def validator (pattern : Value) : Except Failure Expression :=
  if pattern.isSet then
    match pattern with
    | .text p =>
      match Pattern.check (Pattern.portable p.toList) with
      | .ok _ => .ok ((zod "string" []).andThen "regex" [.regex (Literal.regex p)])
      | .error r => .error (rejected p r)
    | _ => .error (.fault .wrongKind)
  else .ok (zod "iso.datetime" [])

end SchemaForge.DateTime
