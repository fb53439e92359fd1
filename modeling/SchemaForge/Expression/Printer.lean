import SchemaForge.Expression.Basic
import SchemaForge.Expression.Literal

/-!
# Printing expressions

Expression trees as program text. Only shapes take more than one line: their entries stand two
blanks further in than the line the shape starts on.
-/

namespace SchemaForge

open Text

/-- The indentation of a level. -/
def indentation (level : Nat) : String := String.ofList (List.replicate (2 * level) ' ')

mutual

/-- The text of a node that starts on a line of the given indentation level. -/
def Node.print (level : Nat) : Node → Except Fault String
  | .identifier name => .ok name
  | .member target field => do
    let t ← target.print level
    return t ++ "." ++ field
  | .literal value => Literal.value value
  | .regex source => .ok ("/" ++ source ++ "/")
  | .array items => do
    let parts ← Node.printAll level items
    return "[" ++ join ", " parts ++ "]"
  | .shape properties => do
    let entries ← Property.printAll (level + 1) properties
    match entries with
    | [] => return "\x7b\x7d"
    | entries =>
      return "\x7b\n" ++ join ",\n" entries ++ "\n" ++ indentation level ++ "\x7d"
  | .code parts => do
    let texts ← Part.printAll level parts
    return join "" texts
  | .call callee args => do
    let parts ← Node.printAll level args
    return callee ++ "(" ++ join ", " parts ++ ")"
  | .deferred target type => .ok ("z.lazy((): " ++ type ++ " => " ++ target ++ ")")
  | .chain base modifiers => do
    let head ← base.print level
    let calls ← Modifier.printAll level modifiers
    return head ++ join "" calls
  | .unknown => .error .wrongKind

def Node.printAll (level : Nat) : List Node → Except Fault (List String)
  | [] => .ok []
  | n :: ns => do
    let text ← n.print level
    let texts ← Node.printAll level ns
    return text :: texts

/-- The entries of a shape, which stand on the given level. -/
def Property.printAll (level : Nat) : List Property → Except Fault (List String)
  | [] => .ok []
  | .mk name value comment :: ps => do
    let text ← value.print level
    let key ← Literal.keyOf name
    let entry := indentation level ++ key ++ ": " ++ text
    let entry := if comment == "" then entry else indentation level ++ comment ++ "\n" ++ entry
    let entries ← Property.printAll level ps
    return entry :: entries

def Part.printAll (level : Nat) : List Part → Except Fault (List String)
  | [] => .ok []
  | .text s :: ps => do
    let texts ← Part.printAll level ps
    return s :: texts
  | .node n :: ps => do
    let text ← n.print level
    let texts ← Part.printAll level ps
    return text :: texts

def Modifier.printAll (level : Nat) : List Modifier → Except Fault (List String)
  | [] => .ok []
  | .mk name args :: ms => do
    let parts ← Node.printAll level args
    let calls ← Modifier.printAll level ms
    return ("." ++ name ++ "(" ++ join ", " parts ++ ")") :: calls

end

namespace Expression

/-- The text of an expression that starts a line. -/
def print (e : Expression) : Except Fault String := e.toNode.print 0

/-- The expression with a description, if descriptions are asked for and there is a text. -/
def describe (e : Expression) (description : Value) (asked : Bool) : Expression :=
  match description with
  | .text s => if asked && s != "" then e.andThen "describe" [.literal (.text s)] else e
  | _ => e

end Expression

/-- The options argument of a refinement, which gives its message. -/
def messageOptions (message : String) : Node :=
  codeText ("\x7b message: " ++ Literal.string message ++ " \x7d")

end SchemaForge
