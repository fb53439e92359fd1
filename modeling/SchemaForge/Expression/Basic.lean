import SchemaForge.Document.Value

/-!
# Validator expressions

A compiled schema is a tree: a base, such as a constructor call or the name of another constant,
followed by a chain of modifier calls. Only printing turns it into program text, so statements about
the order of modifiers are statements about the tree.

* `Node` is a tree of any form and `Expression` one that is a base with a chain of modifiers;
* `Node.walk` lists a node and all nodes below it, depth first.
-/

namespace SchemaForge

mutual

/-- A node of an expression tree. -/
inductive Node where
  /-- The name of a generated constant. -/
  | identifier (name : String)
  /-- An attribute of another node. -/
  | member (target : Node) (field : String)
  /-- A value written as a literal. -/
  | literal (value : Value)
  /-- A regular expression, already escaped for the slashes around it. -/
  | regex (source : String)
  | array (items : List Node)
  /-- An object literal that maps property names to validators. -/
  | shape (properties : List Property)
  /-- Program text with nodes in it. -/
  | code (parts : List Part)
  /-- A call of a constructor. -/
  | call (callee : String) (args : List Node)
  /-- A reference that is looked up only when it is used, so that cycles can be written. -/
  | deferred (target : String) (type : String)
  /-- A base with modifier calls after it. -/
  | chain (base : Node) (modifiers : List Modifier)
  /-- A node of no known form. -/
  | unknown

/-- A method call in a chain. -/
inductive Modifier where
  | mk (name : String) (args : List Node)

/-- An entry of a shape: the property's name, its validator and the comment before it. -/
inductive Property where
  | mk (name : Scalar) (value : Node) (comment : String)

/-- A piece of program text, or a node inside it. -/
inductive Part where
  | text (s : String)
  | node (n : Node)

end

instance : Inhabited Node := ⟨.unknown⟩

def Modifier.name : Modifier → String
  | .mk name _ => name

def Modifier.args : Modifier → List Node
  | .mk _ args => args

def Property.name : Property → Scalar
  | .mk name _ _ => name

def Property.value : Property → Node
  | .mk _ value _ => value

/-- A base followed by a chain of modifier calls. -/
structure Expression where
  base : Node
  modifiers : List Modifier := []
deriving Inhabited

/-! ## Walking -/

mutual

/-- A node and every node below it, depth first. -/
def Node.walk : Node → List Node
  | .identifier name => [.identifier name]
  | .member target field => .member target field :: target.walk
  | .literal value => [.literal value]
  | .regex source => [.regex source]
  | .array items => .array items :: Node.walkAll items
  | .shape properties => .shape properties :: Property.walkAll properties
  | .code parts => .code parts :: Part.walkAll parts
  | .call callee args => .call callee args :: Node.walkAll args
  | .deferred target type => [.deferred target type, .identifier target]
  | .chain base modifiers => .chain base modifiers :: (base.walk ++ Modifier.walkAll modifiers)
  | .unknown => [.unknown]

def Node.walkAll : List Node → List Node
  | [] => []
  | n :: ns => n.walk ++ Node.walkAll ns

def Property.walkAll : List Property → List Node
  | [] => []
  | .mk _ value _ :: ps => value.walk ++ Property.walkAll ps

def Part.walkAll : List Part → List Node
  | [] => []
  | .text _ :: ps => Part.walkAll ps
  | .node n :: ps => n.walk ++ Part.walkAll ps

def Modifier.walkAll : List Modifier → List Node
  | [] => []
  | .mk _ args :: ms => Node.walkAll args ++ Modifier.walkAll ms

end

/-! ## Expressions -/

namespace Expression

def toNode (e : Expression) : Node := .chain e.base e.modifiers

/-- A node as an expression: a chain as it is, any other node as a base without modifiers. -/
def ofNode : Node → Expression
  | .chain base modifiers => ⟨base, modifiers⟩
  | n => ⟨n, []⟩

/-- The expression with one more modifier call at its end. -/
def andThen (e : Expression) (name : String) (args : List Node) : Expression :=
  ⟨e.base, e.modifiers ++ [.mk name args]⟩

def modifierNames (e : Expression) : List String := e.modifiers.map Modifier.name

def hasModifier (e : Expression) (name : String) : Bool :=
  e.modifiers.any fun m => m.name == name

/-- The constructor that the base calls, if the base is a call. -/
def callee (e : Expression) : Option String :=
  match e.base with
  | .call callee _ => some callee
  | _ => none

/-- An expression is nullable if that is its last modifier. -/
def isNullable (e : Expression) : Bool :=
  match e.modifiers.getLast? with
  | some m => m.name == "nullable"
  | none => false

/-- A base that is the name of a constant, with no modifiers. -/
def isBareName (e : Expression) : Bool :=
  match e.base with
  | .identifier _ => e.modifiers.isEmpty
  | _ => false

/-- A deferred reference exposes neither its shape nor a way to extend it. -/
def exposesShape (e : Expression) : Bool :=
  match e.base with
  | .deferred _ _ => false
  | _ => true

@[simp] theorem modifierNames_andThen (e : Expression) (name : String) (args : List Node) :
    (e.andThen name args).modifierNames = e.modifierNames ++ [name] := by
  simp [andThen, modifierNames, Modifier.name]

@[simp] theorem base_andThen (e : Expression) (name : String) (args : List Node) :
    (e.andThen name args).base = e.base := rfl

@[simp] theorem ofNode_toNode (e : Expression) : ofNode e.toNode = e := rfl

/-- The expression, nullable if asked. -/
def nullableIf (e : Expression) (nullable : Bool) : Expression :=
  if nullable then e.andThen "nullable" [] else e

end Expression

/-! ## Builders -/

/-- A call of a constructor of the validation library. -/
def zod (name : String) (args : List Node) : Expression := ⟨.call ("z." ++ name) args, []⟩

/-- A plain reference to a generated constant. -/
def plainRef (name : String) : Expression := ⟨.identifier name, []⟩

/-- A deferred reference to a generated constant. -/
def deferredRef (name type : String) : Expression := ⟨.deferred name type, []⟩

/-- Program text without nodes in it. -/
def codeText (s : String) : Node := .code [.text s]

end SchemaForge
