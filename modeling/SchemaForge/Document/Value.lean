import SchemaForge.Document.Calendar
import SchemaForge.Document.Fault
import SchemaForge.Number.Double
import SchemaForge.Text.Search

/-!
# Documents

A document is a tree of lists and objects with scalars at its leaves. Objects keep the order of
their fields, and a field's name is a scalar, since a document may name fields by numbers.

* `Value.same` is equality of documents: numbers are equal by measure, whatever their notation,
  and the order of fields does not matter;
* `Fields.get?`, `Fields.put` and `Fields.erase` are the operations of an ordered map;
* `Value.weight` counts the nodes of a document and is what walks over it go down by.
-/

namespace SchemaForge

/-- A leaf of a document. -/
inductive Scalar where
  | null
  | bool (b : Bool)
  | int (n : Int)
  | float (x : Double)
  | text (s : String)
  | date (d : Date)
  | moment (m : Moment)
deriving DecidableEq, Repr, Inhabited

/-- A document. -/
inductive Value where
  | scalar (s : Scalar)
  | list (items : List Value)
  | object (fields : List (Scalar × Value))
deriving Repr, Inhabited

/-- The fields of an object, in order. -/
abbrev Fields := List (Scalar × Value)

namespace Value

@[match_pattern] abbrev null : Value := .scalar .null
@[match_pattern] abbrev bool (b : Bool) : Value := .scalar (.bool b)
@[match_pattern] abbrev int (n : Int) : Value := .scalar (.int n)
@[match_pattern] abbrev float (x : Double) : Value := .scalar (.float x)
@[match_pattern] abbrev text (s : String) : Value := .scalar (.text s)

end Value

/-! ## Identity -/

mutual

/-- Whether two documents are the same, down to the notation of numbers and the order of fields. -/
def Value.decEq : (a b : Value) → Decidable (a = b)
  | .scalar a, .scalar b => decidable_of_iff (a = b) (by simp)
  | .list xs, .list ys =>
    match Value.decEqAll xs ys with
    | isTrue h => isTrue (by rw [h])
    | isFalse h => isFalse (by simpa using h)
  | .object fs, .object gs =>
    match Fields.decEq fs gs with
    | isTrue h => isTrue (by rw [h])
    | isFalse h => isFalse (by simpa using h)
  | .scalar _, .list _ => isFalse (by simp)
  | .scalar _, .object _ => isFalse (by simp)
  | .list _, .scalar _ => isFalse (by simp)
  | .list _, .object _ => isFalse (by simp)
  | .object _, .scalar _ => isFalse (by simp)
  | .object _, .list _ => isFalse (by simp)

def Value.decEqAll : (xs ys : List Value) → Decidable (xs = ys)
  | [], [] => isTrue rfl
  | [], _ :: _ => isFalse (by simp)
  | _ :: _, [] => isFalse (by simp)
  | x :: xs, y :: ys =>
    match Value.decEq x y, Value.decEqAll xs ys with
    | isTrue h, isTrue t => isTrue (by rw [h, t])
    | isFalse h, _ => isFalse (by simp [h])
    | _, isFalse t => isFalse (by simp [t])

def Fields.decEq : (fs gs : List (Scalar × Value)) → Decidable (fs = gs)
  | [], [] => isTrue rfl
  | [], _ :: _ => isFalse (by simp)
  | _ :: _, [] => isFalse (by simp)
  | (k, v) :: fs, (l, w) :: gs =>
    if hk : k = l then
      match Value.decEq v w, Fields.decEq fs gs with
      | isTrue h, isTrue t => isTrue (by rw [hk, h, t])
      | isFalse h, _ => isFalse (by simp [h])
      | _, isFalse t => isFalse (by simp [t])
    else isFalse (by simp [hk])

end

instance : DecidableEq Value := Value.decEq

/-! ## Size -/

mutual

/-- The number of nodes of a document. -/
def Value.weight : Value → Nat
  | .scalar _ => 1
  | .list items => 1 + Value.weightAll items
  | .object fields => 1 + Fields.weight fields

/-- The number of nodes of the documents of a list. -/
def Value.weightAll : List Value → Nat
  | [] => 0
  | v :: vs => v.weight + Value.weightAll vs

/-- The number of nodes below the fields of an object. -/
def Fields.weight : List (Scalar × Value) → Nat
  | [] => 0
  | (_, v) :: fields => v.weight + Fields.weight fields

end

/-! ## Equality -/

namespace Scalar

/-- What a scalar measures, if it is a number; truth values measure one and zero. -/
def quantity? : Scalar → Option Quantity
  | .bool b => some (.ofInt (if b then 1 else 0))
  | .int n => some (.ofInt n)
  | .float x => some (.ofDouble x)
  | _ => none

/-- Equality of scalars: numbers by measure, all others as they stand. -/
def same (a b : Scalar) : Bool :=
  match a.quantity?, b.quantity? with
  | some p, some q => p.same q
  | none, none => a == b
  | _, _ => false

end Scalar

namespace Fields

/-- The value of the first field with the given name. -/
def lookup (name : Scalar) : Fields → Option Value
  | [] => none
  | (k, v) :: fields => if k.same name then some v else lookup name fields

/-- The value of the field named by a text. -/
def get? (fields : Fields) (name : String) : Option Value :=
  (fields.find? fun f => f.1 == Scalar.text name).map (·.2)

/-- Whether there is a field named by a text. -/
def has (fields : Fields) (name : String) : Bool := (fields.get? name).isSome

/-- The value of the field named by a text, null if there is none. -/
def value (fields : Fields) (name : String) : Value := (fields.get? name).getD .null

/-- The names of the fields. -/
def names (fields : Fields) : List Scalar := fields.map (·.1)

/-- Whether a scalar names a field. -/
def hasName (fields : Fields) (name : Scalar) : Bool := (lookup name fields).isSome

/-- Sets a field: in place if there is one of that name, else at the end. -/
def put (name : Scalar) (v : Value) : Fields → Fields
  | [] => [(name, v)]
  | (k, w) :: fields => if k.same name then (k, v) :: fields else (k, w) :: put name v fields

/-- Adds a field unless there is one of that name. -/
def putNew (name : Scalar) (v : Value) (fields : Fields) : Fields :=
  if fields.hasName name then fields else fields ++ [(name, v)]

/-- Removes the fields named by a text. -/
def erase (fields : Fields) (name : String) : Fields :=
  fields.filter fun f => !(f.1 == Scalar.text name)

/-- The fields with the repeated names merged: the first place and the last value of each. -/
def ofPairs (pairs : List (Scalar × Value)) : Fields :=
  pairs.foldl (fun fields f => put f.1 f.2 fields) []

end Fields

mutual

/-- Equality of documents; the order of fields does not matter. -/
def Value.same : Value → Value → Bool
  | .scalar a, .scalar b => a.same b
  | .list xs, .list ys => Value.sameAll xs ys
  | .object fs, .object gs => fs.length == gs.length && Fields.within fs gs
  | _, _ => false

/-- Equality of lists of documents, one by one. -/
def Value.sameAll : List Value → List Value → Bool
  | [], [] => true
  | x :: xs, y :: ys => Value.same x y && Value.sameAll xs ys
  | _, _ => false

/-- Every field of the first object is in the second, with an equal value. -/
def Fields.within : List (Scalar × Value) → List (Scalar × Value) → Bool
  | [], _ => true
  | (k, v) :: fs, gs =>
    (match Fields.lookup k gs with
      | some w => Value.same v w
      | none => false) && Fields.within fs gs

end

/-! ## Kinds -/

namespace Value

/-- The name of a value's kind, as messages give it. -/
def kindName : Value → String
  | .scalar .null => "NoneType"
  | .scalar (.bool _) => "bool"
  | .scalar (.int _) => "int"
  | .scalar (.float _) => "float"
  | .scalar (.text _) => "str"
  | .scalar (.date _) => "date"
  | .scalar (.moment _) => "datetime"
  | .list _ => "list"
  | .object _ => "dict"

/-- A value counts as set unless it is null, false, zero or empty. -/
def isSet : Value → Bool
  | .scalar .null => false
  | .scalar (.bool b) => b
  | .scalar (.int n) => n != 0
  | .scalar (.float x) =>
    match x with
    | .finite _ m _ => m != 0
    | _ => true
  | .scalar (.text s) => s != ""
  | .scalar (.date _) => true
  | .scalar (.moment _) => true
  | .list items => !items.isEmpty
  | .object fields => !fields.isEmpty

def isNull : Value → Bool
  | .null => true
  | _ => false

def isObject : Value → Bool
  | .object _ => true
  | _ => false

def isText : Value → Bool
  | .text _ => true
  | _ => false

def isBool : Value → Bool
  | .bool _ => true
  | _ => false

/-- A number that is not a truth value. -/
def isNumber : Value → Bool
  | .int _ => true
  | .float _ => true
  | _ => false

def fields? : Value → Option Fields
  | .object fields => some fields
  | _ => none

def items? : Value → Option (List Value)
  | .list items => some items
  | _ => none

def text? : Value → Option String
  | .text s => some s
  | _ => none

end Value

/-! ## Uses that may fail -/

namespace Value

/-- What a value can be walked over: the items of a list, the names of an object's fields, the
characters of a text. -/
def walk : Value → Except Fault (List Value)
  | .list items => .ok items
  | .object fields => .ok (fields.map fun f => .scalar f.1)
  | .text s => .ok (s.toList.map fun c => .text (String.singleton c))
  | _ => .error .wrongKind

/-- `walk`, with nothing to walk over for a value that is not set. -/
def walkIfSet (v : Value) : Except Fault (List Value) :=
  if v.isSet then v.walk else .ok []

/-- The fields of an object. -/
def fields : Value → Except Fault Fields
  | .object fields => .ok fields
  | _ => .error .noMember

/-- `fields`, with no fields for a value that is not set. -/
def fieldsIfSet (v : Value) : Except Fault Fields :=
  if v.isSet then v.fields else .ok []

/-- A value that can stand in a set or name a field is a scalar. -/
def asName : Value → Except Fault Scalar
  | .scalar s => .ok s
  | _ => .error .wrongKind

/-- Whether the value holds a text: as the name of a field, as an item, or as part of a text. -/
def holds (v : Value) (part : String) : Except Fault Bool :=
  match v with
  | .object fields => .ok (Fields.has fields part)
  | .list items => .ok (items.any fun item => item.same (.text part))
  | .text s => .ok (Text.contains part.toList s.toList)
  | _ => .error .wrongKind

/-- The value under a name; only objects have such. -/
def entry (v : Value) (name : String) : Except Fault Value :=
  match v with
  | .object fields =>
    match Fields.get? fields name with
    | some w => .ok w
    | none => .error .noEntry
  | _ => .error .wrongKind

/-- What a value measures; only numbers measure something. -/
def measure : Value → Except Fault Quantity
  | .scalar s =>
    match s.quantity? with
    | some q => .ok q
    | none => .error .wrongKind
  | _ => .error .wrongKind

/-- The text of a value that has to be one. -/
def asText : Value → Except Fault String
  | .text s => .ok s
  | _ => .error .wrongKind

end Value

end SchemaForge
