import SchemaForge.Expression.Printer

/-!
# References in expressions

The references that stand in a tree: plain ones, which are looked up when the tree is evaluated, and
deferred ones. A walk over the tree lists the same references, but shows the target of a deferred one
as an identifier too, so it does not tell the two kinds apart.

`Meets G` says that every reference in a tree has the property `G`; how it goes through the builders
of expressions is a simplification set.
-/

namespace SchemaForge

/-- A reference in an expression tree. -/
inductive Ref where
  | plain (name : String)
  | deferred (name type : String)
deriving DecidableEq, Repr

/-- The constant that a reference names. -/
def Ref.name : Ref → String
  | .plain name => name
  | .deferred name _ => name

mutual

/-- The references in a tree, depth first. -/
def Node.refs : Node → List Ref
  | .identifier name => [.plain name]
  | .member target _ => target.refs
  | .literal _ => []
  | .regex _ => []
  | .array items => Node.refsAll items
  | .shape properties => Property.refsAll properties
  | .code parts => Part.refsAll parts
  | .call _ args => Node.refsAll args
  | .deferred target type => [.deferred target type]
  | .chain base modifiers => base.refs ++ Modifier.refsAll modifiers
  | .unknown => []

def Node.refsAll : List Node → List Ref
  | [] => []
  | n :: ns => n.refs ++ Node.refsAll ns

def Property.refsAll : List Property → List Ref
  | [] => []
  | .mk _ value _ :: ps => value.refs ++ Property.refsAll ps

def Part.refsAll : List Part → List Ref
  | [] => []
  | .text _ :: ps => Part.refsAll ps
  | .node n :: ps => n.refs ++ Part.refsAll ps

def Modifier.refsAll : List Modifier → List Ref
  | [] => []
  | .mk _ args :: ms => Node.refsAll args ++ Modifier.refsAll ms

end

/-! ## Walks show the same references -/

/-- A list of nodes shows a reference as a walk does: by its name, and by itself if it is deferred. -/
def ShowsRefs (nodes : List Node) (refs : List Ref) : Prop :=
  (∀ name, .identifier name ∈ nodes ↔ ∃ r ∈ refs, r.name = name) ∧
    ∀ name type, .deferred name type ∈ nodes ↔ Ref.deferred name type ∈ refs

/-- What two lists of nodes show is what both of them show. -/
theorem ShowsRefs.append {nodes nodes' : List Node} {refs refs' : List Ref}
    (h : ShowsRefs nodes refs) (h' : ShowsRefs nodes' refs') :
    ShowsRefs (nodes ++ nodes') (refs ++ refs') := by
  refine ⟨fun name => ?_, fun name type => ?_⟩
  · rw [List.mem_append, h.1, h'.1]
    constructor
    · rintro (⟨r, hr, hn⟩ | ⟨r, hr, hn⟩)
      · exact ⟨r, List.mem_append_left _ hr, hn⟩
      · exact ⟨r, List.mem_append_right _ hr, hn⟩
    · rintro ⟨r, hr, hn⟩
      exact (List.mem_append.mp hr).imp (fun hr => ⟨r, hr, hn⟩) (fun hr => ⟨r, hr, hn⟩)
  · rw [List.mem_append, h.2, h'.2, List.mem_append]

/-- A node that is no reference itself shows what stands below it. -/
theorem ShowsRefs.cons {n : Node} {nodes : List Node} {refs : List Ref} (h : ShowsRefs nodes refs)
    (hi : ∀ name, n ≠ .identifier name) (hd : ∀ name type, n ≠ .deferred name type) :
    ShowsRefs (n :: nodes) refs := by
  refine ⟨fun name => ?_, fun name type => ?_⟩
  · rw [List.mem_cons, ← h.1]
    exact ⟨fun h => h.resolve_left fun hc => hi name hc.symm, Or.inr⟩
  · rw [List.mem_cons, ← h.2]
    exact ⟨fun h => h.resolve_left fun hc => hd name type hc.symm, Or.inr⟩

theorem showsRefs_nil : ShowsRefs [] [] := by simp [ShowsRefs]

mutual

/-- **A walk over a tree shows exactly the references that stand in it.** -/
theorem Node.walk_shows : ∀ n : Node, ShowsRefs n.walk n.refs
  | .identifier name => by simp [ShowsRefs, Node.walk, Node.refs, Ref.name, eq_comm]
  | .deferred target type => by
    simp [ShowsRefs, Node.walk, Node.refs, Ref.name, eq_comm]
  | .member target field => (Node.walk_shows target).cons (by simp) (by simp)
  | .literal value => showsRefs_nil.cons (by simp) (by simp)
  | .regex source => showsRefs_nil.cons (by simp) (by simp)
  | .array items => (Node.walkAll_shows items).cons (by simp) (by simp)
  | .shape properties => (Property.walkAll_shows properties).cons (by simp) (by simp)
  | .code parts => (Part.walkAll_shows parts).cons (by simp) (by simp)
  | .call callee args => (Node.walkAll_shows args).cons (by simp) (by simp)
  | .chain base modifiers =>
    ((Node.walk_shows base).append (Modifier.walkAll_shows modifiers)).cons (by simp) (by simp)
  | .unknown => showsRefs_nil.cons (by simp) (by simp)

theorem Node.walkAll_shows : ∀ ns : List Node, ShowsRefs (Node.walkAll ns) (Node.refsAll ns)
  | [] => showsRefs_nil
  | n :: ns => (Node.walk_shows n).append (Node.walkAll_shows ns)

theorem Property.walkAll_shows : ∀ ps : List Property,
    ShowsRefs (Property.walkAll ps) (Property.refsAll ps)
  | [] => showsRefs_nil
  | .mk _ value _ :: ps => (Node.walk_shows value).append (Property.walkAll_shows ps)

theorem Part.walkAll_shows : ∀ ps : List Part, ShowsRefs (Part.walkAll ps) (Part.refsAll ps)
  | [] => showsRefs_nil
  | .text _ :: ps => Part.walkAll_shows ps
  | .node n :: ps => (Node.walk_shows n).append (Part.walkAll_shows ps)

theorem Modifier.walkAll_shows : ∀ ms : List Modifier,
    ShowsRefs (Modifier.walkAll ms) (Modifier.refsAll ms)
  | [] => showsRefs_nil
  | .mk _ args :: ms => (Node.walkAll_shows args).append (Modifier.walkAll_shows ms)

end

/-! ## References with a property -/

section Meets

variable {G : Ref → Prop}

/-- Every reference in a tree has a property. -/
def Node.Meets (G : Ref → Prop) (n : Node) : Prop := ∀ r ∈ n.refs, G r

def Part.Meets (G : Ref → Prop) : Part → Prop
  | .text _ => True
  | .node n => n.Meets G

def Property.Meets (G : Ref → Prop) (p : Property) : Prop := p.value.Meets G

def Modifier.Meets (G : Ref → Prop) (m : Modifier) : Prop := ∀ n ∈ m.args, n.Meets G

def Expression.Meets (G : Ref → Prop) (e : Expression) : Prop := e.toNode.Meets G

/-- A condition on the references of some nodes is one on each of the nodes. -/
theorem Node.forall_refsAll {ns : List Node} :
    (∀ r ∈ Node.refsAll ns, G r) ↔ ∀ n ∈ ns, n.Meets G := by
  induction ns with
  | nil => simp [Node.refsAll]
  | cons n ns ih =>
    rw [Node.refsAll, List.forall_mem_append, ih, List.forall_mem_cons]
    rfl

/-- The same for the properties of a shape. -/
theorem Property.forall_refsAll {ps : List Property} :
    (∀ r ∈ Property.refsAll ps, G r) ↔ ∀ p ∈ ps, p.Meets G := by
  induction ps with
  | nil => simp [Property.refsAll]
  | cons p ps ih =>
    obtain ⟨name, value, comment⟩ := p
    rw [Property.refsAll, List.forall_mem_append, ih, List.forall_mem_cons]
    rfl

/-- The same for pieces of code, of which the texts show nothing. -/
theorem Part.forall_refsAll {ps : List Part} :
    (∀ r ∈ Part.refsAll ps, G r) ↔ ∀ p ∈ ps, p.Meets G := by
  induction ps with
  | nil => simp [Part.refsAll]
  | cons p ps ih =>
    rw [List.forall_mem_cons, ← ih]
    cases p with
    | text s => simp [Part.refsAll, Part.Meets]
    | node n =>
      rw [Part.refsAll, List.forall_mem_append]
      rfl

/-- The same for calls, which show what their arguments show. -/
theorem Modifier.forall_refsAll {ms : List Modifier} :
    (∀ r ∈ Modifier.refsAll ms, G r) ↔ ∀ m ∈ ms, m.Meets G := by
  induction ms with
  | nil => simp [Modifier.refsAll]
  | cons m ms ih =>
    obtain ⟨name, args⟩ := m
    rw [Modifier.refsAll, List.forall_mem_append, ih, Node.forall_refsAll, List.forall_mem_cons]
    rfl

namespace Node

/-- An identifier is a plain reference. -/
@[simp] theorem meets_identifier {name : String} :
    (Node.identifier name).Meets G ↔ G (.plain name) := by
  simp [Meets, refs]

/-- A deferred reference shows its target and the type that it is deferred with. -/
@[simp] theorem meets_deferred {target type : String} :
    (Node.deferred target type).Meets G ↔ G (.deferred target type) := by
  simp [Meets, refs]

@[simp] theorem meets_member {target : Node} {field : String} :
    (Node.member target field).Meets G ↔ target.Meets G := Iff.rfl

@[simp] theorem meets_literal {value : Value} : (Node.literal value).Meets G := by
  simp [Meets, refs]

@[simp] theorem meets_regex {source : String} : (Node.regex source).Meets G := by
  simp [Meets, refs]

@[simp] theorem meets_array {items : List Node} :
    (Node.array items).Meets G ↔ ∀ n ∈ items, n.Meets G := forall_refsAll

@[simp] theorem meets_shape {properties : List Property} :
    (Node.shape properties).Meets G ↔ ∀ p ∈ properties, p.Meets G := Property.forall_refsAll

@[simp] theorem meets_code {parts : List Part} :
    (Node.code parts).Meets G ↔ ∀ p ∈ parts, p.Meets G := Part.forall_refsAll

@[simp] theorem meets_call {callee : String} {args : List Node} :
    (Node.call callee args).Meets G ↔ ∀ n ∈ args, n.Meets G := forall_refsAll

@[simp] theorem meets_toNode {e : Expression} : e.toNode.Meets G ↔ e.Meets G := Iff.rfl

end Node

@[simp] theorem Part.meets_text {s : String} : (Part.text s).Meets G := trivial

@[simp] theorem Part.meets_node {n : Node} : (Part.node n).Meets G ↔ n.Meets G := Iff.rfl

@[simp] theorem Property.meets_mk {name : Scalar} {value : Node} {comment : String} :
    (Property.mk name value comment).Meets G ↔ value.Meets G := Iff.rfl

@[simp] theorem Modifier.meets_mk {name : String} {args : List Node} :
    (Modifier.mk name args).Meets G ↔ ∀ n ∈ args, n.Meets G := Iff.rfl

namespace Expression

/-- **The references of a chain are those of its base and of the calls.** -/
theorem meets_iff {e : Expression} :
    e.Meets G ↔ e.base.Meets G ∧ ∀ m ∈ e.modifiers, m.Meets G := by
  unfold Expression.Meets Node.Meets Expression.toNode
  rw [Node.refs, List.forall_mem_append, Modifier.forall_refsAll]

@[simp] theorem meets_mk {base : Node} {modifiers : List Modifier} :
    (Expression.mk base modifiers).Meets G ↔ base.Meets G ∧ ∀ m ∈ modifiers, m.Meets G :=
  meets_iff

@[simp] theorem meets_zod {name : String} {args : List Node} :
    (zod name args).Meets G ↔ ∀ n ∈ args, n.Meets G := by
  simp [zod]

@[simp] theorem meets_plainRef {name : String} : (plainRef name).Meets G ↔ G (.plain name) := by
  simp [plainRef]

@[simp] theorem meets_deferredRef {name type : String} :
    (deferredRef name type).Meets G ↔ G (.deferred name type) := by
  simp [deferredRef]

/-- One more call shows the references of its arguments. -/
@[simp] theorem meets_andThen {e : Expression} {name : String} {args : List Node} :
    (e.andThen name args).Meets G ↔ e.Meets G ∧ ∀ n ∈ args, n.Meets G := by
  simp only [andThen, meets_iff, List.forall_mem_append, List.forall_mem_singleton,
    Modifier.meets_mk, and_assoc]

end Expression

end Meets

end SchemaForge
