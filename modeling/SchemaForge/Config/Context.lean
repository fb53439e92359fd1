import SchemaForge.Config.Basic
import SchemaForge.Config.DateTime
import SchemaForge.Naming.Stripping

/-!
# Generation contexts

The options as compilation uses them: checked, and with the overrides of requests or responses
applied. A configuration that cannot be used fails here, before anything is generated.
-/

namespace SchemaForge

structure Context where
  visibility : Visibility
  mode : ObjectMode
  defaultNullable : Value
  emptyObject : EmptyObject
  constPrefix : Value
  constSuffix : Value
  strip : Naming.StripOption
  includeDescriptions : Value
  useDescribe : Value
  dateTime : Expression
  separateTypes : Value
  /-- The greatest depth, as it was given. -/
  maxDepth : Value
  /-- The capacity of the cache of escaped patterns, as it was given. -/
  cacheSize : Value

namespace Context

/-- The capacity of the cache of compiled schemas. -/
def schemaCapacity : Nat := 500

/-- A value that has to be a number of at least one. -/
def requirePositive (v : Value) (failure : Failure) : Except Failure Unit := do
  let q ← Failure.lift v.measure
  if q.less (.ofInt 1) then .error failure else .ok ()

/-- The context of a configuration. -/
def ofConfig (c : Config) : Except Failure Context := do
  requirePositive c.maxDepth (.depthNotPositive c.maxDepth)
  requirePositive c.cacheSize (.cacheNotPositive c.cacheSize)
  let strip ← Failure.lift (Naming.StripOption.ofValue c.stripped)
  let dateTime ← DateTime.validator c.dateTimePattern
  return {
    visibility := c.visibility
    mode := c.mode
    defaultNullable := c.defaultNullable
    emptyObject := c.emptyObject
    constPrefix := c.constPrefix
    constSuffix := c.constSuffix
    strip := strip
    includeDescriptions := c.includeDescriptions
    useDescribe := c.useDescribe
    dateTime := dateTime
    separateTypes := c.separateTypes
    maxDepth := c.maxDepth
    cacheSize := c.cacheSize }

/-- The context with overrides applied. -/
def override (ctx : Context) (o : Overrides) : Context :=
  { ctx with
    mode := o.mode.getD ctx.mode
    useDescribe := if o.useDescribe.isNull then ctx.useDescribe else o.useDescribe
    includeDescriptions :=
      if o.includeDescriptions.isNull then ctx.includeDescriptions else o.includeDescriptions }

/-- The context with the overrides of an option applied. -/
def withOption (ctx : Context) : OverridesOption → Except Fault Context
  | .overrides o => .ok (ctx.override o)
  | .other _ => .error .noMember

/-- The depths that a schema may be nested to. -/
def depthLimit (ctx : Context) : Limit :=
  match ctx.maxDepth.measure with
  | .ok q => .notAbove q
  | .error _ => .unbounded

/-- How many escaped patterns are kept. -/
def patternCapacity (ctx : Context) : Limit :=
  match ctx.cacheSize.measure with
  | .ok q => .reaching q
  | .error _ => .unbounded

end Context

end SchemaForge
