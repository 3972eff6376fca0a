import TradingRules.Builtin.Library
import TradingRules.Expr.Cache
import TradingRules.Session.Trouble
import TradingRules.Source.Assembly
import TradingRules.Validation.Checks

/-!
# Sessions

A session evaluates rules again and again: it keeps compiled rules, knows the registered functions
and puts contexts together.
-/

namespace TradingRules

structure Session where
  registry : Registry
  rules : ExprCache
  evalLimit : Limit
  validationLimit : Limit
  assembly : Assembly

namespace Session

def ofSettings (s : Settings) : Session :=
  ⟨Registry.builtins, Counted.empty s.ruleCapacity, s.evalLimit, s.validationLimit,
    .withoutStore⟩

def standard : Session := ofSettings .standard

def withStore (s : Session) (store : Project.Store) : Session :=
  { s with assembly := .withStore store }

/-! ## Functions -/

/-- Adds a function; one of the same name is replaced only on request. -/
def register (s : Session) (f : Function) (overwrite : Bool) : Except Trouble Session :=
  match s.registry.register? f overwrite with
  | some registry => .ok { s with registry }
  | none => .error (.duplicate f.signature.name)

/-! ## Rules -/

def compile (s : Session) (source : String) : Except CompileError Compiled × Session :=
  let (result, rules) := s.rules.compile source
  (result, { s with rules })

def clearRules (s : Session) : Session := { s with rules := s.rules.clear }

/-- Problems of a source text; functions named in `extra` count as known. A spent limit is itself a
problem. -/
def validate (s : Session) (extra : List String) (source : String) : List Validation.Problem :=
  match Validation.problemsWithin s.validationLimit s.registry.names extra source with
  | .ok problems => problems
  | .error _ => [⟨1, 1, .timeout (s.validationLimit.getD 0)⟩]

/-- No problem is an error. -/
def isValid (s : Session) (extra : List String) (source : String) : Bool :=
  !(s.validate extra source).any Validation.Problem.isError

/-- The variables of a rule that a context knows nothing of. -/
def undefinedVariables (s : Session) (source : String) (context : Context) :
    Except CompileError Names × Session :=
  let (compiled, s) := s.compile source
  (compiled.map fun c => c.freeNames.filter fun name => (context.lookup? name).isNone, s)

/-! ## Evaluating -/

variable {σ : Type} [RegimeHost σ]

/-- The value of a compiled rule. -/
def value (s : Session) (limit : Limit) (c : Compiled) (context : Context) : Run σ Value :=
  evaluate s.registry context limit c.expr

/-- The value of a rule given as text. -/
def evaluateText (s : Session) (source : String) (context : Context) (host : Option σ) :
    Except Trouble Value × Option σ × Session :=
  let (compiled, s) := s.compile source
  match compiled with
  | .error e => (.error (.compile e), host, s)
  | .ok c =>
    let (result, host) := (s.value s.evalLimit c context).run.run host
    (result.mapError .evaluation, host, s)

/-- The answer of a rule that is a condition. -/
def holds (s : Session) (source : String) (context : Context) (host : Option σ) :
    Except Trouble Bool × Option σ × Session :=
  let (result, host, s) := s.evaluateText source context host
  let answer := match result with
    | .error e => .error e
    | .ok (.bool b) => .ok b
    | .ok v => .error (.evaluation (.typeMismatch "condition" "bool" v.typeName))
  (answer, host, s)

/-- The value of a rule on sources. The rule is compiled before the sources are looked at. -/
def evaluateOn (s : Session) (disk : Disk) (source : String) (sources : Sources) (host : Option σ) :
    Except Trouble Value × Option σ × Session :=
  let (compiled, s) := s.compile source
  match compiled with
  | .error e => (.error (.compile e), host, s)
  | .ok c =>
    let (built, assembly) := s.assembly.build disk sources
    let s := { s with assembly }
    match built with
    | .error r => (.error (.project r), host, s)
    | .ok catalog =>
      let (result, host) :=
        (s.value s.evalLimit c (Catalog.context catalog sources.clock)).run.run host
      (result.mapError .evaluation, host, s)

end Session

end TradingRules
