import ConstraintScoring.Formula.Function
import ConstraintScoring.Session.Factory

/-!
# Programs

A program declares streams and constraints over values step by step, each stream under a name.
What each step made is logged, as far as the program got. Streams may come from two constraint
factories over one domain model; the engine does not let them meet. A step names a factory, which
is where a source comes from and whose size is logged; any other operation runs on the factory of
its stream.
-/

namespace ConstraintScoring.Formula

inductive StreamStep where
  | forEach (type : String) (includeUnassigned : Bool)
  | uniquePair (type : String) (joiner : Joiner Value)
  | filter (s : String) (accepts : Function)
  | map (s : String) (columns : List Function)
  | flatten (s : String) (expand : Function)
  | distinct (s : String)
  | concat (s t : String)
  | join (s t : String) (joiner : Joiner Value)
  | existence (shouldExist : Bool) (s t : String) (joiner : Joiner Value)
  | existenceOther (shouldExist includeUnassigned : Bool) (s type : String) (joiner : Joiner Value)
  | group (s : String) (parts : List Part)
  | groupKey (s : String) (key : Function)
  | groupCount (s : String)
  | groupSum (s : String) (number : Function)

structure ConstraintStep (S : Type) where
  inSecond : Bool
  s : String
  ref : ConstraintRef
  impact : Impact
  weight : S
  weigher : Option Function
  justifier : Option Expression
  indicter : Option (List Expression)

inductive Step (S : Type) where
  | stream (name : String) (inSecond : Bool) (step : StreamStep)
  | constraint (step : ConstraintStep S)

/-- What a step made, with the size that the factory named by the step has afterwards. -/
inductive LogEntry where
  | stream (decl : DeclId) (declarations : Nat)
  | constraint (fullName : String) (declarations : Nat)

structure Workshop (S : Type) where
  first : ConstraintFactory Value S
  second : ConstraintFactory Value S
  streams : Table String Stream
  constraints : Array Constraint
  log : Array LogEntry

/-- Work on the streams of a program; what failed steps leave behind is of no use. -/
abbrev Working (S : Type) := ExceptT EngineError (StateM (Workshop S))

namespace Program

variable {S : Type}

def onFirst {α : Type} (d : Declaring Value S α) : Working S α := do
  let w ← get
  let (result, first) := d.run w.first
  set { w with first }
  match result with
  | .ok a => return a
  | .error e => throw e

def onSecond {α : Type} (d : Declaring Value S α) : Working S α := do
  let w ← get
  let (result, second) := d.run w.second
  set { w with second }
  match result with
  | .ok a => return a
  | .error e => throw e

/-- Works on the factory of the given number. -/
def onFactory {α : Type} (id : Nat) (d : Declaring Value S α) : Working S α := do
  if id = (← get).second.id then onSecond d else onFirst d

def stream (name : String) : Working S Stream := do
  match (← get).streams.get? name with
  | some s => return s
  | none => throw (.internal ("unknown stream " ++ name))

/-- The fact in a column of a source, as a value. -/
def factColumn (i : Nat) : RowFunction Value Value :=
  ⟨some ("fact " ++ toString i), fun row => .ok (row.getD i .null)⟩

/-- The factory that a step names. -/
def factory (inSecond : Bool) : Working S (ConstraintFactory Value S) := do
  let w ← get
  return if inSecond then w.second else w.first

def groupOf (decimalType : String) (s : Stream) (parts : List Part) : Declaring Value S Stream := do
  let grouped ← ConstraintFactory.group s (parts.map (·.groupPart))
  if parts.any (·.isCollector) then
    ConstraintFactory.map grouped (Part.columns decimalType parts)
  else return grouped

def mapColumns : List Function → List (RowFunction Value Value)
  | [f] => [f.value]
  | fs => fs.map (·.unnamed)

def onStream (name : String) (d : Stream → Declaring Value S Stream) : Working S Stream := do
  let s ← stream name
  onFactory s.factory (d s)

def onStreams (left right : String) (d : Stream → Stream → Declaring Value S Stream) :
    Working S Stream := do
  let s ← stream left
  let t ← stream right
  onFactory s.factory (d s t)

def runStream (decimalType : String) (inSecond : Bool) : StreamStep → Working S Stream
  | .forEach type includeUnassigned => do
      onFactory (← factory inSecond).id do
        let s ← ConstraintFactory.source type includeUnassigned
        ConstraintFactory.map s [factColumn 0]
  | .uniquePair type joiner => do
      onFactory (← factory inSecond).id do
        let s ← ConstraintFactory.forEachUniquePair type joiner
        ConstraintFactory.map s [factColumn 0, factColumn 1]
  | .filter s accepts => onStream s fun s => ConstraintFactory.filter s accepts.test
  | .map s columns => onStream s fun s => ConstraintFactory.map s (mapColumns columns)
  | .flatten s expand => onStream s fun s => ConstraintFactory.flattenLast s expand.items
  | .distinct s => onStream s ConstraintFactory.distinct
  | .concat s t => onStreams s t ConstraintFactory.concat
  | .join s t joiner => onStreams s t fun s t => ConstraintFactory.join s t joiner
  | .existence shouldExist s t joiner =>
      onStreams s t fun s t => ConstraintFactory.existence shouldExist s t joiner
  | .existenceOther shouldExist includeUnassigned s type joiner =>
      onStream s fun s =>
        ConstraintFactory.existenceOther shouldExist includeUnassigned s type joiner
  | .group s parts => onStream s fun s => groupOf decimalType s parts
  | .groupKey s key => onStream s fun s => ConstraintFactory.group s [.key key.value]
  | .groupCount s => onStream s fun s => groupOf decimalType s [.count]
  | .groupSum s number => onStream s fun s => groupOf decimalType s [.sum number]

variable [Score S]

/-- Described by the value of a formula and the impact, or by the entities if there is no value. -/
def justify (e : Expression) (row : Row Value) (impact : S) : Except Fault Justification := do
  let v ← e.eval row
  let entities := row.map Value.entity
  match v with
  | .null => return .ofEntities entities
  | v => return ⟨entities, v.label ++ " @ " ++ Score.text impact⟩

def indict (es : List Expression) (row : Row Value) : Except Fault (List EntityRef) := do
  return (← Expression.evalAll row es).map Value.entity

def terms (c : ConstraintStep S) : ConstraintTerms Value S :=
  { impact := c.impact
    weigher := c.weigher.map Function.weight
    justifier := c.justifier.map justify
    indicter := c.indicter.map indict }

def runConstraint (c : ConstraintStep S) : Working S Constraint := do
  let s ← stream c.s
  onFactory s.factory (ConstraintFactory.constraint s c.ref c.weight (terms c))

def runStep (decimalType : String) : Step S → Working S Unit
  | .stream name inSecond step => do
      let s ← runStream decimalType inSecond step
      let size := (← factory inSecond).declarationCount
      modify fun w =>
        { w with streams := w.streams.insert name s, log := w.log.push (.stream s.decl size) }
  | .constraint step => do
      let c ← runConstraint step
      let size := (← factory step.inSecond).declarationCount
      modify fun w =>
        { w with
          constraints := w.constraints.push c
          log := w.log.push (.constraint c.ref.fullName size) }

def runAll (decimalType : String) : List (Step S) → Working S Unit
  | [] => return ()
  | step :: steps => do
      runStep decimalType step
      runAll decimalType steps

def start (domain : DomainModel Value) : Workshop S :=
  ⟨.new 0 domain, .new 1 domain, .empty, #[], #[]⟩

/-- All constraints, or those with the given indices. -/
def selected (constraints : Array Constraint) : Option (List Nat) → List Constraint
  | none => constraints.toList
  | some indices => indices.filterMap (constraints[·]?)

/-- Runs a program and freezes its first factory for the selected constraints; the log comes with
the result. The name of the type of decimals shows in faults. -/
def build (decimalType : String) (settings : FactorySettings S) (domain : DomainModel Value)
    (steps : List (Step S)) (selection : Option (List Nat)) :
    List LogEntry × Except EngineError (SessionFactory Value S) :=
  let (result, w) := (runAll decimalType steps).run.run (start domain)
  (w.log.toList, do
    result
    SessionFactory.ofConstraints settings w.first (selected w.constraints selection))

end Program

end ConstraintScoring.Formula
