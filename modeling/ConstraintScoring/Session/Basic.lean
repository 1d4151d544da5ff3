import ConstraintScoring.Analysis.Indictment
import ConstraintScoring.Config.Engine
import ConstraintScoring.Network.Compile
import ConstraintScoring.Network.Report

/-!
# Sessions

A session holds facts and a network that scores them. Changing a fact only stages the change; a
call that asks for a result propagates everything staged before it answers. A fault in a user
function poisons the session: the call reports the fault, and every later call is refused.
-/

namespace ConstraintScoring

structure Session (V S : Type) where
  domain : DomainModel V
  mode : EnvironmentMode
  tracksMatches : Bool
  network : Network V S
  /-- In the order of insertion. -/
  facts : Table (FactKey V) V
  poisoned : Bool

/-- A call on a session; what a failed call did to the session stays done. -/
abbrev SessionCall (V S : Type) := ExceptT EngineError (StateM (Session V S))

namespace Session

variable {V S : Type}

def factCount (s : Session V S) : Nat := s.facts.size

def graph (s : Session V S) : DeclarationGraph V S := s.network.graph

def flagText (b : Bool) : String := if b then "true" else "false"

def debugText (s : Session V S) : String :=
  "ConstraintSession \x7b facts: " ++ toString s.factCount ++ ", nodes: " ++
    toString s.network.nodeCount ++ ", live_tuples: " ++ toString s.network.liveTuples ++
    ", match_tracking: " ++ flagText s.tracksMatches ++ ", poisoned: " ++ flagText s.poisoned ++
    " \x7d"

def checkUsable : SessionCall V S Unit := do
  if (← get).poisoned then throw .poisoned

def checkKnown (type : String) : SessionCall V S Unit := do
  match (← get).domain.class? type with
  | some _ => return ()
  | none => throw (.domainModel (.unknownClass type))

def poison (e : EngineError) {α : Type} : SessionCall V S α := do
  modify fun s => { s with poisoned := true }
  throw e

/-- Lets the network work during the named call; a fault poisons the session. -/
def guarded {α : Type} (call : String) (work : Run V S α) : SessionCall V S α := do
  let s ← get
  let (result, network) := work.run s.network
  set { s with network }
  match result with
  | .ok a => return a
  | .error fault => poison (network.evaluationError call fault)

variable [Cell V]

def describe (f : Fact V) : String := f.type ++ " with id " ++ Cell.label f.id

/-- How a fact is described when a session is built with it. -/
def describeInitial (f : Fact V) : String := f.type ++ " (TypeId(_), " ++ Cell.label f.id ++ ")"

def addFact (description : Fact V → String) (f : Fact V) : SessionCall V S Unit := do
  checkUsable
  checkKnown f.type
  if (← get).facts.contains f.key then throw (.duplicateFact (description f))
  else do
    guarded "insert" (Network.insertFact f)
    modify fun s => { s with facts := s.facts.insert f.key f.cell }

def insert (f : Fact V) : SessionCall V S Unit := addFact describe f

/-- Replaces a fact by one with the same class and planning id. -/
def update (f : Fact V) : SessionCall V S Unit := do
  checkUsable
  checkKnown f.type
  if (← get).facts.contains f.key then do
    guarded "update" (Network.updateFact f)
    modify fun s => { s with facts := s.facts.insert f.key f.cell }
  else throw (.unknownFact (describe f))

/-- Takes back the fact with the class and planning id of `f`. -/
def retract (f : Fact V) : SessionCall V S Unit := do
  checkUsable
  checkKnown f.type
  match (← get).facts.get? f.key with
  | none => throw (.unknownFact (describe f))
  | some cell => do
      modify fun s => { s with facts := s.facts.erase f.key }
      guarded "retract" (Network.retractFact { f with cell })

def insertAll : List (Fact V) → SessionCall V S Unit
  | [] => return ()
  | f :: fs => do
      addFact describeInitial f
      insertAll fs

variable [Score S]

/-- An empty session. -/
def new (graph : DeclarationGraph V S) (domain : DomainModel V) (tracksMatches : Bool)
    (mode : EnvironmentMode) : Except EngineError (Session V S) := do
  return ⟨domain, mode, tracksMatches, ← Network.compile graph domain, .empty, false⟩

/-- A session that holds the given facts, none of them propagated. -/
def ofFacts (graph : DeclarationGraph V S) (domain : DomainModel V) (tracksMatches : Bool)
    (mode : EnvironmentMode) (facts : List (Fact V)) : Except EngineError (Session V S) := do
  let s ← new graph domain tracksMatches mode
  match (insertAll facts).run.run s with
  | (.ok (), s) => return s
  | (.error e, _) => throw e

def insertFacts : List (Fact V) → Run V S Unit
  | [] => return ()
  | f :: fs => do
      Network.insertFact f
      insertFacts fs

def currentFacts (s : Session V S) : List (Fact V) :=
  s.facts.entries.map fun (key, cell) => ⟨key.type, key.id, cell⟩

def verification : String := "calculate_score (verification)"

/-- The score of the current facts on a network of their own. -/
def rebuiltScore : SessionCall V S S := do
  let s ← get
  let fresh ← (Network.compile s.graph s.domain : Except EngineError _)
  match (do insertFacts s.currentFacts; let _ ← Network.settle).run.run fresh with
  | (.ok _, fresh) => return fresh.score
  | (.error fault, fresh) => poison (fresh.evaluationError verification fault)

/-- Propagates what is staged and answers the score, which full assertion compares with that of
a network built anew. -/
def calculateScore : SessionCall V S S := do
  checkUsable
  let _ ← guarded "calculate_score" Network.settle
  let score := (← get).network.score
  if (← get).mode.isAsserted then do
    let rebuilt ← rebuiltScore
    if Score.same rebuilt score then return score
    else throw (.scoreCorruption (Score.text score) (Score.text rebuilt))
  else return score

def settledAnalyses : Run V S (List (ConstraintAnalysis S)) := do
  let _ ← Network.settle
  let net ← get
  ExceptT.mk (pure net.analyses)

/-- Every match of every active constraint. -/
def constraintMatches : SessionCall V S (List (ConstraintAnalysis S)) := do
  checkUsable
  if (← get).tracksMatches then guarded "constraint_matches" settledAnalyses
  else throw .matchTrackingDisabled

def explainScore : SessionCall V S (ScoreExplanation S) := do
  let analyses ← constraintMatches
  return ⟨(← get).network.score, analyses⟩

/-- The matches by indicted entity. Summing them up may overflow, which is no fault of the
session. -/
def indictments : SessionCall V S (Except Overflow (IndictmentMap S)) := do
  let analyses ← constraintMatches
  return IndictmentMap.ofMatches (analyses.flatMap (·.matched))

def constraintTotals : SessionCall V S (List (ConstraintTotal S)) := do
  checkUsable
  let _ ← guarded "constraint_totals" Network.settle
  return (← get).network.totals

end Session

end ConstraintScoring
