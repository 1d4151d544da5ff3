import ConstraintScoring.Session.Basic
import ConstraintScoring.Stream.Factory

/-!
# Session factories

A session factory holds a frozen graph and builds sessions on it, none of which knows of another.
-/

namespace ConstraintScoring

/-- What a session factory is built with besides its constraints. -/
structure FactorySettings (S : Type) where
  overrides : WeightOverrides S
  mode : EnvironmentMode
  matchTracking : Bool

namespace FactorySettings

variable {S : Type}

def default : FactorySettings S := ⟨.empty, .nonReproducible, false⟩

/-- Later weights come before earlier ones. -/
def withOverrides (f : FactorySettings S) (entries : List (String × S)) : FactorySettings S :=
  { f with overrides := f.overrides.putAll entries }

/-- Takes over the mode, the tracking and the weights of a configuration. -/
def withConfig [ReadableScore S] (f : FactorySettings S) (c : EngineConfig) :
    Except EngineError (FactorySettings S) :=
  match c.scores S with
  | .error problem => .error (.config problem)
  | .ok weights =>
      .ok ({ f with mode := c.mode, matchTracking := c.matchTracking }.withOverrides weights)

end FactorySettings

structure SessionFactory (V S : Type) where
  graph : DeclarationGraph V S
  domain : DomainModel V
  mode : EnvironmentMode
  matchTracking : Bool

namespace SessionFactory

variable {V S : Type} [Cell V] [Score S]

omit [Cell V] in
/-- Freezes the graph of a constraint factory for some of its constraints. -/
def ofConstraints (settings : FactorySettings S) (f : ConstraintFactory V S)
    (constraints : List Constraint) : Except EngineError (SessionFactory V S) := do
  let graph ← f.freeze constraints settings.overrides
  return ⟨graph, f.domain, settings.mode, settings.matchTracking⟩

omit [Cell V] in
/-- Runs a provider of constraints on a new constraint factory and freezes what it provides. -/
def build (settings : FactorySettings S) (domain : DomainModel V)
    (provider : Declaring V S (List Constraint)) : Except EngineError (SessionFactory V S) := do
  let (result, f) := provider.run (.new 0 domain)
  ofConstraints settings f (← result)

def buildSession (f : SessionFactory V S) (facts : List (Fact V)) (tracksMatches : Bool) :
    Except EngineError (Session V S) :=
  Session.ofFacts f.graph f.domain tracksMatches f.mode facts

/-- An empty session with the factory's choice of match tracking. -/
def buildDefaultSession (f : SessionFactory V S) : Except EngineError (Session V S) :=
  f.buildSession [] f.matchTracking

/-- Scores facts on a session that is thrown away. -/
def fireAndForget (f : SessionFactory V S) (facts : List (Fact V)) : Except EngineError S := do
  let s ← f.buildSession facts false
  (Session.calculateScore.run.run s).1

def scoreAll (f : SessionFactory V S) (factSets : List (List (Fact V))) :
    List (Except EngineError S) :=
  factSets.map f.fireAndForget

omit [Cell V] [Score S] in
def constraintRefs (f : SessionFactory V S) : List ConstraintRef := f.graph.activeRefs

omit [Cell V] [Score S] in
def debugText (f : SessionFactory V S) : String :=
  "ConstraintSessionFactory \x7b graph: " ++ f.graph.debugText ++ ", environment_mode: " ++
    f.mode.debugText ++ ", default_match_tracking: " ++ Session.flagText f.matchTracking ++ " \x7d"

end SessionFactory

end ConstraintScoring
