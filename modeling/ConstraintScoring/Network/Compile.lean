import ConstraintScoring.Network.Basic

/-!
# Compiling a graph

A frozen graph becomes a network with one node for each active declaration, in the order of the
declarations. A node's rank is the length of the longest path from a source to it, so that a node
is settled after all of its parents.
-/

namespace ConstraintScoring.Network

variable {V S : Type}

/-- The nodes made so far and the node of each declaration that has one. -/
structure Plan (V S : Type) where
  nodes : Array (NetworkNode V S)
  nodeOf : Table DeclId NodeId

def parentRank (plan : Plan V S) (decl parent : DeclId) : Except EngineError Nat :=
  match (plan.nodeOf.get? parent).bind fun id => plan.nodes[id]? with
  | some node => .ok node.rank
  | none => .error (.internal s!"declaration {decl} depends on inactive declaration {parent}")

def rankOf (plan : Plan V S) (decl : DeclId) : List DeclId → Except EngineError Nat
  | [] => .ok 0
  | parent :: parents => do
      let r ← parentRank plan decl parent
      return max (r + 1) (← rankOf plan decl parents)

def sourceNode (domain : DomainModel V) (type : String) (includeUnassigned : Bool) :
    Except EngineError (SourceNode V) :=
  match domain.class? type with
  | none => .error (.domainModel (.unknownSource type))
  | some c =>
      .ok ⟨type, if includeUnassigned || !c.canBeUnassigned then none else some c, .empty⟩

def scoreNode (g : DeclarationGraph V S) (constraint : Nat) : Except EngineError (ScoreNode V S) :=
  match g.constraints[constraint]? with
  | none => .error (.internal s!"unknown constraint index {constraint}")
  | some c => .ok ⟨constraint, c.impact, c.weight, c.weigher, .empty⟩

variable [Cell V]

def nodeKind (g : DeclarationGraph V S) (domain : DomainModel V) :
    Operation V → Except EngineError (NodeKind V S)
  | .source type includeUnassigned => do
      return .source (← sourceNode domain type includeUnassigned)
  | .foreBridge side => .ok (.foreBridge side)
  | .aftBridge => .ok .aftBridge
  | .filter accepts => .ok (.filter (.new accepts))
  | .join indexer => .ok (.join (.new indexer))
  | .exists shouldExist indexer => .ok (.exists (.new shouldExist indexer))
  | .group keys collectors => .ok (.group (.new keys collectors))
  | .map columns => .ok (.map (.new columns))
  | .flattenLast expand => .ok (.flatten (.new expand))
  | .concat => .ok (.concat .new)
  | .score constraint => do return .score (← scoreNode g constraint)

def addNode (g : DeclarationGraph V S) (domain : DomainModel V) (plan : Plan V S) (decl : DeclId) :
    Except EngineError (Plan V S) :=
  match g.declarations[decl]? with
  | none => .ok plan
  | some d => do
      let rank ← rankOf plan decl d.parents
      let kind ← nodeKind g domain d.operation
      return ⟨plan.nodes.push ⟨decl, rank, [], kind⟩, plan.nodeOf.insert decl plan.nodes.size⟩

omit [Cell V] in
/-- Links a node to the nodes of the children of its declaration. -/
def withChildren (g : DeclarationGraph V S) (nodeOf : Table DeclId NodeId)
    (node : NetworkNode V S) : NetworkNode V S :=
  match g.declarations[node.decl]? with
  | none => node
  | some d => { node with children := d.children.filterMap nodeOf.get? }

omit [Cell V] in
/-- The routes to a child: to the child itself, or through it if it is a bridge. -/
def routesTo (nodes : Array (NetworkNode V S)) (routes : Array (List Route)) (side : Side)
    (child : NodeId) : List Route :=
  match nodes[child]? with
  | none => []
  | some node => if node.kind.isBridge then routes.getD child [] else [⟨child, side⟩]

omit [Cell V] in
def addRoutes (nodes : Array (NetworkNode V S)) (routes : Array (List Route)) (id : NodeId) :
    Array (List Route) :=
  match nodes[id]? with
  | none => routes
  | some node =>
      routes.setIfInBounds id
        (node.children.flatMap (routesTo nodes routes node.kind.outwardSide))

omit [Cell V] in
/-- The routes of all nodes, from the last node to the first, so that a bridge has its own before
the nodes in front of it need them. -/
def allRoutes (nodes : Array (NetworkNode V S)) : Array (List Route) :=
  (List.range nodes.size).reverse.foldl (addRoutes nodes) (Array.replicate nodes.size [])

omit [Cell V] in
def rankAt (nodes : Array (NetworkNode V S)) (id : NodeId) : Nat :=
  match nodes[id]? with
  | some node => node.rank
  | none => 0

omit [Cell V] in
/-- Nodes have the order of their declarations, so a stable sort by rank keeps that order. -/
def settleOrder (nodes : Array (NetworkNode V S)) : List NodeId :=
  (List.range nodes.size).mergeSort fun a b => rankAt nodes a ≤ rankAt nodes b

variable [Score S]

def compile (g : DeclarationGraph V S) (domain : DomainModel V) :
    Except EngineError (Network V S) := do
  let plan ← ((List.range g.size).filter g.isActive).foldlM (addNode g domain) ⟨#[], .empty⟩
  let nodes := plan.nodes.map (withChildren g plan.nodeOf)
  return {
    graph := g
    nodes
    routes := allRoutes nodes
    order := settleOrder nodes
    queues := Array.replicate nodes.size #[]
    arena := .empty
    ledger := .new (g.constraints.map (·.ref)) }

end ConstraintScoring.Network
