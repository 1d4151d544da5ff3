import ConstraintScoring.Graph.Frozen
import ConstraintScoring.Node.Concat
import ConstraintScoring.Node.Exists
import ConstraintScoring.Node.Group
import ConstraintScoring.Node.Join
import ConstraintScoring.Node.Score
import ConstraintScoring.Node.Single
import ConstraintScoring.Node.Source

/-!
# Networks

A network is what evaluates a frozen graph: one node for each active declaration, with a queue of
the tuples whose staged changes its readers have not heard of. Bridges have no books of their own;
a route leads from a node to a reader behind them and says on which side the reader is reached.
-/

namespace ConstraintScoring

abbrev NodeId := Nat

inductive NodeKind (V S : Type) where
  | source (node : SourceNode V)
  | foreBridge (side : Side)
  | aftBridge
  | filter (node : FilterNode V)
  | map (node : MapNode V)
  | flatten (node : FlattenNode V)
  | concat (node : ConcatNode)
  | join (node : JoinNode V)
  | exists (node : ExistsNode V)
  | group (node : GroupNode V)
  | score (node : ScoreNode V S)

namespace NodeKind

variable {V S : Type}

def isBridge : NodeKind V S → Bool
  | foreBridge _ => true
  | aftBridge => true
  | _ => false

/-- The side on which a reader directly behind the node hears of its tuples. -/
def outwardSide : NodeKind V S → Side
  | foreBridge side => side
  | _ => .left

variable [Cell V]

/-- Lets a node that makes tuples of its own react to an event; scoring is apart. -/
def onEvent (side : Side) (event : Event) (input : TupleId) : NodeKind V S → Stage V (NodeKind V S)
  | filter n => do return .filter (← n.onEvent event input)
  | map n => do return .map (← n.onEvent event input)
  | flatten n => do return .flatten (← n.onEvent event input)
  | concat n => do return .concat (← n.onEvent side event input)
  | join n => do return .join (← n.onEvent side event input)
  | «exists» n => do return .exists (← n.onEvent side event input)
  | group n => do return .group (← n.onEvent event input)
  | kind => return kind

end NodeKind

structure NetworkNode (V S : Type) where
  decl : DeclId
  /-- Greater than the rank of each parent. -/
  rank : Nat
  children : List NodeId
  kind : NodeKind V S

structure Route where
  node : NodeId
  side : Side
deriving DecidableEq

structure Network (V S : Type) where
  graph : DeclarationGraph V S
  nodes : Array (NetworkNode V S)
  /-- For each node the readers of its tuples, in the order in which they hear of them. -/
  routes : Array (List Route)
  /-- The nodes by rank and then by declaration. -/
  order : List NodeId
  queues : Array (Array TupleId)
  arena : Arena V
  ledger : Ledger S

/-- A fault with the node that was evaluating and what it was looking at. -/
structure NetworkFault where
  node : NodeId
  subject : String
  fault : Fault

/-- Work of a network; what was done before a fault stays done. -/
abbrev Run (V S : Type) := ExceptT NetworkFault (StateM (Network V S))

namespace Network

variable {V S : Type}

def nodeCount (net : Network V S) : Nat := net.nodes.size

def liveTuples (net : Network V S) : Nat := net.arena.live

def score (net : Network V S) : S := net.ledger.score

def queue (net : Network V S) (id : NodeId) : Array TupleId := net.queues.getD id #[]

def routesOf (net : Network V S) (id : NodeId) : List Route := net.routes.getD id []

def setKind (kind : NodeKind V S) (node : NetworkNode V S) : NetworkNode V S := { node with kind }

/-- Lets a node work on the arena and its queue. -/
def workAt (net : Network V S) (id : NodeId) (work : Stage V (NodeKind V S)) :
    Except Fault Unit × Network V S :=
  let ⟨graph, nodes, routes, order, queues, arena, ledger⟩ := net
  let queue := queues.getD id #[]
  let queues := queues.setIfInBounds id #[]
  match work.run.run ⟨arena, queue⟩ with
  | (.ok kind, s) =>
      (.ok (), ⟨graph, nodes.modify id (setKind kind), routes, order,
        queues.setIfInBounds id s.queue, s.arena, ledger⟩)
  | (.error fault, s) =>
      (.error fault, ⟨graph, nodes, routes, order, queues.setIfInBounds id s.queue, s.arena,
        ledger⟩)

def scoreAt [Score S] (net : Network V S) (id : NodeId) (n : ScoreNode V S) (event : Event)
    (input : TupleId) : Except Fault Unit × Network V S :=
  match n.onEvent event input (net.arena.row input) net.ledger with
  | .ok (n, ledger) =>
      (.ok (), { net with nodes := net.nodes.modify id (setKind (.score n)), ledger })
  | .error fault => (.error fault, net)

variable [Cell V] [Score S]

/-- Tells a reader of the event of a tuple. -/
def deliver (event : Event) (input : TupleId) (route : Route) : Run V S Unit :=
  ExceptT.mk fun net =>
    let (result, net) :=
      match net.nodes[route.node]? with
      | none => (Except.ok (), net)
      | some node =>
          match node.kind with
          | .score n => net.scoreAt route.node n event input
          | kind => net.workAt route.node (kind.onEvent route.side event input)
    match result with
    | .ok () => (.ok (), net)
    | .error fault => (.error ⟨route.node, Cell.rowLabel (net.arena.row input), fault⟩, net)

def deliverAll (event : Event) (input : TupleId) : List Route → Run V S Unit
  | [] => return ()
  | route :: routes => do
      deliver event input route
      deliverAll event input routes

omit [Cell V] [Score S] in
def beginTuple (id : TupleId) : Run V S (Option Event) :=
  modifyGet fun net =>
    let (event, arena) := net.arena.begin id
    (event, { net with arena })

omit [Cell V] [Score S] in
def releaseTuple (id : TupleId) : Run V S Unit :=
  modify fun net => { net with arena := net.arena.release id }

/-- Tells the readers of a node of the staged change of a tuple; answers how many events that
were. -/
def propagate (id : NodeId) (tuple : TupleId) : Run V S Nat := do
  match ← beginTuple tuple with
  | none => return 0
  | some event =>
      deliverAll event tuple ((← get).routesOf id)
      if event = .retract then releaseTuple tuple
      return 1

def propagateAll (id : NodeId) : List TupleId → Run V S Nat
  | [] => return 0
  | tuple :: tuples => do
      let n ← propagate id tuple
      return n + (← propagateAll id tuples)

omit [Cell V] [Score S] in
def takeQueue (id : NodeId) : Run V S (Array TupleId) :=
  modifyGet fun net => (net.queue id, { net with queues := net.queues.setIfInBounds id #[] })

def settleNode (id : NodeId) : Run V S Nat := do
  let queue ← takeQueue id
  propagateAll id queue.toList

def settleAll : List NodeId → Run V S Nat
  | [] => return 0
  | id :: ids => do
      let n ← settleNode id
      return n + (← settleAll ids)

/-- Propagates every staged change, node by node in order of rank; answers the number of events. -/
def settle : Run V S Nat := do settleAll (← get).order

/-- Lets the source with the given number take note of a change of a fact. -/
def stageAt (change : SourceNode V → Fact V → Stage V (SourceNode V)) (f : Fact V) (id : NodeId) :
    Run V S Unit :=
  ExceptT.mk fun net =>
    match net.nodes[id]? with
    | some ⟨_, _, _, .source n⟩ =>
        match net.workAt id (do return .source (← change n f)) with
        | (.ok (), net) => (.ok (), net)
        | (.error fault, net) => (.error ⟨id, Cell.label f.cell, fault⟩, net)
    | _ => (.ok (), net)

def stageAll (change : SourceNode V → Fact V → Stage V (SourceNode V)) (f : Fact V) :
    List NodeId → Run V S Unit
  | [] => return ()
  | id :: ids => do
      stageAt change f id
      stageAll change f ids

omit [Cell V] [Score S] in
def isSourceOf (net : Network V S) (type : String) (id : NodeId) : Bool :=
  match net.nodes[id]? with
  | some ⟨_, _, _, .source n⟩ => n.type == type
  | _ => false

omit [Cell V] [Score S] in
def sourcesOf (net : Network V S) (type : String) : List NodeId :=
  (List.range net.nodes.size).filter (net.isSourceOf type)

def stage (change : SourceNode V → Fact V → Stage V (SourceNode V)) (f : Fact V) :
    Run V S Unit := do
  stageAll change f ((← get).sourcesOf f.type)

def insertFact (f : Fact V) : Run V S Unit := stage SourceNode.insert f

def updateFact (f : Fact V) : Run V S Unit := stage SourceNode.update f

def retractFact (f : Fact V) : Run V S Unit := stage SourceNode.retract f

end Network

end ConstraintScoring
