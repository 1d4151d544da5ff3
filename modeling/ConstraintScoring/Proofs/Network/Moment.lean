import ConstraintScoring.Proofs.Network.Holdings
import ConstraintScoring.Proofs.Node.Kind
import Mathlib.Logic.Relation

/-!
# The moments of a session

A moment is the state of a session between two steps: between calls, or between any two deliveries
while a call settles. Besides the network and the facts it records who staged each tuple and the
events each reader was told of. The steps are the single actions that the calls of a session
are made of.
-/

namespace ConstraintScoring

/-- What a session is about to do. -/
inductive Phase (V : Type) where
  /-- Between calls. -/
  | rest
  /-- The sources still to take note of a change of a fact. -/
  | staging (change : FactChange) (f : Fact V) (sources : List NodeId)
  /-- The nodes still to be settled. -/
  | settling (later : List NodeId)
  /-- The tuples of a node that wait, its queue being taken, and the nodes to come. -/
  | taken (node : NodeId) (tuples : List TupleId) (later : List NodeId)
  /-- The readers that still have to hear of the event of a tuple. -/
  | telling (node : NodeId) (event : Event) (tuple : TupleId) (readers : List Route)
      (tuples : List TupleId) (later : List NodeId)

structure Moment (V S : Type) where
  net : Network V S
  facts : Table (FactKey V) V
  phase : Phase V
  /-- The node that staged the insertion of a tuple. -/
  owner : TupleId → NodeId
  /-- The events that a reader was told of a tuple, the first one in front. -/
  log : Route → TupleId → List Event

namespace Network

variable {V S : Type}

/-- The kind of a node; what is not a node counts as a bridge without readers. -/
def kindAt (net : Network V S) (id : NodeId) : NodeKind V S :=
  (net.nodes[id]?.map (·.kind)).getD .aftBridge

/-- Some work of a network comes to an end. -/
def Ends {α : Type} (work : Run V S α) (net : Network V S) (a : α) (net' : Network V S) : Prop :=
  work.run.run net = (.ok a, net')

/-- Some work of a network is stopped by a fault. -/
def Stops {α : Type} (work : Run V S α) (net : Network V S) (fault : NetworkFault) : Prop :=
  ∃ net', work.run.run net = (.error fault, net')

end Network

namespace Moment

variable {V S : Type}

def start (net : Network V S) : Moment V S := ⟨net, .empty, .rest, fun _ => 0, fun _ _ => []⟩

/-- The moment after a node has worked on its tuples. -/
def worked (m : Moment V S) (id : NodeId) (net : Network V S) (phase : Phase V) : Moment V S :=
  { m with net, phase, owner := adopt m.net.arena net.arena id m.owner }

/-- The event is added to what the reader was told of the tuple. -/
def record (m : Moment V S) (r : Route) (e : Event) (t : TupleId) : Moment V S :=
  { m with log := fun r' t' => if r' = r ∧ t' = t then m.log r' t' ++ [e] else m.log r' t' }

variable [Cell V] [Score S]

inductive Step (m : Moment V S) : Moment V S → Prop where
  | change {c f} : m.phase = .rest → c.Allowed m.facts f →
      Step m { m with phase := .staging c f (m.net.sourcesOf f.type) }
  | note {c f id ids net} : m.phase = .staging c f (id :: ids) →
      Network.Ends (Network.stageAt c.stage f id) m.net () net →
      Step m (m.worked id net (.staging c f ids))
  | noted {c f} : m.phase = .staging c f [] →
      Step m { m with facts := c.after m.facts f, phase := .rest }
  | settle : m.phase = .rest → Step m { m with phase := .settling m.net.order }
  | take {id ids queue net} : m.phase = .settling (id :: ids) →
      Network.Ends (Network.takeQueue id) m.net queue net →
      Step m { m with net, phase := .taken id queue.toList ids }
  | skip {id t ts ids net} : m.phase = .taken id (t :: ts) ids →
      Network.Ends (Network.beginTuple t) m.net none net →
      Step m { m with net, phase := .taken id ts ids }
  | begin {id e t ts ids net} : m.phase = .taken id (t :: ts) ids →
      Network.Ends (Network.beginTuple t) m.net (some e) net →
      Step m { m with net, phase := .telling id e t (net.routesOf id) ts ids }
  | tell {id e t r rs ts ids net} : m.phase = .telling id e t (r :: rs) ts ids →
      Network.Ends (Network.deliver e t r) m.net () net →
      Step m ((m.worked r.node net (.telling id e t rs ts ids)).record r e t)
  | told {id e t ts ids} : m.phase = .telling id e t [] ts ids → e ≠ .retract →
      Step m { m with phase := .taken id ts ids }
  | drop {id t ts ids net} : m.phase = .telling id .retract t [] ts ids →
      Network.Ends (Network.releaseTuple t) m.net () net →
      Step m { m with net, phase := .taken id ts ids }
  | pass {id ids} : m.phase = .taken id [] ids → Step m { m with phase := .settling ids }
  | settled : m.phase = .settling [] → Step m { m with phase := .rest }

/-- The moments that the session of a network can reach. -/
inductive Reachable (net : Network V S) : Moment V S → Prop where
  | start : Reachable net (.start net)
  | step {m m'} : Reachable net m → Step m m' → Reachable net m'

/-- Steps lead from one moment to the other. -/
def Leads (m m' : Moment V S) : Prop := Relation.ReflTransGen Step m m'

/-- The step that the moment calls for is stopped by a fault. -/
def StoppedBy (m : Moment V S) (fault : NetworkFault) : Prop :=
  match m.phase with
  | .staging c f (id :: _) => Network.Stops (Network.stageAt c.stage f id) m.net fault
  | .telling _ e t (r :: _) _ _ => Network.Stops (Network.deliver e t r) m.net fault
  | _ => False

end Moment

/-- The events that may be told of one tuple, and whether it is known afterwards: an insertion, then
any number of updates, then a retraction, over and over. -/
inductive Protocol : List Event → Bool → Prop where
  | nil : Protocol [] false
  | insert {es} : Protocol es false → Protocol (es ++ [.insert]) true
  | update {es} : Protocol es true → Protocol (es ++ [.update]) true
  | retract {es} : Protocol es true → Protocol (es ++ [.retract]) false

end ConstraintScoring
