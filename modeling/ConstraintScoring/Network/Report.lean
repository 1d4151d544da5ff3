import ConstraintScoring.Network.Basic

/-!
# What a network reports

The totals of the active constraints, their matches, and the error for a fault.
-/

namespace ConstraintScoring.Network

variable {V S : Type}

/-- The totals of the active constraints, by constraint index. -/
def totals (net : Network V S) : List (ConstraintTotal S) :=
  net.graph.activeConstraints.filterMap fun i => net.ledger.totals[i]?

def scoreNodeOf (constraint : Nat) (node : NetworkNode V S) : Option (ScoreNode V S) :=
  match node.kind with
  | .score n => if n.constraint = constraint then some n else none
  | _ => none

/-- The number of the node that scores a constraint, with its books. -/
def scoreNode? (net : Network V S) (constraint : Nat) : Option (NodeId × ScoreNode V S) :=
  (List.range net.nodes.size).findSome? fun id =>
    (net.nodes[id]?.bind (scoreNodeOf constraint)).map fun n => (id, n)

variable [Cell V]

def explainMatch (c : ConstraintDef V S) (row : Row V) (impact : S) :
    Except Fault (ConstraintMatch S) := do
  let justification ←
    match c.justifier with
    | some justify => justify row impact
    | none => .ok (.ofRow row)
  let indicted ←
    match c.indicter with
    | some indict => indict row
    | none => .ok (row.map .ofCell)
  return ⟨c.ref, impact, justification, indicted⟩

def explainAll (net : Network V S) (id : NodeId) (c : ConstraintDef V S) :
    List (TupleId × S) → Except NetworkFault (List (ConstraintMatch S))
  | [] => .ok []
  | (tuple, impact) :: rest =>
      match explainMatch c (net.arena.row tuple) impact with
      | .error fault => .error ⟨id, Cell.rowLabel (net.arena.row tuple), fault⟩
      | .ok m => do return m :: (← explainAll net id c rest)

/-- The matches of a constraint by tuple, with its total. -/
def analysisOf (net : Network V S) (id : NodeId) (n : ScoreNode V S) (c : ConstraintDef V S)
    (total : ConstraintTotal S) : Except NetworkFault (ConstraintAnalysis S) := do
  let live := n.impacts.entries.mergeSort fun a b => a.1 ≤ b.1
  return ⟨c.ref, c.weight, total.score, ← explainAll net id c live⟩

def analysesFrom (net : Network V S) :
    List Nat → Except NetworkFault (List (ConstraintAnalysis S))
  | [] => .ok []
  | constraint :: rest =>
      match net.scoreNode? constraint, net.graph.constraints[constraint]?,
        net.ledger.totals[constraint]? with
      | some (id, n), some c, some total => do
          let a ← net.analysisOf id n c total
          return a :: (← net.analysesFrom rest)
      | _, _, _ => net.analysesFrom rest

/-- Every active constraint with its matches, by constraint index. -/
def analyses (net : Network V S) : Except NetworkFault (List (ConstraintAnalysis S)) :=
  net.analysesFrom net.graph.activeConstraints

omit [Cell V] in
/-- The error for a fault during a call. -/
def evaluationError (net : Network V S) (call : String) (f : NetworkFault) : EngineError :=
  let decl :=
    match net.nodes[f.node]? with
    | some node => node.decl
    | none => 0
  let label :=
    match net.graph.declarations[decl]? with
    | some d => d.kind.label
    | none => ""
  .evaluation ⟨call, label, net.graph.ownerNames decl, f.subject, f.fault⟩

end ConstraintScoring.Network
