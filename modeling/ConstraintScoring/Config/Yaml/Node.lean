import ConstraintScoring.Config.Setting
import ConstraintScoring.Config.Yaml.Token

/-!
# YAML documents

A node is a scalar, a collection or an alias of an anchored node. Of several nodes with the anchor
that an alias names, the last one of the document counts. Every node may be read as what is expected
at its place: quotes decide whether a word can be a flag, and a tag of one's own names an
alternative.
-/

namespace ConstraintScoring.Yaml

structure Properties where
  anchor : Option Nat
  tag : Option String

def Properties.empty : Properties := ⟨none, none⟩

inductive Node where
  | reference (anchor : Nat)
  | scalar (p : Properties) (style : ScalarStyle) (text : String)
  | sequence (p : Properties) (items : List Node)
  | mapping (p : Properties) (entries : List (Node × Node))

namespace Node

def nothing (p : Properties) : Node := scalar p .plain ""

instance : Inhabited Node := ⟨nothing .empty⟩

mutual

/-- The last node of a tree with an anchor, or else `found`. -/
def lastAnchored (anchor : Nat) (found : Option Node) : Node → Option Node
  | reference _ => found
  | scalar p style text => if p.anchor = some anchor then some (scalar p style text) else found
  | sequence p items =>
      lastInItems anchor (if p.anchor = some anchor then some (sequence p items) else found) items
  | mapping p entries =>
      lastInEntries anchor (if p.anchor = some anchor then some (mapping p entries) else found)
        entries

def lastInItems (anchor : Nat) (found : Option Node) : List Node → Option Node
  | [] => found
  | n :: ns => lastInItems anchor (lastAnchored anchor found n) ns

def lastInEntries (anchor : Nat) (found : Option Node) : List (Node × Node) → Option Node
  | [] => found
  | (k, n) :: es => lastInEntries anchor (lastAnchored anchor (lastAnchored anchor found k) n) es

end

end Node

/-- A node with the document that it belongs to. -/
structure Place where
  root : Node
  node : Node

namespace Place

/-- The node itself, or the one that it is an alias of. -/
def target (p : Place) : Node :=
  match p.node with
  | .reference anchor => (p.root.lastAnchored anchor none).getD p.node
  | n => n

def text? (p : Place) : Option String :=
  match p.target with
  | .scalar _ _ text => some text
  | _ => none

/-- The entries of a mapping; nothing at all counts as a mapping without entries. -/
def entries? (p : Place) : Option (List (String × Place)) :=
  match p.target with
  | .mapping _ entries => entries.mapM fun (k, n) => do return (← text? ⟨p.root, k⟩, ⟨p.root, n⟩)
  | .scalar _ .plain "" => some []
  | _ => none

def flagOfWord? (word : String) : Option Bool :=
  if ["true", "True", "TRUE"].contains word then some true
  else if ["false", "False", "FALSE"].contains word then some false
  else none

/-- The tag that a literal block scalar needs to be a flag. -/
def flagTag : String := "tag:yaml.org,2002:bool"

def flag? (p : Place) : Option Bool :=
  match p.target with
  | .scalar _ .plain word => flagOfWord? word
  | .scalar p .literal word => if p.tag = some flagTag then flagOfWord? word else none
  | _ => none

def isNothing (style : ScalarStyle) (text : String) : Bool :=
  style == .plain && ["", "null", "Null", "NULL", "~"].contains text

/-- The name in a tag that belongs to the document alone. -/
def ownTag? (tag : Option String) : Option String :=
  match tag.map String.toList with
  | some ('!' :: name) => some (String.ofList name)
  | _ => none

/-- An alternative is a scalar with its name, or nothing with the name as its tag. -/
def choice? (p : Place) : Option String :=
  match p.target with
  | .scalar p style text =>
      match ownTag? p.tag with
      | some name => if isNothing style text then some name else none
      | none => some text
  | _ => none

instance : Setting Place := ⟨entries?, text?, flag?, choice?⟩

end Place

end ConstraintScoring.Yaml
