import ConstraintScoring.Config.Yaml.Lexer
import ConstraintScoring.Config.Yaml.Node
import ConstraintScoring.Table

/-!
# Reading YAML documents

The nodes of a document from the tokens of a text. Directives may come before a document, and a text
has at most one document. An anchor is known by the number of names that had been given to anchors
before it; a name that is given again thus may share its number with another one.
-/

namespace ConstraintScoring.Yaml

structure Building where
  tokens : List Token
  anchors : Table String Nat

abbrev Builder (α : Type) := ReaderT (List (String × Option String)) (StateT Building Option) α

namespace Builder

def peek : Builder (Option Token) := do return (← get).tokens.head?

def next : Builder Unit := modify fun b => { b with tokens := b.tokens.tail }

/-- The tag that a handle and a suffix stand for; a tag that is no text counts for nothing. -/
def tagText (t : Tag) : Builder (Option String) := do
  if t.handle.isEmpty then return t.suffix
  else
    match (← read).find? (·.1 == t.handle) with
    | none => failure
    | some (_, stem) => return stem.bind fun stem => t.suffix.map (stem ++ ·)

def tag? : Builder (Option Tag) := do
  match ← peek with
  | some (.tag t) =>
      next
      return some t
  | _ => return none

def anchorName? : Builder (Option String) := do
  match ← peek with
  | some (.anchor name) =>
      next
      return some name
  | _ => return none

/-- Numbers an anchor. -/
def newAnchor (name : String) : Builder Nat := do
  let anchors := (← get).anchors
  modify fun b => { b with anchors := anchors.insert name anchors.size }
  return anchors.size

/-- An anchor and a tag in either order. Answers the name of the anchor, since only a node that
follows makes it one, and whether there is any of the two. -/
def marks : Builder (Option String × Option Tag) := do
  match ← anchorName? with
  | some name => return (some name, ← tag?)
  | none => do
      let tag ← tag?
      return (← anchorName?, tag)

def aliased (name : String) : Builder Node := do
  match (← get).anchors.get? name with
  | some anchor => return .reference anchor
  | none => failure

/-- The properties of a node that follows; a scalar has no use for a tag without a name. -/
def properties (name : Option String) (tag : Option String) : Builder Properties := do
  match name with
  | none => return ⟨none, tag⟩
  | some name => return ⟨some (← newAnchor name), tag⟩

def scalarTag (tag : Option String) : Option String := if tag = some "!" then none else tag

/-- Whether one of some tokens comes next. -/
def atOneOf (p : Token → Bool) : Builder Bool := do return (← peek).any p

def isBlockStop : Token → Bool
  | .key | .value | .blockEnd => true
  | _ => false

def isEntryStop : Token → Bool
  | .blockEntry | .blockEnd => true
  | _ => false

def isInnerEntryStop (t : Token) : Bool := isBlockStop t || isEntryStop t

def isSequenceStop : Token → Bool
  | .flowEntry | .flowSequenceEnd => true
  | _ => false

def isMappingStop : Token → Bool
  | .flowEntry | .flowMappingEnd => true
  | _ => false

def isValue : Token → Bool
  | .value => true
  | _ => false

mutual

/-- A node. Outside of brackets, a sequence without indentation may be the part of a mapping. -/
def node (block inMapping : Bool) : Nat → Builder Node
  | 0 => failure
  | fuel + 1 => do
      match ← peek with
      | some (.reference name) =>
          next
          aliased name
      | _ =>
          let (name, mark) ← marks
          let tag ← mark.elim (return none) tagText
          match ← peek, block with
          | some (.scalar style text), _ =>
              next
              return .scalar (← properties name (scalarTag tag)) style text
          | some .flowSequenceStart, _ =>
              next
              let p ← properties name tag
              return .sequence p (← flowItems true fuel)
          | some .flowMappingStart, _ =>
              next
              let p ← properties name tag
              return .mapping p (← flowEntries true fuel)
          | some .blockSequenceStart, true =>
              next
              let p ← properties name tag
              return .sequence p (← blockItems fuel)
          | some .blockMappingStart, true =>
              next
              let p ← properties name tag
              return .mapping p (← blockEntries fuel)
          | t, _ =>
              if inMapping && t matches some .blockEntry then
                let p ← properties name tag
                return .sequence p (← innerItems fuel)
              else if name.isSome || mark.isSome then return .nothing (← properties name tag)
              else failure

/-- A node, or nothing in front of one of some tokens. -/
def nodeBefore (stop : Token → Bool) (block inMapping : Bool) : Nat → Builder Node
  | 0 => failure
  | fuel + 1 => do
      if ← atOneOf stop then return .nothing .empty else node block inMapping fuel

/-- The rest of an indented sequence. -/
def blockItems : Nat → Builder (List Node)
  | 0 => failure
  | fuel + 1 => do
      match ← peek with
      | some .blockEntry =>
          next
          let n ← nodeBefore isEntryStop true false fuel
          return n :: (← blockItems fuel)
      | some .blockEnd =>
          next
          return []
      | _ => failure

/-- The rest of a sequence that is not indented within its mapping. -/
def innerItems : Nat → Builder (List Node)
  | 0 => failure
  | fuel + 1 => do
      match ← peek with
      | some .blockEntry =>
          next
          let n ← nodeBefore isInnerEntryStop true false fuel
          return n :: (← innerItems fuel)
      | _ => return []

/-- The value behind a key, if there is one. -/
def valueBefore (stop : Token → Bool) (block : Bool) : Nat → Builder Node
  | 0 => failure
  | fuel + 1 => do
      match ← peek with
      | some .value =>
          next
          nodeBefore stop block block fuel
      | _ => return .nothing .empty

/-- The rest of an indented mapping. -/
def blockEntries : Nat → Builder (List (Node × Node))
  | 0 => failure
  | fuel + 1 => do
      match ← peek with
      | some .key =>
          next
          let k ← nodeBefore isBlockStop true true fuel
          let n ← valueBefore isBlockStop true fuel
          return (k, n) :: (← blockEntries fuel)
      | some .blockEnd =>
          next
          return []
      | _ => failure

/-- The key of a single entry in a sequence in brackets; the token that takes the place of a missing
key is passed over. -/
def singleKey : Nat → Builder Node
  | 0 => failure
  | fuel + 1 => do
      if ← atOneOf fun t => isValue t || isSequenceStop t then
        next
        return .nothing .empty
      else node false false fuel

/-- The rest of a sequence in brackets. An entry with a key is a mapping of its own. -/
def flowItems (first : Bool) : Nat → Builder (List Node)
  | 0 => failure
  | fuel + 1 => do
      match ← peek, first with
      | some .flowEntry, false => next
      | some .flowSequenceEnd, _ => pure ()
      | _, true => pure ()
      | _, false => failure
      match ← peek with
      | some .flowSequenceEnd =>
          next
          return []
      | some .key =>
          next
          let k ← singleKey fuel
          let n ← valueBefore isSequenceStop false fuel
          return .mapping .empty [(k, n)] :: (← flowItems false fuel)
      | _ =>
          let n ← node false false fuel
          return n :: (← flowItems false fuel)

/-- The rest of a mapping in brackets. -/
def flowEntries (first : Bool) : Nat → Builder (List (Node × Node))
  | 0 => failure
  | fuel + 1 => do
      match ← peek, first with
      | some .flowEntry, false => next
      | some .flowMappingEnd, _ => pure ()
      | _, true => pure ()
      | _, false => failure
      match ← peek with
      | some .flowMappingEnd =>
          next
          return []
      | some .key =>
          next
          let k ← nodeBefore (fun t => isValue t || isMappingStop t) false false fuel
          let n ← valueBefore isMappingStop false fuel
          return (k, n) :: (← flowEntries false fuel)
      | _ =>
          let k ← node false false fuel
          return (k, .nothing .empty) :: (← flowEntries false fuel)

end

end Builder

/-- What the directives of a document say about handles; fails if one of them comes twice or the
version is another one than 1.1 or 1.2. -/
def handlesOf? (versioned : Bool) (handles : List (String × Option String)) :
    List Directive → Option (List (String × Option String))
  | [] => some handles
  | .version major minor :: ds =>
      if versioned || major != 1 || (minor != 1 && minor != 2) then none
      else handlesOf? true handles ds
  | .handle h stem :: ds =>
      if handles.any (·.1 == h) then none else handlesOf? versioned ((h, stem) :: handles) ds

/-- The handles that need no directive. -/
def defaultHandles : List (String × Option String) :=
  [("!", some "!"), ("!!", some "tag:yaml.org,2002:")]

def directiveOf? : Token → Option Directive
  | .directive d => some d
  | _ => none

def isDocumentStop : Token → Bool
  | .directive _ | .documentStart | .documentEnd | .streamEnd => true
  | _ => false

/-- The root of the document that some tokens begin with; nothing else may follow it. -/
def rootOf? (handles : List (String × Option String)) (explicit : Bool) (tokens : List Token) :
    Option Node := do
  let fuel := 4 * tokens.length + 4
  let read :=
    if explicit then Builder.nodeBefore isDocumentStop true false fuel
    else Builder.node true false fuel
  let (root, b) ← (read.run (handles ++ defaultHandles)).run ⟨tokens, .empty⟩
  match b.tokens.dropWhile (·.isDocumentEnd) with
  | [.streamEnd] => some root
  | _ => none

def documentOf? (tokens : List Token) : Option Node := do
  let directives := tokens.takeWhile (·.isDirective)
  let handles ← handlesOf? false [] (directives.filterMap directiveOf?)
  match tokens.dropWhile (·.isDirective) with
  | [.streamEnd] => if directives.isEmpty then some (.nothing .empty) else none
  | .documentStart :: rest => rootOf? handles true rest
  | rest => if directives.isEmpty then rootOf? [] false rest else none

/-- Whether a character may stand in a text at all. -/
def isAllowed (c : Char) : Bool :=
  let n := c.toNat
  c == '\t' || c == '\n' || c == '\r' || (0x20 ≤ n && n ≤ 0x7e) || n == 0x85 ||
    (0xa0 ≤ n && n ≤ 0xfffd) || 0x10000 ≤ n

/-- The document that a text holds, if it is well-formed; a text without one holds nothing. -/
def read (cs : List Char) : Option Place := do
  if !cs.all isAllowed then none
  let root ← documentOf? (← tokensOf? cs)
  return ⟨root, root⟩

end ConstraintScoring.Yaml
