import TreePanel.Yaml.Stream

/-!
# Nodes of a document

A node of a document is read off the events that begin with it. An alias stands for the node that
it names, whose place is another one than its own.
-/

namespace TreePanel.Yaml

/-- What a node is, without what is in it. -/
inductive Content where
  | scalar (scalar : Scalar)
  | sequence (tag : Option TagText)
  | mapping (tag : Option TagText)
deriving DecidableEq

/-- The tag of a node. -/
def Content.tag : Content → Option TagText
  | scalar s => s.tag
  | sequence tag => tag
  | mapping tag => tag

/-- A node as it occurs in a document. -/
structure Item where
  content : Content
  /-- Where the node begins. -/
  pos : Position
  /-- Where the alias is by which it occurs. -/
  aliasPos : Option Position

/-- What begins with an event; none for an alias and for an end. -/
def Resolved.content? : Resolved → Option Content
  | .scalar s => some (.scalar s)
  | .sequenceStart tag => some (.sequence tag)
  | .mappingStart tag => some (.mapping tag)
  | .alias _ | .sequenceEnd | .mappingEnd => none

namespace Stream

/-- The node that some events begin with. -/
def item? (s : Stream) (events : Events) : Option Item := do
  let first ← events.head?
  match first.event with
  | .alias slot =>
    let node ← (s.atSlot slot).head?
    return ⟨← node.event.content?, node.pos, some first.pos⟩
  | event => return ⟨← event.content?, first.pos, none⟩

end Stream

namespace Events

/-- The events after the ends of the given number of open collections. -/
def skipOpen? : Nat → Events → Option Events
  | 0, rest => some rest
  | _ + 1, [] => none
  | depth + 1, ⟨event, _⟩ :: rest =>
    match event with
    | .sequenceStart _ | .mappingStart _ => skipOpen? (depth + 2) rest
    | .sequenceEnd | .mappingEnd => skipOpen? depth rest
    | .alias _ | .scalar _ => skipOpen? (depth + 1) rest

/-- The events after the node that some events begin with; none if they run out before its end. -/
def skipNode? : Events → Option Events
  | [] => none
  | ⟨event, _⟩ :: rest =>
    match event with
    | .sequenceStart _ | .mappingStart _ => skipOpen? 1 rest
    | _ => some rest

end Events

end TreePanel.Yaml
