import TreePanel.Yaml.Event

/-!
# Streams of YAML

A stream has to hold one document, or none. Reading it gives the events of the document, with every
alias resolved to the node that it names.

The nodes with anchors are kept in slots. A new anchor takes the slot whose number is the number of
names known before it, and a slot holds the last node put into it.
-/

namespace TreePanel.Yaml

/-- What happens in a document, with aliases resolved. -/
inductive Resolved where
  /-- The node in the slot once more. -/
  | alias (slot : Nat)
  | scalar (scalar : Scalar)
  | sequenceStart (tag : Option TagText)
  | sequenceEnd
  | mappingStart (tag : Option TagText)
  | mappingEnd
deriving DecidableEq

/-- A resolved event and where it happens. -/
structure Resolved.At where
  event : Resolved
  pos : Position

/-- The rest of a document from some event on. -/
abbrev Events := List Resolved.At

/-- A stream that was read. -/
structure Stream where
  events : Events
  /-- For a slot, the number of events before its node. -/
  slots : List (Nat × Nat)

namespace Stream

/-- The events from the node in a slot on. -/
def atSlot (s : Stream) (slot : Nat) : Events := s.events.drop ((s.slots.lookup slot).getD 0)

/-! ## Aliases -/

/-- What is known of anchors: the slot of each name, and the node of each slot, the last first. -/
structure Anchors where
  names : List (String × Nat)
  slots : List (Nat × Nat)

namespace Anchors

/-- Give a name to the node that begins after `index` events. -/
def define (a : Anchors) (index : Nat) : Option String → Anchors
  | none => a
  | some name =>
    let slot := a.names.length
    ⟨(name, slot) :: a.names.filter fun known => known.1 != name, (slot, index) :: a.slots⟩

end Anchors

/-- Resolve the aliases of events, of which `index` were resolved before; none if an alias names
nothing. Every name goes by the last node that it was given to before. -/
def resolve? (a : Anchors) (index : Nat) : List Event.At → Option (Events × Anchors)
  | [] => some ([], a)
  | ⟨event, pos⟩ :: rest => do
    let (resolved, a) ← (match event with
      | .alias name => (a.names.lookup name).map fun slot => (Resolved.alias slot, a)
      | .scalar anchor scalar => some (.scalar scalar, a.define index anchor)
      | .sequenceStart properties =>
        some (.sequenceStart properties.tag, a.define index properties.anchor)
      | .sequenceEnd => some (.sequenceEnd, a)
      | .mappingStart properties =>
        some (.mappingStart properties.tag, a.define index properties.anchor)
      | .mappingEnd => some (.mappingEnd, a))
    let (events, a) ← resolve? a (index + 1) rest
    return (⟨resolved, pos⟩ :: events, a)

/-! ## Documents -/

/-- What directives say. -/
structure Directives where
  versioned : Bool
  handles : Event.Handles

/-- Read the directives before a document. Only versions 1.1 and 1.2 are known, and nothing may be
said twice. -/
def directives? (d : Directives) : List Token → Option (Directives × List Token)
  | ⟨.version major minor, _, _⟩ :: rest =>
    if d.versioned || major ≠ 1 || (minor ≠ 1 && minor ≠ 2) then none
    else directives? { d with versioned := true } rest
  | ⟨.handle handle meaning, _, _⟩ :: rest =>
    if d.handles.any fun known => known.1 == handle then none
    else directives? { d with handles := d.handles ++ [(handle, meaning)] } rest
  | rest => some (d, rest)

/-- Whether a token cannot belong to the document before it. -/
def endsDocument (t : Token) : Bool :=
  match t.kind with
  | .version _ _ | .handle _ _ | .documentStart | .documentEnd | .streamEnd => true
  | _ => false

/-- The events of the first document, and the tokens after it. -/
def firstDocument? (tokens : List Token) : Option (List Event.At × List Token) :=
  match tokens with
  | [] => none
  | ⟨kind, _, _⟩ :: _ =>
    match kind with
    | .streamEnd => some ([], tokens)
    | .version _ _ | .handle _ _ | .documentStart =>
      match directives? ⟨false, []⟩ tokens with
      | some (d, ⟨.documentStart, _, _⟩ :: next :: rest) =>
        if endsDocument next then
          some ([⟨.scalar none ⟨none, .plain, []⟩, next.start⟩], next :: rest)
        else Event.root? (d.handles ++ Event.standardHandles) (next :: rest)
      | _ => none
    | _ => Event.root? Event.standardHandles tokens

/-- Whether nothing but ends of documents comes before the end of the stream. -/
def isOver (tokens : List Token) : Bool :=
  match tokens.dropWhile fun t => t.kind == .documentEnd with
  | ⟨.streamEnd, _, _⟩ :: _ => true
  | _ => false

/-- Read a text, if it is well formed and holds no second document. -/
def ofText? (text : List Char) : Option Stream := do
  let (events, rest) ← firstDocument? (← tokens? text)
  let (events, anchors) ← resolve? ⟨[], []⟩ 0 events
  if isOver rest then return ⟨events, anchors.slots⟩ else none

end Stream

end TreePanel.Yaml
