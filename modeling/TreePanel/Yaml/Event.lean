import TreePanel.Yaml.Scan

/-!
# Events of YAML

The tokens of a document are read as events: a scalar, an alias, or the beginning or the end of a
collection, each at a position. What has to come next is kept as a stack of goals. A goal takes
tokens off the front, gives at most one event, and puts the goals that follow on the stack. Between
two collections' ends every step but a few takes a token, so a multiple of the number of tokens
bounds the number of steps.
-/

namespace TreePanel.Yaml

/-- What may stand before a node. -/
structure Properties where
  anchor : Option String
  tag : Option TagText
deriving DecidableEq

/-- A scalar node. -/
structure Scalar where
  tag : Option TagText
  style : ScalarStyle
  text : List Char
deriving DecidableEq

/-- What happens in a document. -/
inductive Event where
  | alias (name : String)
  | scalar (anchor : Option String) (scalar : Scalar)
  | sequenceStart (properties : Properties)
  | sequenceEnd
  | mappingStart (properties : Properties)
  | mappingEnd
deriving DecidableEq

/-- An event and where it happens. -/
structure Event.At where
  event : Event
  pos : Position

namespace Event

/-- What has to come next. -/
inductive Goal where
  /-- A node; a block collection only if allowed, and dashes without an indentation of their own
  only if allowed. -/
  | node (block dashes : Bool)
  /-- An entry of a block sequence, or its end. -/
  | blockEntry
  /-- An entry of a sequence without an indentation of its own. -/
  | dashEntry
  /-- A key of a block mapping, or its end. -/
  | blockKey
  | blockValue
  /-- An entry between square brackets, or their end. The first one comes without a comma. -/
  | flowEntry (isFirst : Bool)
  /-- The key of a mapping of one pair between square brackets. -/
  | pairKey
  | pairValue
  | pairEnd
  /-- A key between braces, or their end. -/
  | flowKey (isFirst : Bool)
  | flowValue
  /-- A key between braces was no pair. -/
  | noValue

/-- What a step makes of a goal. -/
structure Step where
  events : List Event.At
  goals : List Goal
  rest : List Token

/-- The meanings of tag handles, those of directives before those that always hold. -/
abbrev Handles := List (String × TagText)

/-- The meanings that hold without a directive. -/
def standardHandles : Handles :=
  [("!", .ofString "!"), ("!!", .ofString "tag:yaml.org,2002:")]

/-- The name of a tag; none if its handle means nothing. -/
def tagName? (handles : Handles) (handle : String) (rest : TagText) : Option TagText :=
  if handle.isEmpty then some rest else (handles.lookup handle).map (· ++ rest)

/-- An event that ends the work on a node or a collection. -/
def one (event : Event) (pos : Position) (goals : List Goal) (rest : List Token) : Step :=
  ⟨[⟨event, pos⟩], goals, rest⟩

/-- A node that is not written. -/
def missing (pos : Position) (goals : List Goal) (rest : List Token) : Step :=
  one (.scalar none ⟨none, .plain, []⟩) pos goals rest

/-- The properties before a node, where they begin, and what follows them: an anchor and a tag in
any order, either or both missing. -/
def properties? (handles : Handles) (tokens : List Token) :
    Option (Properties × Option Position × List Token) :=
  match tokens with
  | ⟨.anchor name, pos, _⟩ :: ⟨.tag handle suffix, _, _⟩ :: rest => do
    return (⟨some name, some (← tagName? handles handle suffix)⟩, some pos, rest)
  | ⟨.tag handle suffix, pos, _⟩ :: ⟨.anchor name, _, _⟩ :: rest => do
    return (⟨some name, some (← tagName? handles handle suffix)⟩, some pos, rest)
  | ⟨.anchor name, pos, _⟩ :: rest => some (⟨some name, none⟩, some pos, rest)
  | ⟨.tag handle suffix, pos, _⟩ :: rest => do
    return (⟨none, some (← tagName? handles handle suffix)⟩, some pos, rest)
  | rest => some (⟨none, none⟩, none, rest)

/-- A node. Properties alone are a node that is not written. -/
def node? (handles : Handles) (block dashes : Bool) (tokens : List Token) : Option Step := do
  match tokens with
  | ⟨.alias name, pos, _⟩ :: rest => return one (.alias name) pos [] rest
  | tokens =>
    let (properties, begun, tokens) ← properties? handles tokens
    match tokens with
    | [] => none
    | ⟨kind, pos, stop⟩ :: rest =>
      let pos := begun.getD pos
      match kind, block, dashes with
      | .entry, _, true =>
        return one (.sequenceStart properties) pos [.dashEntry] (⟨kind, pos, stop⟩ :: rest)
      | .scalar style text, _, _ =>
        return one (.scalar properties.anchor ⟨properties.tag, style, text⟩) pos [] rest
      | .flowSequenceStart, _, _ =>
        return one (.sequenceStart properties) pos [.flowEntry true] rest
      | .flowMappingStart, _, _ =>
        return one (.mappingStart properties) pos [.flowKey true] rest
      | .blockSequenceStart, true, _ =>
        return one (.sequenceStart properties) pos [.blockEntry] rest
      | .blockMappingStart, true, _ =>
        return one (.mappingStart properties) pos [.blockKey] rest
      | _, _, _ =>
        match begun with
        | none => none
        | some begun =>
          return one (.scalar properties.anchor ⟨properties.tag, .plain, []⟩) begun [] tokens

/-- One step: what the first goal makes of the tokens; none at a fault, or if they run out. -/
def step? (handles : Handles) (goal : Goal) (tokens : List Token) : Option Step :=
  match goal, tokens with
  | _, [] => none
  | .node block dashes, tokens => node? handles block dashes tokens
  | .blockEntry, ⟨kind, pos, stop⟩ :: rest =>
    match kind, rest with
    | .entry, next :: _ =>
      match next.kind with
      | .entry | .blockEnd => some (missing stop [.blockEntry] rest)
      | _ => some ⟨[], [.node true false, .blockEntry], rest⟩
    | .blockEnd, _ => some (one .sequenceEnd pos [] rest)
    | _, _ => none
  | .dashEntry, ⟨kind, pos, stop⟩ :: rest =>
    match kind, rest with
    | .entry, next :: _ =>
      match next.kind with
      | .entry | .key | .value | .blockEnd => some (missing stop [.dashEntry] rest)
      | _ => some ⟨[], [.node true false, .dashEntry], rest⟩
    | .entry, [] => none
    | _, _ => some (one .sequenceEnd pos [] (⟨kind, pos, stop⟩ :: rest))
  | .blockKey, ⟨kind, pos, stop⟩ :: rest =>
    match kind, rest with
    | .key, next :: _ =>
      match next.kind with
      | .key | .value | .blockEnd => some (missing stop [.blockValue] rest)
      | _ => some ⟨[], [.node true true, .blockValue], rest⟩
    | .blockEnd, _ => some (one .mappingEnd pos [] rest)
    | _, _ => none
  | .blockValue, ⟨kind, pos, stop⟩ :: rest =>
    match kind, rest with
    | .value, next :: _ =>
      match next.kind with
      | .key | .value | .blockEnd => some (missing stop [.blockKey] rest)
      | _ => some ⟨[], [.node true true, .blockKey], rest⟩
    | .value, [] => none
    | _, _ => some (missing pos [.blockKey] (⟨kind, pos, stop⟩ :: rest))
  | .flowEntry isFirst, ⟨kind, pos, stop⟩ :: rest =>
    match kind, isFirst with
    | .flowSequenceEnd, _ => some (one .sequenceEnd pos [] rest)
    | .flowEntry, false =>
      match rest with
      | [] => none
      | ⟨.flowSequenceEnd, pos, _⟩ :: rest => some (one .sequenceEnd pos [] rest)
      | ⟨.key, pos, _⟩ :: rest =>
        some (one (.mappingStart ⟨none, none⟩) pos [.pairKey, .flowEntry false] rest)
      | rest => some ⟨[], [.node false false, .flowEntry false], rest⟩
    | _, false => none
    | .key, true =>
      some (one (.mappingStart ⟨none, none⟩) pos [.pairKey, .flowEntry false] rest)
    | _, true => some ⟨[], [.node false false, .flowEntry false], ⟨kind, pos, stop⟩ :: rest⟩
  | .pairKey, ⟨kind, pos, stop⟩ :: rest =>
    match kind with
    -- The token after a missing key is passed over.
    | .value | .flowEntry | .flowSequenceEnd => some (missing stop [.pairValue] rest)
    | _ => some ⟨[], [.node false false, .pairValue], ⟨kind, pos, stop⟩ :: rest⟩
  | .pairValue, ⟨kind, pos, stop⟩ :: rest =>
    match kind, rest with
    | .value, next :: _ =>
      match next.kind with
      | .flowEntry | .flowSequenceEnd => some (missing next.start [.pairEnd] rest)
      | _ => some ⟨[], [.node false false, .pairEnd], rest⟩
    | .value, [] => none
    | _, _ => some (missing pos [.pairEnd] (⟨kind, pos, stop⟩ :: rest))
  | .pairEnd, token :: rest => some (one .mappingEnd token.start [] (token :: rest))
  | .flowKey isFirst, ⟨kind, pos, stop⟩ :: rest =>
    match kind, isFirst with
    | .flowMappingEnd, _ => some (one .mappingEnd pos [] rest)
    | .flowEntry, false => keyAfterComma rest
    | _, false => none
    | _, true => keyAfterComma (⟨kind, pos, stop⟩ :: rest)
  | .flowValue, ⟨kind, pos, stop⟩ :: rest =>
    match kind, rest with
    | .value, next :: _ =>
      match next.kind with
      | .flowEntry | .flowMappingEnd => some (missing next.start [.flowKey false] rest)
      | _ => some ⟨[], [.node false false, .flowKey false], rest⟩
    | .value, [] => none
    | _, _ => some (missing pos [.flowKey false] (⟨kind, pos, stop⟩ :: rest))
  | .noValue, token :: rest => some (missing token.start [.flowKey false] (token :: rest))
where
  /-- A key between braces where one may begin, or the end after a comma. -/
  keyAfterComma : List Token → Option Step
    | [] => none
    | ⟨.flowMappingEnd, pos, _⟩ :: rest => some (one .mappingEnd pos [] rest)
    | ⟨.key, _, _⟩ :: rest =>
      match rest with
      | [] => none
      | next :: _ =>
        match next.kind with
        | .value | .flowEntry | .flowMappingEnd => some (missing next.start [.flowValue] rest)
        | _ => some ⟨[], [.node false false, .flowValue], rest⟩
    | rest => some ⟨[], [.node false false, .noValue], rest⟩

/-- Reach the goals. Gives the events, and the tokens after them. -/
def reach? (handles : Handles) : Nat → List Goal → List Token → Option (List Event.At × List Token)
  | _, [], tokens => some ([], tokens)
  | 0, _ :: _, _ => none
  | steps + 1, goal :: goals, tokens => do
    let step ← step? handles goal tokens
    let (events, rest) ← reach? handles steps (step.goals ++ goals) step.rest
    return (step.events ++ events, rest)

/-- The events of the node at the root of a document, and the tokens after it. -/
def root? (handles : Handles) (tokens : List Token) : Option (List Event.At × List Token) :=
  reach? handles (8 * (tokens.length + 1)) [.node true false] tokens

end Event

end TreePanel.Yaml
