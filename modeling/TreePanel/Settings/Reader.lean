import TreePanel.Settings.Misfit

/-!
# Settings from text

Settings are read from a mapping in YAML. Every field may be missing, and then has its default;
fields of other names are passed over, but none of the known ones may occur twice. A document
without content is a mapping without fields.

A text that is not well formed says nothing at all. The document of one that is gets read in order,
and the first thing that does not fit is told.
-/

namespace TreePanel.Settings

open Yaml

/-- Why settings could not be read. -/
inductive ReadError where
  /-- The text is not YAML, or more than one document. -/
  | malformed
  | misfit (misfit : Misfit)

/-! ## Values -/

/-- What is wrong with a node where something else was due. -/
def mismatch (expected : Expected) : Content → Cause
  | .scalar s =>
    match Value.ofScalar s with
    | .ok value => .invalidType (.value value) expected
    | .error kind => .invalidValue s.text (.kind kind)
  | .sequence _ => .invalidType .sequence expected
  | .mapping _ => .invalidType .mapping expected

/-- Read a scalar as a value of a kind. -/
def readScalar {α : Type} (kind : Value.Kind) (expected : Expected) (read : List Char → Option α)
    (content : Content) : Except Cause α :=
  match content with
  | .scalar s =>
    match (if Value.readsAs kind s then read s.text else none) with
    | some value => .ok value
    | none => .error (mismatch expected content)
  | _ => .error (mismatch expected content)

/-- A size: any numeral, rounded to 64 bits and then to 32. -/
def readSize : Content → Except Cause Float32 :=
  readScalar .float .size fun text =>
    (Value.float? text).map fun (negative, magnitude) => Decimal.toFloat negative magnitude

/-- A count that 64 bits hold. -/
def readCount : Content → Except Cause Nat :=
  readScalar .integer .count fun text => (Value.unsigned? text).filter (· < Count.bound)

/-- A Boolean. -/
def readBool : Content → Except Cause Bool :=
  readScalar .boolean (.kind .boolean) Value.boolean?

/-- The side of the dock. It is the text of a scalar, or else a tag of one's own, and then nothing
may follow. A tag that is no side is told of the settings as a whole, at `root`, unless an alias
stands between. -/
def readSide (root : Position) (place : Place) (item : Item) : Except Misfit DockSide :=
  match Value.ownTag? item.content.tag with
  | some name =>
    match DockSide.ofName? name, item.content with
    | none, _ =>
      let cause := Cause.unknownSide name.toList
      .error (match item.aliasPos with
        | some pos => ⟨place, pos, cause⟩
        | none => ⟨.whole, root, cause⟩)
    | some side, .scalar s =>
      if s.style == .plain && (s.text.isEmpty || Value.isNull s.text) then .ok side
      else .error ⟨place, item.pos, .invalidValue s.text (.kind .null)⟩
    | some _, content => .error ⟨place, item.pos, mismatch .unit content⟩
  | none =>
    match item.content with
    | .scalar s =>
      match DockSide.ofName? (String.ofList s.text) with
      | some side => .ok side
      | none => .error ⟨place, item.pos, .unknownSide s.text⟩
    | content => .error ⟨place, item.pos, mismatch .tag content⟩

/-- The settings with the value of a field read from a node. -/
def readField (s : Settings) (root : Position) (place : Place) (item : Item) (field : Field) :
    Except Misfit Settings :=
  let here {α : Type} (value : Except Cause α) : Except Misfit α :=
    value.mapError fun cause => ⟨place, item.pos, cause⟩
  match field with
  | .dock => do return { s with dock := ← readSide root place item }
  | .panelSize => do return { s with panelSize := ← here (readSize item.content) }
  | .indentWidth => do return { s with indentWidth := ← here (readCount item.content) }
  | .rowHeight => do return { s with rowHeight := ← here (readSize item.content) }
  | .showAnonymous => do return { s with showAnonymous := ← here (readBool item.content) }
  | .footer => do return { s with footer := ← here (readBool item.content) }

/-! ## The mapping -/

/-- Settings while they are read. -/
structure Draft where
  settings : Settings
  /-- The fields met so far. -/
  given : List Field

/-- The field that a key names, if it is known, and how misfits of its value are placed. -/
def readKey (item : Item) : Except Misfit (Option (Field × Place)) :=
  match item.content with
  | .scalar s =>
    return (Field.ofName? (String.ofList s.text)).map fun field =>
      (field, if item.aliasPos.isSome then .unnamed else .field field)
  | content => .error ⟨.whole, item.pos, mismatch .fieldName content⟩

/-- Read a key and its value, and give the events after them. -/
def readEntry (stream : Stream) (root : Position) (draft : Draft) (events : Events) :
    Except ReadError (Draft × Events) := do
  let some key := stream.item? events | throw .malformed
  let named ← (readKey key).mapError .misfit
  let values := events.drop 1
  match named with
  | none =>
    let some rest := Events.skipNode? values | throw .malformed
    return (draft, rest)
  | some (field, place) =>
    if draft.given.contains field then throw (.misfit ⟨.whole, root, .duplicate field⟩)
    let some value := stream.item? values | throw .malformed
    let settings ← (readField draft.settings root place value field).mapError .misfit
    return (⟨settings, field :: draft.given⟩, values.drop 1)

/-- Read keys and values to the end of the mapping. Each round takes two events at least, so the
number of events bounds the rounds. -/
def readEntries (stream : Stream) (root : Position) :
    Nat → Draft → Events → Except ReadError Settings
  | 0, _, _ => throw .malformed
  | _ + 1, _, [] => throw .malformed
  | rounds + 1, draft, ⟨event, pos⟩ :: rest =>
    match event with
    | .mappingEnd => return draft.settings
    | _ => do
      let (draft, rest) ← readEntry stream root draft (⟨event, pos⟩ :: rest)
      readEntries stream root rounds draft rest

/-- Read a stream that has to hold one document of settings. -/
def ofStream (stream : Stream) : Except ReadError Settings :=
  match stream.item? stream.events with
  | none => return {}
  | some item =>
    match item.content with
    | .mapping _ => readEntries stream item.pos stream.events.length ⟨{}, []⟩ (stream.events.drop 1)
    | .scalar s =>
      if s.style == .plain && s.text.isEmpty then return {}
      else throw (.misfit ⟨.whole, item.pos, mismatch .settings item.content⟩)
    | .sequence _ => throw (.misfit ⟨.whole, item.pos, mismatch .settings item.content⟩)

/-- Read settings from text. -/
def ofText (text : List Char) : Except ReadError Settings := do
  let some stream := Stream.ofText? text | throw .malformed
  ofStream stream

end TreePanel.Settings
