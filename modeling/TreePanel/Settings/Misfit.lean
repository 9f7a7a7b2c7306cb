import TreePanel.Count
import TreePanel.Settings.Text
import TreePanel.Text.Quoted
import TreePanel.Yaml.Content
import TreePanel.Yaml.Value

/-!
# Misfits

A document of YAML may be well formed and yet not fit the settings. A misfit tells what is wrong
and where; its wording is `Misfit.message` alone.
-/

namespace TreePanel.Settings

open Yaml

/-- What was due. -/
inductive Expected where
  | settings
  | fieldName
  /-- A number of 32 bits. -/
  | size
  /-- A natural number of 64 bits. -/
  | count
  /-- A word with a tag of one's own before it. -/
  | tag
  /-- Nothing, after a tag that says it all. -/
  | unit
  /-- A value of the kind that the tag before it asks for. -/
  | kind (kind : Value.Kind)

/-- What was found where something else was due. -/
inductive Found where
  | value (value : Value)
  | sequence
  | mapping

/-- What is wrong. -/
inductive Cause where
  | invalidType (found : Found) (expected : Expected)
  /-- A text that a tag does not allow. -/
  | invalidValue (text : List Char) (expected : Expected)
  | unknownSide (name : List Char)
  | duplicate (field : Field)

/-- What a misfit is about. -/
inductive Place where
  /-- The settings as a whole. -/
  | whole
  | field (field : Field)
  /-- The value of a field that is named by an alias only. -/
  | unnamed

/-- What is wrong, and where. -/
structure Misfit where
  place : Place
  pos : Position
  cause : Cause

/-! ## Wording -/

/-- How a message calls what was due. -/
def Expected.text : Expected → String
  | settings => "struct InspectorConfig"
  | fieldName => "field identifier"
  | size => "f32"
  | count => "usize"
  | tag => "a YAML tag starting with '!'"
  | unit => "unit"
  | kind .null => "null"
  | kind .boolean => "a boolean"
  | kind .integer => "an integer"
  | kind .float => "a float"

/-- Numbers within messages are written out in full. -/
def messageStyle : Decimal.Style := ⟨.up, none, "inf".toList, "NaN".toList⟩

/-- A text within marks. -/
def marked (text : List Char) : String := "`" ++ String.ofList text ++ "`"

/-- How a message calls an integer; one beyond 64 bits is told by the width that it needs. -/
def integerText (i : Int) : String :=
  let width :=
    if i < 0 then (if Count.bound < 2 * i.natAbs then " as i128" else "")
    else if Count.bound ≤ i.natAbs then " as u128" else ""
  "integer " ++ marked (Decimal.intText i) ++ width

/-- How a message shows a text. -/
def stringText (text : List Char) : String := "string " ++ String.ofList (Text.quoted text)

/-- How a message calls what was found. -/
def Found.text : Found → String
  | value .unit => "unit value"
  | value (.boolean b) => "boolean " ++ marked (boolText b)
  | value (.integer i) => integerText i
  | value (.float negative magnitude) =>
    "floating point " ++ marked (messageStyle.text Decimal.double negative magnitude)
  | value (.text text) => stringText text
  | sequence => "sequence"
  | mapping => "map"

/-- The wording of a cause. -/
def Cause.text : Cause → String
  | invalidType found expected => "invalid type: " ++ found.text ++ ", expected " ++ expected.text
  | invalidValue text expected =>
    "invalid value: " ++ stringText text ++ ", expected " ++ expected.text
  | unknownSide name =>
    "unknown variant " ++ marked name ++ ", expected one of "
      ++ ", ".intercalate (DockSide.all.map fun side => marked side.name.toList)
  | duplicate field => "duplicate field " ++ marked field.name.toList

/-- How a message begins. -/
def Place.text : Place → String
  | whole => ""
  | field f => f.name ++ ": "
  | unnamed => "?: "

/-- How a message ends. The beginning of the document is not told. -/
def positionText (pos : Position) : String :=
  if pos.line = 0 ∧ pos.column = 0 then ""
  else " at line " ++ toString (pos.line + 1) ++ " column " ++ toString (pos.column + 1)

/-- The wording of a misfit. -/
def Misfit.message (m : Misfit) : String := m.place.text ++ m.cause.text ++ positionText m.pos

end TreePanel.Settings
