import Provenance.Record.Id

/-! # Origins of markup

An origin ties one span of serialized markup to the assigned string it came from. Three
numbers lead back from a serialized index to an assigned index: the index itself, the
characters that the serialization had added before the span, and the correction for the
index inside the span. Starts and lengths are unsigned words, corrections signed words,
and sums wrap around; whether one does is a question of its own.
-/

namespace Provenance.Markup

/-- What part of the markup an origin stands for. -/
inductive Action where
  | replaceContents
  | textValue
  | openingTagStart
  | openingTagEnd
  | closingTag
  | commentStart
  | commentEnd
  | attributeName
  | attributeValue
  | styleAssignment
  deriving DecidableEq, Repr, Inhabited

namespace Action

/-- The name of an action. -/
def name : Action → String
  | replaceContents => "replace-contents"
  | textValue => "text-value"
  | openingTagStart => "opening-tag-start"
  | openingTagEnd => "opening-tag-end"
  | closingTag => "closing-tag"
  | commentStart => "comment-start"
  | commentEnd => "comment-end"
  | attributeName => "attribute-name"
  | attributeValue => "attribute-value"
  | styleAssignment => "style-assignment"

/-- Every action. -/
def all : List Action :=
  [replaceContents, textValue, openingTagStart, openingTagEnd, closingTag, commentStart,
    commentEnd, attributeName, attributeValue, styleAssignment]

/-- The action of a name. -/
def ofName (text : String) : Option Action := all.find? (·.name == text)

end Action

/-- A span of serialized markup and where it came from. -/
structure Origin where
  action : Action
  /-- The record that produced the assigned string. -/
  tracking : Option RecordId := none
  /-- The index of the first character of the span. -/
  start : UInt64
  /-- The number of characters of the span. -/
  length : UInt64 := 0
  /-- How many characters the serialization had added before the span. -/
  extra : Int64 := 0
  /-- The corrections for the characters of the span. -/
  offsets : Option (List Int64) := none
  /-- The assigned string. -/
  value : String
  /-- The text of the span. -/
  capture : Option String := none
  deriving DecidableEq, Repr, Inhabited

namespace Origin

/-- The index after the last character of the span. -/
def stop (origin : Origin) : UInt64 := origin.start + origin.length

/-- Whether the span covers an index. -/
def covers (origin : Origin) (index : Nat) : Bool :=
  origin.start.toNat ≤ index && index < origin.stop.toNat

/-- The correction for an index counted from the start of the span; zero where the table
    has none. -/
def offsetAt (origin : Origin) (relative : Nat) : Int64 :=
  (origin.offsets.bind (·[relative]?)).getD 0

/-- The assigned index that a serialized index comes from. -/
def assignedIndex (origin : Origin) (index : Nat) : Option Nat :=
  if index < origin.start.toNat then none
  else
    let assigned := Int64.ofNat index - origin.extra
      + origin.offsetAt (index - origin.start.toNat)
    if assigned < 0 then none else some assigned.toNatClampNeg

/-- Whether the index after the last character of the span is a word. -/
def stopFits (origin : Origin) : Bool :=
  origin.start.toNat + origin.length.toNat < UInt64.size

/-- Whether a number is a signed word. -/
def isSigned (number : Int) : Bool :=
  Int64.minValue.toInt ≤ number && number ≤ Int64.maxValue.toInt

/-- Whether both sums that lead from a serialized index to an assigned index are signed words. -/
def indexFits (origin : Origin) (index : Nat) : Bool :=
  let place := (Int64.ofNat index).toInt - origin.extra.toInt
  isSigned place && isSigned (place + (origin.offsetAt (index - origin.start.toNat)).toInt)

end Origin

/-- What an origin is attached to. -/
inductive Target where
  | node (node : Nat)
  | attribute (node : Nat) (name : String)
  deriving DecidableEq, Repr, Inhabited

/-- An origin and what it is attached to. -/
structure MappedOrigin where
  target : Target
  origin : Origin
  deriving DecidableEq, Repr, Inhabited

end Provenance.Markup
