import Provenance.Markup.ClosingTags
import Provenance.Markup.Correction
import Provenance.Markup.Diagnostic
import Provenance.Markup.Html
import Provenance.Markup.Origin
import Provenance.Json.Printer
import Provenance.Record.Basic
import Provenance.Text.Blank
import Provenance.Text.Lowercase

/-! # Mapping assigned markup

The nodes that an assigned string produced are walked in document order, beside the
assigned string. A cursor keeps the serialized position and how many characters more than
assigned have been written so far; their difference is the position in the assigned
string. Every part of the serialized markup yields an origin. What the serialization
normalizes is accounted for: references, line ends, blanks inside tags, quotes and values
left out of attributes, and self-closing or needlessly closed tags.
-/

namespace Provenance.Markup

open Provenance.Text (leadingBlanks lowercase)

/-- What can be chosen for a mapping. -/
structure MapOptions where
  /-- The label of the assignment. -/
  action : String := "innerHTML"
  /-- How many serialized characters before the first node are not part of the assigned
      string. -/
  initialExtra : Int64 := 0
  /-- The assigned position from which on nothing is corrected; by default the end. -/
  contentEnd : Option UInt64 := none
  /-- Nodes that the assignment did not produce. -/
  ignored : List NodeId := []
  /-- Whether the text of each span is kept with it. -/
  capture : Bool := false

/-- Where the walk stands. Both counts are kept without bound; the sums that lead to them, and those
    that come from them, are part of the report of the walk. -/
structure Cursor where
  /-- The serialized position. -/
  written : Nat
  /-- How many characters more than assigned have been written. -/
  extra : Int
  deriving DecidableEq, Repr

/-- The position in the assigned string. -/
def Cursor.assigned (cursor : Cursor) : Int := cursor.written - cursor.extra

/-- What a stretch of the walk yields. -/
structure Report where
  origins : List MappedOrigin := []
  diagnostics : List Diagnostic := []
  /-- The sums that have to be signed words. Those of lengths alone are not among them: strings are
      not that long. -/
  sums : List Int := []

instance : Append Report :=
  ⟨fun a b => ⟨a.origins ++ b.origins, a.diagnostics ++ b.diagnostics, a.sums ++ b.sums⟩⟩

/-- Whether a sum leaves its word. -/
def Report.overflows (report : Report) : Bool := !report.sums.all Origin.isSigned

/-- A stretch of the walk: it moves the cursor and yields a report. -/
abbrev Walk := Cursor → Cursor × Report

namespace Walk

/-- The stretch that does nothing. -/
def stay : Walk := fun cursor => (cursor, {})

/-- One stretch after another. -/
def andThen (first second : Walk) : Walk := fun cursor =>
  let (cursor, before) := first cursor
  let (cursor, after) := second cursor
  (cursor, before ++ after)

/-- Several stretches, one after another. -/
def all : List Walk → Walk
  | [] => stay
  | walk :: rest => walk.andThen (all rest)

/-- Writes characters that have assigned characters of their own. -/
def advance (count : Nat) : Walk := fun cursor =>
  ({ cursor with written := cursor.written + count }, {})

/-- Passes over written characters that were not assigned. -/
def skip (count : Nat) : Walk := fun cursor =>
  (⟨cursor.written + count, cursor.extra + count⟩, { sums := [cursor.extra + count] })

/-- Counts characters as added by the serialization, or as dropped by it. Sums may have been made to
    find out how many. -/
def add (count : Int) (sums : List Int) : Walk := fun cursor =>
  ({ cursor with extra := cursor.extra + count }, { sums := sums ++ [cursor.extra + count] })

/-- Reports a mismatch. -/
def mismatch (build : Build) (cause : Mismatch) : Walk := fun cursor =>
  (cursor, {
    diagnostics := [⟨cursor.written, build.position cursor.assigned, cause⟩]
    sums := [cursor.assigned] })

end Walk

/-- A mapping in progress: what stays the same during the walk. -/
structure Mapper (build : Build) where
  fragment : Fragment
  closingTags : ClosingTags
  source : Source build
  /-- The assigned string. -/
  value : String
  /-- The record that produced the assigned string. -/
  tracking : Option RecordId
  ignored : List NodeId
  /-- The label of the assignment and the serialized markup, if spans keep their text. -/
  label : Option (String × List Char)

namespace Mapper

variable {build : Build}

/-- The origin of a span with the given start. -/
def origin (mapper : Mapper build) (target : Target) (action : Action) (start length : Nat)
    (extra : Int) (offsets : Option (List Int)) : MappedOrigin where
  target := target
  origin := {
    action
    tracking := mapper.tracking
    start := UInt64.ofNat start
    length := UInt64.ofNat length
    extra := Int64.ofInt extra
    offsets := offsets.map (·.map Int64.ofInt)
    value := mapper.value
    capture := mapper.label.map fun (label, html) =>
      String.ofList (label.toList ++ ' ' :: (html.drop start).take length) }

/-- Yields the origin of a span at the cursor. -/
def emit (mapper : Mapper build) (target : Target) (action : Action) (length : Nat) : Walk :=
  fun cursor =>
    (cursor, { origins := [mapper.origin target action cursor.written length cursor.extra none] })

/-- Yields the origin of a span and moves over it. -/
def span (mapper : Mapper build) (target : Target) (action : Action) (length : Nat) : Walk :=
  (mapper.emit target action length).andThen (.advance length)

/-- A text inside an element of the given tag. -/
def text (mapper : Mapper build) (id : NodeId) (parentTag content : String) : Walk := fun cursor =>
  let written := escapeText parentTag content.toList
  let (table, added) := mapper.source.table parentTag written cursor.assigned
  let offsets := if table.isEmpty then none else some table
  (⟨cursor.written + written.length, cursor.extra + added⟩,
    { origins := [mapper.origin (.node id) .textValue cursor.written written.length cursor.extra
        offsets]
      sums := mapper.source.tableSums parentTag written cursor.assigned ++ [cursor.extra + added] })

/-- A comment. -/
def comment (mapper : Mapper build) (id : NodeId) (content : String) : Walk :=
  .all [mapper.span (.node id) .commentStart 4, mapper.span (.node id) .textValue content.length,
    mapper.span (.node id) .commentEnd 3]

/-- How the assigned string spells an attribute. -/
structure Spelling where
  /-- The correction of the space and the name. -/
  nameOffset : Int
  /-- The corrections of the equals sign, the quotes and the value. -/
  valueOffsets : List Int
  /-- How many characters more than assigned are written for the attribute. -/
  added : Int
  mismatches : List Mismatch

/-- The corrections of `="value"` when the value begins at an assigned position, and the
    characters added in the end. The closing quote is corrected like what comes before it. -/
def valueOffsets (mapper : Mapper build) (tag : String) (escaped : List Char) (quoted : Bool)
    (beforeEquals beforeQuote : Int) (position : Int) : List Int × Int :=
  let opened := if quoted then beforeQuote else beforeQuote + 1
  let (table, added) := mapper.source.table tag escaped position
  let padded := table ++ List.replicate (escaped.length - table.length) (table.getLast?.getD 0)
  let offsets := -beforeEquals :: -opened :: padded.map (· - opened)
  (offsets ++ [offsets.getLast?.getD 0], if quoted then opened + added else opened + added + 1)

/-- Reads how the assigned string spells an attribute that begins at the given position: at
    least one blank, the name, and then nothing more or an equals sign and a value, which may
    be quoted. -/
def spelling (mapper : Mapper build) (tag : String) (attr : Attribute) (start : Int) : Spelling :=
  let blanks := leadingBlanks (mapper.source.slice start 100)
  let unspaced := if blanks = 0 then [Mismatch.noBlankBefore attr.name] else []
  let added : Int := if blanks = 0 then 0 else 1 - blanks
  let afterName : Int := start + blanks + attr.name.length
  let rest := mapper.source.slice afterName 50
  let blanksBefore := leadingBlanks rest
  if rest[blanksBefore]? = some '=' then
    let afterEquals := afterName + blanksBefore + 1
    let rest := mapper.source.slice afterEquals 50
    let blanksAfter := leadingBlanks rest
    let quote := rest[blanksAfter]?
    let quoted := quote = some '"' || quote = some '\''
    let position := afterEquals + blanksAfter + if quoted then 1 else 0
    let beforeEquals := added - blanksBefore
    let beforeQuote := beforeEquals - blanksAfter
    let escaped := escapeAttribute attr.value.toList
    let (valueOffsets, total) :=
      mapper.valueOffsets tag escaped quoted beforeEquals beforeQuote position
    { nameOffset := -added, valueOffsets, added := total,
      mismatches := unspaced ++ if quote.isNone then [.valuePastEnd attr.name] else [] }
  else
    { nameOffset := -added, valueOffsets := [-(added + 1), -(added + 2), -(added + 3)],
      added := added + 3,
      mismatches :=
        unspaced ++ if attr.value.isEmpty then [] else [.valueWithoutEquals attr.name] }

/-- The positions that are summed up to read that: where the attribute begins, and the ends of its
    blanks and of its name; if there is an equals sign, also the ends of what comes between the name
    and the value, the distance from the beginning to the value, and what the table of the value
    takes. -/
def spellingSums (mapper : Mapper build) (tag : String) (attr : Attribute) (start : Int) :
    List Int :=
  let blanks := leadingBlanks (mapper.source.slice start 100)
  let afterName : Int := start + blanks + attr.name.length
  let rest := mapper.source.slice afterName 50
  let blanksBefore := leadingBlanks rest
  let named := [start, start + blanks, afterName]
  if rest[blanksBefore]? = some '=' then
    let afterEquals := afterName + blanksBefore + 1
    let rest := mapper.source.slice afterEquals 50
    let blanksAfter := leadingBlanks rest
    let quote := rest[blanksAfter]?
    let quoted := quote = some '"' || quote = some '\''
    let position := afterEquals + blanksAfter + if quoted then 1 else 0
    named ++ [afterName + blanksBefore, afterEquals, afterEquals + blanksAfter, position - start]
      ++ mapper.source.tableSums tag (escapeAttribute attr.value.toList) position
  else named

/-- An attribute of an element. -/
def attributeSpans (mapper : Mapper build) (id : NodeId) (tag : String) (attr : Attribute) : Walk :=
  fun cursor =>
    let spelling := mapper.spelling tag attr cursor.assigned
    let target := Target.attribute id attr.name
    let nameLength := 1 + attr.name.length
    let valueLength := (escapeAttribute attr.value.toList).length + 3
    (⟨cursor.written + nameLength + valueLength, cursor.extra + spelling.added⟩,
      { origins := [
          mapper.origin target .attributeName cursor.written nameLength cursor.extra
            (some (List.replicate nameLength spelling.nameOffset)),
          mapper.origin target .attributeValue (cursor.written + nameLength) valueLength
            cursor.extra (some spelling.valueOffsets)],
        diagnostics := spelling.mismatches.map fun cause =>
          ⟨cursor.written, build.position cursor.assigned, cause⟩
        sums := mapper.spellingSums tag attr cursor.assigned ++ [cursor.extra + spelling.added] })

/-- Drops the blanks before the end of an opening tag. -/
def tagBlanks (mapper : Mapper build) : Walk := fun cursor =>
  let rest := mapper.source.slice cursor.assigned 200
  let blanks := leadingBlanks rest
  let ends := rest[blanks]? = some '>'
    || rest[blanks]? = some '/' && rest[blanks + 1]? = some '>'
  Walk.add (if ends then -(blanks : Int) else 0) [cursor.assigned] cursor

/-- Drops the slash or the closing tag that a tag without a closing tag was assigned with. -/
def needlessEnd (mapper : Mapper build) (tag : String) : Walk := fun cursor =>
  let explicit := '>' :: closingTag tag
  let dropped : Int :=
    if mapper.source.slice cursor.assigned 1 = ['/'] then 1
    else if lowercase (mapper.source.slice cursor.assigned explicit.length) = explicit then
      explicit.length - 1
    else 0
  Walk.add (-dropped) [cursor.assigned] cursor

/-- Counts a closing tag as added, if the element was assigned with a slash in its opening
    tag; the cursor stands behind the closing tag. -/
def selfClosed (mapper : Mapper build) (length : Nat) : Walk := fun cursor =>
  let selfClosed := mapper.source.slice (cursor.assigned - 1 - length) 2 = ['/', '>']
  Walk.add (if selfClosed then (length : Int) - 1 else 0)
    [cursor.assigned, cursor.assigned - 1, cursor.assigned - 1 - length] cursor

/-- An opening tag. -/
def opening (mapper : Mapper build) (id : NodeId) (tag : String) (attributes : List Attribute) :
    Walk :=
  .all [mapper.span (.node id) .openingTagStart (1 + tag.length),
    .all (attributes.map (mapper.attributeSpans id tag)),
    mapper.tagBlanks,
    if mapper.closingTags tag then .stay else mapper.needlessEnd tag,
    mapper.span (.node id) .openingTagEnd 1]

/-- A closing tag. -/
def closing (mapper : Mapper build) (id : NodeId) (tag : String) : Walk :=
  (mapper.span (.node id) .closingTag (3 + tag.length)).andThen
    (mapper.selfClosed (3 + tag.length))

/-- Yields the mark of an element whose content follows. -/
def mark (mapper : Mapper build) (id : NodeId) : Walk :=
  mapper.emit (.node id) .replaceContents 0

/-- A node inside an element of the given tag, down to `depth` levels. The content of an
    inline frame is passed over as if it had been assigned as it is written. -/
def node (mapper : Mapper build) : (depth : Nat) → (parentTag : String) → NodeId → Walk
  | 0, _, _ => .stay
  | depth + 1, parentTag, id =>
    if id ∈ mapper.ignored then .skip (mapper.fragment.outerHtml id).length
    else
      match mapper.fragment.get? id with
      | none => .stay
      | some node =>
        match node.kind with
        | .text content => mapper.text id parentTag content
        | .comment content => mapper.comment id content
        | .element tag attributes =>
          (mapper.opening id tag attributes).andThen <|
            if mapper.closingTags tag then
              .all [
                if tag = "iframe" then .advance (mapper.fragment.innerHtml id).length
                else (mapper.mark id).andThen (.all (node.children.map (mapper.node depth tag))),
                mapper.closing id tag]
            else if node.children.isEmpty then .stay
            else .mismatch build (.childrenOfUnclosed tag)

/-- The content of a container. -/
def content (mapper : Mapper build) (container : NodeId) : Walk :=
  (mapper.mark container).andThen <| .all <|
    (mapper.fragment.children container).map <|
      mapper.node (mapper.fragment.size + 1) (mapper.fragment.tag container)

/-- What is yielded when the walk is over: unless some nodes were not assigned, it has to end where
    the content does. -/
def ending (mapper : Mapper build) (contentEnd : UInt64) (cursor : Cursor) : Report where
  diagnostics :=
    let reached := build.position cursor.assigned
    if mapper.ignored.isEmpty && reached ≠ mapper.source.contentEnd then
      [⟨cursor.written, reached, .endsElsewhere reached contentEnd.toNat⟩]
    else []
  sums := [cursor.assigned]

end Mapper

/-- The assigned string: a text itself, or the JSON text of any other value. -/
def assignedText (assigned : Operand RecordId) : String :=
  match assigned.text? with
  | some text => text
  | none => assigned.value.render

/-- Where the content of an assigned string ends. -/
def MapOptions.stop (options : MapOptions) (value : String) : UInt64 :=
  options.contentEnd.getD (UInt64.ofNat value.length)

/-- The mapper of an assignment. -/
def Mapper.ofAssignment (build : Build) (closingTags : ClosingTags) (fragment : Fragment)
    (container : NodeId) (assigned : Operand RecordId) (options : MapOptions) : Mapper build where
  fragment := fragment
  closingTags := closingTags
  value := assignedText assigned
  source := ⟨(assignedText assigned).toList, (options.stop (assignedText assigned)).toInt64.toInt⟩
  tracking := assigned.tracking
  ignored := options.ignored
  label := if options.capture then some (options.action, fragment.innerHtml container) else none

/-- What the walk over the content of a container yields, which was produced by assigning a
    string. -/
def mapIn (build : Build) (closingTags : ClosingTags) (fragment : Fragment) (container : NodeId)
    (assigned : Operand RecordId) (options : MapOptions) : Report :=
  let mapper := Mapper.ofAssignment build closingTags fragment container assigned options
  let (cursor, report) := mapper.content container ⟨0, options.initialExtra.toInt⟩
  report ++ mapper.ending (options.stop (assignedText assigned)) cursor

/-- The report of a mapping in a build. There is none if the walk is broken off. -/
def map? (build : Build) (closingTags : ClosingTags) (fragment : Fragment) (container : NodeId)
    (assigned : Operand RecordId) (options : MapOptions) : Option Report :=
  let report := mapIn build closingTags fragment container assigned options
  build.result? report.sums report

/-- Maps the content of a container, as long as no sum leaves its word. -/
abbrev map (closingTags : ClosingTags) (fragment : Fragment) (container : NodeId)
    (assigned : Operand RecordId) (options : MapOptions) : Report :=
  mapIn .checked closingTags fragment container assigned options

end Provenance.Markup
