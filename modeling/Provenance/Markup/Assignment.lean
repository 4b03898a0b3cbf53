import Provenance.Markup.Mapper

/-! # Assignments that are not markup

Text content, a single attribute, or a single style property may be assigned without going
through markup. The string is only escaped then, so that the assigned index of every
serialized character can be listed.
-/

namespace Provenance.Markup

/-- For every character of the escaped text, the index of the character it was written for;
    the first one has the given index. -/
def escapedTargets (escape : Char → List Char) : (text : List Char) → (index : Nat) → List Nat
  | [], _ => []
  | c :: rest, index =>
    List.replicate (escape c).length index ++ escapedTargets escape rest (index + 1)

/-- The origin of a span with the given start whose characters come from the given assigned
    indices. -/
def Origin.ofTargets (action : Action) (tracking : Option RecordId) (start : UInt64)
    (targets : List Nat) (value : String) : Origin where
  action := action
  tracking := tracking
  start := start
  length := UInt64.ofNat targets.length
  extra := start.toInt64
  offsets := some (targets.zipIdx.map fun (target, relative) =>
    Int64.ofInt ((target : Int) - relative))
  value := value

/-- The origins of a text assigned as the content of an element whose markup begins at the
    given start. -/
def mapText (fragment : Fragment) (element : NodeId) (assigned : Operand RecordId)
    (start : UInt64) : List MappedOrigin :=
  let value := assignedText assigned
  let mark : Origin := {
    action := .replaceContents, tracking := assigned.tracking, start, extra := start.toInt64,
    value }
  match fragment.children element with
  | [] => [⟨.node element, mark⟩]
  | child :: _ =>
    let targets := escapedTargets (escapeText (fragment.tag element) [·]) value.toList 0
    [⟨.node element, mark⟩,
      ⟨.node child, .ofTargets .textValue assigned.tracking start targets value⟩]

/-- The assigned indices of a space and a name; the space goes with the name's first
    character. -/
def nameTargets (length : Nat) : List Nat := 0 :: List.range length

/-- The assigned indices of an equals sign and a value between quotes; the closing quote goes
    with the value's last character. -/
def valueTargets (value : List Char) : List Nat :=
  [0, 0] ++ escapedTargets escapeAttributeChar value 0 ++ [value.length - 1]

/-- The origins of an assigned attribute whose markup begins at the given start. -/
def mapAttribute (node : NodeId) (name value : Operand RecordId) (start : UInt64) :
    List MappedOrigin :=
  let nameText := lowerAscii (assignedText name)
  let valueText := assignedText value
  let target := Target.attribute node nameText
  let nameOrigin := Origin.ofTargets .attributeName name.tracking start
    (nameTargets nameText.length) nameText
  let valueOrigin := Origin.ofTargets .attributeValue value.tracking
    (start + 1 + UInt64.ofNat nameText.length) (valueTargets valueText.toList) valueText
  [⟨target, nameOrigin⟩, ⟨target, valueOrigin⟩]

/-- The origin of an assigned style declaration whose markup begins at the given start. One
    character after the declaration, its delimiter, belongs to it. -/
def mapStyle (node : NodeId) (declaration : Operand RecordId) (start : UInt64) : MappedOrigin :=
  let text := assignedText declaration
  let targets := escapedTargets escapeAttributeChar text.toList 0 ++ [text.length]
  ⟨.attribute node "style",
    .ofTargets .styleAssignment declaration.tracking start targets text⟩

end Provenance.Markup
