import Provenance.Markup.Mapping
import Provenance.Record.Codec

/-! # Markup as JSON

The written form of fragments, origins and snapshots, and the decoders that read it back.
Nothing is checked or put in lower case when a fragment is read.
-/

namespace Provenance.Markup

open Json (Decoder Tree)
open Json.Decode

/-- The action as its name. -/
def Action.toJson (action : Action) : Json := .str action.name

/-- Reads an action. -/
def Action.decode : Decoder Action := choice Action.ofName

/-- The origin as an object. -/
def Origin.toJson (origin : Origin) : Json :=
  .obj ([("action", origin.action.toJson)]
    ++ Json.field? "tracking" (origin.tracking.map RecordId.toJson)
    ++ [("serialized_start", .nat origin.start.toNat),
      ("serialized_len", .nat origin.length.toNat),
      ("extra_chars_added", .int origin.extra.toInt)]
    ++ Json.field? "offset_at_char_index"
      (origin.offsets.map fun offsets => .arr (offsets.map fun offset => .int offset.toInt))
    ++ [("value", .str origin.value)]
    ++ Json.field? "capture" (origin.capture.map .str))

/-- Reads an origin. -/
def Origin.decode : Decoder Origin := fun tree => do
  match ← slots ["action", "tracking", "serialized_start", "serialized_len", "extra_chars_added",
      "offset_at_char_index", "value", "capture"] tree with
  | [action, tracking, start, length, extra, offsets, value, capture] => do
    let action ← required Action.decode action
    let tracking ← optional RecordId.decode tracking
    let start ← required word start
    let length ← withDefault 0 word length
    let extra ← withDefault 0 signed extra
    let offsets ← optional (list signed) offsets
    let value ← required string value
    let capture ← optional string capture
    pure { action, tracking, start, length, extra, offsets, value, capture }
  | _ => none

/-- The target as an object with one member. -/
def Target.toJson : Target → Json
  | .node id => .obj [("node", .nat id)]
  | .attribute id name => .obj [("attribute", .obj [("node", .nat id), ("name", .str name)])]

/-- Reads a target. -/
def Target.decode : Decoder Target := fun tree => do
  match ← alternative tree with
  | ("node", some body) => (nat body).map Target.node
  | ("attribute", some body) => do
    match ← slots ["node", "name"] body with
    | [id, name] => do
      let id ← required nat id
      let name ← required string name
      pure (.attribute id name)
    | _ => none
  | _ => none

/-- The mapped origin as an object. -/
def MappedOrigin.toJson (mapped : MappedOrigin) : Json :=
  .obj [("target", mapped.target.toJson), ("origin", mapped.origin.toJson)]

/-- Reads a mapped origin. -/
def MappedOrigin.decode : Decoder MappedOrigin := fun tree => do
  match ← slots ["target", "origin"] tree with
  | [target, origin] => do
    let target ← required Target.decode target
    let origin ← required Origin.decode origin
    pure { target, origin }
  | _ => none

/-- The resolved origin as an object. -/
def ResolvedOrigin.toJson (resolved : ResolvedOrigin) : Json :=
  .obj [("origin", resolved.origin.toJson), ("char_index", .nat resolved.charIndex)]

/-- Reads a resolved origin. -/
def ResolvedOrigin.decode : Decoder ResolvedOrigin := fun tree => do
  match ← slots ["origin", "char_index"] tree with
  | [origin, charIndex] => do
    let origin ← required Origin.decode origin
    let charIndex ← required nat charIndex
    pure { origin, charIndex }
  | _ => none

/-- The snapshot as an object. -/
def Snapshot.toJson (snapshot : Snapshot) : Json :=
  .obj [("html", .str snapshot.html), ("origins", .arr (snapshot.origins.map Origin.toJson))]

/-- Reads a snapshot. -/
def Snapshot.decode : Decoder Snapshot := fun tree => do
  match ← slots ["html", "origins"] tree with
  | [html, origins] => do
    let html ← required string html
    let origins ← required (list Origin.decode) origins
    pure { html, origins }
  | _ => none

/-- The attribute as an object. -/
def Attribute.toJson (attr : Attribute) : Json :=
  .obj [("name", .str attr.name), ("value", .str attr.value)]

/-- Reads an attribute. -/
def Attribute.decode : Decoder Attribute := fun tree => do
  match ← slots ["name", "value"] tree with
  | [name, value] => do
    let name ← required string name
    let value ← required string value
    pure { name, value }
  | _ => none

/-- The kind of node as an object with one member. -/
def NodeKind.toJson : NodeKind → Json
  | element tag attributes =>
    .obj [("element", .obj [("tag", .str tag), ("attrs", .arr (attributes.map Attribute.toJson))])]
  | text content => .obj [("text", .str content)]
  | comment content => .obj [("comment", .str content)]

/-- Reads a kind of node. -/
def NodeKind.decode : Decoder NodeKind := fun tree => do
  match ← alternative tree with
  | ("element", some body) => do
    match ← slots ["tag", "attrs"] body with
    | [tag, attributes] => do
      let tag ← required string tag
      let attributes ← required (list Attribute.decode) attributes
      pure (element tag attributes)
    | _ => none
  | ("text", some body) => (string body).map text
  | ("comment", some body) => (string body).map comment
  | _ => none

/-- The node as an object. -/
def Node.toJson (node : Node) : Json :=
  .obj [("kind", node.kind.toJson),
    ("parent", match node.parent with
      | some parent => .nat parent
      | none => .null),
    ("children", .arr (node.children.map .nat))]

/-- Reads a node. -/
def Node.decode : Decoder Node := fun tree => do
  match ← slots ["kind", "parent", "children"] tree with
  | [kind, parent, children] => do
    let kind ← required NodeKind.decode kind
    let parent ← maybeNull nat parent
    let children ← required (list nat) children
    pure { kind, parent, children }
  | _ => none

/-- The fragment as an object. -/
def Fragment.toJson (fragment : Fragment) : Json :=
  .obj [("nodes", .arr (fragment.nodes.map Node.toJson))]

/-- Reads a fragment. -/
def Fragment.decode : Decoder Fragment := fun tree => do
  match ← slots ["nodes"] tree with
  | [nodes] => (required (list Node.decode) nodes).map .mk
  | _ => none

end Provenance.Markup
