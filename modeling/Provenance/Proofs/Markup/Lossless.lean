import Provenance.Markup.Codec
import Provenance.Proofs.Record.Lossless

/-! # Written markup loses nothing

Origins, snapshots and fragments come back as they were. Lengths and corrections are words already;
the places of nodes and of characters have to be words of 64 bits.
-/

namespace Provenance.Markup

open Json (Decoder)
open Json.Decode

theorem Action.faithful (action : Action) : Faithful Action.decode action.toJson action where
  decoded := by cases action <;> rfl
  notNull := nofun
  plain := rfl

/-- A table of corrections that is empty is not taken for one that is not there. -/
theorem Origin.faithful (origin : Origin) : Faithful Origin.decode origin.toJson origin := by
  have haction := Action.faithful origin.action
  have hstart := faithful_word origin.start
  have hlength := faithful_word origin.length
  have hextra := faithful_signed origin.extra
  have hoffsets (offsets : List Int64) :
      Faithful (list signed) (.arr (offsets.map fun offset => .int offset.toInt)) offsets :=
    faithful_list fun offset _ => faithful_signed offset
  have hsame : origin.toJson = .obj (Json.given [("action", some origin.action.toJson),
      ("tracking", origin.tracking.map RecordId.toJson),
      ("serialized_start", some (.nat origin.start.toNat)),
      ("serialized_len", some (.nat origin.length.toNat)),
      ("extra_chars_added", some (.int origin.extra.toInt)),
      ("offset_at_char_index",
        origin.offsets.map fun offsets => .arr (offsets.map fun offset => .int offset.toInt)),
      ("value", some (.str origin.value)), ("capture", origin.capture.map .str)]) := by
    simp [toJson, Json.given, Json.field?]
  refine faithful_of_fields _ hsame (by simp) ?plain (fun _ => rfl) ?built
  case plain =>
    simp [haction.plain, hstart.plain, hlength.plain, hextra.plain, (hoffsets _).plain,
      (RecordId.faithful _).plain, (faithful_string _).plain]
  case built =>
    simp [haction.decoded, hstart.decoded, hlength.decoded, hextra.decoded,
      (faithful_string _).decoded, optional_of_returns fun id _ => RecordId.returns id,
      optional_of_returns fun table _ => (hoffsets table).toReturns,
      optional_of_returns fun text _ => returns_string text]

/-- Whether the node of a target is a word of 64 bits. -/
def Target.Writable : Target → Prop
  | .node id => id ≤ Number.greatest
  | .attribute id _ => id ≤ Number.greatest

theorem Target.faithful {target : Target} (hwritable : target.Writable) :
    Faithful Target.decode target.toJson target := by
  cases target with
  | node id => exact ((faithful_nat hwritable).map Target.node).alternative "node" fun _ => rfl
  | «attribute» id name =>
      have hnode := faithful_nat hwritable
      have htext := faithful_string name
      exact (faithful_of_fields [("node", some (.nat id)), ("name", some (.str name))]
        rfl (by simp) (by simp [hnode.plain, htext.plain]) (fun _ => rfl)
        (by simp [hnode.decoded, htext.decoded])).alternative "attribute" fun _ => rfl

theorem MappedOrigin.faithful {mapped : MappedOrigin} (hwritable : mapped.target.Writable) :
    Faithful MappedOrigin.decode mapped.toJson mapped := by
  have htarget := Target.faithful hwritable
  have horigin := Origin.faithful mapped.origin
  exact faithful_of_fields [("target", some mapped.target.toJson),
      ("origin", some mapped.origin.toJson)]
    rfl (by simp) (by simp [htarget.plain, horigin.plain]) (fun _ => rfl)
    (by simp [htarget.decoded, horigin.decoded])

theorem ResolvedOrigin.faithful {resolved : ResolvedOrigin}
    (hwritable : resolved.charIndex ≤ Number.greatest) :
    Faithful ResolvedOrigin.decode resolved.toJson resolved := by
  have horigin := Origin.faithful resolved.origin
  have hcharIndex := faithful_nat hwritable
  exact faithful_of_fields [("origin", some resolved.origin.toJson),
      ("char_index", some (.nat resolved.charIndex))]
    rfl (by simp) (by simp [horigin.plain, hcharIndex.plain]) (fun _ => rfl)
    (by simp [horigin.decoded, hcharIndex.decoded])

theorem Snapshot.faithful (snapshot : Snapshot) :
    Faithful Snapshot.decode snapshot.toJson snapshot := by
  have hhtml := faithful_string snapshot.html
  have horigins : Faithful (list Origin.decode) (.arr (snapshot.origins.map Origin.toJson))
      snapshot.origins := faithful_list fun origin _ => Origin.faithful origin
  exact faithful_of_fields [("html", some (.str snapshot.html)),
      ("origins", some (.arr (snapshot.origins.map Origin.toJson)))]
    rfl (by simp) (by simp [hhtml.plain, horigins.plain]) (fun _ => rfl)
    (by simp [hhtml.decoded, horigins.decoded])

/-! ## Fragments -/

theorem Attribute.faithful (attr : Attribute) : Faithful Attribute.decode attr.toJson attr :=
  faithful_of_fields [("name", some (.str attr.name)), ("value", some (.str attr.value))]
    rfl (by simp) (by simp [(faithful_string _).plain]) (fun _ => rfl)
    (by simp [(faithful_string _).decoded])

theorem NodeKind.faithful (kind : NodeKind) : Faithful NodeKind.decode kind.toJson kind := by
  cases kind with
  | element tag attributes =>
      have htags := faithful_string tag
      have hattrs : Faithful (list Attribute.decode) (.arr (attributes.map Attribute.toJson))
          attributes := faithful_list fun attr _ => Attribute.faithful attr
      exact (faithful_of_fields [("tag", some (.str tag)),
          ("attrs", some (.arr (attributes.map Attribute.toJson)))]
        rfl (by simp) (by simp [htags.plain, hattrs.plain]) (fun _ => rfl)
        (by simp [htags.decoded, hattrs.decoded])).alternative "element" fun _ => rfl
  | text content => exact ((faithful_string content).map text).alternative "text" fun _ => rfl
  | comment content =>
      exact ((faithful_string content).map comment).alternative "comment" fun _ => rfl

/-- Whether the links of a node are words of 64 bits. -/
structure Node.Writable (node : Node) : Prop where
  parent : ∀ parent ∈ node.parent, parent ≤ Number.greatest
  children : ∀ child ∈ node.children, child ≤ Number.greatest

instance (node : Node) : Decidable node.Writable :=
  decidable_of_iff ((∀ parent ∈ node.parent, parent ≤ Number.greatest) ∧
      ∀ child ∈ node.children, child ≤ Number.greatest)
    ⟨fun ⟨hparent, hchildren⟩ => ⟨hparent, hchildren⟩,
      fun hwritable => ⟨hwritable.parent, hwritable.children⟩⟩

theorem Node.faithful {node : Node} (hwritable : node.Writable) :
    Faithful Node.decode node.toJson node := by
  have hkind := NodeKind.faithful node.kind
  have hchildren : Faithful (list nat) (.arr (node.children.map .nat)) node.children :=
    faithful_list fun child hmem => faithful_nat (hwritable.children child hmem)
  obtain ⟨parent, hwritten, hplain, hread⟩ : ∃ parent : Json,
      node.toJson = .obj (Json.given [("kind", some node.kind.toJson), ("parent", some parent),
        ("children", some (.arr (node.children.map .nat)))]) ∧
      parent.isPlain ∧ maybeNull nat (Slot.ofField (some parent)) = some node.parent := by
    obtain ⟨kind, parent, children⟩ := node
    cases parent with
    | none => exact ⟨.null, rfl, rfl, rfl⟩
    | some parent =>
        have hnumber := faithful_nat (hwritable.parent parent rfl)
        exact ⟨.nat parent, rfl, hnumber.plain, nullable_of_returns hnumber.toReturns⟩
  exact faithful_of_fields _ hwritten (by simp) (by simp [hkind.plain, hplain, hchildren.plain])
    (fun _ => rfl) (by simp [hkind.decoded, hread, hchildren.decoded])

/-- Whether all links in a fragment are words of 64 bits. -/
def Fragment.Writable (fragment : Fragment) : Prop := ∀ node ∈ fragment.nodes, node.Writable

instance (fragment : Fragment) : Decidable fragment.Writable :=
  inferInstanceAs (Decidable (∀ node ∈ fragment.nodes, node.Writable))

theorem Fragment.faithful {fragment : Fragment} (hwritable : fragment.Writable) :
    Faithful Fragment.decode fragment.toJson fragment := by
  have hnodes :
      Faithful (list Node.decode) (.arr (fragment.nodes.map Node.toJson)) fragment.nodes :=
    faithful_list fun node hmem => Node.faithful (hwritable node hmem)
  exact faithful_of_fields [("nodes", some (.arr (fragment.nodes.map Node.toJson)))]
    rfl (by simp) (by simp [hnodes.plain]) (fun _ => rfl) (by simp [hnodes.decoded])

end Provenance.Markup
