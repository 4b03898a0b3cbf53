import Provenance.Proofs.Markup.FixedPoint
import Provenance.Proofs.Trace.Backward
import Provenance.Proofs.Trace.Characters
import Provenance.Trace.Inspection

/-! # From markup to the characters it was built from

When canonical markup is the result of a record and its written form is mapped as assigned by
that record, the lookup hands the walk the very character that was asked for, and the walk
keeps it.
-/

namespace Provenance

open Markup (Fragment NodeId ClosingTags Snapshot ResolvedOrigin Piece)

theorem MemoryLog.Reached.lt_nextId {log : MemoryLog} (hreached : log.Reached)
    (hroom : log.records.length + 1 < UInt64.size) {id : RecordId} {record : Record}
    (hfound : log.find id = some record) : id < log.nextId := by
  obtain ⟨hmem, rfl⟩ := mem_of_find hfound
  have hlast := (hreached.numbered_and_next.1.toNat_of_mem (by omega) hmem).2
  rw [RecordId.toNat_lt_iff, hreached.toNat_nextId hroom]
  omega

/-- What is inspected at an origin that names a record is what a walk from there comes to. -/
theorem inspect_of_originAt [RecordLog σ] {options : WalkOptions} {snapshot : Snapshot}
    {index : Nat} {origin : ResolvedOrigin} {id : RecordId} {log : σ}
    (hresolved : snapshot.originAt index = some origin)
    (htracked : origin.origin.tracking = some id) : (inspect options snapshot index log).1 =
      (walk options ⟨id, origin.charIndex⟩ log).1.map fun trace => some ⟨origin, some trace⟩ := by
  unfold inspect
  rw [hresolved]
  simp only [htracked]
  split <;> rename_i hwalks <;> rw [hwalks] <;> rfl

namespace MemoryLog

variable {log : MemoryLog}

/-- A character of canonical markup outside of inline frames is traced from the record that the
    markup is the result of, and every step of the trace shows that character, unless the
    trace leads to the identifier zero. -/
theorem inspect_shows (hreached : log.Reached) (hroom : log.records.length + 1 < UInt64.size)
    (hconsistent : log.Consistent) {id : RecordId} {record : Record} {text : String}
    (hfetched : log.fetch id = .found record) (hresult : record.result = .str text)
    {fragment : Fragment} {container : NodeId} (hbuilt : fragment.Built)
    (hproper : fragment.Proper container) (hcanonical : fragment.Canonical container)
    (hhtml : fragment.innerHtml container = text.toList) (hsize : text.length < Markup.lengthLimit)
    {closingTags : ClosingTags} (hremembers : closingTags.Remembers .byVoidTags)
    {options : WalkOptions} (hstandard : options.rules = .standard)
    (hunlimited : options.limits.maxSteps = none) :
    let pieces := fragment.contentPieces [] container
    let report := Markup.map closingTags fragment container ⟨.str text, some id⟩ {}
    let snapshot := Snapshot.capture fragment container report.origins
    pieces.flatMap Piece.text = text.toList ∧
    (∀ content, .gap content ∈ pieces ↔ ∃ frame, fragment.Below container frame ∧
      fragment.tag? frame = some "iframe" ∧ content = fragment.innerHtml frame) ∧
    ∀ index < text.length, Piece.gapAt pieces index = false →
      let outcome := (inspect options snapshot index log).1
      let walked := (walk options ⟨id, index⟩ log).1
      (∃ steps, walked = .error (.notFound ⟨0⟩ steps) ∧ outcome = .error (.notFound ⟨0⟩ steps)) ∨
        ∃ origin trace, walked = .ok trace ∧ outcome = .ok (some ⟨origin, some trace⟩) ∧
          origin.charIndex = index ∧ trace.steps.head? = some ⟨id, index⟩ ∧
          ∀ step ∈ trace.steps, ∃ source value, log.fetch step.id = .found source ∧
            source.result = .str value ∧ step.charIndex < value.length ∧
              value.toList[step.charIndex]? = text.toList[index]? := by
  intro pieces report snapshot
  have hassigned : Markup.assignedText ⟨.str text, some id⟩ =
      String.ofList (fragment.innerHtml container) := by
    rw [hhtml, String.ofList_toList]
    rfl
  have hlength : (fragment.innerHtml container).length = text.length := by
    rw [hhtml, String.length_toList]
  refine ⟨hhtml ▸ Fragment.written_contentPieces [] hbuilt hproper,
    fun _ => Fragment.gap_mem_contentPieces_iff hbuilt hproper hcanonical, ?_⟩
  intro index hinside houtside outcome walked
  obtain ⟨origin, hresolved, hplace, htracked⟩ :=
    Markup.originAt_canonical hbuilt hproper hcanonical
    (hlength ▸ hsize) hremembers hassigned (hlength ▸ hinside) houtside
  have hfound := find_of_fetch hfetched
  have hinspects : outcome = walked.map fun trace => some ⟨origin, some trace⟩ := by
    have hinspects : outcome = _ := inspect_of_originAt hresolved htracked
    rwa [hplace] at hinspects
  have hhold : (Step.mk id index).id < log.nextId := hreached.lt_nextId hroom hfound
  obtain ⟨n, last, hhere, hcomes⟩ := hreached.walk_ends hroom
    (hstandard ▸ RuleTable.standard_provided) hunlimited hhold
  rw [hstandard] at hhere hcomes
  obtain ⟨-, hwalks⟩ | ⟨reason, hends, hwalks⟩ := hcomes
  · have hfails : walked = .error (.notFound ⟨0⟩ _) := congrArg Prod.fst hwalks
    rw [hinspects, hfails]
    exact .inl ⟨_, rfl, rfl⟩
  · have hsucceeds : walked = .ok ⟨_, reason⟩ := congrArg Prod.fst hwalks
    rw [hinspects, hsucceeds]
    refine .inr ⟨origin, _, rfl, rfl, hplace, Chain.head?_upTo_succ, fun step hmem => ?_⟩
    obtain ⟨c, hchar⟩ : ∃ c, text.toList[index]? = some c :=
      ⟨_, List.getElem?_eq_getElem (by rwa [String.length_toList])⟩
    have hfirst : log.Shows ⟨id, index⟩ c := ⟨record, text, hfound, hresult, hchar⟩
    obtain ⟨source, hthere, -⟩ := Chain.ending_eq_some hends
    rw [hchar]
    exact (hfirst.of_mem_upTo hconsistent hhere hthere hmem).exists_fetch

/-- The first part of a letter, which ends inside a character reference. -/
def upperPart : String := "<p title=\"a &amp; b\">x &l"

/-- The other part of the letter. -/
def lowerPart : String :=
  "t; &amp;lt;<br></p><iframe><b></iframe><noscript>off</noscript>"

/-- A log in which the letter is put together. -/
def letterLog : MemoryLog :=
  (MemoryLog.append [Draft.stringLiteral upperPart, Draft.stringLiteral lowerPart,
    Draft.concat ⟨.str upperPart, some (.inBatch 0)⟩ ⟨.str lowerPart, some (.inBatch 1)⟩] {}).2

theorem letterLog_consistent : letterLog.Consistent :=
  .of_texts (by decide +kernel) (by decide +kernel)

/-- The third character of the reference is the first one of the second part. -/
theorem inspect_shows_letter :
    let text := upperPart ++ lowerPart
    let report := Markup.map ClosingTags.byVoidTags.folded Markup.letter 0 ⟨.str text, some ⟨3⟩⟩ {}
    let snapshot := Snapshot.capture Markup.letter 0 report.origins
    Markup.letter.innerHtml 0 = text.toList ∧ text.toList[25]? = some 't' ∧ ∃ origin,
      (inspect {} snapshot 25 letterLog).1 =
        .ok (some ⟨origin, some ⟨[⟨⟨3⟩, 25⟩, ⟨⟨2⟩, 0⟩], .origin⟩⟩) ∧ origin.charIndex = 25 := by
  intro text report snapshot
  have hreached : letterLog.Reached := .append .empty _
  have hhtml : Markup.letter.innerHtml 0 = text.toList := by decide +kernel
  obtain ⟨record, hfetched, hresult⟩ : ∃ record, letterLog.fetch ⟨3⟩ = .found record ∧
      record.result = .str text := ⟨_, rfl, rfl⟩
  have hwalks : (walk {} ⟨⟨3⟩, 25⟩ letterLog).1 = .ok ⟨[⟨⟨3⟩, 25⟩, ⟨⟨2⟩, 0⟩], .origin⟩ := by
    decide +kernel
  have hproper : Markup.letter.Proper 0 := by decide
  have hstandard : ({} : WalkOptions).rules = .standard := rfl
  obtain ⟨-, -, hshows⟩ := inspect_shows hreached (by decide) letterLog_consistent hfetched hresult
    Markup.letter_built hproper Markup.letter_canonical hhtml (by decide)
    (ClosingTags.folded_remembers _) hstandard rfl
  refine ⟨hhtml, by decide +kernel, ?_⟩
  obtain ⟨steps, hfails, -⟩ | ⟨origin, trace, hsucceeds, hinspects, hplace, -⟩ :=
    hshows 25 (by decide +kernel) (by decide +kernel)
  · rw [hwalks] at hfails
    cases hfails
  · obtain rfl := Except.ok.inj (hwalks.symm.trans hsucceeds)
    exact ⟨origin, hinspects, hplace⟩

end MemoryLog

end Provenance
