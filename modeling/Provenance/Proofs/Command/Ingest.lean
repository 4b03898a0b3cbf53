import Mathlib.Data.List.Forall2
import Provenance.Command.Program
import Provenance.Files.Workspace
import Provenance.Proofs.Log.Contents
import Provenance.Proofs.Log.TableText

/-! # What becomes of a file of batches

A file of batches is read before anything is appended: one line that cannot be read, and the log
stays as it is. Batches that can be read are appended in turn, and those before one that the log
refuses stay. The program prints their identifiers, and flushes the log, in either case.
-/

namespace Provenance

/-! ## Reading -/

/-- The lines that are not blank, with their numbers. The first line has the given one. -/
def filledLines (number : Nat) (lines : List String) : List (String × Nat) :=
  (lines.zipIdx number).filter fun line => !Text.allBlank line.1

/-- The lines of a text that hold batches, or should. Numbers count the blank ones too. -/
def batchLines (text : String) : List (String × Nat) :=
  filledLines 1 ((Text.lines text.toList).map String.ofList)

/-- The first of the lines that holds no batch. -/
def firstUnreadable (lines : List (String × Nat)) : Option (String × Nat) :=
  lines.find? fun line => (readBatch line.1).isNone

/-- Whether the lines hold these batches. -/
def HoldBatches (lines : List (String × Nat)) (batches : List LineBatch) : Prop :=
  List.Forall₂ (fun line batch => readBatch line.1 = some batch.drafts ∧ batch.line = line.2)
    lines batches

variable {number bad : Nat} {line : String} {lines : List String} {batches : List LineBatch}

theorem filledLines_cons (number : Nat) (line : String) (rest : List String) :
    filledLines number (line :: rest) =
      if Text.allBlank line then filledLines (number + 1) rest
      else (line, number) :: filledLines (number + 1) rest := by
  unfold filledLines
  rw [List.zipIdx_cons, List.filter_cons]
  cases Text.allBlank line <;> rfl

theorem readBatches_of_hold (hhold : HoldBatches (filledLines number lines) batches) :
    readBatches number lines = .ok batches := by
  unfold HoldBatches at hhold
  induction lines generalizing number batches with
  | nil => rw [List.forall₂_nil_left_iff.mp hhold, readBatches]
  | cons line rest ih =>
      rw [filledLines_cons] at hhold
      rw [readBatches]
      split at hhold
      · rw [if_pos ‹_›, ih hhold]
      · obtain ⟨⟨_, drafts⟩, more, ⟨hread, rfl⟩, hothers, rfl⟩ :=
          List.forall₂_cons_left_iff.mp hhold
        rw [if_neg ‹_›, hread]
        simp only [ih hothers, Except.map]

theorem readBatches_of_unreadable
    (hfirst : firstUnreadable (filledLines number lines) = some (line, bad)) :
    readBatches number lines = .error bad := by
  unfold firstUnreadable at hfirst
  induction lines generalizing number with
  | nil => cases hfirst
  | cons other rest ih =>
      rw [filledLines_cons] at hfirst
      rw [readBatches]
      split at hfirst
      · rw [if_pos ‹_›, ih hfirst]
      · rw [if_neg ‹_›]
        rw [List.find?_cons] at hfirst
        cases hread : readBatch other with
        | none =>
            rw [hread] at hfirst
            cases hfirst
            rfl
        | some drafts =>
            rw [hread] at hfirst
            simp only [ih hfirst, Except.map]

theorem exists_hold {lines : List (String × Nat)} (hreadable : firstUnreadable lines = none) :
    ∃ batches, HoldBatches lines batches := by
  have hreadable := List.find?_eq_none.mp hreadable
  induction lines with
  | nil => exact ⟨[], .nil⟩
  | cons line rest ih =>
      obtain ⟨hhere, hothers⟩ := List.forall_mem_cons.mp hreadable
      obtain ⟨more, hhold⟩ := ih (List.find?_eq_none.mpr hothers) hothers
      obtain ⟨drafts, hread⟩ := Option.ne_none_iff_exists'.mp (by simpa using hhere)
      exact ⟨⟨line.2, drafts⟩ :: more, .cons ⟨hread, rfl⟩ hhold⟩

/-! ## Appending -/

/-- A log accepts batches one after another, and answers with a list of identifiers for each. -/
inductive Accepts (now : Nat) :
    Store → List LineBatch → List (List RecordId) → Store → Prop where
  | nil (store : Store) : Accepts now store [] [] store
  | cons {store next later : Store} {batch : LineBatch} {rest : List LineBatch}
      {ids : List RecordId} {lists : List (List RecordId)}
      (hhere : RecordLog.append batch.drafts now store = (.ok ids, next))
      (hothers : Accepts now next rest lists later) :
      Accepts now store (batch :: rest) (ids :: lists) later

/-- What becomes of batches: the identifiers of those that are accepted, the failure if one is
    refused, and the log. -/
inductive Taken (file : String) (now : Nat) (store : Store) (batches : List LineBatch) :
    List (List RecordId) → Option String → Store → Prop where
  /-- The log accepts all of them. -/
  | all {lists : List (List RecordId)} {later : Store}
      (haccepts : Accepts now store batches lists later) :
      Taken file now store batches lists none later
  /-- It accepts those before a certain one. That one it refuses, and stays as it was before. -/
  | upTo {front rest : List LineBatch} {batch : LineBatch} {lists : List (List RecordId)}
      {later : Store} {cause : ReferenceError} (hsplit : batches = front ++ batch :: rest)
      (haccepts : Accepts now store front lists later)
      (hrefuses : (RecordLog.append batch.drafts now later).1 = .error (.invalidReference cause)) :
      Taken file now store batches lists
        (some (lineName file batch.line ++ ": batch rejected")) later

/-- The report that prints lists of identifiers. -/
def listReport (lists : List (List RecordId)) (failure : Option String) : Report where
  documents := lists.map fun ids => .arr (ids.map RecordId.toJson)
  failure := failure

variable {file : String} {now : Nat} {store later : Store} {lists : List (List RecordId)}
  {failure : Option String} {batch : List Draft} {error : LogError}

theorem MemoryLog.append_refused {log : MemoryLog}
    (hrefused : (log.append batch).1 = .error error) :
    (∃ cause, error = .invalidReference cause) ∧ (log.append batch).2 = log := by
  unfold MemoryLog.append at hrefused ⊢
  cases hresolved : resolveBatch log.nextId batch with
  | error cause =>
      rw [hresolved] at hrefused
      cases hrefused
      exact ⟨⟨cause, rfl⟩, rfl⟩
  | ok records =>
      rw [hresolved] at hrefused
      cases hrefused

/-- A refusal is because of a reference, and changes nothing. -/
theorem Store.append_refused (hrefused : (RecordLog.append batch now store).1 = .error error) :
    (∃ cause, error = .invalidReference cause) ∧ (RecordLog.append batch now store).2 = store := by
  cases store with
  | memory log =>
      obtain ⟨hcause, hsame⟩ := MemoryLog.append_refused hrefused
      exact ⟨hcause, congrArg Store.memory hsame⟩
  | buffered log =>
      obtain ⟨hcause, hsame⟩ := BufferedLog.append_refused hrefused
      exact ⟨hcause, congrArg Store.buffered hsame⟩
  | fixed log => cases hrefused

/-- The lists of batches that are accepted come before those of the batches behind them. -/
theorem Accepts.appendBatches_append {rest : List LineBatch} {more : List (List RecordId)}
    {last : Store} (haccepts : Accepts now store batches lists later)
    (hothers : appendBatches file now rest later = (listReport more failure, last)) :
    appendBatches file now (batches ++ rest) store =
      (listReport (lists ++ more) failure, last) := by
  induction haccepts with
  | nil => exact hothers
  | cons hhere _ ih =>
      rw [List.cons_append, appendBatches, hhere]
      simp only [ih hothers]
      rfl

theorem Taken.appendBatches_eq (htaken : Taken file now store batches lists failure later) :
    appendBatches file now batches store = (listReport lists failure, later) := by
  cases htaken with
  | all haccepts =>
      have hnothing : appendBatches file now [] later = (listReport [] none, later) := rfl
      simpa using haccepts.appendBatches_append hnothing
  | @upTo front rest batch _ _ cause hsplit haccepts hrefuses =>
      have hrefused : appendBatches file now (batch :: rest) later =
          (listReport [] (some (lineName file batch.line ++ ": batch rejected")), later) := by
        have hanswer : RecordLog.append batch.drafts now later =
            (.error (.invalidReference cause), later) :=
          Prod.ext hrefuses (Store.append_refused hrefuses).2
        rw [appendBatches, hanswer]
        rfl
      rw [hsplit]
      simpa using haccepts.appendBatches_append hrefused

theorem exists_taken (file : String) (now : Nat) (store : Store) (batches : List LineBatch) :
    ∃ lists failure later, Taken file now store batches lists failure later := by
  induction batches generalizing store with
  | nil => exact ⟨[], none, store, .all (.nil store)⟩
  | cons batch rest ih =>
      cases hanswer : RecordLog.append batch.drafts now store with
      | mk result next =>
          cases result with
          | error error =>
              have hrefused : (RecordLog.append batch.drafts now store).1 = .error error := by
                rw [hanswer]
              obtain ⟨⟨cause, rfl⟩, -⟩ := Store.append_refused hrefused
              exact ⟨[], _, store, .upTo (List.nil_append _).symm (.nil store) hrefused⟩
          | ok ids =>
              obtain ⟨lists, failure, later, htaken⟩ := ih next
              cases htaken with
              | all haccepts => exact ⟨ids :: lists, none, later, .all (.cons hanswer haccepts)⟩
              | @upTo front others other _ _ _ hsplit haccepts hrefuses =>
                  have hall : batch :: rest = batch :: front ++ other :: others := by
                    rw [hsplit, List.cons_append]
                  exact ⟨ids :: lists, _, later, .upTo hall (.cons hanswer haccepts) hrefuses⟩

/-! ## Ingesting -/

/-- What becomes of numbered lines: the identifiers that are printed, the failure if there is one,
    and the log. -/
inductive Ingested (file : String) (now : Nat) (store : Store) (lines : List (String × Nat)) :
    List (List RecordId) → Option String → Store → Prop where
  /-- A line holds no batch. The first such line is named. -/
  | unreadable {line : String} {number : Nat}
      (hfirst : firstUnreadable lines = some (line, number)) :
      Ingested file now store lines [] (some (lineName file number ++ ": invalid batch")) store
  | read {batches : List LineBatch} {lists : List (List RecordId)} {failure : Option String}
      {later : Store} (hhold : HoldBatches lines batches)
      (htaken : Taken file now store batches lists failure later) :
      Ingested file now store lines lists failure later

theorem Ingested.ingest_eq {text : String}
    (hingested : Ingested file now store (batchLines text) lists failure later) :
    ingest file text now store = (listReport lists failure, later) := by
  unfold ingest
  cases hingested with
  | unreadable hfirst =>
      rw [readBatches_of_unreadable hfirst]
      rfl
  | read hhold htaken =>
      rw [readBatches_of_hold hhold]
      exact htaken.appendBatches_eq

theorem exists_ingested (file : String) (now : Nat) (store : Store) (lines : List (String × Nat)) :
    ∃ lists failure later, Ingested file now store lines lists failure later := by
  cases hfirst : firstUnreadable lines with
  | some line => exact ⟨[], _, store, .unreadable hfirst⟩
  | none =>
      obtain ⟨batches, hhold⟩ := exists_hold hfirst
      obtain ⟨lists, failure, later, htaken⟩ := exists_taken file now store batches
      exact ⟨lists, failure, later, .read hhold htaken⟩

theorem ingest_eq_iff {text : String} {report : Report} :
    ingest file text now store = (report, later) ↔ ∃ lists failure,
      report = listReport lists failure ∧
        Ingested file now store (batchLines text) lists failure later := by
  constructor
  · intro hresult
    obtain ⟨lists, failure, _, hingested⟩ := exists_ingested file now store (batchLines text)
    rw [hingested.ingest_eq] at hresult
    cases hresult
    exact ⟨lists, failure, rfl, hingested⟩
  · rintro ⟨lists, failure, rfl, hingested⟩
    exact hingested.ingest_eq

/-! ## Flushing -/

/-- What a flush makes of a log: what the log held stands in the table, and nothing else does. -/
structure BufferedLog.Settled (log later : BufferedLog) : Prop where
  rows : later.table.rows.Perm log.rows
  emptied : later.buffer = []

theorem BufferedLog.settled_flush {log : BufferedLog} {count : Nat}
    (hwritten : log.flush.1 = .ok count) : log.Settled log.flush.2 := by
  have hemptied := buffer_flush hwritten
  have hall := (log.gains_flush none).rows
  rw [rows, pending, hemptied, List.map_nil, List.map_nil, List.append_nil, List.append_nil] at hall
  exact ⟨hall, hemptied⟩

theorem Store.flush_buffered {log : BufferedLog} {flushed : Store}
    (hdone : RecordLog.flush (Store.buffered log) = (.ok (), flushed)) :
    ∃ later, flushed = .buffered later ∧ log.Settled later := by
  cases hresult : log.flush with
  | mk answer later =>
      cases answer with
      | error cause => simp [RecordLog.flush, Store.update, hresult] at hdone
      | ok count =>
          have hsettled : log.Settled log.flush.2 := BufferedLog.settled_flush (by rw [hresult])
          rw [hresult] at hsettled
          refine ⟨later, ?_, hsettled⟩
          simpa [RecordLog.flush, Store.update, hresult, eq_comm] using hdone

theorem Store.flush_of_isOk (hwritten : (RecordLog.flush store).1.isOk = true) :
    RecordLog.flush store = (.ok (), (RecordLog.flush store).2) := by
  cases hresult : RecordLog.flush store with
  | mk answer later =>
      rw [hresult] at hwritten
      cases answer with
      | ok => rfl
      | error => cases hwritten

theorem Accepts.gains {log : BufferedLog}
    (haccepts : Accepts now (.buffered log) batches lists later) :
    ∃ next records, later = .buffered next ∧ records.map (·.id) = lists.flatten ∧
      log.Gains records next := by
  generalize hstart : Store.buffered log = store at haccepts
  induction haccepts generalizing log with
  | nil => exact ⟨log, [], hstart.symm, rfl, .refl log⟩
  | @cons _ next _ batch _ ids _ hhere _ ih =>
      cases hstart
      have hanswer : (log.append batch.drafts now).1 = .ok ids := (Prod.mk.inj hhere).1
      have hstored : .buffered (log.append batch.drafts now).2 = next := (Prod.mk.inj hhere).2
      rw [BufferedLog.append_answer] at hanswer
      cases hresolved : resolveBatch log.nextId batch.drafts with
      | error cause =>
          rw [hresolved] at hanswer
          cases hanswer
      | ok records =>
          rw [hresolved] at hanswer
          cases hanswer
          obtain ⟨last, more, rfl, hnamed, hgains⟩ := ih hstored
          refine ⟨last, records ++ more, rfl, ?_, ?_⟩
          · rw [List.map_append, hnamed, List.flatten_cons]
          · exact (BufferedLog.gains_append now none hresolved).trans hgains

theorem Ingested.gains {log : BufferedLog} {lines : List (String × Nat)}
    (hingested : Ingested file now (.buffered log) lines lists failure later) :
    ∃ next records, later = .buffered next ∧ records.map (·.id) = lists.flatten ∧
      log.Gains records next := by
  cases hingested with
  | unreadable => exact ⟨log, [], rfl, rfl, .refl log⟩
  | read hhold htaken =>
      cases htaken with
      | all haccepts => exact haccepts.gains
      | upTo hsplit haccepts hrefuses => exact haccepts.gains

/-! ## Printing -/

/-- The text that is printed for a list of identifiers: their decimal digits, one identifier on a
    line, between brackets. -/
def printedIds : List RecordId → String
  | [] => "[]\n"
  | ids => "[\n" ++ ",\n".intercalate (ids.map fun id => "  " ++ toString id.toNat) ++ "\n]\n"

theorem spread_ids (id : RecordId) (ids : List RecordId) :
    Json.newline 1 ++ Json.spread 1 id.toJson ++ Json.spreadItems 0 (ids.map RecordId.toJson) =
      ("\n" ++ ",\n".intercalate ((id :: ids).map fun id => "  " ++ toString id.toNat)
        ++ "\n]").toList := by
  have hdigits (id : RecordId) (level : Nat) :
      Json.spread level id.toJson = Nat.toDigits 10 id.toNat := rfl
  induction ids generalizing id with
  | nil => simp [hdigits, Json.spreadItems, Json.newline, Nat.repr]
  | cons next ids ih =>
      have hrest := ih next
      simp [hdigits, Json.newline, Nat.repr] at hrest
      simp [hdigits, Json.spreadItems, Json.newline, Nat.repr, hrest]

theorem renderSpread_ids (ids : List RecordId) :
    (Json.arr (ids.map RecordId.toJson)).renderSpread ++ "\n" = printedIds ids := by
  cases ids with
  | nil => rfl
  | cons id ids =>
      apply String.toList_inj.mp
      have hitems := congrArg (· ++ ['\n']) (spread_ids id ids)
      simpa [Json.renderSpread, Json.spread, printedIds] using hitems

/-- A report of lists exits with zero or, after a failure, with one; the lists are printed in
    either case. -/
theorem exit_listReport (lists : List (List RecordId)) (failure : Option String) :
    (listReport lists failure).exit =
      { code := if failure.isSome then 1 else 0
        output := String.join (lists.map printedIds)
        failure := failure } := by
  have houtput (text : String) :
      (lists.map fun ids => Json.arr (ids.map RecordId.toJson)).foldl
        (fun text document => text ++ document.renderSpread ++ "\n") text =
      text ++ String.join (lists.map printedIds) := by
    induction lists generalizing text with
    | nil => simp
    | cons ids lists ih =>
        rw [List.map_cons, List.foldl_cons, ih, List.map_cons, ← renderSpread_ids]
        simp [String.append_assoc]
  unfold Report.exit
  congr 1
  · cases failure <;> rfl
  · simpa [listReport] using houtput ""

/-! ## The program -/

variable {ω : Type} {files : FileSystem (StateM ω)} {paths : DefaultPaths}
  {invocation : Invocation} {opened : OpenLog} {text : String}

/-- A run of the program that has come to the text of the file that it is to ingest: the settings
    are read, and the log is open. -/
inductive ReadyToIngest (files : FileSystem (StateM ω)) (paths : DefaultPaths)
    (invocation : Invocation) (file : String) (world : ω) (opened : OpenLog) (text : String)
    (ready : ω) : Prop where
  | intro {settings : Settings} {configured stored : ω}
      (hasked : invocation.command = .ingest file)
      (hloads : (loadSettings files paths invocation.options.config).run world =
        (.ok settings, configured))
      (hopens : (openLog files (invocation.options.database <|> settings.path <|> paths.database)
        settings.buffer).run configured = (some opened, stored))
      (hreads : (readText files file).run stored = (.ok text, ready))

theorem run_bind {α β : Type} {action : StateM ω α} {rest : α → StateM ω β} {world next : ω}
    {answer : α} (hresult : action.run world = (answer, next)) :
    (action >>= rest).run world = (rest answer).run next := by
  rw [StateT.run_bind, hresult]
  rfl

/-- What becomes of a log that is flushed at the end of a run: its table is written to the file it
    is from. A table that may not be written has to be the one that was read. -/
inductive Kept (files : FileSystem (StateM ω)) (ready : ω) : Store → Keeping → ω → Prop where
  | written {log : BufferedLog} {path : String} {ended : ω}
      (hwrites : (files.write path log.table.render).run ready = (true, ended)) :
      Kept files ready (.buffered log) (.write path) ended
  | left (log : BufferedLog) : Kept files ready (.buffered log) (.leave log.table) ready
  | forgotten (store : Store) : Kept files ready store .forget ready

theorem Kept.keep_eq {ready ended : ω} {flushed : Store} {keeping : Keeping}
    (hkept : Kept files ready flushed keeping ended) :
    (keep files ⟨flushed, keeping⟩).run ready = (true, ended) := by
  cases hkept with
  | written hwrites => exact hwrites
  | left log => exact congrArg (·, ready) (decide_eq_true rfl)
  | forgotten => cases flushed <;> rfl

/-- A table that is written to a file is read back from it. -/
theorem Kept.read_written {ready ended : ω} {log : BufferedLog} {path : String}
    (hkept : Kept files ready (.buffered log) (.write path) ended) :
    ∃ text, (files.write path text).run ready = (true, ended) ∧
      Table.read text = some log.table := by
  cases hkept with
  | written hwrites => exact ⟨_, hwrites, log.table.read_render⟩

theorem ReadyToIngest.perform_eq {world ready ended : ω} {flushed : Store}
    (hprepared : ReadyToIngest files paths invocation file world opened text ready)
    (hingested : Ingested file 0 opened.log (batchLines text) lists failure later)
    (hflushes : RecordLog.flush later = (.ok (), flushed))
    (hkept : Kept files ready flushed opened.keeping ended) :
    (perform files paths invocation).run world =
      ({ code := if failure.isSome then 1 else 0
         output := String.join (lists.map printedIds)
         failure := failure }, ended) := by
  obtain @⟨settings, _, _, hasked, hloads, hopens, hreads⟩ := hprepared
  have hnamed : invocation.command.file? = some file := by
    rw [hasked]
    rfl
  have hresult : invocation.command.run { limits := settings.walk } (.ok text) opened.log =
      (listReport lists failure, later) := by
    rw [hasked]
    exact hingested.ingest_eq
  rw [← exit_listReport]
  unfold perform
  simp only [run_bind hloads, run_bind hopens, hnamed, run_bind hreads, hresult, hflushes,
    run_bind hkept.keep_eq]
  rfl

/-- What it means to ingest a file: a part of its batches, from the first one on, is appended,
    printed and flushed, and nothing else. -/
structure CommitsPrefix (file text : String) (store : Store) : Prop where
  /-- A report and a log are what it comes to if, and only if, they are those of a case. -/
  ingests : ∀ now report later, ingest file text now store = (report, later) ↔
    ∃ lists failure, report = listReport lists failure ∧
      Ingested file now store (batchLines text) lists failure later
  /-- A log over a table has the records of the printed identifiers besides those it had, and a
      flush that succeeds leaves all of them in the table. -/
  flushes : ∀ log now lists failure later flushed, store = .buffered log →
    Ingested file now store (batchLines text) lists failure later →
    RecordLog.flush later = (.ok (), flushed) →
      ∃ next final records, later = .buffered next ∧ flushed = .buffered final ∧
        records.map (·.id) = lists.flatten ∧ log.Gains records next ∧ next.Settled final
  /-- The program prints the lists and exits with zero or, after a failure, with one and what the
      failure is. In either case the log is kept as the flush leaves it: what is written to its
      file, if it has one, is read back as its table. -/
  performs : ∀ (ω : Type) (files : FileSystem (StateM ω)) (paths : DefaultPaths)
    (invocation : Invocation) (world ready ended : ω) (keeping : Keeping)
    (lists : List (List RecordId)) (failure : Option String) (later flushed : Store),
    ReadyToIngest files paths invocation file world ⟨store, keeping⟩ text ready →
    Ingested file 0 store (batchLines text) lists failure later →
    RecordLog.flush later = (.ok (), flushed) →
    Kept files ready flushed keeping ended →
      (perform files paths invocation).run world =
        ({ code := if failure.isSome then 1 else 0
           output := String.join (lists.map printedIds)
           failure := failure }, ended) ∧
      ∀ final path, flushed = .buffered final → keeping = .write path →
        ∃ written, (files.write path written).run ready = (true, ended) ∧
          Table.read written = some final.table

/-- Every line is read before anything is appended; from then on each batch is appended for good,
    and what comes later, be it a refusal, only ends the run. -/
theorem ingest_commits_prefix (file text : String) (store : Store) :
    CommitsPrefix file text store := by
  constructor
  case ingests => exact fun now report later => ingest_eq_iff
  case flushes =>
    rintro log now lists failure later flushed rfl hingested hdone
    obtain ⟨next, records, rfl, hnamed, hgains⟩ := hingested.gains
    obtain ⟨final, rfl, hsettled⟩ := Store.flush_buffered hdone
    exact ⟨next, final, records, rfl, rfl, hnamed, hgains, hsettled⟩
  case performs =>
    intro ω files paths invocation world ready ended keeping lists failure later flushed
      hprepared hingested hdone hkept
    refine ⟨hprepared.perform_eq hingested hdone hkept, ?_⟩
    rintro final path rfl rfl
    exact hkept.read_written

/-- A text whose fourth line refers to a record that is not there. -/
def rejectedText : String :=
  "\n\x7b\"kind\":\"x\"\x7d\n\n\x7b\"kind\":\"y\",\"args\":" ++
    "\x7b\"v\":\x7b\"value\":\"\",\"tracking\":\x7b\"stored\":9\x7d\x7d\x7d\x7d\n[]"

/-- That text, beside the file of a table without rows. -/
def rejectedWorkspace : Workspace :=
  .ofFiles [("a.jsonl", rejectedText), ("records.db", Table.render {})]

/-- A run that is to ingest the one into the other. -/
def rejectedInvocation : Invocation := ⟨{ database := some "records.db" }, .ingest "a.jsonl"⟩

theorem run_read {world : Workspace} {path : String} {content : Except FileError String}
    (hthere : world.read path = content) :
    (Workspace.fileSystem.read path).run world = (content, world) :=
  congrArg (·, world) hthere

theorem run_openLog_rejected :
    (openLog Workspace.fileSystem (some "records.db") {}).run rejectedWorkspace =
      (some ⟨.buffered (.openOn {} {}), .write "records.db"⟩, rejectedWorkspace) := by
  have halone : Path.parent? "records.db" = none := by decide
  have hname : Location.ofName? "records.db" = some ⟨"records.db", .make⟩ := by
    have hplain : "records.db".startsWith "file:" = false := by decide +kernel
    simp [Location.ofName?, hplain]
  have hlasting : (Location.mk "records.db" .make).isTransient = false := by decide
  have hways : Path.ways "records.db" = [".", "records.db"] := by decide +kernel
  have habove : rejectedWorkspace.read "." = .error .isDirectory := by decide +kernel
  have hthere : rejectedWorkspace.read "records.db" = .ok (Table.render {}) := by decide +kernel
  have hfilled : Table.isBlank (Table.render {}) = false := by decide +kernel
  have hpasses : (passable Workspace.fileSystem [".", "records.db"]).run rejectedWorkspace =
      (true, rejectedWorkspace) := by
    simp only [passable, run_bind (run_read habove), run_bind (run_read hthere)]
    rfl
  have hopens : (openFile Workspace.fileSystem "records.db" .make).run rejectedWorkspace =
      (some {}, rejectedWorkspace) := by
    simp only [openFile, run_bind (run_read hthere), hfilled, Table.read_render]
    rfl
  have hlocated : (openLocation Workspace.fileSystem ⟨"records.db", .make⟩).run rejectedWorkspace =
      (some ({}, .write "records.db"), rejectedWorkspace) := by
    simp only [openLocation, hlasting, hways, Bool.false_eq_true, if_false, run_bind hpasses,
      List.getLastD_cons, List.getLastD_nil, Bool.not_true, run_bind hopens]
    rfl
  simp only [openLog, openTable, halone, hname, pure_bind, Bool.not_true, Bool.false_eq_true,
    if_false, run_bind hlocated]
  rfl

theorem ready_rejected :
    ReadyToIngest Workspace.fileSystem {} rejectedInvocation "a.jsonl" rejectedWorkspace
      ⟨.buffered (.openOn {} {}), .write "records.db"⟩ rejectedText rejectedWorkspace := by
  have hthere : rejectedWorkspace.read "a.jsonl" = .ok rejectedText := by decide +kernel
  have hplain : Table.isWritten rejectedText = false := by decide +kernel
  have hreads : (readText Workspace.fileSystem "a.jsonl").run rejectedWorkspace =
      (.ok rejectedText, rejectedWorkspace) := by
    simp only [readText, run_bind (run_read hthere), hplain]
    rfl
  exact .intro rfl rfl run_openLog_rejected hreads

/-- The text of the file of a table with the record of the first batch. -/
def rejectedTableText : String :=
  "provenance table 1\n[1,\"x\",null,\"\x7b\\\"id\\\":1,\\\"kind\\\":\\\"x\\\"," ++
    "\\\"args\\\":\x7b\x7d,\\\"static_args\\\":\x7b\x7d,\\\"result\\\":null\x7d\"]\n"

theorem run_write_rejected (text : String) :
    (Workspace.fileSystem.write "records.db" text).run rejectedWorkspace =
      (true, rejectedWorkspace.put ["records.db"] text) := by
  have hfound : rejectedWorkspace.find "records.db" = .ok ["records.db"] := by decide +kernel
  have hnode : rejectedWorkspace.node? ["records.db"] = some (.file (Table.render {})) := by
    decide +kernel
  change rejectedWorkspace.write "records.db" text = _
  simp only [Workspace.write, hfound, hnode]

/-- The text of the file of the table of a log, if it has one. -/
def Store.tableText? : Store → Option String
  | .buffered log => some log.table.render
  | _ => none

theorem ingest_commits_prefix_rejected :
    ∃ lists later final,
      Ingested "a.jsonl" 0 (.buffered (.openOn {} {})) (batchLines rejectedText) lists
        (some "a.jsonl:4: batch rejected") later ∧
      RecordLog.flush later = (.ok (), .buffered final) ∧ final.buffer = [] ∧
      (perform Workspace.fileSystem {} rejectedInvocation).run rejectedWorkspace =
        ({ code := 1, output := "[\n  1\n]\n", failure := some "a.jsonl:4: batch rejected" },
          rejectedWorkspace.put ["records.db"] rejectedTableText) ∧
      Table.read rejectedTableText = some final.table := by
  have hfailed : (ingest "a.jsonl" rejectedText 0 (Store.buffered (.openOn {} {}))).1.failure =
      some "a.jsonl:4: batch rejected" := by decide +kernel
  have hprinted : (ingest "a.jsonl" rejectedText 0 (Store.buffered (.openOn {} {}))).1.exit.output =
      "[\n  1\n]\n" := by decide +kernel
  have hflushed : (RecordLog.flush
      (ingest "a.jsonl" rejectedText 0 (Store.buffered (.openOn {} {}))).2).1.isOk = true := by
    decide +kernel
  have htableText : (RecordLog.flush
      (ingest "a.jsonl" rejectedText 0 (Store.buffered (.openOn {} {}))).2).2.tableText? =
        some rejectedTableText := by
    decide +kernel
  obtain ⟨hingests, hflushes, hperforms⟩ :=
    ingest_commits_prefix "a.jsonl" rejectedText (.buffered (.openOn {} {}))
  cases hresult : ingest "a.jsonl" rejectedText 0 (Store.buffered (.openOn {} {})) with
  | mk report later =>
      rw [hresult] at hfailed hprinted hflushed htableText
      obtain ⟨lists, failure, rfl, hingested⟩ := (hingests 0 report later).mp hresult
      obtain rfl : failure = some "a.jsonl:4: batch rejected" := hfailed
      have hdone := Store.flush_of_isOk hflushed
      obtain ⟨next, final, records, -, hsame, -, -, hsettled⟩ :=
        hflushes _ 0 lists _ _ _ rfl hingested hdone
      rw [hsame] at hdone htableText
      have hwritten : final.table.render = rejectedTableText := Option.some_inj.mp htableText
      have houtput : String.join (lists.map printedIds) = "[\n  1\n]\n" := by
        rw [← hprinted, exit_listReport]
      obtain ⟨hperformed, -⟩ := hperforms _ _ _ _ _ _ _ _ _ _ _ _ ready_rejected hingested hdone
        (.written (run_write_rejected _))
      refine ⟨lists, later, final, hingested, hdone, hsettled.emptied, ?_, ?_⟩
      · rw [hperformed, hwritten, houtput]
        rfl
      · rw [← hwritten]
        exact final.table.read_render

end Provenance
