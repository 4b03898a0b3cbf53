import Provenance.Log.Buffered
import Provenance.Log.Memory

/-! # Logs of any kind -/

namespace Provenance

/-- A log in memory, over a table, or fixed. -/
inductive Store where
  | memory (log : MemoryLog)
  | buffered (log : BufferedLog)
  | fixed (log : FixedLog)

namespace Store

/-- Applies an operation of logs to the log that the store is. -/
def update (f : {σ : Type} → [RecordLog σ] → σ → α × σ) : Store → α × Store
  | memory log => let (answer, log) := f log; (answer, memory log)
  | buffered log => let (answer, log) := f log; (answer, buffered log)
  | fixed log => let (answer, log) := f log; (answer, fixed log)

instance : RecordLog Store where
  append batch now := update (RecordLog.append batch now)
  fetch id now := update (RecordLog.fetch id now)
  locate key store := (store.update fun log => (RecordLog.locate key log, log)).1
  flush := update RecordLog.flush
  size store := (store.update fun log => (RecordLog.size log, log)).1

end Store

end Provenance
