import Provenance.Log.Buffered
import Provenance.Script.Evaluation
import Provenance.Script.Reduction
import Provenance.Trace.Walk

/-! # Settings

A script is run, and the maps that its variables `store` and `traverse` hold in the end
say how the log is kept and how it is walked. What they leave out has a default.
-/

namespace Provenance

/-- How the log is kept and walked. -/
structure Settings where
  /-- The file of the table. -/
  path : Option String := none
  buffer : BufferLimits := {}
  walk : WalkLimits := {}
  deriving DecidableEq, Repr, Inhabited

/-- Why a script gives no settings. -/
inductive SettingsError where
  /-- It is not well formed. -/
  | syntactic
  /-- It fails when it is run. -/
  | failed
  /-- A setting has a value of the wrong type, or one out of range. -/
  | invalid (key reason : String)
  deriving DecidableEq, Repr

/-- The wording of the error. -/
def SettingsError.message : SettingsError → String
  | syntactic => "config.rhai parse error"
  | failed => "config.rhai evaluation error"
  | invalid key reason => "invalid `" ++ key ++ "`: " ++ reason

open Script (Value Scope)

/-- The value of a setting, if there is one. -/
def setting (group : String) (entries : Named Value) (name : String)
    (read : Value → Except String α) : Except SettingsError (Option α) :=
  match entries.get? name with
  | none => .ok none
  | some value =>
    match read value with
    | .ok value => .ok (some value)
    | .error reason => .error (.invalid (group ++ "." ++ name) reason)

/-- A setting that is text. -/
def textSetting : Value → Except String String
  | .text s => .ok s
  | other => .error ("expected string, got " ++ other.type)

/-- A setting that is a natural number. -/
def countSetting : Value → Except String Nat
  | .int n =>
    if 0 ≤ n then .ok n.toInt.toNat
    else .error ("must not be negative, got " ++ toString n.toInt)
  | other => .error ("expected integer, got " ++ other.type)

/-- A setting that is a natural number other than zero. -/
def positiveSetting (value : Value) : Except String Nat :=
  match countSetting value with
  | .ok 0 => .error "must be positive"
  | result => result

/-- The entries of the map that a variable holds; a variable that holds none does not count. -/
def group (scope : Scope) (name : String) : Named Value :=
  match scope.value? name with
  | some (.map entries) => entries
  | _ => []

/-- The settings that variables hold. The first of them that is wrong is reported. -/
def Settings.ofScope (scope : Scope) : Except SettingsError Settings := do
  let store := group scope "store"
  let path ← setting "store" store "path" textSetting
  let maxRecords ← setting "store" store "max_pending_records" countSetting
  let maxAge ← setting "store" store "max_pending_age_ms" countSetting
  let traverse := group scope "traverse"
  let pollInterval ← setting "traverse" traverse "poll_interval_ms" positiveSetting
  let timeout ← setting "traverse" traverse "timeout_ms" countSetting
  let maxSteps ← setting "traverse" traverse "max_steps" countSetting
  let buffer : BufferLimits := {}
  let walk : WalkLimits := {}
  pure {
    path
    buffer := ⟨maxRecords.getD buffer.maxRecords, maxAge.getD buffer.maxAge⟩
    walk := ⟨pollInterval.getD walk.pollInterval, timeout.getD walk.timeout, maxSteps⟩ }

/-- The settings that a script gives. It is read and reduced as a whole before it is run. -/
def Settings.ofScript (script : String) : Except SettingsError Settings :=
  match Script.parse script with
  | none => .error .syntactic
  | some body =>
    match Script.runAll [] (Script.reduce body) with
    | none => .error .failed
    | some scope => Settings.ofScope scope

end Provenance
