/-!
# Metrics

Counters of a node since its start, and their text for collectors: one family after the other, by
name, each with a line of help and a line that tells its type.
-/

namespace TxRecovery

structure Metrics where
  rowsExamined : Nat
  batchesPublished : Nat
  payloadsStaged : Nat
  stagingPasses : Nat
  versionsCommitted : Nat
  privacyViolations : Nat
  /-- Rows in the staging area when they were last counted. -/
  stagingRows : Nat
  recoveryPasses : Nat
deriving DecidableEq

namespace Metrics

def zero : Metrics := ⟨0, 0, 0, 0, 0, 0, 0, 0⟩

inductive Kind where
  | counter
  | gauge
  | duration

def Kind.name : Kind → String
  | counter => "counter"
  | gauge => "gauge"
  | duration => "histogram"

structure Family where
  name : String
  help : String
  kind : Kind
  value : Metrics → Nat

/-- In the order of their names. -/
def families : List Family := [
  ⟨"push_payloads_staged_total", "Pushed payloads written to the staging area", .counter,
    payloadsStaged⟩,
  ⟨"recovery_pass_duration_seconds", "Duration of a staging, sync and cleanup pass in seconds",
    .duration, recoveryPasses⟩,
  ⟨"resend_batches_published_total", "Outbound resend batches handed to the publisher", .counter,
    batchesPublished⟩,
  ⟨"resend_rows_examined_total", "Primary store rows examined while answering resend requests",
    .counter, rowsExamined⟩,
  ⟨"staging_passes_total", "Staging passes run", .counter, stagingPasses⟩,
  ⟨"staging_rows", "Rows currently in the staging area", .gauge, stagingRows⟩,
  ⟨"sync_privacy_violations_total", "Staged versions rejected for privacy violations", .counter,
    privacyViolations⟩,
  ⟨"sync_versions_committed_total", "Staged versions committed to the primary store", .counter,
    versionsCommitted⟩]

/-- Of durations only the count is kept. -/
def Family.lines (f : Family) (m : Metrics) : List String :=
  let name := "ptm_" ++ f.name
  let sample :=
    match f.kind with
    | .duration => name ++ "_count"
    | _ => name
  [s!"# HELP {name} {f.help}", s!"# TYPE {name} {f.kind.name}", s!"{sample} {f.value m}"]

def lines (m : Metrics) : List String := families.flatMap fun f => f.lines m

def render (m : Metrics) : String := String.join (m.lines.map (· ++ "\n"))

def contentType : String := "text/plain; version=0.0.4; charset=utf-8"

end Metrics

end TxRecovery
