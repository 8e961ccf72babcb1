import Throughput.Run.ReportJson

/-!
# Delivering a report

A report goes to a sink: into a list, or as JSON text through a writer.
-/

namespace Throughput

/-- Something that takes text, with a state of type `ω`. Both operations may fail with a reason. -/
structure Writer (ω : Type) where
  write : String → ω → Except String ω
  flush : ω → Except String ω

/-- Where a report goes, with a state of type `ω`. -/
abbrev Sink (ω : Type) := RunReport → ω → Except SinkError ω

namespace Sink

/-- Keeps reports in a list. -/
def list : Sink (List RunReport) := fun report reports => .ok (reports ++ [report])

/-- Writes the report as indented JSON, ends the line and flushes. -/
def json (stamp : String) (writer : Writer ω) : Sink ω := fun report s => do
  let s ← (writer.write ((report.json stamp).pretty 0) s).mapError .encoding
  let s ← (writer.write "\n" s).mapError .writing
  (writer.flush s).mapError .writing

end Sink

namespace Writer

/-- Collects text. -/
def memory : Writer String where
  write text written := .ok (written ++ text)
  flush written := .ok written

end Writer

/-- Delivers the report of a run; the run counts as failed if its report cannot be delivered. -/
def deliver (sink : Sink ω) (result : Except RunError RunReport) (s : ω) :
    Except RunError RunReport × ω :=
  match result with
  | .error e => (.error e, s)
  | .ok report =>
    match sink report s with
    | .ok s => (.ok report, s)
    | .error e => (.error (.sink e), s)

end Throughput
