import Diplom.Emulator.LogFiles

/-!
# Logs and the points in time behind them

A line of a log shows the time of day; here it stands beside the point in time at which it was
written, in microseconds, of which the merge sees nothing. What the merge should make of the logs
of one run is said with these.
-/

namespace Diplom

open Python

/-- Where a line stands, and when it was written. -/
structure Origin where
  log : Text
  line : Nat
  real : Int
deriving DecidableEq

/-- The log of a node: its name, and its lines with the points in time at which they were written.
-/
structure NodeLog where
  name : Text
  lines : List (Int × Text)

namespace NodeLog

variable (log : NodeLog)

/-- The file, with the origins of its lines. -/
def file : LogFile Origin :=
  (log.name, log.lines.zipIdx.map fun line => (⟨log.name, line.2, line.1.1⟩, line.1.2))

/-- The file as it is. -/
def plain : Text × List Text := (log.name, log.lines.map Prod.snd)

/-- The start line, with what comes after it. -/
def start : Option (Started Origin) := findStart log.file.2

/-- The events that the lines after the start line tell of. -/
def events : List (Origin × NodeEvent Text) :=
  match log.start with
  | none => []
  | some started =>
      started.rest.filterMap fun line =>
        (eventOf (strip Python.isSpace line.2)).map fun m =>
          (line.1, ⟨upper started.mac, m.2.1, m.2.2⟩)

/-- The events in time, when this time has elapsed until a point in time. -/
def entries (elapsed : Int → Int) (duration : Int) : List (LogEntry Origin) :=
  log.events.filterMap fun e =>
    if elapsed e.1.real < duration * microsPerSecond then some ⟨e.1, elapsed e.1.real, e.2⟩
    else none

/-- A line that is taken for a start or an event shows the time of day at which it was written. -/
def Stamped : Prop :=
  ∀ line ∈ log.lines,
    (∀ m ∈ startPattern (strip Python.isSpace line.2), m.1 = getDatetimeStr line.1) ∧
      ∀ m ∈ eventOf (strip Python.isSpace line.2), m.1 = getDatetimeStr line.1

instance : Decidable log.Stamped := by
  unfold Stamped
  infer_instance

end NodeLog

/-- A directory of logs that the logger has written. -/
structure NodeLogs where
  files : List NodeLog
  names : (files.map NodeLog.name).Nodup
  stamped : ∀ log ∈ files, log.Stamped

namespace NodeLogs

variable (run : NodeLogs)

/-- The files that are read. -/
def logs : List NodeLog := run.files.filter fun log => isLog log.name

/-- When the nodes started. -/
def starts : List Int := run.logs.filterMap fun log => log.start.map fun s => s.origin.real

/-- The earliest start. -/
def firstStart : Option Int := run.starts.min?

/-- The earliest time of day of a start. -/
def firstClock : Option Int := (run.starts.map clock).min?

end NodeLogs

/-- The logs of one run that was shorter than a day. A log without a start line tells of nothing. -/
structure RunLogs extends NodeLogs where
  chronological : ∀ log ∈ toNodeLogs.logs, (log.lines.map Prod.fst).Pairwise (· ≤ ·)
  short : ∀ log ∈ toNodeLogs.logs, ∀ log' ∈ toNodeLogs.logs, ∀ line ∈ log.lines,
    ∀ line' ∈ log'.lines, line'.1 - line.1 < microsPerDay

namespace RunLogs

variable (run : RunLogs)

/-- The merge returns, it holds events of the logs only, and each log's events stand in it in the
order of the log, those that truly happened in time, with the time truly elapsed since the earliest
start. -/
def MergesRight (duration : Int) : Prop :=
  ∃ macToNum merged,
    mergeLogs (run.files.map NodeLog.file) duration = some (macToNum, merged) ∧
    combineLogs (run.files.map NodeLog.plain) duration =
      some (macToNum, merged.map fun entry => (entry.time, entry.event)) ∧
    (∀ entry ∈ merged, ∃ log ∈ run.logs, entry.origin.log = log.name) ∧
    ∀ first ∈ run.firstStart, ∀ log ∈ run.logs,
      merged.filter (fun entry => entry.origin.log = log.name) =
        log.entries (fun real => real - first) duration

/-- No midnight between two points in time. -/
def SameDay (a b : Int) : Prop := a / microsPerDay = b / microsPerDay

/-- If an event is in time, truly or by the times of day, there is no midnight between the earliest
start and the other starts, nor between it and the event. -/
def NoMidnight (duration : Int) : Prop :=
  ∀ first ∈ run.firstStart, ∀ firstClock ∈ run.firstClock, ∀ log ∈ run.logs, ∀ e ∈ log.events,
    (e.1.real - first < duration * microsPerSecond ∨
      clock e.1.real - firstClock < duration * microsPerSecond) →
    (∀ start ∈ run.starts, SameDay first start) ∧ SameDay first e.1.real

end RunLogs

end Diplom
