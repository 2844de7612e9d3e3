import Diplom.Emulator.GraphText
import Diplom.Lib.Python
import Mathlib.Data.Char
import Mathlib.Data.List.Lex

/-!
# Merging the logs of the nodes

`combine_logs` goes through the files of a directory twice: first for the earliest start, then for
the events. A line is matched from its beginning; the group for the time is as short as the rest of
the pattern allows.

The logger writes the time of day only, so `strptime` gives microseconds since midnight, of a day
that is the same for all lines. Beside each line stands its origin, which the code does not look at.
-/

namespace Diplom

open Python

/-! ### The time of day -/

def microsPerHour : Nat := 3600 * microsPerSecond

def microsPerMinute : Nat := 60 * microsPerSecond

/-- The time of day of a point in time. -/
def clock (t : Int) : Int := t % microsPerDay

/-- `get_datetime_str` in its short variant. -/
def getDatetimeStr (t : Int) : Text :=
  let now := (clock t).toNat
  padded 2 (now / microsPerHour) ++ ':' :: padded 2 (now / microsPerMinute % 60) ++ ':' ::
    padded 2 (now / microsPerSecond % 60) ++ '.' :: padded 6 (now % microsPerSecond)

/-- `%H`, `%M` or `%S`: one digit, or two of which the first is below `tens`, or is `tens` and the
second below `units`. -/
def timeField (tens units : Nat) : Text → Option Nat
  | [c] => digit c
  | [a, b] =>
      (byteDigit a).bind fun ten =>
        if ten < tens then (digit b).map fun unit => 10 * ten + unit
        else (byteDigit b).bind fun unit =>
          if ten = tens ∧ unit < units then some (10 * ten + unit) else none
  | _ => none

/-- `%f`: up to six digits, of which the first counts tenths. -/
def fractionField (text : Text) : Option Nat :=
  if text = [] ∨ 6 < text.length then none
  else (text.mapM byteDigit).map fun digits =>
    digits.foldl (fun n d => 10 * n + d) 0 * 10 ^ (6 - text.length)

/-- `datetime.strptime(time_str, "%H:%M:%S.%f")`, nothing for a `ValueError`. -/
def strptime (timeStr : Text) : Option Int :=
  match timeStr.splitOn ':' with
  | [hours, minutes, rest] =>
      match rest.splitOn '.' with
      | [seconds, fraction] => do
          let hour ← timeField 2 4 hours
          let minute ← timeField 6 0 minutes
          let second ← timeField 6 0 seconds
          let micros ← fractionField fraction
          some (microsPerHour * hour + microsPerMinute * minute + microsPerSecond * second + micros)
      | _ => none
  | _ => none

/-! ### The patterns -/

/-- The shortest front of a text behind which `rest` matches. -/
def lazyGroup {α : Type} (rest : Text → Option α) : Text → Option (Text × α)
  | [] => (rest []).map fun a => ([], a)
  | c :: text =>
      match rest (c :: text) with
      | some a => some ([], a)
      | none => if c = '\n' then none else (lazyGroup rest text).map fun m => (c :: m.1, m.2)

/-- Characters as they stand in a pattern. -/
def literal (front text : Text) : Option Text :=
  if front.isPrefixOf text then some (text.drop front.length) else none

/-- `[\dA-Fa-f:]`. -/
def isMacChar (c : Char) : Bool :=
  (digit c).isSome ∨ ('A' ≤ c ∧ c ≤ 'F') ∨ ('a' ≤ c ∧ c ≤ 'f') ∨ c = ':'

/-- `([\dA-Fa-f:]{17})` at the end of a pattern. -/
def macGroup (text : Text) : Option Text :=
  if 17 ≤ text.length ∧ (text.take 17).all isMacChar then some (text.take 17) else none

/-- `(INCOMING|OUTGOING)`. -/
def directionGroup (text : Text) : Option (SessionDirection × Text) :=
  match literal "INCOMING".toList text with
  | some rest => some (.incoming, rest)
  | none => (literal "OUTGOING".toList text).map fun rest => (.outgoing, rest)

/-- `\[(.*?)\]` and what follows it. -/
def timePattern {α : Type} (rest : Text → Option α) (line : Text) : Option (Text × α) :=
  (literal ['['] line).bind fun line =>
    lazyGroup (fun text => (literal [']'] text).bind rest) line

/-- `start_pattern`. -/
def startPattern (line : Text) : Option (Text × Text) :=
  timePattern (fun text =>
    (literal "IpTransport:INFO:Start:IP transport started with pid: ".toList text).bind macGroup)
    line

/-- A pattern for a neighbour. -/
def neighborPattern (front : Text) (line : Text) : Option (Text × Text) :=
  timePattern (fun text => (literal front text).bind macGroup) line

/-- A pattern for a link. -/
def linkPattern (front back : Text) (line : Text) : Option (Text × SessionDirection × Text) :=
  timePattern (fun text => (literal front text).bind fun text =>
    (directionGroup text).bind fun dir =>
      ((literal back dir.2).bind macGroup).map fun mac => (dir.1, mac)) line

/-- `neighbor_found_pattern`. -/
def neighborFoundPattern (line : Text) : Option (Text × Text) :=
  neighborPattern "IpTransport:INFO:OnNeighborFound:Found new neighbor: ".toList line

/-- `neighbor_lost_pattern`. -/
def neighborLostPattern (line : Text) : Option (Text × Text) :=
  neighborPattern "IpTransport:INFO:OnNeighborLost:Lost neighbor: ".toList line

/-- `link_establish_pattern`. -/
def linkEstablishPattern (line : Text) : Option (Text × SessionDirection × Text) :=
  linkPattern "IpTransport:INFO:OnLinkEstablishing:".toList " session opened with peer ".toList line

/-- `link_closed_pattern`. -/
def linkClosedPattern (line : Text) : Option (Text × SessionDirection × Text) :=
  linkPattern "IpTransport:INFO:OnLinkClosed:".toList " session closed with peer ".toList line

/-- `upper`. -/
def upper (text : Text) : Text := text.map Char.toUpper

/-- `keyword in line`. -/
def containsText (keyword line : Text) : Bool := line.tails.any fun text => keyword.isPrefixOf text

/-- What a line says of which peer, and when: the first keyword that it contains decides which
pattern it is matched against. -/
def eventOf (line : Text) : Option (Text × What × Text) :=
  if containsText "OnNeighborFound".toList line then
    (neighborFoundPattern line).map fun m => (m.1, .saw, upper m.2)
  else if containsText "OnNeighborLost".toList line then
    (neighborLostPattern line).map fun m => (m.1, .lost, upper m.2)
  else if containsText "OnLinkEstablishing".toList line then
    (linkEstablishPattern line).map fun m => (m.1, .opened m.2.1, upper m.2.2)
  else if containsText "OnLinkClosed".toList line then
    (linkClosedPattern line).map fun m => (m.1, .closed m.2.1, upper m.2.2)
  else none

/-! ### The files -/

/-- A file of the directory: its name and its lines. -/
abbrev LogFile (Origin : Type) := Text × List (Origin × Text)

/-- A start line, and what comes after it. -/
structure Started (Origin : Type) where
  origin : Origin
  timeStr : Text
  mac : Text
  rest : List (Origin × Text)

/-- An element of `all_events`, with the line that it comes from. -/
structure LogEntry (Origin : Type) where
  origin : Origin
  time : Timedelta
  event : NodeEvent Text
deriving DecidableEq

section Files

variable {Origin : Type}

/-- `filename.startswith('log_')`. -/
def isLog (name : Text) : Bool := "log_".toList.isPrefixOf name

/-- `filename.split('_')[1].split('.')[0]`. -/
def logNum (name : Text) : Text := (((name.splitOn '_')[1]?.getD []).splitOn '.').headD []

/-- `sorted(os.listdir(logs_path))` without the files that are passed over. -/
def sortedLogs (files : List (LogFile Origin)) : List (LogFile Origin) :=
  (files.insertionSort fun x y => x.1 ≤ y.1).filter fun file => isLog file.1

/-- The first line that matches `start_pattern`. -/
def findStart : List (Origin × Text) → Option (Started Origin)
  | [] => none
  | line :: rest =>
      match startPattern (strip Python.isSpace line.2) with
      | some m => some ⟨line.1, m.1, m.2, rest⟩
      | none => findStart rest

/-- One file in the first loop, nothing for the exception of a start line without a time. -/
def earlierStart (timeStart : Option Int) (file : LogFile Origin) : Option (Option Int) :=
  match findStart file.2 with
  | none => some timeStart
  | some started =>
      (strptime started.timeStr).map fun logStart =>
        match timeStart with
        | none => some logStart
        | some time => if logStart < time then some logStart else some time

/-- A line after the start line in the second loop. An exception of `strptime` passes it over, and
an empty time would end in one. -/
def readEventLine (timeStart : Int) (duration : Int) (macAddress : Text) (line : Origin × Text) :
    Option (LogEntry Origin) :=
  (eventOf (strip Python.isSpace line.2)).bind fun m =>
    (strptime m.1).bind fun time =>
      if time - timeStart < duration * microsPerSecond then
        some ⟨line.1, time - timeStart, ⟨macAddress, m.2.1, m.2.2⟩⟩
      else none

/-- The address that a log gives its node. -/
def macOf (file : LogFile Origin) : Option (Text × Text) :=
  (findStart file.2).map fun started => (upper started.mac, logNum file.1)

/-- One file in the second loop. -/
def readLog (timeStart : Int) (duration : Int) (file : LogFile Origin) : List (LogEntry Origin) :=
  match findStart file.2 with
  | none => []
  | some started => started.rest.filterMap (readEventLine timeStart duration (upper started.mac))

/-- `combine_logs`, with the origins. Nothing is returned for an exception. -/
def mergeLogs (files : List (LogFile Origin)) (duration : Int) :
    Option (List (Text × Text) × List (LogEntry Origin)) :=
  let logs := sortedLogs files
  (logs.foldlM earlierStart none).map fun timeStart =>
    match timeStart with
    | none => ([], [])
    | some timeStart =>
        (KeyedList.setAll (logs.filterMap macOf) [],
          (logs.flatMap (readLog timeStart duration)).insertionSort fun x y => x.time ≤ y.time)

end Files

/-- `combine_logs`. -/
def combineLogs (files : List (Text × List Text)) (duration : Int) :
    Option (List (Text × Text) × List (Timedelta × NodeEvent Text)) :=
  (mergeLogs (files.map fun file => (file.1, file.2.map fun line => ((), line))) duration).map
    fun result => (result.1, result.2.map fun entry => (entry.time, entry.event))

end Diplom
