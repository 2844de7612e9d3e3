import Diplom.Proof.GraphText
import Diplom.Spec.NodeLogs

/-!
# What the merge reads of the logs

What the logger writes for a time of day is read as this time, and where a line comes from makes no
difference to the merge.
-/

namespace Diplom

open Python

/-! ### Reading back a time of day -/

private theorem timeField_hour : ∀ n < 24, timeField 2 4 (padded 2 n) = some n := by
  decide +kernel

private theorem timeField_sixtieth : ∀ n < 60, timeField 6 0 (padded 2 n) = some n := by
  decide +kernel

private theorem mapM_byteDigit {text : Text} (h : AllDigits text) :
    text.mapM byteDigit = some (text.map fun c => c.toNat - 48) := by
  induction text with
  | nil => rfl
  | cons c text ih =>
      have hc : byteDigit c = some (c.toNat - 48) := by
        rw [byteDigit, if_pos (h c List.mem_cons_self)]
      rw [List.mapM_cons, hc, ih fun d hd => h d (List.mem_cons_of_mem c hd)]
      rfl

private theorem fractionField_padded {n : Nat} (hn : n < 10 ^ 6) :
    fractionField (padded 6 n) = some n := by
  have hlength : (padded 6 n).length = 6 := length_padded (by omega) hn
  have hvalue : (padded 6 n).foldl (fun sofar c => 10 * sofar + (c.toNat - 48)) 0 = n :=
    ofDigitChars_padded 6 n
  have hsize : ¬(padded 6 n = [] ∨ 6 < (padded 6 n).length) := by
    rw [hlength]
    have hne := padded_ne_nil 6 n
    tauto
  rw [fractionField, if_neg hsize, mapM_byteDigit (allDigits_padded 6 n), hlength]
  simp [List.foldl_map, hvalue]

private theorem notMem_padded {c : Char} (hc : c.isDigit = false) (width n : Nat) :
    c ∉ padded width n := by
  intro hmem
  rw [allDigits_padded width n c hmem] at hc
  exact absurd hc (by decide)

theorem strptime_padded {hours minutes seconds micros : Nat} (hhours : hours < 24)
    (hminutes : minutes < 60) (hseconds : seconds < 60) (hmicros : micros < 10 ^ 6) :
    strptime (padded 2 hours ++ ':' :: padded 2 minutes ++ ':' :: padded 2 seconds ++ '.' ::
      padded 6 micros)
      = some (microsPerHour * hours + microsPerMinute * minutes + microsPerSecond * seconds
        + micros) := by
  have hcolon : ∀ width n, ':' ∉ padded width n := notMem_padded rfl
  have hpoint : ∀ width n, '.' ∉ padded width n := notMem_padded rfl
  have hrest : ':' ∉ padded 2 seconds ++ '.' :: padded 6 micros := by
    simp [hcolon]
  rw [strptime]
  simp only [List.append_assoc, List.cons_append]
  rw [List.splitOn_append_cons_self_of_not_mem (hcolon 2 hours),
    List.splitOn_append_cons_self_of_not_mem (hcolon 2 minutes), List.splitOn_eq_singleton hrest]
  simp only []
  rw [List.splitOn_append_cons_self_of_not_mem (hpoint 2 seconds),
    List.splitOn_eq_singleton (hpoint 6 micros)]
  simp only [timeField_hour hours hhours, timeField_sixtieth minutes hminutes,
    timeField_sixtieth seconds hseconds, fractionField_padded hmicros]
  rfl

theorem clock_nonneg (t : Int) : 0 ≤ clock t := Int.emod_nonneg t (by decide)

theorem clock_lt (t : Int) : clock t < microsPerDay := Int.emod_lt_of_pos t (by decide)

theorem strptime_getDatetimeStr (t : Int) : strptime (getDatetimeStr t) = some (clock t) := by
  have hnonneg := clock_nonneg t
  have hlt := clock_lt t
  rw [getDatetimeStr]
  simp only [microsPerDay, microsPerHour, microsPerMinute, microsPerSecond] at hlt ⊢
  rw [strptime_padded (by omega) (by omega) (by omega) (by omega)]
  simp only [microsPerHour, microsPerMinute, microsPerSecond]
  apply congrArg some
  omega

/-! ### The code does not look at the origins -/

section Retold

variable {Origin Origin' : Type} (f : Origin → Origin')

def retold (lines : List (Origin × Text)) : List (Origin' × Text) :=
  lines.map fun line => (f line.1, line.2)

def LogEntry.retold (entry : LogEntry Origin) : LogEntry Origin' :=
  ⟨f entry.origin, entry.time, entry.event⟩

private theorem findStart_retold (lines : List (Origin × Text)) :
    findStart (retold f lines) = (findStart lines).map fun s =>
      ⟨f s.origin, s.timeStr, s.mac, retold f s.rest⟩ := by
  induction lines with
  | nil => rfl
  | cons line rest ih =>
      change findStart ((f line.1, line.2) :: retold f rest) = _
      simp only [findStart]
      cases startPattern (strip Python.isSpace line.2) with
      | none => exact ih
      | some m => rfl

private theorem earlierStart_retold (time : Option Int) (file : LogFile Origin) :
    earlierStart time (file.1, retold f file.2) = earlierStart time file := by
  rw [earlierStart, earlierStart, findStart_retold]
  cases findStart file.2 <;> rfl

private theorem macOf_retold (file : LogFile Origin) :
    macOf (file.1, retold f file.2) = macOf file := by
  rw [macOf, macOf, findStart_retold]
  cases findStart file.2 <;> rfl

private theorem readEventLine_retold (timeStart duration : Int) (mac : Text)
    (line : Origin × Text) :
    readEventLine timeStart duration mac (f line.1, line.2) =
      (readEventLine timeStart duration mac line).map (LogEntry.retold f) := by
  rw [readEventLine, readEventLine, Option.map_bind]
  congr 1
  funext m
  rw [Function.comp_apply, Option.map_bind]
  congr 1
  funext time
  rw [Function.comp_apply]
  split <;> rfl

private theorem readLog_retold (timeStart duration : Int) (file : LogFile Origin) :
    readLog timeStart duration (file.1, retold f file.2) =
      (readLog timeStart duration file).map (LogEntry.retold f) := by
  rw [readLog, readLog, findStart_retold]
  cases findStart file.2 with
  | none => rfl
  | some s =>
      simp only [Option.map_some, retold, List.filterMap_map, List.map_filterMap]
      congr 1
      funext line
      exact readEventLine_retold f timeStart duration (upper s.mac) line

private theorem sortedLogs_retold (files : List (LogFile Origin)) :
    sortedLogs (files.map fun file => (file.1, retold f file.2)) =
      (sortedLogs files).map fun file => (file.1, retold f file.2) := by
  rw [sortedLogs, ← List.map_insertionSort (fun x y : LogFile Origin => x.1 ≤ y.1)]
  · rw [List.filter_map]
    rfl
  · intro a _ b _
    exact Iff.rfl

theorem mergeLogs_retold (files : List (LogFile Origin)) (duration : Int) :
    mergeLogs (files.map fun file => (file.1, retold f file.2)) duration =
      (mergeLogs files duration).map fun result =>
        (result.1, result.2.map (LogEntry.retold f)) := by
  have hstart : ∀ time,
      ((sortedLogs files).map fun file => (file.1, retold f file.2)).foldlM earlierStart time =
        (sortedLogs files).foldlM earlierStart time := by
    intro time
    rw [List.foldlM_map]
    simp only [earlierStart_retold]
  simp only [mergeLogs, sortedLogs_retold, hstart, Option.map_map]
  congr 1
  funext timeStart
  cases timeStart with
  | none => rfl
  | some timeStart =>
      have hmacs : ((sortedLogs files).map fun file => (file.1, retold f file.2)).filterMap macOf =
          (sortedLogs files).filterMap macOf := by
        rw [List.filterMap_map]
        congr 1
        funext file
        exact macOf_retold f file
      have hentries : ((sortedLogs files).map fun file => (file.1, retold f file.2)).flatMap
            (readLog timeStart duration) =
          ((sortedLogs files).flatMap (readLog timeStart duration)).map (LogEntry.retold f) := by
        rw [List.flatMap_map, List.map_flatMap]
        congr 1
        funext file
        exact readLog_retold f timeStart duration file
      simp only [hmacs, hentries, Function.comp_apply]
      rw [← List.map_insertionSort (fun x y : LogEntry Origin => x.time ≤ y.time)]
      intro a _ b _
      exact Iff.rfl

end Retold

/-- What is merged is what the merge with the origins has, without them. -/
theorem combineLogs_plain (files : List NodeLog) (duration : Int) :
    combineLogs (files.map NodeLog.plain) duration =
      (mergeLogs (files.map NodeLog.file) duration).map fun result =>
        (result.1, result.2.map fun entry => (entry.time, entry.event)) := by
  have hfiles :
      (files.map NodeLog.plain).map (fun file => (file.1, file.2.map fun line => ((), line))) =
        (files.map NodeLog.file).map fun file => (file.1, retold (fun _ => ()) file.2) := by
    rw [List.map_map, List.map_map]
    congr 1
    funext log
    have hlines : log.lines.map (fun line => ((), line.2)) =
        log.lines.zipIdx.map fun line => ((), line.1.2) := by
      conv_lhs => rw [← List.zipIdx_map_fst 0 log.lines, List.map_map]
      rfl
    simp [NodeLog.plain, NodeLog.file, retold, Function.comp_def, hlines]
  rw [combineLogs, hfiles, mergeLogs_retold, Option.map_map]
  congr 1
  funext result
  simp [LogEntry.retold, Function.comp_def]

/-! ### The logs that the logger has written -/

theorem findStart_eq_some {Origin : Type} {lines : List (Origin × Text)} {s : Started Origin}
    (h : findStart lines = some s) :
    ∃ before line, lines = before ++ line :: s.rest ∧ line.1 = s.origin ∧
      startPattern (strip Python.isSpace line.2) = some (s.timeStr, s.mac) := by
  induction lines with
  | nil => exact absurd h (by simp [findStart])
  | cons line rest ih =>
      rw [findStart] at h
      split at h
      · rename_i m hm
        obtain rfl := Option.some.inj h
        exact ⟨[], line, rfl, rfl, hm⟩
      · obtain ⟨before, start, rfl, horigin, hmatch⟩ := ih h
        exact ⟨line :: before, start, rfl, horigin, hmatch⟩

namespace NodeLog

variable {log : NodeLog}

theorem mem_file {line : Origin × Text} (h : line ∈ log.file.2) :
    (line.1.real, line.2) ∈ log.lines ∧ line.1.log = log.name := by
  obtain ⟨numbered, hmem, rfl⟩ := List.mem_map.mp h
  exact ⟨List.fst_mem_of_mem_zipIdx hmem, rfl⟩

/-- The start line is one of the log, and so are the lines after it. -/
theorem mem_of_start {s : Started Origin} (h : log.start = some s) :
    (∃ text, (s.origin, text) ∈ log.file.2) ∧ ∀ line ∈ s.rest, line ∈ log.file.2 := by
  obtain ⟨before, line, hlines, horigin, -⟩ := findStart_eq_some h
  rw [hlines]
  refine ⟨⟨line.2, ?_⟩, fun later hlater => ?_⟩
  · rw [← horigin]
    exact List.mem_append_right before List.mem_cons_self
  · exact List.mem_append_right before (List.mem_cons_of_mem line hlater)

theorem Stamped.start_time (h : log.Stamped) {s : Started Origin} (hs : log.start = some s) :
    strptime s.timeStr = some (clock s.origin.real) := by
  obtain ⟨before, line, hlines, horigin, hmatch⟩ := findStart_eq_some hs
  have hmem : line ∈ log.file.2 := by
    rw [hlines]
    exact List.mem_append_right before List.mem_cons_self
  have htime : s.timeStr = getDatetimeStr line.1.real := (h _ (mem_file hmem).1).1 _ hmatch
  rw [horigin] at htime
  rw [htime, strptime_getDatetimeStr]

theorem Stamped.readLog_eq (h : log.Stamped) (timeStart duration : Int) :
    readLog timeStart duration log.file =
      log.entries (fun real => clock real - timeStart) duration := by
  rw [readLog, entries, events]
  cases hs : log.start with
  | none =>
      rw [show findStart log.file.2 = none from hs]
      rfl
  | some s =>
      rw [show findStart log.file.2 = some s from hs]
      simp only [List.filterMap_filterMap]
      apply List.filterMap_congr
      intro line hline
      rw [readEventLine]
      cases hevent : eventOf (strip Python.isSpace line.2) with
      | none => rfl
      | some m =>
          have hmem := (mem_file ((mem_of_start hs).2 line hline)).1
          have htime : m.1 = getDatetimeStr line.1.real := (h _ hmem).2 m hevent
          simp only [Option.bind_some, Option.map_some, htime, strptime_getDatetimeStr]

def startClock (log : NodeLog) : Option Int := log.start.map fun s => clock s.origin.real

theorem Stamped.earlierStart_eq (h : log.Stamped) (time : Option Int) :
    earlierStart time log.file = some ((time.toList ++ log.startClock.toList).min?) := by
  rw [earlierStart, startClock]
  cases hs : log.start with
  | none =>
      rw [show findStart log.file.2 = none from hs]
      cases time <;> rfl
  | some s =>
      rw [show findStart log.file.2 = some s from hs]
      simp only [h.start_time hs, Option.map_some]
      cases time with
      | none => rfl
      | some time =>
          simp only [Option.toList_some, List.cons_append, List.nil_append, List.min?_cons',
            List.foldl_cons, List.foldl_nil]
          split
          · rw [min_eq_right (by omega)]
          · rw [min_eq_left (by omega)]

theorem foldlM_earlierStart {logs : List NodeLog} (h : ∀ log ∈ logs, log.Stamped)
    (time : Option Int) :
    (logs.map file).foldlM earlierStart time =
      some ((time.toList ++ logs.filterMap startClock).min?) := by
  induction logs generalizing time with
  | nil => cases time <;> rfl
  | cons log logs ih =>
      have hmin : ∀ front back : List Int,
          (front.min?.toList ++ back).min? = (front ++ back).min? := by
        intro front back
        cases front with
        | nil => rfl
        | cons a front =>
            rw [List.min?_cons', List.cons_append, List.min?_cons', List.foldl_append]
            rfl
      rw [List.map_cons, List.foldlM_cons, (h log List.mem_cons_self).earlierStart_eq]
      refine (ih (fun log hlog => h log (List.mem_cons_of_mem _ hlog)) _).trans ?_
      rw [hmin, List.append_assoc]
      cases hs : log.startClock with
      | none => rw [List.filterMap_cons_none hs]; rfl
      | some clock => rw [List.filterMap_cons_some hs]; rfl

end NodeLog

end Diplom
