import Diplom.Lib.Merge
import Diplom.Proof.LogFiles

/-!
# What the merge makes of a run

The logger writes the time of day, and the merge subtracts two such times. That is the time elapsed
as long as no midnight lies between them. After one the difference is a day too small, which puts
the event before all others and lets it pass the check of the duration.
-/

namespace Diplom

instance {Origin : Type} : Std.Total fun x y : LogEntry Origin => x.time ≤ y.time :=
  ⟨fun x y => le_total x.time y.time⟩

instance {Origin : Type} : IsTrans (LogEntry Origin) fun x y => x.time ≤ y.time :=
  ⟨fun _ _ _ => le_trans⟩

/-! ### The events of a log -/

namespace NodeLog

variable {log : NodeLog} {elapsed : Int → Int} {duration : Int}

theorem mem_events {e : Origin × NodeEvent Text} (h : e ∈ log.events) :
    ∃ s, log.start = some s ∧ e.2.mac1 = upper s.mac ∧
      ∃ line ∈ s.rest, line.1 = e.1 := by
  rw [events] at h
  cases hs : log.start with
  | none =>
      rw [hs] at h
      exact absurd h List.not_mem_nil
  | some s =>
      rw [hs] at h
      obtain ⟨line, hline, hevent⟩ := List.mem_filterMap.mp h
      obtain ⟨m, -, rfl⟩ := Option.map_eq_some_iff.mp hevent
      exact ⟨s, rfl, rfl, line, hline, rfl⟩

theorem mem_entries {entry : LogEntry Origin} :
    entry ∈ log.entries elapsed duration ↔ ∃ e ∈ log.events,
      elapsed e.1.real < duration * microsPerSecond ∧
        entry = ⟨e.1, elapsed e.1.real, e.2⟩ := by
  rw [entries, List.mem_filterMap]
  refine exists_congr fun e => and_congr_right fun _ => ?_
  split
  · rename_i hlt
    simp [hlt, eq_comm]
  · rename_i hlt
    simp [hlt]

theorem events_log {e : Origin × NodeEvent Text} (h : e ∈ log.events) : e.1.log = log.name := by
  obtain ⟨s, hs, -, line, hline, horigin⟩ := mem_events h
  rw [← horigin]
  exact (mem_file ((mem_of_start hs).2 line hline)).2

theorem entries_log {entry : LogEntry Origin} (h : entry ∈ log.entries elapsed duration) :
    entry.origin.log = log.name := by
  obtain ⟨e, he, -, rfl⟩ := mem_entries.mp h
  exact events_log he

/-- The lines after the start line are in the order of time. -/
theorem pairwise_rest (hlines : (log.lines.map Prod.fst).Pairwise (· ≤ ·)) {s : Started Origin}
    (hs : log.start = some s) :
    s.rest.Pairwise fun line later => line.1.real ≤ later.1.real := by
  have hfile : log.file.2.Pairwise fun line later => line.1.real ≤ later.1.real := by
    have hreal : log.lines.map Prod.fst = log.file.2.map fun line => line.1.real := by
      conv_lhs => rw [← List.zipIdx_map_fst 0 log.lines, List.map_map]
      simp [file, Function.comp_def]
    rw [hreal, List.pairwise_map] at hlines
    exact hlines
  obtain ⟨before, line, hsplit, -, -⟩ := findStart_eq_some hs
  rw [hsplit] at hfile
  exact (List.pairwise_append.mp hfile).2.1.of_cons

theorem pairwise_events (hlines : (log.lines.map Prod.fst).Pairwise (· ≤ ·)) :
    log.events.Pairwise fun e later => e.1.real ≤ later.1.real := by
  rw [events]
  cases hs : log.start with
  | none => exact List.Pairwise.nil
  | some s =>
      refine (pairwise_rest hlines hs).filterMap _ ?_
      intro line later hle e he e' he'
      obtain ⟨m, -, rfl⟩ := Option.map_eq_some_iff.mp he
      obtain ⟨m', -, rfl⟩ := Option.map_eq_some_iff.mp he'
      exact hle

/-- Where the elapsed times do not go back, the events in time are in their order. -/
theorem pairwise_entries
    (hevents : log.events.Pairwise fun e later => elapsed e.1.real ≤ elapsed later.1.real) :
    (log.entries elapsed duration).Pairwise fun x y => x.time ≤ y.time := by
  refine hevents.filterMap _ ?_
  intro e later hle x hx y hy
  split at hx
  · split at hy
    · obtain rfl := Option.some.inj hx
      obtain rfl := Option.some.inj hy
      exact hle
    · exact absurd hy (by simp)
  · exact absurd hx (by simp)

theorem entries_eq_map : log.entries elapsed duration =
    (log.events.filter fun e => elapsed e.1.real < duration * microsPerSecond).map
      fun e => ⟨e.1, elapsed e.1.real, e.2⟩ := by
  rw [entries, ← List.filterMap_eq_map, List.filterMap_filter]
  apply List.filterMap_congr
  intro e _
  simp only [decide_eq_true_eq, Function.comp_apply]

end NodeLog

/-! ### The merge of a directory -/

namespace NodeLogs

variable (run : NodeLogs) {log : NodeLog}

/-- The files that are read, in the order of their names. -/
def read : List NodeLog :=
  (run.files.insertionSort fun x y => x.name ≤ y.name).filter fun log => isLog log.name

theorem read_perm : run.read.Perm run.logs :=
  (List.perm_insertionSort _ run.files).filter _

theorem mem_read : log ∈ run.read ↔ log ∈ run.logs := run.read_perm.mem_iff

theorem stamped_read (h : log ∈ run.read) : log.Stamped :=
  run.stamped log (List.mem_of_mem_filter (run.mem_read.mp h))

theorem nodup_read : (run.read.map NodeLog.name).Nodup := by
  have hlogs : (run.logs.map NodeLog.name).Nodup :=
    run.names.sublist (List.filter_sublist.map NodeLog.name)
  exact (run.read_perm.map NodeLog.name).nodup_iff.mpr hlogs

theorem sortedLogs_file : sortedLogs (run.files.map NodeLog.file) = run.read.map NodeLog.file := by
  rw [sortedLogs, ← List.map_insertionSort (fun x y : NodeLog => x.name ≤ y.name)]
  · rw [List.filter_map]
    rfl
  · intro a _ b _
    exact Iff.rfl

theorem map_clock_starts : run.starts.map clock = run.logs.filterMap NodeLog.startClock := by
  rw [starts, List.map_filterMap]
  apply List.filterMap_congr
  intro log _
  rw [Option.map_map]
  rfl

theorem firstClock_eq : (run.read.filterMap NodeLog.startClock).min? = run.firstClock := by
  have hperm := run.read_perm.filterMap NodeLog.startClock
  rw [firstClock, map_clock_starts]
  cases hmin : (run.logs.filterMap NodeLog.startClock).min? with
  | none =>
      rw [List.min?_eq_none_iff] at hmin ⊢
      rw [hmin] at hperm
      exact hperm.eq_nil
  | some first =>
      rw [List.min?_eq_some_iff] at hmin ⊢
      exact ⟨hperm.mem_iff.mpr hmin.1, fun time htime => hmin.2 time (hperm.mem_iff.mp htime)⟩

/-- The events in time by the times of day, in the order of these times. -/
def merged (first duration : Int) : List (LogEntry Origin) :=
  (run.read.flatMap fun log => log.entries (fun real => clock real - first) duration).insertionSort
    fun x y => x.time ≤ y.time

theorem mergeLogs_eq (duration : Int) :
    mergeLogs (run.files.map NodeLog.file) duration =
      some (match run.firstClock with
        | none => ([], [])
        | some first =>
            (KeyedList.setAll (run.read.filterMap fun log => macOf log.file) [],
              run.merged first duration)) := by
  simp only [mergeLogs, sortedLogs_file]
  rw [NodeLog.foldlM_earlierStart (fun log hlog => run.stamped_read hlog), Option.toList_none,
    List.nil_append, firstClock_eq, Option.map_some]
  congr 1
  cases run.firstClock with
  | none => rfl
  | some first =>
      have hentries : ((run.read.map NodeLog.file).flatMap (readLog first duration)) =
          run.read.flatMap fun log => log.entries (fun real => clock real - first) duration := by
        rw [List.flatMap_map]
        apply List.flatMap_congr
        intro log hlog
        exact (run.stamped_read hlog).readLog_eq first duration
      simp only [List.filterMap_map, hentries]
      rfl

theorem filter_merged (h : log ∈ run.logs) (first duration : Int) :
    (run.merged first duration).filter (fun entry => entry.origin.log = log.name) =
      (log.entries (fun real => clock real - first) duration).insertionSort
        fun x y => x.time ≤ y.time := by
  apply Merge.filter_merge
  · intro log' _ entry hentry
    exact NodeLog.entries_log hentry
  · exact run.nodup_read
  · exact run.mem_read.mpr h

theorem mem_merged {first duration : Int} {entry : LogEntry Origin}
    (h : entry ∈ run.merged first duration) :
    ∃ log ∈ run.logs, entry ∈ log.entries (fun real => clock real - first) duration := by
  obtain ⟨log, hlog, hentry⟩ := List.mem_flatMap.mp ((List.mem_insertionSort _).mp h)
  exact ⟨log, run.mem_read.mp hlog, hentry⟩

end NodeLogs

/-! ### One run -/

namespace RunLogs

variable (run : RunLogs)

theorem clock_sub_eq_iff {starts : List Int} {first firstClock real : Int}
    (hfirst : starts.min? = some first) (hclock : (starts.map clock).min? = some firstClock)
    (hstarts : ∀ start ∈ starts, start < first + microsPerDay) :
    clock real - firstClock = real - first ↔
      (∀ start ∈ starts, SameDay first start) ∧ SameDay first real := by
  rw [List.min?_eq_some_iff] at hfirst hclock
  obtain ⟨hmem, hmin⟩ := hfirst
  obtain ⟨hmemClock, hminClock⟩ := hclock
  obtain ⟨earliest, hearliest, rfl⟩ := List.mem_map.mp hmemClock
  have hlate : ∀ start ∈ starts, clock earliest ≤ clock start :=
    fun start hstart => hminClock _ (List.mem_map_of_mem hstart)
  have hle_first := hlate first hmem
  have hearly := hmin earliest hearliest
  simp only [SameDay, clock, microsPerDay, microsPerSecond] at *
  constructor
  · intro heq
    refine ⟨fun start hstart => ?_, by omega⟩
    have hclock := hlate start hstart
    have hafter := hmin start hstart
    have hday := hstarts start hstart
    omega
  · rintro ⟨hsame, hday⟩
    have hearliest_day := hsame earliest hearliest
    omega

theorem mem_starts {start : Int} (h : start ∈ run.starts) :
    ∃ log ∈ run.logs, ∃ s, log.start = some s ∧ s.origin.real = start := by
  obtain ⟨log, hlog, hstart⟩ := List.mem_filterMap.mp h
  obtain ⟨s, hs, rfl⟩ := Option.map_eq_some_iff.mp hstart
  exact ⟨log, hlog, s, hs, rfl⟩

variable {run}

theorem start_within {first : Int} (hfirst : run.firstStart = some first) {start : Int}
    (hstart : start ∈ run.starts) : start < first + microsPerDay := by
  obtain ⟨hmem, -⟩ := List.min?_eq_some_iff.mp hfirst
  obtain ⟨log, hlog, s, hs, rfl⟩ := run.mem_starts hstart
  obtain ⟨log', hlog', s', hs', hreal⟩ := run.mem_starts hmem
  obtain ⟨⟨text, hline⟩, -⟩ := NodeLog.mem_of_start hs
  obtain ⟨⟨text', hline'⟩, -⟩ := NodeLog.mem_of_start hs'
  have hshort := run.short log' hlog' log hlog _ (NodeLog.mem_file hline').1 _
    (NodeLog.mem_file hline).1
  simp only [hreal] at hshort
  omega

/-- The time elapsed by the clock is the true one exactly if no midnight comes between. -/
theorem elapsed_eq_iff {first firstClock : Int} (hfirst : run.firstStart = some first)
    (hclock : run.firstClock = some firstClock) (real : Int) :
    clock real - firstClock = real - first ↔
      (∀ start ∈ run.starts, SameDay first start) ∧ SameDay first real :=
  clock_sub_eq_iff hfirst hclock fun _ hstart => start_within hfirst hstart

/-- If no midnight comes between, each log gives the same events with the same times by the clock
as it does truly. -/
theorem NoMidnight.entries_eq {duration : Int} (h : run.NoMidnight duration)
    {first firstClock : Int} (hfirst : run.firstStart = some first)
    (hclock : run.firstClock = some firstClock) {log : NodeLog} (hlog : log ∈ run.logs) :
    log.entries (fun real => clock real - firstClock) duration =
      log.entries (fun real => real - first) duration := by
  apply List.filterMap_congr
  intro e he
  simp only []
  by_cases htime : e.1.real - first < duration * microsPerSecond ∨
      clock e.1.real - firstClock < duration * microsPerSecond
  · have hsame := h first hfirst firstClock hclock log hlog e he htime
    rw [(elapsed_eq_iff hfirst hclock e.1.real).mpr hsame]
  · rw [not_or] at htime
    rw [if_neg htime.1, if_neg htime.2]

theorem exists_firstClock {first : Int} (hfirst : run.firstStart = some first) :
    ∃ firstClock, run.firstClock = some firstClock := by
  cases hclock : run.firstClock with
  | some firstClock => exact ⟨firstClock, rfl⟩
  | none =>
      rw [NodeLogs.firstClock, List.min?_eq_none_iff, List.map_eq_nil_iff] at hclock
      rw [NodeLogs.firstStart, hclock] at hfirst
      exact absurd hfirst (by simp)

/-- The merge of a run keeps each log's order and gives the true times exactly if no midnight comes
between the earliest start and another start or an event in time. -/
theorem mergesRight_iff (run : RunLogs) (duration : Int) :
    run.MergesRight duration ↔ run.NoMidnight duration := by
  have hmerge := run.mergeLogs_eq duration
  constructor
  · rintro ⟨macToNum, merged, hmerged, -, -, hlogs⟩
    intro first hfirst firstClock hclock log hlog e he htime
    rw [hmerge, hclock] at hmerged
    obtain ⟨-, rfl⟩ := Prod.mk.inj (Option.some.inj hmerged)
    have hentries := hlogs first hfirst log hlog
    rw [run.filter_merged hlog] at hentries
    have hmem : ∀ entry, entry ∈ log.entries (fun real => clock real - firstClock) duration ↔
        entry ∈ log.entries (fun real => real - first) duration := by
      intro entry
      rw [← hentries, List.mem_insertionSort]
    apply (elapsed_eq_iff hfirst hclock e.1.real).mp
    rcases htime with htrue | hprinted
    · obtain ⟨e', -, -, heq⟩ :=
        NodeLog.mem_entries.mp ((hmem _).mpr (NodeLog.mem_entries.mpr ⟨e, he, htrue, rfl⟩))
      injection heq with horigin htime
      rw [htime, ← horigin]
    · obtain ⟨e', -, -, heq⟩ :=
        NodeLog.mem_entries.mp ((hmem _).mp (NodeLog.mem_entries.mpr ⟨e, he, hprinted, rfl⟩))
      injection heq with horigin htime
      rw [htime, ← horigin]
  · intro h
    cases hclock : run.firstClock with
    | none =>
        rw [hclock] at hmerge
        refine ⟨_, _, hmerge, ?_, by simp, ?_⟩
        · rw [combineLogs_plain, hmerge]
          rfl
        · intro first hfirst
          obtain ⟨firstClock, hsome⟩ := exists_firstClock hfirst
          exact absurd (hclock.symm.trans hsome) (by simp)
    | some firstClock =>
        rw [hclock] at hmerge
        refine ⟨_, _, hmerge, ?_, ?_, ?_⟩
        · rw [combineLogs_plain, hmerge]
          rfl
        · intro entry hentry
          obtain ⟨log, hlog, hmem⟩ := run.mem_merged hentry
          exact ⟨log, hlog, NodeLog.entries_log hmem⟩
        · intro first hfirst log hlog
          rw [run.filter_merged hlog, h.entries_eq hfirst hclock hlog]
          have hevents := NodeLog.pairwise_events (run.chronological log hlog)
          apply List.Pairwise.insertionSort_eq
          apply NodeLog.pairwise_entries
          exact hevents.imp fun hle => Int.sub_le_sub_right hle first

/-- A node starts a tenth of a second before midnight and finds a neighbour a tenth of a second
after it. -/
def midnightLog : NodeLog where
  name := "log_1".toList
  lines :=
    [(86399900000, ("[23:59:59.900000]IpTransport:INFO:Start:" ++
        "IP transport started with pid: 00:00:00:00:00:01\n").toList),
      (86400100000, ("[00:00:00.100000]IpTransport:INFO:OnNeighborFound:" ++
        "Found new neighbor: 00:00:00:00:00:02\n").toList)]

def midnightRun : RunLogs where
  files := [midnightLog]
  names := by decide +kernel
  stamped := by decide +kernel
  chronological := by decide +kernel
  short := by decide +kernel

/-- The neighbour that is found after midnight has been found almost a day before the start. -/
theorem midnight_puts_event_first :
    ¬ ∀ (run : RunLogs) (duration : Int), run.MergesRight duration := by
  intro h
  obtain ⟨macToNum, merged, hmerged, -, -, hlogs⟩ := h midnightRun 60
  have hresult : mergeLogs (midnightRun.files.map NodeLog.file) 60 =
      some ([("00:00:00:00:00:01".toList, "1".toList)],
        [⟨⟨"log_1".toList, 1, 86400100000⟩, -86399800000,
          ⟨"00:00:00:00:00:01".toList, .saw, "00:00:00:00:00:02".toList⟩⟩]) := by
    decide +kernel
  obtain ⟨rfl, rfl⟩ := Prod.mk.inj (Option.some.inj (hresult.symm.trans hmerged))
  have hfirst : midnightRun.firstStart = some 86399900000 := by
    decide +kernel
  have hmem : midnightLog ∈ midnightRun.logs := List.mem_filter.mpr ⟨List.mem_cons_self, rfl⟩
  have hlog := hlogs 86399900000 hfirst midnightLog hmem
  exact absurd hlog (by decide +kernel)

end RunLogs

end Diplom
