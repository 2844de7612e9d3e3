import Diplom.Proof.Returns
import Diplom.Proof.RunLogs

/-!
# The analysis of a directory

Whether the analysis of the merge returns is decided by each log alone and by which logs there are:
each node gives and takes back words of its own, the merge keeps each log in the order of its times
of day, and a peer has a number if its log is there. That the order between the nodes does not
matter is the point of it.
-/

namespace Diplom

namespace NodeLog

variable (log : NodeLog)

def address : Option Text := log.start.map fun s => upper s.mac

theorem macOf_file : macOf log.file = log.address.map fun mac => (mac, logNum log.name) := by
  change log.start.map _ = (log.start.map _).map _
  rw [Option.map_map]
  rfl

/-- The events in time, in the order of their times of day. -/
def byClock (first duration : Int) : List (LogEntry Origin) :=
  (log.entries (fun real => clock real - first) duration).insertionSort fun x y => x.time ≤ y.time

def wordMark (entry : LogEntry Origin) : Option ((Word × Text) × Bool) :=
  some ((entry.event.what.word.1, entry.event.mac2), entry.event.what.word.2)

end NodeLog

namespace NodeLogs

variable (run : NodeLogs)

/-- The logs that have a start line. There may be others, and a node may have none. -/
def nodes : List NodeLog := run.logs.filter fun log => log.start.isSome

/-- The analysis of the merge returns. -/
def Returns (duration : Int) : Prop :=
  ∃ macToNum allEvents stats,
    combineLogs (run.files.map NodeLog.plain) duration = some (macToNum, allEvents) ∧
      getExperimentStats macToNum allEvents = some stats

end NodeLogs

/-- Logs of nodes that have numbers and addresses of their own. -/
structure NumberedLogs extends NodeLogs where
  numbers : (toNodeLogs.nodes.map fun log => logNum log.name).Nodup
  addresses : (toNodeLogs.logs.filterMap NodeLog.address).Nodup

namespace NumberedLogs

variable (run : NumberedLogs)

/-- Every peer in an event in time has a log with a start line, and in each log, in the order of the
times of day, no word is taken back that has not been given since it was taken back before. -/
structure Accounted (duration : Int) : Prop where
  known : ∀ first ∈ run.firstClock, ∀ log ∈ run.nodes, ∀ entry ∈ log.byClock first duration,
    ∃ node ∈ run.nodes, node.address = some entry.event.mac2
  paired : ∀ first ∈ run.firstClock, ∀ log ∈ run.nodes, ∀ key,
    Brackets.Paired NodeLog.wordMark key (log.byClock first duration)

/-! ### The numbers -/

variable {run}

/-- `mac_to_num`, as the merge leaves it. -/
def macToNum (run : NumberedLogs) : List (Text × Text) :=
  KeyedList.setAll (run.read.filterMap fun log => macOf log.file) []

theorem mem_nodes {log : NodeLog} :
    log ∈ run.nodes ↔ log ∈ run.logs ∧ ∃ mac, log.address = some mac := by
  rw [NodeLogs.nodes, List.mem_filter, NodeLog.address]
  cases log.start <;> simp

theorem get_macToNum {mac num : Text} :
    KeyedList.get mac run.macToNum = some num ↔
      ∃ log ∈ run.nodes, log.address = some mac ∧ logNum log.name = num := by
  have hmem : ∀ entry, entry ∈ run.read.filterMap (fun log => macOf log.file) ↔
      ∃ log ∈ run.nodes, log.address = some entry.1 ∧ logNum log.name = entry.2 := by
    rintro ⟨mac, num⟩
    simp only [List.mem_filterMap, NodeLog.macOf_file, Option.map_eq_some_iff, Prod.mk.injEq,
      mem_nodes, run.mem_read]
    constructor
    · rintro ⟨log, hlog, mac, hmac, rfl, hnum⟩
      exact ⟨log, ⟨hlog, mac, hmac⟩, hmac, hnum⟩
    · rintro ⟨log, ⟨hlog, -⟩, hmac, hnum⟩
      exact ⟨log, hlog, mac, hmac, rfl, hnum⟩
  have hkeys : ((run.read.filterMap fun log => macOf log.file).map Prod.fst).Nodup := by
    have hread : (run.read.filterMap fun log => macOf log.file).map Prod.fst =
        run.read.filterMap NodeLog.address := by
      rw [List.map_filterMap]
      apply List.filterMap_congr
      intro log _
      rw [NodeLog.macOf_file, Option.map_map]
      exact Option.map_id'
    rw [hread]
    exact (run.read_perm.filterMap NodeLog.address).nodup_iff.mpr run.addresses
  rw [macToNum, KeyedList.get_setAll, KeyedList.get_reverse mac hkeys, KeyedList.get_nil,
    Option.or_none]
  constructor
  · intro hget
    exact (hmem (mac, num)).mp (KeyedList.mem_of_get hget)
  · intro hnode
    exact KeyedList.get_of_mem hkeys ((hmem (mac, num)).mpr hnode)

theorem eq_of_number {log log' : NodeLog} (hlog : log ∈ run.nodes) (hlog' : log' ∈ run.nodes)
    (h : logNum log.name = logNum log'.name) : log = log' :=
  List.inj_on_of_nodup_map run.numbers hlog hlog' h

theorem eq_of_name {log log' : NodeLog} (hlog : log ∈ run.logs) (hlog' : log' ∈ run.logs)
    (h : log.name = log'.name) : log = log' :=
  List.inj_on_of_nodup_map run.names (List.mem_of_mem_filter hlog) (List.mem_of_mem_filter hlog') h

/-! ### The words of one log -/

variable {first duration : Int}

theorem mac1_of_merged {entry : LogEntry Origin} (h : entry ∈ run.merged first duration) :
    ∃ log ∈ run.nodes, log.address = some entry.event.mac1 ∧ entry.origin.log = log.name ∧
      entry ∈ log.byClock first duration := by
  obtain ⟨log, hlog, hentry⟩ := run.mem_merged h
  obtain ⟨e, he, -, rfl⟩ := NodeLog.mem_entries.mp hentry
  obtain ⟨s, hs, hmac, -⟩ := NodeLog.mem_events he
  have haddress : log.address = some e.2.mac1 := by
    rw [NodeLog.address, hs, hmac]
    rfl
  refine ⟨log, mem_nodes.mpr ⟨hlog, _, haddress⟩, haddress, NodeLog.events_log he, ?_⟩
  exact (List.mem_insertionSort _).mpr hentry

theorem mem_merged_of_byClock {log : NodeLog} (hlog : log ∈ run.logs) {entry : LogEntry Origin}
    (h : entry ∈ log.byClock first duration) : entry ∈ run.merged first duration := by
  rw [NodeLog.byClock, ← run.filter_merged hlog] at h
  exact List.mem_of_mem_filter h

theorem marks_merged {log node : NodeLog} (hlog : log ∈ run.nodes) (hnode : node ∈ run.nodes)
    {mac : Text} (hmac : node.address = some mac) (word : Word) :
    Brackets.marks (Experiment.wordMark run.macToNum)
        (logNum log.name, logNum node.name, word)
        ((run.merged first duration).map fun entry => (entry.time, entry.event)) =
      Brackets.marks NodeLog.wordMark (word, mac) (log.byClock first duration) := by
  rw [Brackets.marks_map, NodeLog.byClock, ← run.filter_merged (mem_nodes.mp hlog).1]
  have hown : ∀ entry ∈ run.merged first duration, ∀ given,
      Experiment.wordMark run.macToNum (entry.time, entry.event) =
        some ((logNum log.name, logNum node.name, word), given) ↔
      entry.origin.log = log.name ∧ NodeLog.wordMark entry = some ((word, mac), given) := by
    intro entry hentry given
    obtain ⟨writer, hwriter, hmac1, horigin, -⟩ := mac1_of_merged hentry
    have hwriter_num : KeyedList.get entry.event.mac1 run.macToNum = some (logNum writer.name) :=
      get_macToNum.mpr ⟨writer, hwriter, hmac1, rfl⟩
    rw [Experiment.wordMark_eq_some, NodeLog.wordMark, hwriter_num, get_macToNum]
    constructor
    · rintro ⟨hnum, ⟨node', hnode', hmac', hnum'⟩, hword⟩
      obtain rfl := eq_of_number hwriter hlog (Option.some.inj hnum)
      obtain rfl := eq_of_number hnode' hnode hnum'
      obtain rfl := Option.some.inj (hmac'.symm.trans hmac)
      exact ⟨horigin, by rw [hword]⟩
    · rintro ⟨hname, hmark⟩
      obtain rfl := eq_of_name (mem_nodes.mp hwriter).1 (mem_nodes.mp hlog).1
        (horigin.symm.trans hname)
      obtain ⟨hkey, hgiven⟩ := Prod.mk.inj (Option.some.inj hmark)
      obtain ⟨hword, rfl⟩ := Prod.mk.inj hkey
      exact ⟨rfl, ⟨node, hnode, hmac, rfl⟩, Prod.ext hword hgiven⟩
  rw [← Brackets.marks_filter (p := fun entry => entry.origin.log = log.name)]
  · apply Brackets.marks_congr
    intro entry hentry given
    obtain ⟨hmerged, hname⟩ := List.mem_filter.mp hentry
    rw [hown entry hmerged given]
    exact and_iff_right (of_decide_eq_true hname)
  · intro entry hentry given hmark
    exact decide_eq_true ((hown entry hentry given).mp hmark).1

/-! ### Whether the analysis returns -/

/-- The events of the merge have numbers if every peer in one of them has a log. -/
theorem known_merged_iff : (∀ it ∈ (run.merged first duration).map fun e => (e.time, e.event),
      Experiment.Known run.macToNum it) ↔
    ∀ log ∈ run.nodes, ∀ entry ∈ log.byClock first duration,
      ∃ node ∈ run.nodes, node.address = some entry.event.mac2 := by
  have hnumber : ∀ mac, (KeyedList.get mac run.macToNum).isSome = true ↔
      ∃ node ∈ run.nodes, node.address = some mac := by
    intro mac
    simp only [Option.isSome_iff_exists, get_macToNum]
    constructor
    · rintro ⟨num, node, hnode, hmac, -⟩
      exact ⟨node, hnode, hmac⟩
    · rintro ⟨node, hnode, hmac⟩
      exact ⟨_, node, hnode, hmac, rfl⟩
  simp only [List.forall_mem_map, Experiment.Known, hnumber]
  constructor
  · intro h log hlog entry hentry
    exact (h entry (mem_merged_of_byClock (mem_nodes.mp hlog).1 hentry)).2
  · intro h entry hentry
    obtain ⟨log, hlog, hmac, -, hown⟩ := mac1_of_merged hentry
    exact ⟨⟨log, hlog, hmac⟩, h log hlog entry hown⟩

/-- Words are taken back in time in the merge if they are in each log. -/
theorem paired_merged_iff
    (hknown : ∀ log ∈ run.nodes, ∀ entry ∈ log.byClock first duration,
      ∃ node ∈ run.nodes, node.address = some entry.event.mac2) :
    (∀ key, Brackets.Paired (Experiment.wordMark run.macToNum) key
        ((run.merged first duration).map fun e => (e.time, e.event))) ↔
      ∀ log ∈ run.nodes, ∀ key,
        Brackets.Paired NodeLog.wordMark key (log.byClock first duration) := by
  constructor
  · rintro h log hlog ⟨word, mac⟩
    by_cases hnode : ∃ node ∈ run.nodes, node.address = some mac
    · obtain ⟨node, hnode, hmac⟩ := hnode
      rw [Brackets.Paired, ← marks_merged hlog hnode hmac word]
      exact h _
    · apply Brackets.paired_of_unmarked
      intro entry hentry given hmark
      obtain ⟨node, hnode', hmac⟩ := hknown log hlog entry hentry
      have hkey := (Prod.mk.inj (Option.some.inj hmark)).1
      rw [(Prod.mk.inj hkey).2] at hmac
      exact hnode ⟨node, hnode', hmac⟩
  · rintro h ⟨a, b, word⟩
    by_cases hnodes : ∃ log ∈ run.nodes, logNum log.name = a ∧
        ∃ node ∈ run.nodes, logNum node.name = b
    · obtain ⟨log, hlog, rfl, node, hnode, rfl⟩ := hnodes
      obtain ⟨mac, hmac⟩ := (mem_nodes.mp hnode).2
      rw [Brackets.Paired, marks_merged hlog hnode hmac word]
      exact h log hlog _
    · apply Brackets.paired_of_unmarked
      intro it _ given hmark
      obtain ⟨ha, hb, -⟩ := Experiment.wordMark_eq_some.mp hmark
      obtain ⟨log, hlog, -, hnum⟩ := get_macToNum.mp ha
      obtain ⟨node, hnode, -, hnum'⟩ := get_macToNum.mp hb
      exact hnodes ⟨log, hlog, hnum, node, hnode, hnum'⟩

/-- The analysis of the logs of transports returns exactly if every peer in an event in time has a
log with a start line, and no log takes a word back that it has not given since it took it back
before, in the order of the times of day. -/
theorem returns_iff_accounted (run : NumberedLogs) (duration : Int) :
    run.Returns duration ↔ run.Accounted duration := by
  have hmerge := run.mergeLogs_eq duration
  cases hfirst : run.firstClock with
  | none =>
      rw [hfirst] at hmerge
      refine iff_of_true ⟨[], [], _, ?_, rfl⟩ ⟨?_, ?_⟩
      · rw [combineLogs_plain, hmerge]
        rfl
      · simp [hfirst]
      · simp [hfirst]
  | some first =>
      rw [hfirst] at hmerge
      have hcombine : combineLogs (run.files.map NodeLog.plain) duration = some (run.macToNum,
          (run.merged first duration).map fun e => (e.time, e.event)) := by
        rw [combineLogs_plain, hmerge]
        rfl
      have hreturns : run.Returns duration ↔ ∃ stats, getExperimentStats run.macToNum
          ((run.merged first duration).map fun e => (e.time, e.event)) = some stats := by
        constructor
        · rintro ⟨macToNum, allEvents, stats, hresult, hstats⟩
          obtain ⟨rfl, rfl⟩ := Prod.mk.inj (Option.some.inj (hcombine.symm.trans hresult))
          exact ⟨stats, hstats⟩
        · rintro ⟨stats, hstats⟩
          exact ⟨_, _, stats, hcombine, hstats⟩
      rw [hreturns, Experiment.stats_isSome_iff, known_merged_iff]
      constructor
      · rintro ⟨hknown, hpaired⟩
        refine ⟨?_, ?_⟩
        · intro first' hfirst'
          obtain rfl := Option.some.inj (hfirst.symm.trans hfirst')
          exact hknown
        · intro first' hfirst'
          obtain rfl := Option.some.inj (hfirst.symm.trans hfirst')
          exact (paired_merged_iff hknown).mp hpaired
      · intro h
        have hknown := h.known first hfirst
        exact ⟨hknown, (paired_merged_iff hknown).mpr (h.paired first hfirst)⟩

end NumberedLogs

end Diplom
