import Diplom.Proof.Renaming
import Diplom.Spec.EmulatedRun

/-!
# The logs of an experiment

The files hold numbers and addresses as texts. An address in the letters of the merge is read back
as the id that it was made of, and a number as the number, so these texts are other names only: what
the merge makes of the files is what the nodes have reported, under these names.
-/

namespace Diplom

open Python

/-! ### Addresses -/

def PeerId.address (peer : PeerId) : MacAddress where
  text := addressText peer
  length_eq := by rw [addressText, upper, List.length_map, length_peerText]
  shape c hc := by
    obtain ⟨d, hd, rfl⟩ := List.mem_map.mp hc
    have hid : d ∈ ':' :: hexDigits := by simpa [isIdChar] using peerText_chars peer d hd
    have hall := List.all_eq_true.mp (show (':' :: hexDigits).all (fun d =>
      d.toUpper.isDigit = true ∨ ('A' ≤ d.toUpper ∧ d.toUpper ≤ 'F') ∨ d.toUpper = ':') = true by
        decide)
    exact of_decide_eq_true (hall d hid)

/-! ### Numbers -/

def nodeNumber (n : Nat) : NodeNumber :=
  ⟨Nat.toDigits 10 n, Nat.toDigits_ne_nil, allDigits_toDigits n⟩

@[simp] theorem toInt_nodeNumber (n : Nat) : (nodeNumber n).toInt = n :=
  Nat.ofDigitChars_ten_toDigits

theorem digits_injective : Function.Injective (Nat.toDigits 10) := by
  intro m n h
  rw [← Nat.ofDigitChars_ten_toDigits (n := m), h, Nat.ofDigitChars_ten_toDigits]

theorem nodeNumber_exact {n : Nat} (h : n < 2 ^ 53) : (nodeNumber n).Exact := by
  rw [NodeNumber.Exact, NodeNumber.read, toInt_nodeNumber, roundDouble_of_lt h]

theorem isIntSpace_eq_false_of_isDigit {c : Char} (h : c.isDigit = true) :
    isIntSpace c = false := by
  obtain ⟨hlow, hhigh⟩ := Char.isDigit_iff_toNat.mp h
  have hlow : 48 ≤ c.toNat := hlow
  have hhigh : c.toNat < 58 := Nat.lt_succ_of_le hhigh
  have hc : c = Char.ofNat c.toNat := by simp
  generalize c.toNat = n at *
  subst hc
  revert n
  decide

theorem digit_of_isDigit {c : Char} (h : c.isDigit = true) : digit c = some (c.toNat - 48) := by
  rw [Char.isDigit, Bool.and_eq_true, decide_eq_true_iff, decide_eq_true_iff] at h
  have hlow : 48 ≤ c.toNat := h.1
  have hhigh : c.toNat ≤ 57 := h.2
  have hfirst : (0x30 ≤ c.toNat ∧ c.toNat ≤ 0x30 + 9) := by omega
  rw [digit, zeros, List.find?_cons_of_pos (by simpa using hfirst)]
  rfl

theorem mapM_digit {text : Text} (h : AllDigits text) :
    text.mapM digit = some (text.map fun c => c.toNat - 48) := by
  induction text with
  | nil => rfl
  | cons c rest ih =>
      have hc := digit_of_isDigit (h c List.mem_cons_self)
      have hrest := ih fun d hd => h d (List.mem_cons_of_mem c hd)
      rw [List.mapM_cons, hc, hrest]
      rfl

theorem length_toDigits_le {n : Nat} (h : n < 2 ^ 53) :
    (Nat.toDigits 10 n).length ≤ maxStrDigits := by
  have hlength : (Nat.toDigits 10 n).length ≤ 16 :=
    (Nat.length_toDigits_le_iff (by decide) (by decide)).mpr (h.trans (by decide))
  exact hlength.trans (by decide)

/-- `int` of a number that does not have too many digits is the number. -/
theorem readInt_toDigits {n : Nat} (hlength : (Nat.toDigits 10 n).length ≤ maxStrDigits) :
    readInt isIntSpace digit (Nat.toDigits 10 n) = some (n : Int) := by
  have hdigits := allDigits_toDigits n
  have hne : Nat.toDigits 10 n ≠ [] := Nat.toDigits_ne_nil
  have hvalue : readNat digit (Nat.toDigits 10 n) = some n := by
    have hplain : '_' ∉ Nat.toDigits 10 n := fun hmem => absurd (hdigits '_' hmem) (by decide)
    have hfold : ((Nat.toDigits 10 n).map fun c => c.toNat - 48).foldl (fun n d => 10 * n + d) 0 =
        n := by
      rw [List.foldl_map]
      exact Nat.ofDigitChars_ten_toDigits
    rw [readNat, List.splitOn_eq_singleton hplain]
    simp only [List.mem_singleton, hne.symm, List.flatten_singleton, hlength.not_gt, or_self,
      if_false, mapM_digit hdigits, Option.map_some, hfold]
  have hstrip : strip isIntSpace (Nat.toDigits 10 n) = Nat.toDigits 10 n :=
    strip_eq_self fun c hc => isIntSpace_eq_false_of_isDigit (hdigits c hc)
  rw [readInt, hstrip]
  split
  · rename_i rest heq
    exact absurd (hdigits '-' (heq ▸ List.mem_cons_self)) (by decide)
  · rename_i rest heq
    exact absurd (hdigits '+' (heq ▸ List.mem_cons_self)) (by decide)
  · rw [hvalue]
    rfl

/-! ### The files of an experiment -/

namespace EmulatedNode

variable (node : EmulatedNode)

theorem isLog_name : isLog node.name = true := by
  rw [isLog, node.named, List.isPrefixOf_iff_prefix]
  exact List.prefix_append _ _

theorem logNum_name : logNum node.name = Nat.toDigits 10 node.number := by
  have hdigits := allDigits_toDigits node.number
  have hunderscore : '_' ∉ Nat.toDigits 10 node.number :=
    fun h => absurd (hdigits '_' h) (by decide)
  have hpoint : '.' ∉ Nat.toDigits 10 node.number := fun h => absurd (hdigits '.' h) (by decide)
  have hname : node.name = ['l', 'o', 'g'] ++ '_' :: Nat.toDigits 10 node.number := by
    rw [node.named]
    rfl
  rw [logNum, hname, List.splitOn_append_cons_self_of_not_mem (by decide),
    List.splitOn_eq_singleton hunderscore]
  change ((Nat.toDigits 10 node.number).splitOn '.').headD [] = _
  rw [List.splitOn_eq_singleton hpoint]
  rfl

variable (first duration : Int)

/-- The reports in time as events of the analysis. -/
def told : List (Timedelta × NodeEvent PeerId) :=
  (node.inTime first duration).map fun r => (r.real - first, ⟨node.self, r.what, r.peer⟩)

theorem entries_eq :
    (node.nodeLog.entries (fun real => real - first) duration).map (fun e => (e.time, e.event)) =
      Experiment.renamedEvents id addressText (node.told first duration) := by
  have hread : (node.nodeLog.entries (fun real => real - first) duration).map
      (fun e => (e.time, e.event)) =
      (node.nodeLog.events.map fun e => (e.1.real, e.2)).filterMap fun e =>
        if e.1 - first < duration * microsPerSecond then some (e.1 - first, e.2) else none := by
    rw [NodeLog.entries, List.map_filterMap, List.filterMap_map]
    apply List.filterMap_congr
    intro e _
    rw [Function.comp_apply]
    split <;> rfl
  rw [hread, node.events_eq, Experiment.renamedEvents, told, inTime, reports, List.map_map,
    List.filterMap_filterMap, List.filter_filterMap, List.map_filterMap]
  apply List.filterMap_congr
  intro line _
  cases line.2.said with
  | none => rfl
  | some said =>
      simp only [Option.map_some, Option.bind_some, Option.filter_some, decide_eq_true_eq]
      split <;> rfl

end EmulatedNode

namespace EmulatedRun

variable (run : EmulatedRun)

theorem nodup_names : ((run.nodes.map fun node => node.nodeLog).map NodeLog.name).Nodup := by
  have hnames : (run.nodes.map fun node => node.nodeLog).map NodeLog.name =
      (run.nodes.map fun node => node.number).map fun n => "log_".toList ++ Nat.toDigits 10 n := by
    rw [List.map_map, List.map_map]
    apply List.map_congr_left
    intro node _
    exact node.named
  rw [hnames]
  apply run.numbers.map
  intro m n h
  exact digits_injective (List.append_cancel_left h)

def toRunLogs : RunLogs where
  files := run.nodes.map fun node => node.nodeLog
  names := run.nodup_names
  stamped log hlog := by
    obtain ⟨node, -, rfl⟩ := List.mem_map.mp hlog
    exact node.stamped
  chronological log hlog := by
    obtain ⟨node, hnode, rfl⟩ := List.mem_map.mp (List.mem_of_mem_filter hlog)
    rw [PrintedLog.nodeLog, List.map_map]
    exact run.chronological node hnode
  short log hlog log' hlog' line hline line' hline' := by
    obtain ⟨node, hnode, rfl⟩ := List.mem_map.mp (List.mem_of_mem_filter hlog)
    obtain ⟨node', hnode', rfl⟩ := List.mem_map.mp (List.mem_of_mem_filter hlog')
    obtain ⟨l, hl, rfl⟩ := List.mem_map.mp hline
    obtain ⟨l', hl', rfl⟩ := List.mem_map.mp hline'
    exact run.short node hnode node' hnode' l hl l' hl'

theorem logs_eq : run.toRunLogs.logs = run.nodes.map fun node => node.nodeLog := by
  apply List.filter_eq_self.mpr
  intro log hlog
  obtain ⟨node, -, rfl⟩ := List.mem_map.mp hlog
  exact node.isLog_name

theorem starts_eq : run.toRunLogs.starts = run.nodes.map fun node => node.startTime := by
  rw [NodeLogs.starts, logs_eq, List.filterMap_map, ← List.filterMap_eq_map]
  apply List.filterMap_congr
  intro node _
  rw [Function.comp_apply, node.start_eq]
  rfl

theorem firstStart_eq : run.toRunLogs.firstStart = run.firstStart := by
  rw [NodeLogs.firstStart, starts_eq, firstStart]

/-- The nodes in the order of the names of their logs. -/
def ordered : List EmulatedNode := run.nodes.insertionSort fun x y => x.name ≤ y.name

theorem mem_ordered {node : EmulatedNode} : node ∈ run.ordered ↔ node ∈ run.nodes :=
  List.mem_insertionSort _

theorem read_eq : run.toRunLogs.read = run.ordered.map fun node => node.nodeLog := by
  have hsort : (run.nodes.map fun node => node.nodeLog).insertionSort (fun x y => x.name ≤ y.name) =
      run.ordered.map fun node => node.nodeLog := by
    rw [ordered, List.map_insertionSort (r := fun x y : EmulatedNode => x.name ≤ y.name)
      (s := fun x y : NodeLog => x.name ≤ y.name)]
    intro a _ b _
    exact Iff.rfl
  rw [NodeLogs.read]
  change ((run.nodes.map fun node => node.nodeLog).insertionSort _).filter _ = _
  rw [hsort]
  apply List.filter_eq_self.mpr
  intro log hlog
  obtain ⟨node, -, rfl⟩ := List.mem_map.mp hlog
  exact node.isLog_name

def numbered : List (PeerId × Nat) := run.ordered.map fun node => (node.self, node.number)

/-- The events that the nodes report in time, in the order of their times. -/
def allEvents (first duration : Int) : List (Timedelta × NodeEvent PeerId) :=
  (run.ordered.flatMap fun node => node.told first duration).insertionSort fun x y => x.1 ≤ y.1

variable {run} {duration first : Int}

theorem Orderly.noMidnight (h : run.Orderly duration) : run.toRunLogs.NoMidnight duration := by
  intro first hfirst firstClock _ log hlog e he _
  rw [firstStart_eq] at hfirst
  rw [logs_eq] at hlog
  obtain ⟨node, hnode, rfl⟩ := List.mem_map.mp hlog
  constructor
  · intro start hstart
    rw [starts_eq] at hstart
    obtain ⟨node', hnode', rfl⟩ := List.mem_map.mp hstart
    exact (h.sameDay first hfirst node' hnode').1
  · have hreport : (e.1.real, e.2) ∈ node.nodeLog.events.map fun e => (e.1.real, e.2) :=
      List.mem_map_of_mem he
    rw [node.events_eq] at hreport
    obtain ⟨line, hline, hsaid⟩ := List.mem_filterMap.mp hreport
    obtain ⟨said, hsaid, hevent⟩ := Option.map_eq_some_iff.mp hsaid
    have hmem : (⟨line.1, said.1, said.2⟩ : Report) ∈ node.reports :=
      List.mem_filterMap.mpr ⟨line, hline, by rw [hsaid]; rfl⟩
    have hday := (h.sameDay first hfirst node hnode).2 _ hmem
    rwa [← (Prod.mk.inj hevent).1]

theorem merged_eq (h : run.Orderly duration) (hfirst : run.firstStart = some first) {clocked : Int}
    (hclock : run.toRunLogs.firstClock = some clocked) :
    (run.toRunLogs.merged clocked duration).map (fun e => (e.time, e.event)) =
      Experiment.renamedEvents id addressText (run.allEvents first duration) := by
  have hlogs : ∀ node ∈ run.ordered,
      (node.nodeLog.entries (fun real => clock real - clocked) duration).map
        (fun e => (e.time, e.event)) =
      Experiment.renamedEvents id addressText (node.told first duration) := by
    intro node hnode
    have hlog : node.nodeLog ∈ run.toRunLogs.logs := by
      rw [logs_eq]
      exact List.mem_map_of_mem (run.mem_ordered.mp hnode)
    rw [h.noMidnight.entries_eq (run.firstStart_eq.trans hfirst) hclock hlog]
    exact node.entries_eq first duration
  rw [NodeLogs.merged, read_eq,
    List.map_insertionSort (r := fun x y : LogEntry Origin => x.time ≤ y.time)
    (s := fun x y : Timedelta × NodeEvent Text => x.1 ≤ y.1), List.flatMap_map, List.map_flatMap,
    List.flatMap_congr hlogs, allEvents, Experiment.renamedEvents,
    List.map_insertionSort (r := fun x y : Timedelta × NodeEvent PeerId => x.1 ≤ y.1)
    (s := fun x y : Timedelta × NodeEvent Text => x.1 ≤ y.1), List.map_flatMap]
  · rfl
  · intro a _ b _
    exact Iff.rfl
  · intro a _ b _
    exact Iff.rfl

theorem nodup_addresses : (run.ordered.map fun node => addressText node.self).Nodup := by
  have hselves := ((List.perm_insertionSort (fun x y : EmulatedNode => x.name ≤ y.name)
    run.nodes).map fun node => node.self).nodup_iff.mpr run.selves
  have haddresses := hselves.map addressText_injective
  rw [List.map_map] at haddresses
  exact haddresses

theorem macToNum_eq :
    KeyedList.setAll (run.toRunLogs.read.filterMap fun log => macOf log.file) [] =
      run.numbered.map fun e => (addressText e.1, Nat.toDigits 10 e.2) := by
  have hread : run.toRunLogs.read.filterMap (fun log => macOf log.file) =
      run.numbered.map fun e => (addressText e.1, Nat.toDigits 10 e.2) := by
    rw [read_eq, numbered, List.filterMap_map, List.map_map, ← List.filterMap_eq_map]
    apply List.filterMap_congr
    intro node _
    have hmac := NodeLog.macOf_file node.nodeLog
    rw [NodeLog.address, node.start_eq] at hmac
    rw [Function.comp_apply, hmac, Function.comp_apply, Function.comp_apply, ← node.logNum_name]
    rfl
  rw [hread, KeyedList.setAll_of_nodup, List.nil_append]
  rw [List.map_nil, List.nil_append, numbered, List.map_map, List.map_map]
  exact nodup_addresses

theorem files_eq : run.files = run.toRunLogs.files.map NodeLog.plain := by
  change _ = (run.nodes.map fun node => node.nodeLog).map NodeLog.plain
  rw [List.map_map, files]
  apply List.map_congr_left
  intro node _
  rw [node.fileLines_text]
  rfl

/-- The merge of the files gives the numbers and the reports of the nodes, under other names. -/
theorem combineLogs_files (h : run.Orderly duration) (hfirst : run.firstStart = some first) :
    combineLogs run.files duration =
      some (run.numbered.map fun e => (addressText e.1, Nat.toDigits 10 e.2),
        Experiment.renamedEvents id addressText (run.allEvents first duration)) := by
  obtain ⟨clocked, hclock⟩ := RunLogs.exists_firstClock (run.firstStart_eq.trans hfirst)
  have hmerge := run.toRunLogs.mergeLogs_eq duration
  rw [hclock] at hmerge
  rw [files_eq, combineLogs_plain, hmerge, Option.map_some]
  simp only []
  rw [macToNum_eq, merged_eq h hfirst hclock]

end EmulatedRun

end Diplom
