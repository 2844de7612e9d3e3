import Diplom.Proof.EmulatedLogs

/-!
# The picture of a moment

The analysis reads what the nodes have printed, and the visualizer what the analysis has written.
What is drawn of a moment is what the nodes hold at that moment: the analysis is followed with
numbers and peer ids in the place of their texts, and a word stands in its sets if it stands among
the reports of the node that has given it.
-/

namespace Diplom

open Python

/-! ### Sights -/

section Sights

variable {Time Mac : Type} [DecidableEq Mac] {macToNum : List (Mac × Nat)}

/-- Node `a` loses node `b` before it sees it if the first that it says of it is no sight. -/
theorem Experiment.lostBeforeSaw_iff {a b : Nat} {evs : List (Time × NodeEvent Mac)} :
    Experiment.LostBeforeSaw macToNum a b evs ↔
      (Brackets.marks (Experiment.wordMark macToNum) (a, b, .visible) evs).head? ≠ some true := by
  induction evs with
  | nil => simp [Experiment.LostBeforeSaw, Brackets.marks]
  | cons it rest ih =>
      have hmark : ∀ given, Experiment.wordMark macToNum it = some ((a, b, .visible), given) ↔
          Experiment.About macToNum it a b ∧ it.2.what = if given then .saw else .lost := by
        intro given
        rw [Experiment.wordMark_eq_some, ← and_assoc]
        refine and_congr Iff.rfl ?_
        rcases it.2.what with _ | _ | dir | dir <;> cases given <;> simp [What.word]
      rw [Experiment.LostBeforeSaw, ih]
      by_cases hsaw : Experiment.About macToNum it a b ∧ it.2.what = .saw
      · rw [Brackets.marks_cons_own ((hmark true).mpr hsaw)]
        simp [hsaw]
      · by_cases hlost : Experiment.About macToNum it a b ∧ it.2.what = .lost
        · rw [Brackets.marks_cons_own ((hmark false).mpr hlost)]
          simp [hlost]
        · have hother : ∀ given,
              Experiment.wordMark macToNum it ≠ some ((a, b, .visible), given) := by
            intro given hgiven
            cases given with
            | true => exact hsaw ((hmark true).mp hgiven)
            | false => exact hlost ((hmark false).mp hgiven)
          rw [Brackets.marks_cons_other hother, or_iff_right hlost]
          exact and_iff_right fun habout hwhat => hsaw ⟨habout, hwhat⟩

/-- Where sights and losses take turns, nobody is seen twice without being lost in between. -/
theorem Experiment.noRepeatedSaw_of_turns {evs : List (Time × NodeEvent Mac)}
    (h : ∀ a b, (Brackets.marks (Experiment.wordMark macToNum) (a, b, .visible) evs).IsChain
      (· ≠ ·)) : Experiment.NoRepeatedSaw macToNum evs := by
  induction evs with
  | nil => trivial
  | cons it rest ih =>
      constructor
      · intro a ha b hb hwhat
        have hmark : Experiment.wordMark macToNum it = some ((a, b, .visible), true) := by
          rw [Experiment.wordMark_eq_some, hwhat]
          exact ⟨ha, hb, rfl⟩
        have hchain := h a b
        rw [Brackets.marks_cons_own hmark] at hchain
        rw [Experiment.lostBeforeSaw_iff]
        intro hhead
        obtain ⟨later, hlater⟩ := List.head?_eq_some_iff.mp hhead
        rw [hlater] at hchain
        exact (List.isChain_cons_cons.mp hchain).1 rfl
      · apply ih
        intro a b
        by_cases hown : ∃ given, Experiment.wordMark macToNum it = some ((a, b, .visible), given)
        · obtain ⟨given, hgiven⟩ := hown
          have hchain := h a b
          rw [Brackets.marks_cons_own hgiven] at hchain
          exact hchain.tail
        · rw [← Brackets.marks_cons_other fun given hgiven => hown ⟨given, hgiven⟩]
          exact h a b

end Sights

/-! ### The times -/

theorem Experiment.syncTime_isSome {Time Node Mac : Type} [DecidableEq Node]
    [DecidableEq Mac] {macToNum : List (Mac × Node)} {evs : List (Time × NodeEvent Mac)}
    {s : Experiment Time Node} (h : Experiment.after macToNum evs = some s)
    (hconn : s.connTime ≠ none) : s.syncTime.isSome = true := by
  induction evs using List.reverseRecOn with
  | nil =>
      obtain rfl := Option.some.inj h
      exact absurd rfl hconn
  | append_singleton evs it _ =>
      rw [Experiment.after_concat] at h
      obtain ⟨s, -, hround⟩ := Option.bind_eq_some_iff.mp h
      obtain ⟨a, b, t, -, -, -, rfl⟩ := Experiment.round_eq_some hround
      cases hstate : t.graph.isConnected with
      | true => rfl
      | false => simp [Experiment.mark, hstate] at hconn

namespace EmulatedRun

variable {run : EmulatedRun} {duration first : Int}

/-! ### What the nodes have said -/

theorem get_numbered {peer : PeerId} {n : Nat} :
    KeyedList.get peer run.numbered = some n ↔
      ∃ node ∈ run.nodes, node.self = peer ∧ node.number = n := by
  have hkeys : (run.numbered.map Prod.fst).Nodup := by
    have hselves := ((List.perm_insertionSort (fun x y : EmulatedNode => x.name ≤ y.name)
      run.nodes).map fun node => node.self).nodup_iff.mpr run.selves
    rw [numbered, List.map_map]
    exact hselves
  constructor
  · intro hget
    obtain ⟨node, hnode, heq⟩ := List.mem_map.mp (KeyedList.mem_of_get hget)
    obtain ⟨hself, hnumber⟩ := Prod.mk.inj heq
    exact ⟨node, run.mem_ordered.mp hnode, hself, hnumber⟩
  · rintro ⟨node, hnode, rfl, rfl⟩
    exact KeyedList.get_of_mem hkeys (List.mem_map_of_mem (run.mem_ordered.mpr hnode))

theorem eq_of_number {a b : EmulatedNode} (ha : a ∈ run.nodes) (hb : b ∈ run.nodes)
    (h : a.number = b.number) : a = b :=
  List.inj_on_of_nodup_map run.numbers ha hb h

theorem mem_allEvents {it : Timedelta × NodeEvent PeerId} :
    it ∈ run.allEvents first duration ↔ ∃ node ∈ run.nodes, ∃ r ∈ node.inTime first duration,
      it = (r.real - first, ⟨node.self, r.what, r.peer⟩) := by
  simp only [allEvents, List.mem_insertionSort, List.mem_flatMap, mem_ordered,
    EmulatedNode.told, List.mem_map, eq_comm]

instance {α : Type} : Std.Total fun x y : Timedelta × α => x.1 ≤ y.1 :=
  ⟨fun x y => le_total x.1 y.1⟩

instance {α : Type} : IsTrans (Timedelta × α) fun x y => x.1 ≤ y.1 :=
  ⟨fun _ _ _ => le_trans⟩

theorem pairwise_told {node : EmulatedNode} (hnode : node ∈ run.nodes) (first duration : Int) :
    (node.told first duration).Pairwise fun x y => x.1 ≤ y.1 := by
  have hlines := run.chronological node hnode
  rw [List.pairwise_map] at hlines
  have hafter := (List.pairwise_append.mp hlines).2.1.of_cons
  have hreports : node.reports.Pairwise fun r r' => r.real ≤ r'.real := by
    refine hafter.filterMap _ ?_
    intro line line' hle r hr r' hr'
    obtain ⟨said, -, rfl⟩ := Option.map_eq_some_iff.mp hr
    obtain ⟨said', -, rfl⟩ := Option.map_eq_some_iff.mp hr'
    exact hle
  rw [EmulatedNode.told, List.pairwise_map]
  exact (hreports.filter _).imp fun hle => Int.sub_le_sub_right hle first

theorem filter_allEvents {node : EmulatedNode} (hnode : node ∈ run.nodes) :
    (run.allEvents first duration).filter (fun it => it.2.mac1 = node.self) =
      node.told first duration := by
  have hselves : (run.ordered.map fun node => node.self).Nodup :=
    ((List.perm_insertionSort (fun x y : EmulatedNode => x.name ≤ y.name)
      run.nodes).map fun node => node.self).nodup_iff.mpr run.selves
  have howner : ∀ other ∈ run.ordered, ∀ it ∈ other.told first duration,
      it.2.mac1 = other.self := by
    intro other _ it hit
    obtain ⟨r, -, rfl⟩ := List.mem_map.mp hit
    rfl
  have hmerge := Merge.filter_merge (fun x y : Timedelta × NodeEvent PeerId => x.1 ≤ y.1) howner
    hselves (run.mem_ordered.mpr hnode)
  rw [allEvents, hmerge]
  exact (pairwise_told hnode first duration).insertionSort_eq

/-- What the events up to a moment say of two nodes is what the one reports of the other. -/
theorem marks_allEvents (p : Timedelta → Bool) {a b : EmulatedNode} (ha : a ∈ run.nodes)
    (hb : b ∈ run.nodes) (word : Word) :
    Brackets.marks (Experiment.wordMark run.numbered) (a.number, b.number, word)
        ((run.allEvents first duration).filter fun it => p it.1) =
      Brackets.marks Report.mark (word, b.self)
        ((a.inTime first duration).filter fun r => p (r.real - first)) := by
  have hown : ∀ it ∈ (run.allEvents first duration).filter fun it => p it.1, ∀ given,
      Experiment.wordMark run.numbered it = some ((a.number, b.number, word), given) →
        decide (it.2.mac1 = a.self) = true := by
    intro it _ given hmark
    obtain ⟨hmac, -⟩ := Experiment.wordMark_eq_some.mp hmark
    obtain ⟨node, hnode, hself, hnumber⟩ := get_numbered.mp hmac
    rw [eq_of_number hnode ha hnumber] at hself
    exact decide_eq_true hself.symm
  rw [← Brackets.marks_filter hown, List.filter_comm, filter_allEvents ha, EmulatedNode.told,
    List.filter_map, Brackets.marks_map]
  apply Brackets.marks_congr
  intro r _ given
  have hmac1 : KeyedList.get a.self run.numbered = some a.number :=
    get_numbered.mpr ⟨a, ha, rfl, rfl⟩
  rw [Experiment.wordMark_eq_some]
  change KeyedList.get a.self run.numbered = some a.number ∧
    KeyedList.get r.peer run.numbered = some b.number ∧ r.what.word = (word, given) ↔
      some ((r.what.word.1, r.peer), r.what.word.2) = some ((word, b.self), given)
  rw [hmac1, get_numbered]
  constructor
  · rintro ⟨-, ⟨node, hnode, hself, hnumber⟩, hword⟩
    rw [eq_of_number hnode hb hnumber] at hself
    rw [← hself, hword]
  · intro hmark
    obtain ⟨hkey, hgiven⟩ := Prod.mk.inj (Option.some.inj hmark)
    obtain ⟨hword, hpeer⟩ := Prod.mk.inj hkey
    exact ⟨rfl, ⟨b, hb, hpeer.symm, rfl⟩, Prod.ext hword hgiven⟩

theorem exists_nodes {it : Timedelta × NodeEvent PeerId} {x y : Nat} {word : Word} {given : Bool}
    (h : Experiment.wordMark run.numbered it = some ((x, y, word), given)) :
    ∃ a ∈ run.nodes, ∃ b ∈ run.nodes, a.number = x ∧ b.number = y := by
  obtain ⟨hx, hy, -⟩ := Experiment.wordMark_eq_some.mp h
  obtain ⟨a, ha, -, hnumber⟩ := get_numbered.mp hx
  obtain ⟨b, hb, -, hnumber'⟩ := get_numbered.mp hy
  exact ⟨a, ha, b, hb, hnumber, hnumber'⟩

/-! ### The analysis -/

theorem marks_inTime {a b : EmulatedNode} (ha : a ∈ run.nodes) (hb : b ∈ run.nodes) (word : Word) :
    Brackets.marks (Experiment.wordMark run.numbered) (a.number, b.number, word)
        (run.allEvents first duration) =
      Brackets.marks Report.mark (word, b.self) (a.inTime first duration) := by
  have hall := @marks_allEvents run duration first (fun _ => true) a b ha hb word
  rwa [List.filter_true, List.filter_true] at hall

theorem Orderly.after (h : run.Orderly duration) (hfirst : run.firstStart = some first) :
    ∃ s : Experiment Timedelta Nat,
      Experiment.after run.numbered (run.allEvents first duration) = some s := by
  apply Experiment.after_isSome_iff.mpr
  constructor
  · intro it hit
    obtain ⟨node, hnode, r, hr, rfl⟩ := mem_allEvents.mp hit
    obtain ⟨-, other, hother, hself⟩ := h.known first hfirst node hnode r hr
    constructor
    · rw [get_numbered.mpr ⟨node, hnode, rfl, rfl⟩]
      rfl
    · rw [get_numbered.mpr ⟨other, hother, hself, rfl⟩]
      rfl
  · rintro ⟨x, y, word⟩
    by_cases hnodes : ∃ a ∈ run.nodes, ∃ b ∈ run.nodes, a.number = x ∧ b.number = y
    · obtain ⟨a, ha, b, hb, rfl, rfl⟩ := hnodes
      rw [Brackets.Paired, marks_inTime ha hb]
      exact h.paired first hfirst a ha _
    · apply Brackets.paired_of_unmarked
      intro it _ given hmark
      exact hnodes (exists_nodes hmark)

theorem Orderly.noSelf (h : run.Orderly duration) (hfirst : run.firstStart = some first) :
    Experiment.NoSelf run.numbered (run.allEvents first duration) := by
  intro it hit
  obtain ⟨node, hnode, r, hr, rfl⟩ := mem_allEvents.mp hit
  obtain ⟨hne, other, hother, hself⟩ := h.known first hfirst node hnode r hr
  rw [get_numbered.mpr ⟨node, hnode, rfl, rfl⟩, get_numbered.mpr ⟨other, hother, hself, rfl⟩]
  intro heq
  apply hne
  rw [← hself, eq_of_number hother hnode (Option.some.inj heq).symm]

theorem Orderly.noRepeatedSaw (h : run.Orderly duration) (hfirst : run.firstStart = some first) :
    Experiment.NoRepeatedSaw run.numbered (run.allEvents first duration) := by
  apply Experiment.noRepeatedSaw_of_turns
  intro x y
  by_cases hnodes : ∃ a ∈ run.nodes, ∃ b ∈ run.nodes, a.number = x ∧ b.number = y
  · obtain ⟨a, ha, b, hb, rfl, rfl⟩ := hnodes
    rw [marks_inTime ha hb]
    exact (h.sights first hfirst a ha b.self).tail
  · rw [Brackets.marks_of_unmarked fun it _ given hmark => hnodes (exists_nodes hmark)]
    exact List.isChain_nil

/-! ### The picture -/

def bound (moment : Rat) : Int := (moment * microsPerSecond).floor

theorem seconds_le_iff {t : Int} {moment : Rat} : seconds t ≤ moment ↔ t ≤ bound moment := by
  have hpos : (0 : Rat) < microsPerSecond := by decide
  rw [bound, Rat.le_floor_iff, seconds, div_le_iff₀ hpos]

theorem upTo_eq (node : EmulatedNode) (first : Int) {moment : Rat} (h : moment < duration) :
    node.upTo first moment =
      (node.inTime first duration).filter fun r => r.real - first ≤ bound moment := by
  rw [EmulatedNode.upTo, EmulatedNode.inTime, List.filter_filter]
  apply List.filter_congr
  intro r _
  rw [← Bool.decide_and, decide_eq_decide, seconds_le_iff]
  constructor
  · intro hle
    refine ⟨hle, ?_⟩
    have hlt : moment * microsPerSecond < (duration * microsPerSecond : Int) := by
      push_cast
      exact mul_lt_mul_of_pos_right h (by decide)
    exact lt_of_le_of_lt hle (Rat.floor_lt_iff.mpr hlt)
  · exact fun hboth => hboth.1

/-- The sets of the analysis after the events up to a moment. -/
theorem said_iff {moment : Rat} (hmoment : moment < duration) {s : Experiment Timedelta Nat}
    (hs : Experiment.after run.numbered
      ((run.allEvents first duration).filter fun it => it.1 ≤ bound moment) = some s)
    (word : Word) {x y : Nat} :
    (x, y) ∈ s.said word ↔ ∃ a ∈ run.nodes, ∃ b ∈ run.nodes, a.number = x ∧ b.number = y ∧
      a.Holds first moment word b.self := by
  rw [Experiment.mem_said_iff hs]
  have hholds : ∀ a ∈ run.nodes, ∀ b ∈ run.nodes, a.Holds first moment word b.self ↔
      Brackets.IsOpen (Experiment.wordMark run.numbered) (a.number, b.number, word)
        ((run.allEvents first duration).filter fun it => it.1 ≤ bound moment) := by
    intro a ha b hb
    have hmarks := @marks_allEvents run duration first (fun t => t ≤ bound moment) a b ha hb word
    rw [EmulatedNode.Holds, upTo_eq a first hmoment, Brackets.IsOpen, Brackets.IsOpen, hmarks]
  constructor
  · intro hopen
    by_cases hnodes : ∃ a ∈ run.nodes, ∃ b ∈ run.nodes, a.number = x ∧ b.number = y
    · obtain ⟨a, ha, b, hb, rfl, rfl⟩ := hnodes
      exact ⟨a, ha, b, hb, rfl, rfl, (hholds a ha b hb).mpr hopen⟩
    · rw [Brackets.IsOpen, Brackets.marks_of_unmarked fun it _ given hmark =>
        hnodes (exists_nodes hmark)] at hopen
      exact absurd hopen (by simp)
  · rintro ⟨a, ha, b, hb, rfl, rfl, hopen⟩
    exact (hholds a ha b hb).mp hopen

theorem both_said_iff {moment : Rat} (hmoment : moment < duration) {s : Experiment Timedelta Nat}
    (hs : Experiment.after run.numbered
      ((run.allEvents first duration).filter fun it => it.1 ≤ bound moment) = some s)
    (word answer : Word) {x y : Nat} :
    (x, y) ∈ s.said word ∧ (y, x) ∈ s.said answer ↔
      ∃ a ∈ run.nodes, ∃ b ∈ run.nodes, a.number = x ∧ b.number = y ∧
        a.Holds first moment word b.self ∧ b.Holds first moment answer a.self := by
  rw [said_iff hmoment hs, said_iff hmoment hs]
  constructor
  · rintro ⟨⟨a, ha, b, hb, rfl, rfl, hword⟩, ⟨b', hb', a', ha', hb'number, ha'number, hanswer⟩⟩
    obtain rfl := eq_of_number hb' hb hb'number
    obtain rfl := eq_of_number ha' ha ha'number
    exact ⟨a', ha, b', hb, rfl, rfl, hword, hanswer⟩
  · rintro ⟨a, ha, b, hb, rfl, rfl, hword, hanswer⟩
    exact ⟨⟨a, ha, b, hb, rfl, rfl, hword⟩, ⟨b, hb, a, ha, rfl, rfl, hanswer⟩⟩

theorem shows_of_picture {moment : Rat} (hmoment : moment < duration)
    {s : Experiment Timedelta Nat} (hs : Experiment.after run.numbered
      ((run.allEvents first duration).filter fun it => it.1 ≤ bound moment) = some s)
    {drawn : List DrawnEdge} (h : PictureOf s drawn) : run.Shows first moment drawn where
  sessionsOnce := h.sessionsOnce
  sessions x y := (h.sessions x y).trans
    (both_said_iff hmoment hs (.session .outgoing) (.session .incoming))
  discoveriesOnce := h.discoveriesOnce
  discoveries x y := (h.discoveries x y).trans (both_said_iff hmoment hs .visible .visible)

theorem Orderly.shows (h : run.Orderly duration) (hfirst : run.firstStart = some first)
    {final : Experiment Timedelta Nat}
    (hfinal : Experiment.after run.numbered (run.allEvents first duration) = some final)
    {moment : Rat} (hmoment : moment < duration) :
    run.Shows first moment
      (updateTopology (final.events.map (EdgeEvent.renamed seconds id)) moment) := by
  have hself := h.noSelf hfirst
  have hsaw := h.noRepeatedSaw hfirst
  have hsorted : (run.allEvents first duration).Pairwise fun it it' => it.1 ≤ it'.1 :=
    List.pairwise_insertionSort _ _
  have hsplit := sorted_split (bound moment) hsorted
  rw [hsplit] at hself hsaw
  rw [Experiment.after, hsplit, Experiment.run_append] at hfinal
  obtain ⟨s, hbefore, hafter⟩ := Option.bind_eq_some_iff.mp hfinal
  have hpending : ∀ rest, Experiment.SightsPending run.numbered
      (Experiment.start run.numbered : Experiment Timedelta Nat) rest := by
    intro rest a b hseen
    exact absurd hseen (by simp [Experiment.start])
  obtain ⟨upTo, hupTo, hshown⟩ := Experiment.run_shownBy hbefore hself hsaw (hpending _)
  obtain ⟨upTo', hupTo', htimes, -⟩ := Experiment.run_events hbefore
  obtain ⟨later, hlater, hlaterTimes, -⟩ := Experiment.run_events hafter
  obtain rfl : upTo' = upTo := List.append_cancel_left (hupTo'.symm.trans hupTo)
  have hreached : ∀ e ∈ upTo'.map (EdgeEvent.renamed seconds id), e.time ≤ moment := by
    intro e he
    obtain ⟨e', he', rfl⟩ := List.mem_map.mp he
    obtain ⟨it, hit, htime⟩ := List.mem_map.mp (htimes.subset (List.mem_map_of_mem he'))
    apply seconds_le_iff.mpr
    rw [← htime]
    simpa using (List.mem_filter.mp hit).2
  have hbeyond : ∀ e ∈ later.map (EdgeEvent.renamed seconds id), moment < e.time := by
    intro e he
    obtain ⟨e', he', rfl⟩ := List.mem_map.mp he
    obtain ⟨it, hit, htime⟩ := List.mem_map.mp (hlaterTimes.subset (List.mem_map_of_mem he'))
    apply not_le.mp
    intro hle
    have hbound := seconds_le_iff.mp hle
    rw [← htime] at hbound
    exact absurd (of_decide_eq_true (List.mem_filter.mp hit).2) (not_lt.mpr hbound)
  have hevents : final.events = upTo' ++ later := by
    rw [hlater, hupTo]
    rfl
  apply shows_of_picture hmoment hbefore
  have hplayed : ∀ r, (upTo'.map (EdgeEvent.renamed seconds id)).foldl Replay.play r =
      upTo'.foldl Replay.play r := by
    intro r
    rw [List.foldl_map]
    rfl
  rw [hevents, List.map_append, updateTopology, replay_upTo hreached hbeyond, hplayed]
  exact (hshown _ (start_shownBy run.numbered)).picture

/-! ### What is written -/

private theorem mapM_eq_some {α β : Type} {f : α → Option β} {g : α → β} {l : List α}
    (h : ∀ a ∈ l, f a = some (g a)) : l.mapM f = some (l.map g) := by
  induction l with
  | nil => rfl
  | cons a rest ih =>
      rw [List.mapM_cons, h a List.mem_cons_self, ih fun b hb => h b (List.mem_cons_of_mem a hb)]
      rfl

def byNumber (run : EmulatedRun) : List (PeerId × Nat) :=
  run.numbered.insertionSort fun x y => x.2 ≤ y.2

/-- The numbers of the nodes as the analysis reads them. -/
def numberTexts (run : EmulatedRun) : List (Text × Text) :=
  run.numbered.map fun e => (addressText e.1, Nat.toDigits 10 e.2)

theorem numbered_lt (hexact : ∀ node ∈ run.nodes, node.number < 2 ^ 53) {e : PeerId × Nat}
    (he : e ∈ run.numbered) : e.2 < 2 ^ 53 := by
  obtain ⟨node, hnode, rfl⟩ := List.mem_map.mp he
  exact hexact node (run.mem_ordered.mp hnode)

theorem sortedItems_eq (hexact : ∀ node ∈ run.nodes, node.number < 2 ^ 53) :
    sortedItems run.numberTexts =
      some (run.byNumber.map fun e => (addressText e.1, Nat.toDigits 10 e.2)) := by
  have hread : run.numberTexts.mapM (fun entry =>
      (readInt isIntSpace digit entry.2).map fun num => (num, entry)) =
        some (run.numbered.map fun e => ((e.2 : Int), (addressText e.1, Nat.toDigits 10 e.2))) := by
    rw [numberTexts, List.mapM_map]
    apply mapM_eq_some
    intro e he
    rw [Function.comp_apply, readInt_toDigits (length_toDigits_le (numbered_lt hexact he))]
    rfl
  have hsort := List.map_insertionSort (r := fun x y : PeerId × Nat => x.2 ≤ y.2)
    (s := fun x y : Int × (Text × Text) => x.1 ≤ y.1)
    (fun e => ((e.2 : Int), (addressText e.1, Nat.toDigits 10 e.2))) run.numbered
    fun a _ b _ => Int.ofNat_le.symm
  rw [sortedItems, hread, Option.map_some, ← hsort, List.map_map]
  rfl

/-- The same numbers, as `graph.txt` has them. -/
def typed (run : EmulatedRun) : List (MacAddress × NodeNumber) :=
  run.numbered.map fun e => (e.1.address, nodeNumber e.2)

theorem sortedNodes_typed : sortedNodes run.typed =
    run.byNumber.map fun e => (e.1.address, nodeNumber e.2) := by
  rw [sortedNodes, typed, byNumber]
  rw [List.map_insertionSort (r := fun x y : PeerId × Nat => x.2 ≤ y.2)
    (s := fun x y : MacAddress × NodeNumber => x.2.toInt ≤ y.2.toInt)]
  intro a _ b _
  rw [toInt_nodeNumber, toInt_nodeNumber]

theorem nodesText_eq :
    nodesText (run.byNumber.map fun e => (addressText e.1, Nat.toDigits 10 e.2)) =
      ((sortedNodes run.typed).flatMap fun entry => nodeLine entry ++ ['\n']) ++ ['\n'] := by
  rw [sortedNodes_typed, nodesText, List.flatMap_map, List.flatMap_map]
  rfl

theorem graphLine_eq (e : EdgeEvent Timedelta Nat) :
    graphLine (e.renamed id (Nat.toDigits 10)) = eventLine (e.renamed id nodeNumber) ++ ['\n'] := by
  simp [graphLine, eventLine, EdgeEvent.renamed, nodeNumber]

theorem main_of_merge (hexact : ∀ node ∈ run.nodes, node.number < 2 ^ 53)
    {evs : List (Timedelta × NodeEvent PeerId)}
    (hmerge : combineLogs run.files duration =
      some (run.numberTexts, Experiment.renamedEvents id addressText evs))
    {final : Experiment Timedelta Nat} (hfinal : Experiment.after run.numbered evs = some final) :
    ∃ analysis, combineLogsMain run.files duration = some analysis ∧
      analysis.graph =
        graphText run.typed (final.events.map (EdgeEvent.renamed id nodeNumber)) := by
  have hnumbers : ∀ peer, KeyedList.get (addressText peer) run.numberTexts =
      (KeyedList.get peer run.numbered).map (Nat.toDigits 10) :=
    fun peer => KeyedList.get_map addressText_injective _ peer run.numbered
  obtain ⟨texts, htexts, hrenamed⟩ :=
    @Experiment.after_renamed Timedelta Timedelta _ _ _ _ _ _ _ _ id _ _ _ _ _
      digits_injective hnumbers _ hfinal
  have hlines : (Experiment.renamedEvents id addressText evs).mapM (combinedLine run.numberTexts) =
      some ((Experiment.renamedEvents id addressText evs).map fun ev =>
        (combinedLine run.numberTexts ev).getD []) := by
    apply mapM_eq_some
    intro ev hev
    obtain ⟨hknown, -⟩ := Experiment.after_isSome_iff.mp ⟨texts, htexts⟩
    obtain ⟨ha, hb⟩ := hknown ev hev
    obtain ⟨a, ha⟩ := Option.isSome_iff_exists.mp ha
    obtain ⟨b, hb⟩ := Option.isSome_iff_exists.mp hb
    simp [combinedLine, ha, hb]
  have hverdict : ∃ verdict, verdictOf texts.connTime texts.syncTime = some verdict := by
    unfold verdictOf
    cases hconn : texts.connTime.filter (· ≠ 0) with
    | none => exact ⟨none, rfl⟩
    | some conn =>
        have hsome : texts.connTime ≠ none := by
          intro hnone
          rw [hnone] at hconn
          exact absurd hconn (by simp)
        obtain ⟨sync, hsync⟩ :=
          Option.isSome_iff_exists.mp (Experiment.syncTime_isSome htexts hsome)
        rw [hsync]
        exact ⟨some (conn, sync), rfl⟩
  obtain ⟨verdict, hverdict⟩ := hverdict
  have hgraph : nodesText (run.byNumber.map fun e => (addressText e.1, Nat.toDigits 10 e.2)) ++
      texts.events.flatMap graphLine =
        graphText run.typed (final.events.map (EdgeEvent.renamed id nodeNumber)) := by
    have hchanges : texts.events.flatMap graphLine =
        (final.events.map (EdgeEvent.renamed id nodeNumber)).flatMap fun e =>
          eventLine e ++ ['\n'] := by
      rw [hrenamed.events, List.flatMap_map, List.flatMap_map]
      exact List.flatMap_congr fun e _ => graphLine_eq e
    rw [graphText, nodesText_eq, hchanges, List.append_assoc, List.singleton_append]
  have hmain : (combineLogsMain run.files duration).map Analysis.graph = some
      (nodesText (run.byNumber.map fun e => (addressText e.1, Nat.toDigits 10 e.2)) ++
        texts.events.flatMap graphLine) := by
    rw [combineLogsMain, hmerge]
    simp only [Option.bind_some, sortedItems_eq hexact, hlines, getExperimentStats, htexts,
      Option.map_some, hverdict]
  obtain ⟨analysis, hanalysis, htext⟩ := Option.map_eq_some_iff.mp hmain
  exact ⟨analysis, hanalysis, htext.trans hgraph⟩

/-! ### What is read again -/

theorem elapsed_bounds (hfirst : run.firstStart = some first)
    {it : Timedelta × NodeEvent PeerId} (hit : it ∈ run.allEvents first duration) :
    0 ≤ it.1 ∧ it.1 < microsPerDay := by
  obtain ⟨node, hnode, r, hr, rfl⟩ := mem_allEvents.mp hit
  obtain ⟨line, hline, hsaid⟩ := List.mem_filterMap.mp (List.mem_of_mem_filter hr)
  obtain ⟨said, -, rfl⟩ := Option.map_eq_some_iff.mp hsaid
  obtain ⟨hmem, hmin⟩ := List.min?_eq_some_iff.mp hfirst
  obtain ⟨earliest, hearliest, rfl⟩ := List.mem_map.mp hmem
  have hstart : ∀ node : EmulatedNode,
      (node.startTime, LogLine.transport (.started node.self)) ∈ node.lines :=
    fun node => List.mem_append_right _ List.mem_cons_self
  have hmember : line ∈ node.lines := List.mem_append_right _ (List.mem_cons_of_mem _ hline)
  have hshort := run.short earliest hearliest node hnode _ (hstart earliest) line hmember
  have hlines := run.chronological node hnode
  rw [List.pairwise_map] at hlines
  have hafter : node.startTime ≤ line.1 :=
    (List.pairwise_cons.mp (List.pairwise_append.mp hlines).2.1).1 line hline
  have hfirst : earliest.startTime ≤ node.startTime := hmin _ (List.mem_map_of_mem hnode)
  refine ⟨?_, hshort⟩
  change 0 ≤ line.1 - earliest.startTime
  omega

/-- `graph.txt` of changes in order, none of them on a whole second, is read back. -/
theorem parse_typed (hexact : ∀ node ∈ run.nodes, node.number < 2 ^ 53)
    {evs : List (Timedelta × NodeEvent PeerId)} {final : Experiment Timedelta Nat}
    (hfinal : Experiment.after run.numbered evs = some final)
    (hday : ∀ it ∈ evs, 0 ≤ it.1 ∧ it.1 < microsPerDay)
    (horder : evs.Pairwise fun it it' => it.1 ≤ it'.1)
    (hfraction : ∀ it ∈ evs, ¬ (microsPerSecond : Int) ∣ it.1) :
    (parseInput (graphText run.typed
        (final.events.map (EdgeEvent.renamed id nodeNumber)))).nodes.Perm
      (run.nodes.map fun node => node.drawn) ∧
    (parseInput (graphText run.typed (final.events.map (EdgeEvent.renamed id nodeNumber)))).events =
      final.events.map (EdgeEvent.renamed seconds id) := by
  obtain ⟨new, hnew, htimes, hbetween⟩ := Experiment.run_events hfinal
  have hevents : final.events = new := hnew
  subst hevents
  have htime : ∀ e ∈ final.events, ∃ it ∈ evs, it.1 = e.time := fun e he =>
    List.mem_map.mp (htimes.subset (List.mem_map_of_mem he))
  have hexactNumber : ∀ n ∈ run.numbered.map Prod.snd, (nodeNumber n).Exact := by
    intro n hn
    obtain ⟨e, he, rfl⟩ := List.mem_map.mp hn
    exact nodeNumber_exact (numbered_lt hexact he)
  obtain ⟨hnodes, hread⟩ := @parseInput_graphText run.typed
    (final.events.map (EdgeEvent.renamed id nodeNumber))
    (by
      intro e he
      obtain ⟨e', he', rfl⟩ := List.mem_map.mp he
      obtain ⟨it, hit, heq⟩ := htime e' he'
      rw [EdgeEvent.renamed, id, ← heq]
      exact hday it hit)
    (by
      rw [List.pairwise_map]
      exact List.pairwise_map.mp ((List.pairwise_map.mpr horder).sublist htimes))
  rw [hnodes, hread]
  constructor
  · have hdrawn : (sortedNodes run.typed).map (nodeShown NodeNumber.read) =
        run.byNumber.map fun e => (⟨some e.2, addressText e.1⟩ : TopologyNode) := by
      rw [sortedNodes_typed, List.map_map]
      apply List.map_congr_left
      intro e he
      have hn : (nodeNumber e.2).Exact :=
        hexactNumber _ (List.mem_map_of_mem ((List.mem_insertionSort _).mp he))
      rw [Function.comp_apply, nodeShown, hn, toInt_nodeNumber]
      rfl
    rw [hdrawn]
    have hperm := (List.perm_insertionSort (fun x y : PeerId × Nat => x.2 ≤ y.2) run.numbered).map
      fun e => (⟨some e.2, addressText e.1⟩ : TopologyNode)
    have hordered := (List.perm_insertionSort (fun x y : EmulatedNode => x.name ≤ y.name)
      run.nodes).map fun node => node.drawn
    refine hperm.trans ?_
    rw [numbered, List.map_map]
    exact hordered
  · rw [(filterMap_readEvent_eq _).mpr, List.map_map]
    · apply List.map_congr_left
      intro e _
      simp [EdgeEvent.shown, EdgeEvent.renamed]
    · intro e he
      obtain ⟨e', he', rfl⟩ := List.mem_map.mp he
      obtain ⟨it, hit, heq⟩ := htime e' he'
      rw [EdgeEvent.renamed, id, ← heq]
      exact hfraction it hit
    · intro e he
      obtain ⟨e', he', rfl⟩ := List.mem_map.mp he
      obtain ⟨hfrom, hto⟩ := hbetween e' he'
      exact ⟨hexactNumber _ hfrom, hexactNumber _ hto⟩

theorem time_lt {duration : Int} {final : Experiment Timedelta Nat}
    (hfinal : Experiment.after run.numbered (run.allEvents first duration) = some final)
    {e : EdgeEvent Timedelta Nat} (he : e ∈ final.events) : seconds e.time < duration := by
  obtain ⟨new, hnew, htimes, -⟩ := Experiment.run_events hfinal
  have hevents : final.events = new := hnew
  obtain ⟨it, hit, htime⟩ :=
    List.mem_map.mp (htimes.subset (List.mem_map_of_mem (hevents ▸ he)))
  obtain ⟨node, -, r, hr, rfl⟩ := mem_allEvents.mp hit
  have hlt : r.real - first < duration * microsPerSecond := by
    simpa using (List.mem_filter.mp hr).2
  have hsecond : (0 : Rat) < (microsPerSecond : Nat) := by decide
  rw [← htime, seconds, div_lt_iff₀ hsecond]
  exact_mod_cast hlt

theorem Orderly.pictured {run : EmulatedRun} {duration : Int} (h : run.Orderly duration) :
    ∃ analysis, combineLogsMain run.files duration = some analysis ∧
      (parseInput analysis.graph).nodes.Perm (run.nodes.map fun node => node.drawn) ∧
      (∀ e ∈ (parseInput analysis.graph).events, e.time < duration) ∧
      ∀ first ∈ run.firstStart, ∀ moment : Rat, moment < duration →
        run.Shows first moment (updateTopology (parseInput analysis.graph).events moment) := by
  cases hfirst : run.firstStart with
  | none =>
      have hnodes : run.nodes = [] := by
        rw [firstStart, List.min?_eq_none_iff, List.map_eq_nil_iff] at hfirst
        exact hfirst
      have hmerge : combineLogs run.files duration =
          some (run.numberTexts, Experiment.renamedEvents id addressText []) := by
        rw [files, hnodes, numberTexts, numbered, ordered, hnodes]
        rfl
      have hstart : Experiment.after run.numbered ([] : List (Timedelta × NodeEvent PeerId)) =
          some (Experiment.start run.numbered) := rfl
      obtain ⟨analysis, hmain, hgraph⟩ := main_of_merge h.exact hmerge hstart
      obtain ⟨hdrawn, hevents⟩ := parse_typed h.exact hstart (by simp) .nil (by simp)
      refine ⟨analysis, hmain, hgraph ▸ hdrawn, ?_, by simp⟩
      rw [hgraph, hevents]
      simp [Experiment.start]
  | some first =>
      obtain ⟨final, hfinal⟩ := h.after hfirst
      obtain ⟨analysis, hmain, hgraph⟩ := main_of_merge h.exact (combineLogs_files h hfirst) hfinal
      obtain ⟨hnodes, hevents⟩ := parse_typed h.exact hfinal
        (fun it hit => elapsed_bounds hfirst hit) (List.pairwise_insertionSort _ _) (by
          intro it hit
          obtain ⟨node, hnode, r, hr, rfl⟩ := mem_allEvents.mp hit
          exact h.fraction first hfirst node hnode r hr)
      rw [← hgraph] at hnodes hevents
      refine ⟨analysis, hmain, hnodes, ?_, ?_⟩
      · rw [hevents]
        intro e he
        obtain ⟨e', he', rfl⟩ := List.mem_map.mp he
        exact time_lt hfinal he'
      · intro first' hfirst' moment hmoment
        obtain rfl := Option.some.inj hfirst'
        rw [hevents]
        exact h.shows hfirst hfinal hmoment

/-- What is drawn of a moment of an orderly run is what the nodes had reported by then. -/
theorem pictures_show_reports (run : EmulatedRun) (duration : Int) (h : run.Orderly duration) :
    ∃ analysis, combineLogsMain run.files duration = some analysis ∧
      (parseInput analysis.graph).nodes.Perm (run.nodes.map fun node => node.drawn) ∧
      ∀ first ∈ run.firstStart, ∀ moment : Rat, moment < duration →
        run.Shows first moment (updateTopology (parseInput analysis.graph).events moment) := by
  obtain ⟨analysis, hmain, hnodes, -, hshows⟩ := h.pictured
  exact ⟨analysis, hmain, hnodes, hshows⟩

/-! ### Two nodes -/

section Meeting

private def peerOf (n : Byte) : PeerId := ⟨[0, 0, 0, 0, 0, n], rfl⟩

private def hello (n : Byte) : List IpTransport.Event :=
  [.broadcastHello 0x0200000A (peerOf n) ⟨5, true, some "eth0"⟩]

/-- The first node finds the second one a second after its start. -/
def firstNode : EmulatedNode where
  name := "log_1".toList
  self := peerOf 1
  order := .little
  events := hello 2
  transport := (IpTransport.machine.exec (.init (peerOf 1) .little) (hello 2)).get
    (by decide +kernel)
  run := (Option.some_get _).symm
  before := []
  startTime := 1000000
  after := [(2000001, .transport (.notifies (.newNeighbour (peerOf 2))))]
  notified := by decide +kernel
  number := 1
  named := by decide

/-- The second node finds the first one later. -/
def secondNode : EmulatedNode where
  name := "log_2".toList
  self := peerOf 2
  order := .little
  events := hello 1
  transport := (IpTransport.machine.exec (.init (peerOf 2) .little) (hello 1)).get
    (by decide +kernel)
  run := (Option.some_get _).symm
  before := []
  startTime := 1500000
  after := [(3000002, .transport (.notifies (.newNeighbour (peerOf 1))))]
  notified := by decide +kernel
  number := 2
  named := by decide

def meeting : EmulatedRun where
  nodes := [firstNode, secondNode]
  numbers := by decide
  selves := by decide
  chronological := by decide
  short := by decide

private theorem alternates_sight {r : Report} (h : r.what = .saw) (key : Word × PeerId) :
    Brackets.Alternates Report.mark key [r] := by
  by_cases hkey : key = (.visible, r.peer)
  · have hmark : Report.mark r = some (key, true) := by rw [Report.mark, h, hkey]; rfl
    exact Brackets.alternates_nil.own hmark (by simp [Brackets.not_isOpen_nil])
  · refine Brackets.alternates_nil.other fun given hmark => hkey ?_
    rw [Report.mark, h] at hmark
    exact (Prod.mk.inj (Option.some.inj hmark)).1.symm

theorem meeting_orderly : meeting.Orderly 60 := by
  have hfirst : ∀ first ∈ meeting.firstStart, first = 1000000 := by
    intro first hmem
    exact (Option.some.inj hmem).symm
  have hnodes : ∀ node ∈ meeting.nodes, node = firstNode ∨ node = secondNode := by
    intro node hnode
    exact List.mem_pair.mp hnode
  have hreports : ∀ node ∈ meeting.nodes, ∃ r : Report, r.what = .saw ∧
      node.reports = [r] ∧ node.inTime 1000000 60 = [r] ∧ r.peer ≠ node.self ∧
      (∃ other ∈ meeting.nodes, other.self = r.peer) ∧ RunLogs.SameDay 1000000 node.startTime ∧
      RunLogs.SameDay 1000000 r.real ∧ ¬ (microsPerSecond : Int) ∣ r.real - 1000000 := by
    intro node hnode
    rcases hnodes node hnode with rfl | rfl
    · exact ⟨⟨2000001, .saw, peerOf 2⟩, rfl, by decide, by decide, by decide,
        ⟨secondNode, List.mem_cons_of_mem _ List.mem_cons_self, rfl⟩, rfl, rfl, by decide⟩
    · exact ⟨⟨3000002, .saw, peerOf 1⟩, rfl, by decide, by decide, by decide,
        ⟨firstNode, List.mem_cons_self, rfl⟩, rfl, rfl, by decide⟩
  constructor
  · intro first hmem node hnode
    obtain rfl := hfirst first hmem
    obtain ⟨r, -, hreports, -, -, -, hstart, hday, -⟩ := hreports node hnode
    rw [hreports]
    exact ⟨hstart, by simpa using hday⟩
  · intro first hmem node hnode
    obtain rfl := hfirst first hmem
    obtain ⟨r, -, -, hinTime, hpeer, hother, -⟩ := hreports node hnode
    rw [hinTime]
    simpa using ⟨hpeer, hother⟩
  · intro first hmem node hnode key
    obtain rfl := hfirst first hmem
    obtain ⟨r, hsaw, -, hinTime, -⟩ := hreports node hnode
    rw [hinTime]
    exact (alternates_sight hsaw key).paired
  · intro first hmem node hnode peer
    obtain rfl := hfirst first hmem
    obtain ⟨r, hsaw, -, hinTime, -⟩ := hreports node hnode
    rw [hinTime]
    exact alternates_sight hsaw _
  · intro first hmem node hnode
    obtain rfl := hfirst first hmem
    obtain ⟨r, -, -, hinTime, -, -, -, -, hfraction⟩ := hreports node hnode
    rw [hinTime]
    simpa using hfraction
  · intro node hnode
    rcases hnodes node hnode with rfl | rfl <;> decide

/-- Three seconds after the first start there is a line between the two nodes, and after two seconds
there is none yet. -/
theorem meeting_pictured : ∃ analysis, combineLogsMain meeting.files 60 = some analysis ∧
    s(1, 2) ∉ (edgesOf .discovery (updateTopology (parseInput analysis.graph).events 2)).map
      (fun e => s(e.1, e.2)) ∧
    s(1, 2) ∈ (edgesOf .discovery (updateTopology (parseInput analysis.graph).events 3)).map
      (fun e => s(e.1, e.2)) := by
  obtain ⟨analysis, hmain, -, hshows⟩ := pictures_show_reports meeting 60 meeting_orderly
  have hfirst : firstNode ∈ meeting.nodes := List.mem_cons_self
  have hsecond : secondNode ∈ meeting.nodes := List.mem_cons_of_mem _ List.mem_cons_self
  refine ⟨analysis, hmain, ?_, ?_⟩
  · rw [(hshows 1000000 rfl 2 (by decide)).discoveries]
    rintro ⟨a, ha, b, hb, hanumber, hbnumber, -, hholds⟩
    obtain rfl := eq_of_number ha hfirst hanumber
    obtain rfl := eq_of_number hb hsecond hbnumber
    unfold EmulatedNode.Holds Brackets.IsOpen at hholds
    exact absurd hholds (by decide +kernel)
  · rw [(hshows 1000000 rfl 3 (by decide)).discoveries]
    refine ⟨firstNode, hfirst, secondNode, hsecond, rfl, rfl, ?_⟩
    unfold EmulatedNode.Holds Brackets.IsOpen
    decide +kernel

end Meeting

end EmulatedRun

end Diplom
