import Diplom.Proof.Connected
import Diplom.Proof.OpenEdges
import Mathlib.Order.Basic

/-!
# The times of an experiment

`get_experiment_stats` goes through the events with three variables: whether the graph was connected
after the last event, since when it has been, and until when. They are set and reset as the graph
becomes connected and ceases to be. What they come to is said here by the graphs after all the
events before: the first time belongs to the event with which the last streak of connected graphs
began, the second to the last event of all.
-/

namespace Diplom

namespace Experiment

variable {Time Node Mac : Type} [DecidableEq Node] [DecidableEq Mac] {s t : Experiment Time Node}
  {macToNum : List (Mac × Node)} {evs : List (Time × NodeEvent Mac)}

/-- The graph is connected after the first `i` events. -/
def ConnectedAfter (macToNum : List (Mac × Node)) (evs : List (Time × NodeEvent Mac)) (i : Nat) :
    Prop :=
  ∃ s, after macToNum (evs.take i) = some s ∧ s.graph.Connected

/-- With event `i` the graph becomes connected, and it stays so to the end. -/
structure Turns (macToNum : List (Mac × Node)) (evs : List (Time × NodeEvent Mac)) (i : Nat) :
    Prop where
  pos : 1 ≤ i
  le : i ≤ evs.length
  before : ¬ ConnectedAfter macToNum evs (i - 1)
  stays : ∀ j, i ≤ j → j ≤ evs.length → ConnectedAfter macToNum evs j

/-- What the two times mean. -/
structure TimesMean (macToNum : List (Mac × Node)) (evs : List (Time × NodeEvent Mac))
    (connTime syncTime : Option Time) : Prop where
  synced : ConnectedAfter macToNum evs evs.length → syncTime = evs.getLast?.map Prod.fst
  unsynced : ¬ ConnectedAfter macToNum evs evs.length → syncTime = none
  unique : ∀ i j, Turns macToNum evs i → Turns macToNum evs j → i = j
  found : ∀ i, Turns macToNum evs i → ∃ it, evs[i - 1]? = some it ∧ connTime = some it.1
  missing : (∀ i, ¬ Turns macToNum evs i) → connTime = none

/-! ### The graph after each event -/

theorem wf_apply {time : Time} {a b : Node} {what : What} (hwf : s.graph.Wf)
    (h : s.apply time a b what = some t) : t.graph.Wf := by
  obtain ⟨-, graph, hgraph, rfl⟩ := apply_eq_some.mp h
  have hold : (s.tell a b what).graph = s.graph := by
    cases what with
    | saw => rfl
    | lost => rfl
    | opened dir => cases dir <;> rfl
    | closed dir => cases dir <;> rfl
  change graph.Wf
  cases what with
  | saw =>
      obtain rfl := Option.some.inj hgraph
      exact hwf
  | lost =>
      obtain rfl := Option.some.inj hgraph
      exact hwf
  | opened dir =>
      obtain rfl := Option.some.inj hgraph
      rw [hold]
      split
      · exact hwf.addEdge a b
      · exact hwf
  | closed dir =>
      simp only [graphAfter, hold] at hgraph
      split at hgraph
      · exact hwf.eraseEdge hgraph
      · obtain rfl := Option.some.inj hgraph
        exact hwf

omit [DecidableEq Mac] in
theorem wf_start (macToNum : List (Mac × Node)) :
    (start macToNum : Experiment Time Node).graph.Wf := by
  have hkept : ∀ (l : List (Mac × Node)) (g : Graph Node), g.Wf →
      (l.foldl (fun g entry => g.addVertex entry.2) g).Wf := by
    intro l
    induction l with
    | nil => exact fun g hg => hg
    | cons entry l ih => exact fun g hg => ih _ (hg.addVertex entry.2)
  exact hkept macToNum .empty Graph.wf_empty

theorem wf_after (h : after macToNum evs = some s) : s.graph.Wf := by
  induction evs using List.reverseRecOn generalizing s with
  | nil =>
      obtain rfl := Option.some.inj h
      exact wf_start macToNum
  | append_singleton evs it ih =>
      rw [after_concat] at h
      obtain ⟨s, hs, hround⟩ := Option.bind_eq_some_iff.mp h
      obtain ⟨a, b, t, -, -, happly, rfl⟩ := round_eq_some hround
      have ht : t.graph.Wf := wf_apply (ih hs) happly
      exact ht

theorem connectedAfter_length (h : after macToNum evs = some s) :
    ConnectedAfter macToNum evs evs.length ↔ s.graph.isConnected = true := by
  rw [(wf_after h).isConnected_iff, ConnectedAfter, List.take_length, h]
  simp

theorem connectedAfter_concat {it : Time × NodeEvent Mac} {i : Nat} (hi : i ≤ evs.length) :
    ConnectedAfter macToNum (evs ++ [it]) i ↔ ConnectedAfter macToNum evs i := by
  rw [ConnectedAfter, List.take_append_of_le_length hi, ConnectedAfter]

/-! ### The streak -/

theorem Turns.unique {i j : Nat} (hi : Turns macToNum evs i) (hj : Turns macToNum evs j) :
    i = j := by
  have hpos := hi.pos
  have hpos' := hj.pos
  rcases Nat.lt_trichotomy i j with hlt | heq | hgt
  · exact absurd (hi.stays (j - 1) (by omega) (by have := hj.le; omega)) hj.before
  · exact heq
  · exact absurd (hj.stays (i - 1) (by omega) (by have := hi.le; omega)) hi.before

/-- After one more event the graph has turned connected with it, or it did so before and still is.
-/
theorem turns_concat {it : Time × NodeEvent Mac} {i : Nat} :
    Turns macToNum (evs ++ [it]) i ↔
      ConnectedAfter macToNum (evs ++ [it]) (evs.length + 1) ∧
        (i = evs.length + 1 ∧ ¬ ConnectedAfter macToNum evs evs.length ∨
          Turns macToNum evs i) := by
  have hlength : (evs ++ [it]).length = evs.length + 1 := by simp
  constructor
  · intro h
    have hle := h.le
    have hpos := h.pos
    rw [hlength] at hle
    refine ⟨h.stays _ hle hlength.ge, ?_⟩
    have hbefore := h.before
    rw [connectedAfter_concat (by omega)] at hbefore
    rcases Nat.lt_or_ge evs.length i with hlast | hold
    · obtain rfl : i = evs.length + 1 := by omega
      exact .inl ⟨rfl, hbefore⟩
    · refine .inr ⟨hpos, hold, hbefore, fun j hij hj => ?_⟩
      rw [← connectedAfter_concat hj]
      exact h.stays j hij (by omega)
  · rintro ⟨hlast, ⟨rfl, hbefore⟩ | h⟩
    · refine ⟨by omega, hlength.ge, ?_, fun j hj hj' => ?_⟩
      · rw [Nat.add_sub_cancel, connectedAfter_concat le_rfl]
        exact hbefore
      · obtain rfl : j = evs.length + 1 := by omega
        exact hlast
    · have hle := h.le
      refine ⟨h.pos, by omega, ?_, fun j hj hj' => ?_⟩
      · rw [connectedAfter_concat (by omega)]
        exact h.before
      · rcases Nat.lt_or_ge evs.length j with hnew | hold
        · obtain rfl : j = evs.length + 1 := by omega
          exact hlast
        · rw [connectedAfter_concat hold]
          exact h.stays j hj hold

/-- The three variables after a list of events. -/
structure Streak (macToNum : List (Mac × Node)) (evs : List (Time × NodeEvent Mac))
    (s : Experiment Time Node) : Prop where
  last : s.lastState = s.graph.isConnected
  sync : s.syncTime = if s.graph.isConnected then evs.getLast?.map Prod.fst else none
  conn : ∀ time, s.connTime = some time ↔
    ∃ i it, Turns macToNum evs i ∧ evs[i - 1]? = some it ∧ it.1 = time

theorem streak_after (h : after macToNum evs = some s) : Streak macToNum evs s := by
  induction evs using List.reverseRecOn generalizing s with
  | nil =>
      obtain rfl := Option.some.inj h
      refine ⟨rfl, by split <;> rfl, fun time => ?_⟩
      refine iff_of_false (by simp [start]) ?_
      rintro ⟨i, it, -, hit, -⟩
      simp at hit
  | append_singleton evs it ih =>
      have hnow := connectedAfter_length h
      rw [after_concat] at h
      obtain ⟨s, hs, hround⟩ := Option.bind_eq_some_iff.mp h
      obtain ⟨a, b, t, -, -, happly, rfl⟩ := round_eq_some hround
      obtain ⟨graph, rfl⟩ := apply_eq happly
      obtain ⟨hlastState, -, hconn⟩ := ih hs
      have hbefore := connectedAfter_length hs
      have hkept : (s.tell a b it.2.what).lastState = s.lastState ∧
          (s.tell a b it.2.what).connTime = s.connTime := by
        cases it.2.what with
        | saw => exact ⟨rfl, rfl⟩
        | lost => exact ⟨rfl, rfl⟩
        | opened dir => cases dir <;> exact ⟨rfl, rfl⟩
        | closed dir => cases dir <;> exact ⟨rfl, rfl⟩
      have hlength : (evs ++ [it]).length = evs.length + 1 := by simp
      simp only [mark, hkept.1, hkept.2] at hnow ⊢
      rw [hlength] at hnow
      refine ⟨rfl, by simp, fun time => ?_⟩
      simp only [turns_concat, hnow]
      by_cases hnew : graph.isConnected = true
      · simp only [hnew, if_true, and_true, true_and]
        by_cases hold : s.lastState = false
        · have hturned : ¬ ConnectedAfter macToNum evs evs.length := by
            rw [hbefore, ← hlastState, hold]
            decide
          have hnone : ∀ i, ¬ Turns macToNum evs i := fun i hi => hturned (hi.stays _ hi.le le_rfl)
          simp only [hold, hturned, hnone, if_true, not_false_eq_true, and_true, or_false,
            Option.some.injEq]
          simp
        · have hstill : ConnectedAfter macToNum evs evs.length := by
            rw [hbefore, ← hlastState]
            simpa using hold
          rw [if_neg hold, hconn]
          simp only [hstill, not_true_eq_false, and_false, false_or]
          refine exists_congr fun i => exists_congr fun it' => and_congr_right fun hi => ?_
          have hlt : i - 1 < evs.length := by
            have := hi.pos
            have := hi.le
            omega
          rw [List.getElem?_append_left hlt]
      · simp [hnew]

/-- The two times that the analysis returns: the end of the events if the graph is connected then,
and the event with which it became so for the last time. The first is there only if the second is,
and is not later where the times do not decrease. -/
theorem times_mean [Preorder Time] {allEvents : List (Time × NodeEvent Mac)}
    {connTime syncTime : Option Time} {events : List (EdgeEvent Time Node)}
    (h : getExperimentStats macToNum allEvents = some (connTime, syncTime, events)) :
    TimesMean macToNum allEvents connTime syncTime ∧ (connTime ≠ none → syncTime ≠ none) ∧
      ((allEvents.map Prod.fst).Pairwise (· ≤ ·) →
        ∀ conn ∈ connTime, ∀ sync ∈ syncTime, conn ≤ sync) := by
  obtain ⟨s, hs, heq⟩ := Option.map_eq_some_iff.mp h
  simp only [Prod.mk.injEq] at heq
  obtain ⟨rfl, rfl, -⟩ := heq
  obtain ⟨-, hsync, hconn⟩ := streak_after hs
  have hlast := connectedAfter_length hs
  have hnth : ∀ i, Turns macToNum allEvents i → ∃ it, allEvents[i - 1]? = some it := by
    intro i hi
    have hpos := hi.pos
    have hle := hi.le
    exact ⟨allEvents[i - 1], List.getElem?_eq_getElem (by omega)⟩
  have hstays : ∀ i, Turns macToNum allEvents i → s.graph.isConnected = true :=
    fun i hi => hlast.mp (hi.stays _ hi.le le_rfl)
  refine ⟨⟨fun hc => ?_, fun hc => ?_, fun i j hi hj => hi.unique hj, fun i hi => ?_,
    fun hnone => ?_⟩, fun hfound => ?_, fun hsorted conn hmem sync hmem' => ?_⟩
  · rw [hsync, if_pos (hlast.mp hc)]
  · rw [hsync, if_neg fun hconnected => hc (hlast.mpr hconnected)]
  · obtain ⟨it, hit⟩ := hnth i hi
    exact ⟨it, hit, (hconn it.1).mpr ⟨i, it, hi, hit, rfl⟩⟩
  · apply Option.eq_none_iff_forall_not_mem.mpr
    intro time htime
    obtain ⟨i, -, hi, -⟩ := (hconn time).mp htime
    exact hnone i hi
  · obtain ⟨time, htime⟩ := Option.ne_none_iff_exists'.mp hfound
    obtain ⟨i, it, hi, hit, -⟩ := (hconn time).mp htime
    rw [hsync, if_pos (hstays i hi)]
    have hne : allEvents ≠ [] := by
      rintro rfl
      simp at hit
    simp [List.getLast?_eq_some_getLast hne]
  · obtain ⟨i, it, hi, hit, rfl⟩ := (hconn conn).mp hmem
    rw [hsync, if_pos (hstays i hi), Option.mem_def, Option.map_eq_some_iff] at hmem'
    obtain ⟨last, hlast, rfl⟩ := hmem'
    obtain ⟨init, rfl⟩ := List.getLast?_eq_some_iff.mp hlast
    rw [List.map_append, List.pairwise_append] at hsorted
    rcases List.mem_append.mp (List.mem_of_getElem? hit) with hinit | hend
    · exact hsorted.2.2 it.1 (List.mem_map_of_mem hinit) last.1 (by simp)
    · rw [List.mem_singleton.mp hend]

theorem times_mean_of_two_streaks :
    let macToNum : List (Nat × Nat) := [(10, 1), (20, 2)]
    let allEvents : List (Nat × NodeEvent Nat) :=
      [(0, ⟨20, .opened .outgoing, 10⟩), (1, ⟨10, .opened .incoming, 20⟩),
        (2, ⟨20, .closed .outgoing, 10⟩), (3, ⟨20, .opened .outgoing, 10⟩),
        (4, ⟨20, .saw, 10⟩)]
    TimesMean macToNum allEvents (some 3) (some 4) ∧ (some 3 ≠ none → some 4 ≠ none) ∧
      ((allEvents.map Prod.fst).Pairwise (· ≤ ·) →
        ∀ conn ∈ some 3, ∀ sync ∈ some 4, conn ≤ sync) := by
  intro macToNum allEvents
  have hstats : getExperimentStats macToNum allEvents = some (some 3, some 4,
      [⟨1, 2, .connect, 1⟩, ⟨2, 2, .disconnect, 1⟩, ⟨3, 2, .connect, 1⟩]) := by decide
  exact times_mean hstats

end Experiment

end Diplom
