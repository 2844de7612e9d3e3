import Diplom.Proof.Adjacency
import Diplom.Proof.Words

/-!
# The graph and the sets of open sessions

The analyser keeps the ends of the sessions in two sets and the sessions that are open at both ends
as edges of a graph. A word that is given twice changes no set, but it adds an edge if the other end
has given its word. `entries_round` balances the two for one event; what is said of a whole list of
events follows from it.
-/

namespace Diplom

/-- The direction of a session as the other end sees it. -/
def SessionDirection.opposite : SessionDirection → SessionDirection
  | .incoming => .outgoing
  | .outgoing => .incoming

namespace Experiment

variable {Time Node Mac : Type} [DecidableEq Node] [DecidableEq Mac] {s t : Experiment Time Node}

/-- The set in which the ends of one direction are. -/
def ends (s : Experiment Time Node) : SessionDirection → Finset (Node × Node)
  | .incoming => s.incoming
  | .outgoing => s.outgoing

/-- A session from `x` to `y` is open at both ends. -/
def Agreed (s : Experiment Time Node) (x y : Node) : Prop :=
  (x, y) ∈ s.outgoing ∧ (y, x) ∈ s.incoming

instance (s : Experiment Time Node) (x y : Node) : Decidable (s.Agreed x y) := by
  unfold Agreed
  infer_instance

/-- The number of sessions between `x` and `y` that are open at both ends. -/
def sessions (s : Experiment Time Node) (x y : Node) : Nat :=
  (if s.Agreed x y then 1 else 0) + if s.Agreed y x then 1 else 0

/-- The edges between every two nodes are the sessions that are open at both ends. -/
def InStep (s : Experiment Time Node) : Prop :=
  ∀ x y, x ≠ y → s.graph.entries x y = s.graph.entries y x ∧ s.graph.entries x y = s.sessions x y

/-- The event opens a session that is open already, at both ends. -/
def reopens (s : Experiment Time Node) (a b : Node) : What → Bool
  | .opened dir => (a, b) ∈ s.ends dir ∧ (b, a) ∈ s.ends dir.opposite
  | _ => false

/-! ### What a word does to the sets -/

section Words

variable (s) (a b x y : Node) (dir : SessionDirection)

/-- Both ends of the session that node `x` has with node `y` in this direction. -/
private def Both : Prop := (x, y) ∈ s.ends dir ∧ (y, x) ∈ s.ends dir.opposite

private instance : Decidable (Both s x y dir) := by
  unfold Both
  infer_instance

private theorem sessions_eq :
    s.sessions x y = (if Both s x y dir then 1 else 0) + if Both s y x dir then 1 else 0 := by
  cases dir with
  | incoming =>
      have hflip : ∀ x y, Both s x y .incoming ↔ s.Agreed y x := fun x y => and_comm
      simp only [hflip]
      exact Nat.add_comm _ _
  | outgoing => rfl

private theorem ends_opened : (s.tell a b (.opened dir)).ends dir = insert (a, b) (s.ends dir) := by
  cases dir <;> rfl

private theorem ends_opened_opposite :
    (s.tell a b (.opened dir)).ends dir.opposite = s.ends dir.opposite := by
  cases dir <;> rfl

private theorem ends_closed : (s.tell a b (.closed dir)).ends dir = (s.ends dir).erase (a, b) := by
  cases dir <;> rfl

private theorem ends_closed_opposite :
    (s.tell a b (.closed dir)).ends dir.opposite = s.ends dir.opposite := by
  cases dir <;> rfl

theorem answered_opened : s.answered a b (.opened dir) = decide ((b, a) ∈ s.ends dir.opposite) := by
  cases dir <;> rfl

theorem answered_closed : s.answered a b (.closed dir) = decide ((b, a) ∈ s.ends dir.opposite) := by
  cases dir <;> rfl

theorem stands_closed : s.stands a b (.closed dir) = decide ((a, b) ∈ s.ends dir) := by
  cases dir <;> rfl

end Words

/-! ### One event -/

section Balance

variable {A A' : Node → Node → Prop} [DecidableRel A] [DecidableRel A'] {u v : Node}

private theorem ite_pair (hnew : ∀ x y, A' x y ↔ (x = u ∧ y = v) ∨ A x y) (h : ¬ A u v)
    (x y : Node) :
    (if A' x y then 1 else 0) = (if A x y then 1 else 0) + Graph.half u v x y := by
  unfold Graph.half
  by_cases hxy : x = u ∧ y = v
  · obtain ⟨rfl, rfl⟩ := hxy
    simp [hnew, h]
  · simp [hnew, hxy]

private theorem count_pair (hnew : ∀ x y, A' x y ↔ (x = u ∧ y = v) ∨ A x y) (h : ¬ A u v)
    (x y : Node) :
    (if A' x y then 1 else 0) + (if A' y x then 1 else 0) =
      (if A x y then 1 else 0) + (if A y x then 1 else 0) + Graph.joins u v x y := by
  have hback : Graph.half u v y x = Graph.half v u x y := by simp only [Graph.half, and_comm]
  rw [ite_pair hnew h x y, ite_pair hnew h y x, hback, Graph.joins]
  omega

end Balance

variable {time : Time} {a b : Node} {what : What}

/-- A word that opens an end makes a session if the other end is open and its own was not. -/
private theorem sessions_opened (s : Experiment Time Node) (a b : Node) (dir : SessionDirection)
    (x y : Node) :
    (s.tell a b (.opened dir)).sessions x y +
        (if s.reopens a b (.opened dir) then Graph.joins a b x y else 0) =
      s.sessions x y + (if (s.tell a b (.opened dir)).answered a b (.opened dir) then
        Graph.joins a b x y else 0) := by
  rw [sessions_eq (s.tell a b (.opened dir)) x y dir, sessions_eq s x y dir, answered_opened,
    ends_opened_opposite]
  have hboth : ∀ x y, Both (s.tell a b (.opened dir)) x y dir ↔
      ((x = a ∧ y = b) ∨ (x, y) ∈ s.ends dir) ∧ (y, x) ∈ s.ends dir.opposite := by
    intro x y
    rw [Both, ends_opened, ends_opened_opposite, Finset.mem_insert, Prod.mk.injEq]
  by_cases hother : (b, a) ∈ s.ends dir.opposite
  · by_cases hown : (a, b) ∈ s.ends dir
    · have hsame : ∀ x y, Both (s.tell a b (.opened dir)) x y dir ↔ Both s x y dir := by
        intro x y
        rw [hboth, Both, or_iff_right_of_imp]
        rintro ⟨rfl, rfl⟩
        exact hown
      simp only [hsame, reopens, hother, hown, decide_true, and_self]
    · have hnew : ∀ x y, Both (s.tell a b (.opened dir)) x y dir ↔
          (x = a ∧ y = b) ∨ Both s x y dir := by
        intro x y
        rw [hboth, Both, or_and_right, and_iff_left_of_imp]
        rintro ⟨rfl, rfl⟩
        exact hother
      rw [count_pair hnew (fun h => hown h.1)]
      simp [reopens, hother, hown]
  · have hsame : ∀ x y, Both (s.tell a b (.opened dir)) x y dir ↔ Both s x y dir := by
      intro x y
      rw [hboth, Both]
      refine and_congr_left fun hyx => or_iff_right ?_
      rintro ⟨rfl, rfl⟩
      exact hother hyx
    simp only [hsame, reopens, hother, decide_false, and_false, Bool.false_eq_true, if_false]

/-- A word that closes an end takes a session away if both were open. -/
theorem sessions_closed (s : Experiment Time Node) (a b : Node) (dir : SessionDirection)
    (hstands : s.stands a b (.closed dir) = true) (x y : Node) :
    s.sessions x y = (s.tell a b (.closed dir)).sessions x y +
      if (s.tell a b (.closed dir)).answered a b (.closed dir) then Graph.joins a b x y else 0 := by
  rw [stands_closed, decide_eq_true_iff] at hstands
  rw [sessions_eq (s.tell a b (.closed dir)) x y dir, sessions_eq s x y dir, answered_closed,
    ends_closed_opposite]
  have hboth : ∀ x y, Both (s.tell a b (.closed dir)) x y dir ↔
      ¬ (x = a ∧ y = b) ∧ Both s x y dir := by
    intro x y
    rw [Both, ends_closed, ends_closed_opposite, Finset.mem_erase, Both, ne_eq, Prod.mk.injEq,
      and_assoc]
  by_cases hother : (b, a) ∈ s.ends dir.opposite
  · have hnew : ∀ x y, Both s x y dir ↔
        (x = a ∧ y = b) ∨ Both (s.tell a b (.closed dir)) x y dir := by
      intro x y
      rw [hboth]
      by_cases hxy : x = a ∧ y = b
      · obtain ⟨rfl, rfl⟩ := hxy
        exact iff_of_true ⟨hstands, hother⟩ (.inl ⟨rfl, rfl⟩)
      · simp [hxy]
    rw [count_pair hnew (by simp [hboth])]
    simp [hother]
  · have hsame : ∀ x y, Both (s.tell a b (.closed dir)) x y dir ↔ Both s x y dir := by
      intro x y
      rw [hboth]
      refine and_iff_right_of_imp fun h => ?_
      rintro ⟨rfl, rfl⟩
      exact hother h.2
    simp only [hsame, hother, decide_false, Bool.false_eq_true, if_false, Nat.add_zero]

/-- An event moves the edges as it moves the sessions that are open at both ends, but for a session
that it opens again. -/
theorem entries_apply (h : s.apply time a b what = some t) (x y : Node) :
    t.graph.entries x y + s.sessions x y = s.graph.entries x y + t.sessions x y +
      if s.reopens a b what then Graph.joins a b x y else 0 := by
  obtain ⟨hstands, graph, hgraph, rfl⟩ := apply_eq_some.mp h
  change graph.entries x y + s.sessions x y =
    s.graph.entries x y + (s.tell a b what).sessions x y + _
  cases what with
  | saw =>
      obtain rfl := Option.some.inj hgraph
      rfl
  | lost =>
      obtain rfl := Option.some.inj hgraph
      rfl
  | opened dir =>
      have hsessions := sessions_opened s a b dir x y
      have hold : (s.tell a b (.opened dir)).graph = s.graph := by cases dir <;> rfl
      obtain rfl := Option.some.inj hgraph
      rw [hold]
      by_cases hanswered : (s.tell a b (.opened dir)).answered a b (.opened dir) = true
      · rw [if_pos hanswered] at hsessions ⊢
        rw [Graph.entries_addEdge]
        omega
      · rw [if_neg hanswered] at hsessions ⊢
        omega
  | closed dir =>
      have hsessions := sessions_closed s a b dir hstands x y
      have hold : (s.tell a b (.closed dir)).graph = s.graph := by cases dir <;> rfl
      simp only [graphAfter, hold] at hgraph
      simp only [reopens, Bool.false_eq_true, if_false]
      split at hgraph
      · rename_i hanswered
        rw [if_pos hanswered] at hsessions
        have herased := (Graph.eraseEdge_eq_some hgraph).1 x y
        omega
      · rename_i hanswered
        rw [if_neg hanswered] at hsessions
        obtain rfl := Option.some.inj hgraph
        omega

/-! ### Lists of events -/

/-- What an event says of the ends of sessions: whose end, and whether it opens. -/
def sessionMark (macToNum : List (Mac × Node)) (it : Time × NodeEvent Mac) :
    Option ((Node × Node × SessionDirection) × Bool) :=
  (KeyedList.get it.2.mac1 macToNum).bind fun a =>
    (KeyedList.get it.2.mac2 macToNum).bind fun b =>
      match it.2.what with
      | .opened dir => some ((a, b, dir), true)
      | .closed dir => some ((a, b, dir), false)
      | _ => none

/-- Node `a` has opened its end of a session with node `b`, and not closed it since. -/
def EndOpen (macToNum : List (Mac × Node)) (a b : Node) (dir : SessionDirection)
    (evs : List (Time × NodeEvent Mac)) : Prop :=
  Brackets.IsOpen (sessionMark macToNum) (a, b, dir) evs

instance (macToNum : List (Mac × Node)) (a b : Node) (dir : SessionDirection)
    (evs : List (Time × NodeEvent Mac)) : Decidable (EndOpen macToNum a b dir evs) := by
  unfold EndOpen Brackets.IsOpen
  infer_instance

variable {macToNum : List (Mac × Node)} {evs : List (Time × NodeEvent Mac)}

theorem mem_ends_iff (h : after macToNum evs = some s) (a b : Node) (dir : SessionDirection) :
    (a, b) ∈ s.ends dir ↔ EndOpen macToNum a b dir evs := by
  have hends : s.ends dir = s.said (.session dir) := by
    cases dir <;> rfl
  have hmarks : Brackets.marks (sessionMark macToNum) (a, b, dir) evs =
      Brackets.marks (wordMark macToNum) (a, b, .session dir) evs := by
    apply Brackets.marks_congr
    intro it _ opens
    rw [wordMark_eq_some, sessionMark]
    cases KeyedList.get it.2.mac1 macToNum with
    | none => simp
    | some x =>
        cases KeyedList.get it.2.mac2 macToNum with
        | none => simp
        | some y => cases hwhat : it.2.what <;> simp [What.word, and_assoc]
  rw [hends, mem_said_iff h, EndOpen, Brackets.IsOpen, Brackets.IsOpen, hmarks]

/-- An event opens a session that both its nodes, not one and the same, have opened and not closed
since. -/
def Reopens (macToNum : List (Mac × Node)) (before : List (Time × NodeEvent Mac))
    (it : Time × NodeEvent Mac) : Prop :=
  ∃ a b dir, KeyedList.get it.2.mac1 macToNum = some a ∧
    KeyedList.get it.2.mac2 macToNum = some b ∧ a ≠ b ∧ it.2.what = .opened dir ∧
    EndOpen macToNum a b dir before ∧ EndOpen macToNum b a dir.opposite before

omit [DecidableEq Mac] in
private theorem entries_start (macToNum : List (Mac × Node)) (x y : Node) :
    (start macToNum : Experiment Time Node).graph.entries x y = 0 := by
  have hkept : ∀ (l : List (Mac × Node)) (g : Graph Node),
      (l.foldl (fun g entry => g.addVertex entry.2) g).entries x y = g.entries x y := by
    intro l
    induction l with
    | nil => simp
    | cons entry l ih =>
        intro g
        rw [List.foldl_cons, ih, Graph.entries_addVertex]
  exact hkept macToNum .empty

omit [DecidableEq Mac] in
private theorem inStep_start (macToNum : List (Mac × Node)) :
    (start macToNum : Experiment Time Node).InStep := by
  intro x y _
  rw [entries_start, entries_start]
  simp [sessions, Agreed, start]

private theorem sessions_comm (s : Experiment Time Node) (x y : Node) :
    s.sessions x y = s.sessions y x :=
  Nat.add_comm _ _

/-- An event keeps the edges and the sessions in step exactly if it opens none of them again. -/
private theorem inStep_round {it : Time × NodeEvent Mac} (hs : after macToNum evs = some s)
    (hin : s.InStep) (h : s.round macToNum it = some t) :
    t.InStep ↔ ¬ Reopens macToNum evs it := by
  obtain ⟨a, b, t, ha, hb, happly, rfl⟩ := round_eq_some h
  have hbalance := entries_apply happly
  have hreopens : s.reopens a b it.2.what = true ∧ a ≠ b ↔ Reopens macToNum evs it := by
    constructor
    · rintro ⟨hre, hne⟩
      cases hwhat : it.2.what with
      | opened dir =>
          rw [hwhat, reopens, decide_eq_true_iff, mem_ends_iff hs, mem_ends_iff hs] at hre
          exact ⟨a, b, dir, ha, hb, hne, hwhat, hre.1, hre.2⟩
      | saw => simp [hwhat, reopens] at hre
      | lost => simp [hwhat, reopens] at hre
      | closed dir => simp [hwhat, reopens] at hre
    · rintro ⟨a', b', dir, ha', hb', hne, hwhat, hopen, hopen'⟩
      obtain rfl := Option.some.inj (ha.symm.trans ha')
      obtain rfl := Option.some.inj (hb.symm.trans hb')
      rw [hwhat, reopens, decide_eq_true_iff, mem_ends_iff hs, mem_ends_iff hs]
      exact ⟨⟨hopen, hopen'⟩, hne⟩
  rw [← hreopens]
  change t.InStep ↔ _
  constructor
  · rintro ht ⟨hre, hne⟩
    have hold := (hin a b hne).2
    have hnew := (ht a b hne).2
    have hmoved := hbalance a b
    have hjoins : Graph.joins a b a b = 1 := by simp [Graph.joins, Graph.half, hne]
    rw [if_pos hre] at hmoved
    omega
  · intro hnot x y hxy
    have hnone : (if s.reopens a b it.2.what = true then Graph.joins a b x y else 0) = 0 := by
      split
      · rename_i hre
        have hab : a = b := by
          by_contra hne
          exact hnot ⟨hre, hne⟩
        subst hab
        have hside : ¬ (x = a ∧ y = a) := fun h => hxy (h.1.trans h.2.symm)
        simp [Graph.joins, Graph.half, hside]
      · rfl
    have hback : (if s.reopens a b it.2.what = true then Graph.joins a b y x else 0) = 0 := by
      rw [Graph.joins_symm] at hnone
      exact hnone
    have hold := hin x y hxy
    have hforth := hbalance x y
    have hopp := hbalance y x
    rw [hnone] at hforth
    rw [hback, sessions_comm s y x, sessions_comm t y x] at hopp
    omega

/-- Where the analysis returns, the edges between every two nodes are the sessions that are open at
both ends, after every event, exactly if no event opens such a session again. -/
theorem edges_in_step_iff {allEvents : List (Time × NodeEvent Mac)}
    (h : (getExperimentStats macToNum allEvents).isSome) :
    (∀ before, before <+: allEvents → ∃ s, after macToNum before = some s ∧ s.InStep) ↔
      ∀ before it, before ++ [it] <+: allEvents → ¬ Reopens macToNum before it := by
  rw [getExperimentStats, Option.isSome_map] at h
  induction allEvents using List.reverseRecOn with
  | nil =>
      refine iff_of_true (fun before hbefore => ?_) fun before it hbefore => ?_
      · rw [List.prefix_nil.mp hbefore]
        exact ⟨_, rfl, inStep_start macToNum⟩
      · simp at hbefore
  | append_singleton evs it ih =>
      obtain ⟨t, ht⟩ := Option.isSome_iff_exists.mp h
      rw [after_concat] at ht
      obtain ⟨s, hs, hround⟩ := Option.bind_eq_some_iff.mp ht
      have hlast : after macToNum (evs ++ [it]) = some t := by rw [after_concat, hs]; exact hround
      have hih := ih (by rw [hs]; rfl)
      constructor
      · intro hall before it' hbefore
        have hevs : ∀ before, before <+: evs → ∃ s, after macToNum before = some s ∧ s.InStep :=
          fun before hbefore => hall before (hbefore.trans (List.prefix_append evs [it]))
        rcases List.prefix_concat_iff.mp hbefore with heq | hbefore
        · obtain ⟨rfl, hit⟩ := List.append_inj' heq rfl
          obtain rfl : it' = it := by simpa using hit
          obtain ⟨s', hs', hin⟩ := hevs before List.prefix_rfl
          obtain ⟨t', ht', hin'⟩ := hall (before ++ [it']) List.prefix_rfl
          obtain rfl := Option.some.inj (hs.symm.trans hs')
          obtain rfl := Option.some.inj (hlast.symm.trans ht')
          exact (inStep_round hs hin hround).mp hin'
        · exact hih.mp hevs before it' hbefore
      · intro hnone before hbefore
        have hevs := hih.mpr fun before it' hbefore' =>
          hnone before it' (hbefore'.trans (List.prefix_append evs [it]))
        rcases List.prefix_concat_iff.mp hbefore with rfl | hbefore
        · obtain ⟨s', hs', hin⟩ := hevs evs List.prefix_rfl
          obtain rfl := Option.some.inj (hs.symm.trans hs')
          exact ⟨t, hlast, (inStep_round hs hin hround).mpr (hnone evs it List.prefix_rfl)⟩
        · exact hevs before hbefore

theorem edges_in_step_iff_two_nodes :
    let macToNum : List (Nat × Nat) := [(10, 1), (20, 2)]
    let allEvents : List (Nat × NodeEvent Nat) :=
      [(0, ⟨20, .opened .outgoing, 10⟩), (1, ⟨10, .opened .incoming, 20⟩),
        (2, ⟨20, .closed .outgoing, 10⟩)]
    (getExperimentStats macToNum allEvents).isSome ∧
      ((∀ before, before <+: allEvents → ∃ s, after macToNum before = some s ∧ s.InStep) ↔
        ∀ before it, before ++ [it] <+: allEvents → ¬ Reopens macToNum before it) :=
  ⟨by decide, edges_in_step_iff (by decide)⟩

/-- A session that is opened once more at one end counts twice. -/
theorem reopened_session_counts_twice :
    ¬ ∀ (macToNum : List (Nat × Nat)) (allEvents : List (Nat × NodeEvent Nat)),
      (getExperimentStats macToNum allEvents).isSome →
        ∀ before, before <+: allEvents → ∃ s, after macToNum before = some s ∧ s.InStep := by
  intro h
  let allEvents : List (Nat × NodeEvent Nat) :=
    [(0, ⟨20, .opened .outgoing, 10⟩), (1, ⟨10, .opened .incoming, 20⟩),
      (2, ⟨10, .opened .incoming, 20⟩)]
  obtain ⟨s, hs, hin⟩ := h [(10, 1), (20, 2)] allEvents (by decide) allEvents List.prefix_rfl
  have hcounts : (after [(10, 1), (20, 2)] allEvents).map (fun s =>
      (s.graph.entries 1 2, s.sessions 1 2)) = some (2, 1) := by decide
  rw [hs, Option.map_some, Option.some.injEq, Prod.mk.injEq] at hcounts
  have hsame := (hin 1 2 (by decide)).2
  omega

end Experiment

end Diplom
