import Diplom.Emulator.CombineLogs

/-!
# What an event of a node changes

Each of the six kinds of events does the same with other sets: a node's word goes into a set or out
of it, the change is written down if the other node's word stands in the set that answers it, and
the graph follows. `apply_eq` says this once; the times and the nodes of the changes follow from it
for every run.
-/

namespace Diplom

namespace Experiment

variable {Time Node Mac : Type} [DecidableEq Node] [DecidableEq Mac] {s s' : Experiment Time Node}

def tell (s : Experiment Time Node) (a b : Node) : What → Experiment Time Node
  | .saw => { s with visible := insert (a, b) s.visible }
  | .lost => { s with visible := s.visible.erase (a, b) }
  | .opened .incoming => { s with incoming := insert (a, b) s.incoming }
  | .opened .outgoing => { s with outgoing := insert (a, b) s.outgoing }
  | .closed .incoming => { s with incoming := s.incoming.erase (a, b) }
  | .closed .outgoing => { s with outgoing := s.outgoing.erase (a, b) }

def answered (s : Experiment Time Node) (a b : Node) : What → Bool
  | .saw | .lost => (b, a) ∈ s.visible
  | .opened .incoming | .closed .incoming => (b, a) ∈ s.outgoing
  | .opened .outgoing | .closed .outgoing => (b, a) ∈ s.incoming

/-- The change that is written down. A session goes from the node that opened it. -/
def change (time : Time) (a b : Node) : What → EdgeEvent Time Node
  | .saw => ⟨time, b, .discover, a⟩
  | .lost => ⟨time, b, .lose, a⟩
  | .opened .incoming => ⟨time, b, .connect, a⟩
  | .opened .outgoing => ⟨time, a, .connect, b⟩
  | .closed .incoming => ⟨time, b, .disconnect, a⟩
  | .closed .outgoing => ⟨time, a, .disconnect, b⟩

def changes (s : Experiment Time Node) (time : Time) (a b : Node) (what : What) :
    List (EdgeEvent Time Node) :=
  if (s.tell a b what).answered a b what then [change time a b what] else []

omit [DecidableEq Node] in
theorem emit_eq (s : Experiment Time Node) (agreed : Bool) (e : EdgeEvent Time Node) :
    s.emit agreed e = { s with events := s.events ++ if agreed then [e] else [] } := by
  cases agreed <;> simp [emit]

def stands (s : Experiment Time Node) (a b : Node) : What → Bool
  | .saw | .opened _ => true
  | .lost => (a, b) ∈ s.visible
  | .closed .incoming => (a, b) ∈ s.incoming
  | .closed .outgoing => (a, b) ∈ s.outgoing

def graphAfter (s : Experiment Time Node) (a b : Node) (what : What) : Option (Graph Node) :=
  match what with
  | .saw | .lost => some s.graph
  | .opened _ => some (if s.answered a b what then s.graph.addEdge a b else s.graph)
  | .closed _ => if s.answered a b what then s.graph.eraseEdge a b else some s.graph

theorem addEdge_eq (s : Experiment Time Node) (agreed : Bool) (a b : Node) :
    s.addEdge agreed a b =
      { s with graph := if agreed then s.graph.addEdge a b else s.graph } := by
  cases agreed <;> rfl

theorem eraseEdge_eq (s : Experiment Time Node) (agreed : Bool) (a b : Node) :
    s.eraseEdge agreed a b =
      (if agreed then s.graph.eraseEdge a b else some s.graph).map
        fun graph => { s with graph := graph } := by
  cases agreed <;> rfl

theorem apply_eq_some {time : Time} {a b : Node} {what : What} :
    s.apply time a b what = some s' ↔ s.stands a b what = true ∧
      ∃ graph, (s.tell a b what).graphAfter a b what = some graph ∧ s' = { s.tell a b what with
        graph := graph, events := s.events ++ s.changes time a b what } := by
  cases what with
  | saw =>
      simp only [apply, emit_eq, stands, graphAfter, true_and, Option.some.injEq,
        exists_eq_left']
      exact eq_comm
  | lost =>
      simp only [apply, emit_eq, stands, graphAfter]
      by_cases hstands : (a, b) ∈ s.visible
      · rw [if_pos hstands, decide_eq_true hstands]
        simp only [true_and, Option.some.injEq, exists_eq_left']
        exact eq_comm
      · simp [hstands]
  | opened dir =>
      cases dir with
      | incoming =>
          simp only [apply, emit_eq, addEdge_eq, stands, graphAfter, true_and, Option.some.injEq,
            exists_eq_left']
          exact eq_comm
      | outgoing =>
          simp only [apply, emit_eq, addEdge_eq, stands, graphAfter, true_and, Option.some.injEq,
            exists_eq_left']
          exact eq_comm
  | closed dir =>
      cases dir with
      | incoming =>
          simp only [apply, emit_eq, eraseEdge_eq, stands, graphAfter]
          by_cases hstands : (a, b) ∈ s.incoming
          · rw [if_pos hstands, Option.map_eq_some_iff, decide_eq_true hstands]
            simp only [true_and]
            exact exists_congr fun graph => and_congr Iff.rfl eq_comm
          · simp [hstands]
      | outgoing =>
          simp only [apply, emit_eq, eraseEdge_eq, stands, graphAfter]
          by_cases hstands : (a, b) ∈ s.outgoing
          · rw [if_pos hstands, Option.map_eq_some_iff, decide_eq_true hstands]
            simp only [true_and]
            exact exists_congr fun graph => and_congr Iff.rfl eq_comm
          · simp [hstands]

theorem apply_eq {time : Time} {a b : Node} {what : What} (h : s.apply time a b what = some s') :
    ∃ graph, s' = { s.tell a b what with
      graph := graph, events := s.events ++ s.changes time a b what } := by
  obtain ⟨-, graph, -, heq⟩ := apply_eq_some.mp h
  exact ⟨graph, heq⟩

/-! ### Times and nodes of the changes -/

omit [DecidableEq Mac] [DecidableEq Node] in
theorem change_spec (time : Time) (a b : Node) (what : What) :
    (change time a b what).time = time ∧
      ((change time a b what).fromNode = a ∧ (change time a b what).toNode = b ∨
        (change time a b what).fromNode = b ∧ (change time a b what).toNode = a) := by
  cases what with
  | saw => exact ⟨rfl, .inr ⟨rfl, rfl⟩⟩
  | lost => exact ⟨rfl, .inr ⟨rfl, rfl⟩⟩
  | opened dir => cases dir <;> simp [change]
  | closed dir => cases dir <;> simp [change]

theorem round_eq_some {macToNum : List (Mac × Node)} {it : Time × NodeEvent Mac}
    (h : s.round macToNum it = some s') :
    ∃ a b t, KeyedList.get it.2.mac1 macToNum = some a ∧ KeyedList.get it.2.mac2 macToNum = some b ∧
      s.apply it.1 a b it.2.what = some t ∧ s' = t.mark it.1 t.graph.isConnected := by
  obtain ⟨a, ha, h⟩ := Option.bind_eq_some_iff.mp h
  obtain ⟨b, hb, h⟩ := Option.bind_eq_some_iff.mp h
  obtain ⟨t, happly, rfl⟩ := Option.map_eq_some_iff.mp h
  exact ⟨a, b, t, ha, hb, happly, rfl⟩

/-- A change between two nodes that have a number. -/
def Between (macToNum : List (Mac × Node)) (e : EdgeEvent Time Node) : Prop :=
  e.fromNode ∈ macToNum.map Prod.snd ∧ e.toNode ∈ macToNum.map Prod.snd

/-- A run writes down at most one change for each event, at its time, and all between nodes that
have a number. -/
theorem run_events {macToNum : List (Mac × Node)} {evs : List (Time × NodeEvent Mac)}
    (h : run macToNum evs s = some s') :
    ∃ new, s'.events = s.events ++ new ∧ (new.map EdgeEvent.time).Sublist (evs.map Prod.fst) ∧
      ∀ e ∈ new, Between macToNum e := by
  induction evs generalizing s with
  | nil =>
      obtain rfl := Option.some.inj h
      exact ⟨[], by simp, by simp, by simp⟩
  | cons it evs ih =>
      obtain ⟨t, hround, hrun⟩ := Option.bind_eq_some_iff.mp h
      obtain ⟨a, b, t', ha, hb, happly, rfl⟩ := round_eq_some hround
      obtain ⟨graph, rfl⟩ := apply_eq happly
      obtain ⟨later, hlater, htimes, hnodes⟩ := ih hrun
      have hchanges : ((s.changes it.1 a b it.2.what).map EdgeEvent.time).Sublist [it.1] := by
        unfold changes
        split
        · simp [(change_spec it.1 a b it.2.what).1]
        · simp
      refine ⟨s.changes it.1 a b it.2.what ++ later, ?_, ?_, fun e he => ?_⟩
      · rw [hlater, ← List.append_assoc]
        rfl
      · rw [List.map_append]
        exact hchanges.append htimes
      · rcases List.mem_append.mp he with hnew | hold
        · have hknown : a ∈ macToNum.map Prod.snd ∧ b ∈ macToNum.map Prod.snd :=
            ⟨List.mem_map_of_mem (KeyedList.mem_of_get ha),
              List.mem_map_of_mem (KeyedList.mem_of_get hb)⟩
          unfold changes at hnew
          split at hnew
          · obtain rfl := List.mem_singleton.mp hnew
            rcases (change_spec it.1 a b it.2.what).2 with ⟨hfrom, hto⟩ | ⟨hfrom, hto⟩
            · rw [Between, hfrom, hto]
              exact hknown
            · rw [Between, hfrom, hto]
              exact hknown.symm
          · exact absurd hnew (by simp)
        · exact hnodes e hold

theorem run_append {macToNum : List (Mac × Node)} {evs rest : List (Time × NodeEvent Mac)} :
    run macToNum (evs ++ rest) s = (run macToNum evs s).bind (run macToNum rest) := by
  induction evs generalizing s with
  | nil => rfl
  | cons it evs ih => simp only [List.cons_append, run, ih, Option.bind_assoc]

end Experiment

end Diplom
