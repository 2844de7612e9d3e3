import Diplom.Proof.Times

/-!
# When the analysis returns

An event ends in an exception if one of its nodes has no number, or if it takes a word back that
does not stand. Nothing else raises one: an edge that is to be erased is there, since the graph has
an edge for each session that is open at both ends.
-/

namespace Diplom

namespace Experiment

variable {Time Node Mac : Type} [DecidableEq Node] [DecidableEq Mac] {s t : Experiment Time Node}
variable {macToNum : List (Mac × Node)} {evs : List (Time × NodeEvent Mac)} {time : Time}
  {a b : Node} {what : What}

/-- Every session that is open at both ends has an edge. -/
def Covered (s : Experiment Time Node) : Prop := ∀ x y, s.sessions x y ≤ s.graph.entries x y

theorem Covered.apply (hs : s.Covered) (h : s.apply time a b what = some t) : t.Covered := by
  intro x y
  have hbalance := entries_apply h x y
  have hold := hs x y
  omega

theorem covered_after (h : after macToNum evs = some s) : s.Covered := by
  induction evs using List.reverseRecOn generalizing s with
  | nil =>
      obtain rfl := Option.some.inj h
      intro x y
      simp [sessions, Agreed, start]
  | append_singleton evs it ih =>
      rw [after_concat] at h
      obtain ⟨s, hs, hround⟩ := Option.bind_eq_some_iff.mp h
      obtain ⟨a, b, t, -, -, happly, rfl⟩ := round_eq_some hround
      have ht : t.Covered := (ih hs).apply happly
      exact ht

/-- An event of two nodes is processed if the word that it takes back stands. -/
theorem apply_isSome_iff (hwf : s.graph.Wf) (hcovered : s.Covered) (time : Time) (a b : Node)
    (what : What) : (∃ t, s.apply time a b what = some t) ↔ s.stands a b what = true := by
  constructor
  · rintro ⟨t, h⟩
    exact (apply_eq_some.mp h).1
  · intro hstands
    suffices hgraph : ∃ graph, (s.tell a b what).graphAfter a b what = some graph by
      obtain ⟨graph, hgraph⟩ := hgraph
      exact ⟨_, apply_eq_some.mpr ⟨hstands, graph, hgraph, rfl⟩⟩
    cases what with
    | saw => exact ⟨_, rfl⟩
    | lost => exact ⟨_, rfl⟩
    | opened dir => exact ⟨_, rfl⟩
    | closed dir =>
        have hold : (s.tell a b (.closed dir)).graph = s.graph := by
          cases dir <;> rfl
        rw [graphAfter, hold]
        split
        · rename_i hanswered
          have hsessions := sessions_closed s a b dir hstands a b
          rw [if_pos hanswered] at hsessions
          have hedges := hcovered a b
          exact hwf.eraseEdge_isSome (by omega)
        · exact ⟨_, rfl⟩

variable (macToNum) in
/-- Both nodes of an event have a number. -/
def Known (it : Time × NodeEvent Mac) : Prop :=
  (KeyedList.get it.2.mac1 macToNum).isSome = true ∧
    (KeyedList.get it.2.mac2 macToNum).isSome = true

theorem after_concat_isSome_iff {it : Time × NodeEvent Mac} :
    (∃ s : Experiment Time Node, after macToNum (evs ++ [it]) = some s) ↔
      (∃ s : Experiment Time Node, after macToNum evs = some s) ∧ Known macToNum it ∧
        ∀ key, wordMark macToNum it = some (key, false) →
          Brackets.IsOpen (wordMark macToNum) key evs := by
  rw [after_concat]
  constructor
  · rintro ⟨t, h⟩
    obtain ⟨s, hs, hround⟩ := Option.bind_eq_some_iff.mp h
    obtain ⟨a, b, t, ha, hb, happly, rfl⟩ := round_eq_some hround
    refine ⟨⟨s, hs⟩, ⟨by rw [ha]; rfl, by rw [hb]; rfl⟩, ?_⟩
    rintro ⟨x, y, word⟩ hmark
    obtain ⟨hx, hy, hword⟩ := wordMark_eq_some.mp hmark
    obtain rfl := Option.some.inj (ha.symm.trans hx)
    obtain rfl := Option.some.inj (hb.symm.trans hy)
    have hstands := (stands_eq a b it.2.what).mp (apply_eq_some.mp happly).1
    rw [hword] at hstands
    exact (mem_said_iff hs a b word).mp (hstands rfl)
  · rintro ⟨⟨s, hs⟩, ⟨ha, hb⟩, hopen⟩
    obtain ⟨a, ha⟩ := Option.isSome_iff_exists.mp ha
    obtain ⟨b, hb⟩ := Option.isSome_iff_exists.mp hb
    have hstands : s.stands a b it.2.what = true := by
      refine (stands_eq a b it.2.what).mpr fun hback => ?_
      refine (mem_said_iff hs a b it.2.what.word.1).mpr (hopen _ ?_)
      exact wordMark_eq_some.mpr ⟨ha, hb, Prod.ext rfl hback⟩
    obtain ⟨t, happly⟩ :=
      (apply_isSome_iff (wf_after hs) (covered_after hs) it.1 a b it.2.what).mpr hstands
    exact ⟨_, by rw [hs, Option.bind_some, round, ha, hb]; simp [happly]; rfl⟩

theorem after_isSome_iff :
    (∃ s : Experiment Time Node, after macToNum evs = some s) ↔
      (∀ it ∈ evs, Known macToNum it) ∧ ∀ key, Brackets.Paired (wordMark macToNum) key evs := by
  induction evs using List.reverseRecOn with
  | nil => exact iff_of_true ⟨_, rfl⟩ ⟨by simp, fun _ => Brackets.paired_nil⟩
  | append_singleton evs it ih =>
      rw [after_concat_isSome_iff, ih]
      simp only [Brackets.paired_concat, forall_and, List.mem_append, List.mem_singleton]
      constructor
      · rintro ⟨⟨hknown, hpaired⟩, hit, hopen⟩
        refine ⟨?_, hpaired, hopen⟩
        rintro it' (hit' | rfl)
        · exact hknown it' hit'
        · exact hit
      · rintro ⟨hknown, hpaired, hopen⟩
        exact ⟨⟨fun it' hit' => hknown it' (.inl hit'), hpaired⟩, hknown it (.inr rfl), hopen⟩

/-- The analysis returns exactly if all nodes have numbers, and between the same two nodes no word
is taken back that has not been given since it was taken back before. -/
theorem stats_isSome_iff :
    (∃ stats, getExperimentStats macToNum evs = some stats) ↔
      (∀ it ∈ evs, Known macToNum it) ∧ ∀ key, Brackets.Paired (wordMark macToNum) key evs := by
  rw [← after_isSome_iff]
  simp [getExperimentStats]

end Experiment

end Diplom
