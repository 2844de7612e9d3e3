import Diplom.Lib.Brackets
import Diplom.Proof.Changes

/-!
# The words that stand

A node says of another that it sees it, or that a session with it is open in one direction, and
takes the word back later. The analyser's three sets hold the words that stand after the events so
far.
-/

namespace Diplom

/-- What a node says of another. -/
inductive Word
  | visible
  | session (dir : SessionDirection)
deriving DecidableEq

/-- The word of an event, and whether it is given or taken back. -/
def What.word : What → Word × Bool
  | .saw => (.visible, true)
  | .lost => (.visible, false)
  | .opened dir => (.session dir, true)
  | .closed dir => (.session dir, false)

namespace Experiment

variable {Time Node Mac : Type} [DecidableEq Node] [DecidableEq Mac] {s : Experiment Time Node}

/-- The set in which a word is. -/
def said (s : Experiment Time Node) : Word → Finset (Node × Node)
  | .visible => s.visible
  | .session .incoming => s.incoming
  | .session .outgoing => s.outgoing

omit [DecidableEq Mac] in
theorem mem_said_tell (a b : Node) (what : What) (word : Word) (p : Node × Node) :
    p ∈ (s.tell a b what).said word ↔ what.word = (word, true) ∧ p = (a, b) ∨
      p ∈ s.said word ∧ ¬ (what.word = (word, false) ∧ p = (a, b)) := by
  rcases what with _ | _ | ⟨_ | _⟩ | ⟨_ | _⟩ <;> rcases word with _ | ⟨_ | _⟩ <;>
    simp [tell, said, What.word, and_comm]

omit [DecidableEq Mac] in
theorem stands_eq (a b : Node) (what : What) :
    s.stands a b what = true ↔ (what.word.2 = false → (a, b) ∈ s.said what.word.1) := by
  rcases what with _ | _ | ⟨_ | _⟩ | ⟨_ | _⟩ <;> simp [stands, said, What.word]

/-- Whose word an event gives or takes back, and of whom. -/
def wordMark (macToNum : List (Mac × Node)) (it : Time × NodeEvent Mac) :
    Option ((Node × Node × Word) × Bool) :=
  (KeyedList.get it.2.mac1 macToNum).bind fun a =>
    (KeyedList.get it.2.mac2 macToNum).map fun b => ((a, b, it.2.what.word.1), it.2.what.word.2)

variable {macToNum : List (Mac × Node)} {evs : List (Time × NodeEvent Mac)}

omit [DecidableEq Node] in
theorem wordMark_eq_some {it : Time × NodeEvent Mac} {a b : Node} {word : Word} {given : Bool} :
    wordMark macToNum it = some ((a, b, word), given) ↔
      KeyedList.get it.2.mac1 macToNum = some a ∧ KeyedList.get it.2.mac2 macToNum = some b ∧
        it.2.what.word = (word, given) := by
  simp only [wordMark, Option.bind_eq_some_iff, Option.map_eq_some_iff, Prod.ext_iff]
  constructor
  · rintro ⟨_, ha, _, hb, ⟨rfl, rfl, hword⟩, hgiven⟩
    exact ⟨ha, hb, hword, hgiven⟩
  · rintro ⟨ha, hb, hword, hgiven⟩
    exact ⟨a, ha, b, hb, ⟨rfl, rfl, hword⟩, hgiven⟩

theorem after_concat {it : Time × NodeEvent Mac} :
    after macToNum (evs ++ [it]) = (after macToNum evs).bind fun s => s.round macToNum it := by
  rw [after, run_append, ← after]
  congr 1
  funext s
  simp [run]

theorem mem_said_iff (h : after macToNum evs = some s) (a b : Node) (word : Word) :
    (a, b) ∈ s.said word ↔ Brackets.IsOpen (wordMark macToNum) (a, b, word) evs := by
  induction evs using List.reverseRecOn generalizing s with
  | nil =>
      obtain rfl := Option.some.inj h
      rcases word with _ | ⟨_ | _⟩ <;> simp [Brackets.not_isOpen_nil, said, start]
  | append_singleton evs it ih =>
      rw [after_concat] at h
      obtain ⟨s, hs, hround⟩ := Option.bind_eq_some_iff.mp h
      obtain ⟨x, y, t, hx, hy, happly, rfl⟩ := round_eq_some hround
      obtain ⟨graph, rfl⟩ := apply_eq happly
      change (a, b) ∈ (s.tell x y it.2.what).said word ↔ _
      rw [mem_said_tell, ih hs]
      have hmark : ∀ given, wordMark macToNum it = some ((a, b, word), given) ↔
          it.2.what.word = (word, given) ∧ (a, b) = (x, y) := by
        intro given
        rw [wordMark_eq_some, hx, hy, Option.some.injEq, Option.some.injEq]
        constructor
        · rintro ⟨rfl, rfl, hword⟩
          exact ⟨hword, rfl⟩
        · rintro ⟨hword, hnodes⟩
          obtain ⟨rfl, rfl⟩ := Prod.mk.inj hnodes
          exact ⟨rfl, rfl, hword⟩
      by_cases hgiven : it.2.what.word = (word, true) ∧ (a, b) = (x, y)
      · have hopen : Brackets.IsOpen (wordMark macToNum) (a, b, word) (evs ++ [it]) :=
          (Brackets.isOpen_own ((hmark true).mpr hgiven)).mpr rfl
        exact iff_of_true (.inl hgiven) hopen
      · by_cases hback : it.2.what.word = (word, false) ∧ (a, b) = (x, y)
        · rw [Brackets.isOpen_own ((hmark false).mpr hback)]
          exact iff_of_false (by simp [hback]) (by decide)
        · have hother : ∀ given, wordMark macToNum it ≠ some ((a, b, word), given) := by
            intro given hmarked
            cases given with
            | true => exact hgiven ((hmark true).mp hmarked)
            | false => exact hback ((hmark false).mp hmarked)
          rw [Brackets.isOpen_other hother, or_iff_right hgiven, and_iff_left hback]

end Experiment

end Diplom
