import Mathlib.Data.List.Basic

/-!
# A queue that one hand serves

Things are put at the back of a queue. A hand takes the front and leaves a stripped one in its
place, gives it away, and removes what is left of it when it has arrived. A `Phase` is how far the
hand has come, and `Fits` says what the queue looks like meanwhile, if it is still there. Whatever
the order of the steps, what has been given away and what is waiting are together what was put in.
-/

namespace Outbox

variable {Item : Type}

/-- How far the hand has come with the front. -/
inductive Phase (Item : Type)
  | ahead
  | holding (item : Item)
  | away (item : Item)
  | done
deriving DecidableEq, Repr

/-- The queue, if there is one, and what has not been given away, in each phase. -/
def Phase.Fits (strip : Item → Item) (queue : Option (List Item)) (waiting : List Item) :
    Phase Item → Prop
  | .ahead => ∀ items, queue = some items → items = waiting
  | .holding item => ∃ rest, waiting = item :: rest ∧ ∀ items, queue = some items →
    items = strip item :: rest
  | .away item => ∀ items, queue = some items → items = strip item :: waiting
  | .done => ∀ items, queue = some items → ∃ front, items = front :: waiting

/-- A queue and what of it has not been given away: the front is whole, or in the hand, or gone. -/
inductive Left (strip : Item → Item) : List Item → List Item → Prop
  | whole (waiting : List Item) : Left strip waiting waiting
  | taken (item : Item) (rest : List Item) : Left strip (strip item :: rest) (item :: rest)
  | given (item : Item) (waiting : List Item) : Left strip (strip item :: waiting) waiting

variable {strip : Item → Item} {queue queue' : Option (List Item)} {items waiting rest : List Item}
  {item : Item} {phase : Phase Item}

theorem Left.nil (h : Left strip [] waiting) : waiting = [] := by
  cases h
  rfl

theorem Left.push (h : Left strip items waiting) (item : Item) :
    Left strip (items ++ [item]) (waiting ++ [item]) := by
  cases h with
  | whole => exact .whole _
  | taken front rest => exact .taken front (rest ++ [item])
  | given front => exact .given front (waiting ++ [item])

namespace Phase.Fits

theorem mono (h : phase.Fits strip queue waiting)
    (hqueue : ∀ items, queue' = some items → queue = some items) :
    phase.Fits strip queue' waiting := by
  cases phase with
  | ahead => exact fun items heq => h items (hqueue items heq)
  | holding item =>
      obtain ⟨rest, hwaiting, hitems⟩ := h
      exact ⟨rest, hwaiting, fun items heq => hitems items (hqueue items heq)⟩
  | away item => exact fun items heq => h items (hqueue items heq)
  | done => exact fun items heq => h items (hqueue items heq)

theorem push (h : phase.Fits strip (some items) waiting) (item : Item) :
    phase.Fits strip (some (items ++ [item])) (waiting ++ [item]) := by
  cases phase with
  | ahead =>
      rintro _ ⟨⟩
      rw [h items rfl]
  | holding front =>
      obtain ⟨rest, rfl, hitems⟩ := h
      refine ⟨rest ++ [item], rfl, ?_⟩
      rintro _ ⟨⟩
      rw [hitems items rfl]
      rfl
  | away front =>
      rintro _ ⟨⟩
      rw [h items rfl]
      rfl
  | done =>
      rintro _ ⟨⟩
      obtain ⟨front, rfl⟩ := h items rfl
      exact ⟨front, rfl⟩

theorem take (h : Phase.ahead.Fits strip (some (item :: rest)) waiting) :
    waiting = item :: rest ∧
      (Phase.holding item).Fits strip (some (strip item :: rest)) waiting := by
  have hwaiting := h _ rfl
  refine ⟨hwaiting.symm, rest, hwaiting.symm, ?_⟩
  rintro _ ⟨⟩
  rfl

theorem give (h : (Phase.holding item).Fits strip queue waiting) {item' : Item}
    (hitem : strip item' = strip item) :
    ∃ rest, waiting = item :: rest ∧ (Phase.away item').Fits strip queue rest ∧ ∀ items,
      queue = some items → Left strip items rest := by
  obtain ⟨rest, hwaiting, hitems⟩ := h
  refine ⟨rest, hwaiting, fun items heq => ?_, fun items heq => ?_⟩
  · rw [hitems items heq, hitem]
  · rw [hitems items heq]
    exact .given item rest

theorem arrive (h : (Phase.away item).Fits strip queue waiting) :
    Phase.done.Fits strip queue waiting :=
  fun items heq => ⟨strip item, h items heq⟩

theorem pop (h : Phase.done.Fits strip (some (item :: rest)) waiting) : waiting = rest := by
  obtain ⟨front, heq⟩ := h _ rfl
  exact (List.cons.inj heq).2.symm

end Phase.Fits

end Outbox
