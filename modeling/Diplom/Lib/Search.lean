import Mathlib.Algebra.GroupWithZero.Nat
import Mathlib.Algebra.Order.BigOperators.Group.List
import Mathlib.Algebra.Order.Group.Nat
import Mathlib.Data.List.Nodup
import Mathlib.Logic.Relation

/-!
# Depth-first search with a stack

A search starts at one vertex and visits what can be reached from it, over a list of neighbours for
each vertex. Its stack may hold a vertex several times, and one that has been visited since it was
pushed; such an entry is thrown away when its turn comes. So the stack may grow while nothing new is
in it, and what bounds the search is the stack together with the neighbours of the vertices that
have not been visited.
-/

namespace Search

variable {V : Type} [DecidableEq V] (neighbours : V → List V)

/-- What the loop keeps. The top of the stack comes first. -/
structure State (V : Type) where
  visited : List V
  stack : List V

/-- One round of the loop, or nothing where the stack is empty. -/
def round : State V → Option (State V)
  | ⟨_, []⟩ => none
  | ⟨visited, v :: stack⟩ =>
      if v ∈ visited then some ⟨visited, stack⟩
      else
        let visited := visited ++ [v]
        some ⟨visited, ((neighbours v).filter (· ∉ visited)).reverse ++ stack⟩

/-- The loop that is started in one state ends in another. -/
inductive Ends : State V → State V → Prop
  | stop {s : State V} (h : round neighbours s = none) : Ends s s
  | next {s t u : State V} (h : round neighbours s = some t) (hrest : Ends t u) : Ends s u

def Edge (v w : V) : Prop := w ∈ neighbours v

variable {neighbours} {s t : State V}

theorem round_eq_none : round neighbours s = none ↔ s.stack = [] := by
  obtain ⟨visited, stack⟩ := s
  cases stack with
  | nil => simp [round]
  | cons v stack =>
      simp only [round]
      split <;> simp

/-- A round takes the top of the stack away. If it has not been visited it is now, and its
neighbours that are not visited come in its place. -/
theorem round_eq_some (h : round neighbours s = some t) :
    ∃ v stack, s.stack = v :: stack ∧
      (v ∈ s.visited ∧ t = ⟨s.visited, stack⟩ ∨
        v ∉ s.visited ∧ t.visited = s.visited ++ [v] ∧ ∃ pushed, t.stack = pushed ++ stack ∧
          pushed.length ≤ (neighbours v).length ∧
          ∀ w, w ∈ pushed ↔ w ∈ neighbours v ∧ w ∉ s.visited ++ [v]) := by
  obtain ⟨visited, stack⟩ := s
  cases stack with
  | nil => simp [round] at h
  | cons v stack =>
      refine ⟨v, stack, rfl, ?_⟩
      simp only [round] at h
      by_cases hv : v ∈ visited
      · rw [if_pos hv] at h
        exact .inl ⟨hv, (Option.some.inj h).symm⟩
      · rw [if_neg hv] at h
        obtain rfl := Option.some.inj h
        refine .inr ⟨hv, rfl, _, rfl, ?_, fun w => ?_⟩
        · rw [List.length_reverse]
          exact List.length_filter_le _ _
        · rw [List.mem_reverse, List.mem_filter, decide_eq_true_iff]

/-! ### The loop ends -/

variable (neighbours) in
/-- What is left to do: the entries of the stack, and the neighbours of what is not visited. -/
def work (vertices : List V) (s : State V) : Nat :=
  s.stack.length +
    (vertices.map fun v => if v ∈ s.visited then 0 else (neighbours v).length).sum

omit [DecidableEq V] in
/-- A sum in which no term has grown and one has lost `c`. -/
private theorem sum_add_le {f g : V → Nat} {l : List V} {v : V} {c : Nat}
    (hle : ∀ w, f w ≤ g w) (hmem : v ∈ l) (hv : f v + c ≤ g v) :
    (l.map f).sum + c ≤ (l.map g).sum := by
  induction l with
  | nil => simp at hmem
  | cons w l ih =>
      simp only [List.map_cons, List.sum_cons]
      rcases List.mem_cons.mp hmem with rfl | hmem
      · have hrest : (l.map f).sum ≤ (l.map g).sum := List.sum_le_sum fun w _ => hle w
        omega
      · have hrest := ih hmem
        have hw := hle w
        omega

theorem work_lt {vertices : List V} (hvertices : ∀ v, v ∉ vertices → neighbours v = [])
    (h : round neighbours s = some t) :
    work neighbours vertices t < work neighbours vertices s := by
  obtain ⟨v, stack, hstack, hcase⟩ := round_eq_some h
  unfold work
  rw [hstack, List.length_cons]
  rcases hcase with ⟨-, rfl⟩ | ⟨hv, hvisited, pushed, hpushed, hlength, -⟩
  · dsimp only
    omega
  · have hle : ∀ w, (if w ∈ t.visited then 0 else (neighbours w).length) ≤
        if w ∈ s.visited then 0 else (neighbours w).length := by
      intro w
      rw [hvisited]
      by_cases hw : w ∈ s.visited
      · simp [hw]
      · rw [if_neg hw]
        split <;> omega
    rw [hpushed, List.length_append]
    by_cases hvertex : v ∈ vertices
    · have hlost : (if v ∈ t.visited then 0 else (neighbours v).length) + (neighbours v).length ≤
          if v ∈ s.visited then 0 else (neighbours v).length := by
        simp [hvisited, hv]
      have hsum := sum_add_le hle hvertex hlost
      omega
    · have hsum := List.sum_le_sum (l := vertices) fun w _ => hle w
      have hnone : (neighbours v).length = 0 := by rw [hvertices v hvertex, List.length_nil]
      omega

theorem exists_ends {vertices : List V} (hvertices : ∀ v, v ∉ vertices → neighbours v = [])
    (s : State V) : ∃ t, Ends neighbours s t := by
  induction hwork : work neighbours vertices s using Nat.strongRecOn generalizing s with
  | _ n ih =>
      cases hround : round neighbours s with
      | none => exact ⟨s, .stop hround⟩
      | some t =>
          obtain ⟨u, hu⟩ := ih _ (hwork ▸ work_lt hvertices hround) t rfl
          exact ⟨u, .next hround hu⟩

theorem Ends.stack_eq_nil (h : Ends neighbours s t) : t.stack = [] := by
  induction h with
  | stop h => exact round_eq_none.mp h
  | next _ _ ih => exact ih

/-! ### What it has visited -/

variable (neighbours) in
/-- A search from `start` on its way: what it knows can be reached, and what it has visited leads to
nothing that it does not know. -/
structure Explores (start : V) (s : State V) : Prop where
  once : s.visited.Nodup
  origin : start ∈ s.visited ∨ start ∈ s.stack
  reached : ∀ v, v ∈ s.visited ∨ v ∈ s.stack → Relation.ReflTransGen (Edge neighbours) start v
  closed : ∀ v ∈ s.visited, ∀ w ∈ neighbours v, w ∈ s.visited ∨ w ∈ s.stack

omit [DecidableEq V] in
theorem explores_start (start : V) : Explores neighbours start ⟨[], [start]⟩ where
  once := List.nodup_nil
  origin := .inr (List.mem_singleton_self start)
  reached := by
    intro v hv
    obtain rfl : v = start := by simpa using hv
    exact .refl
  closed := by simp

theorem Explores.round {start : V} (hs : Explores neighbours start s)
    (h : round neighbours s = some t) : Explores neighbours start t := by
  obtain ⟨v, stack, hstack, hcase⟩ := round_eq_some h
  have hknown : ∀ w, w ∈ s.visited ∨ w ∈ s.stack ↔ w ∈ s.visited ∨ w = v ∨ w ∈ stack := by
    intro w
    rw [hstack, List.mem_cons]
  rcases hcase with ⟨hv, rfl⟩ | ⟨hv, hvisited, pushed, hpushed, -, hmem⟩
  · have hstill : ∀ w, w ∈ s.visited ∨ w ∈ s.stack ↔ w ∈ s.visited ∨ w ∈ stack := by
      intro w
      rw [hknown w]
      refine ⟨?_, fun hw => hw.imp_right .inr⟩
      rintro (hw | rfl | hw)
      · exact .inl hw
      · exact .inl hv
      · exact .inr hw
    exact ⟨hs.once, (hstill start).mp hs.origin, fun w hw => hs.reached w ((hstill w).mpr hw),
      fun w hw x hx => (hstill x).mp (hs.closed w hw x hx)⟩
  · have hmore : ∀ w, w ∈ s.visited ∨ w ∈ s.stack → w ∈ t.visited ∨ w ∈ t.stack := by
      intro w hw
      rw [hvisited, hpushed, List.mem_append, List.mem_append, List.mem_singleton]
      rcases (hknown w).mp hw with hw | hw | hw
      · exact .inl (.inl hw)
      · exact .inl (.inr hw)
      · exact .inr (.inr hw)
    refine ⟨?_, hmore start hs.origin, fun w hw => ?_, fun w hw x hx => ?_⟩
    · rw [hvisited, ← List.concat_eq_append]
      exact hs.once.concat hv
    · rw [hvisited, hpushed, List.mem_append, List.mem_append, List.mem_singleton] at hw
      rcases hw with (hw | rfl) | hw | hw
      · exact hs.reached w (.inl hw)
      · exact hs.reached w ((hknown w).mpr (.inr (.inl rfl)))
      · exact (hs.reached v ((hknown v).mpr (.inr (.inl rfl)))).tail ((hmem w).mp hw).1
      · exact hs.reached w ((hknown w).mpr (.inr (.inr hw)))
    · by_cases hx' : x ∈ s.visited ++ [v]
      · exact .inl (hvisited ▸ hx')
      · rw [hvisited, List.mem_append, List.mem_singleton] at hw
        rcases hw with hw | rfl
        · exact hmore x (hs.closed w hw x hx)
        · right
          rw [hpushed]
          exact List.mem_append_left _ ((hmem x).mpr ⟨hx, hx'⟩)

theorem Explores.ends {start : V} (hs : Explores neighbours start s)
    (h : Ends neighbours s t) : Explores neighbours start t := by
  induction h with
  | stop _ => exact hs
  | next hround _ ih => exact ih (hs.round hround)

omit [DecidableEq V] in
/-- A search that has ended has visited exactly what can be reached, each vertex once. -/
theorem Explores.mem_visited_iff {start : V} (hs : Explores neighbours start s)
    (hstack : s.stack = []) (v : V) :
    v ∈ s.visited ↔ Relation.ReflTransGen (Edge neighbours) start v := by
  have hnone : ∀ w, ¬ w ∈ s.stack := by simp [hstack]
  refine ⟨fun hv => hs.reached v (.inl hv), fun hreach => ?_⟩
  induction hreach with
  | refl => exact hs.origin.resolve_right (hnone _)
  | tail _ hedge ih => exact (hs.closed _ ih _ hedge).resolve_right (hnone _)

end Search
