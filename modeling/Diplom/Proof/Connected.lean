import Diplom.Lib.Machine
import Diplom.Lib.Search
import Diplom.Proof.Adjacency
import Mathlib.Data.Sym.Sym2

/-!
# What `is_connected` decides

A graph is built by the three operations of `Graph`, each of which may raise an exception. Its
lists of neighbours count the edges that were added and not erased, so `is_connected`, which counts
what a depth-first search visits from the first vertex, decides whether every two vertices are
joined by a path of such edges.
-/

namespace Diplom

/-- A call on a `Graph` that changes it. -/
inductive GraphCall (Node : Type)
  | addVertex (vertex : Node)
  | addEdge (u v : Node)
  | eraseEdge (u v : Node)
deriving DecidableEq

namespace GraphCall

variable {Node : Type} [DecidableEq Node]

/-- Whether the call adds an edge between these two. -/
def adds (edge : Sym2 Node) : GraphCall Node → Bool
  | .addEdge u v => s(u, v) = edge
  | _ => false

/-- Whether the call erases an edge between these two. -/
def erases (edge : Sym2 Node) : GraphCall Node → Bool
  | .eraseEdge u v => s(u, v) = edge
  | _ => false

/-- An edge between the two was added more often than erased. -/
def Linked (calls : List (GraphCall Node)) (u v : Node) : Prop :=
  calls.countP (erases s(u, v)) < calls.countP (adds s(u, v))

end GraphCall

namespace Graph

variable {Node : Type} [DecidableEq Node] {g g' : Graph Node}

/-- A call, or nothing where it raises an exception. -/
def call (g : Graph Node) : GraphCall Node → Option (Graph Node)
  | .addVertex vertex => some (g.addVertex vertex)
  | .addEdge u v => some (g.addEdge u v)
  | .eraseEdge u v => g.eraseEdge u v

def machine : Machine (Graph Node) (GraphCall Node) := ⟨call⟩

/-- Every two vertices are joined by a path. -/
def Connected (g : Graph Node) : Prop :=
  ∀ u ∈ g.vertices, ∀ v ∈ g.vertices, Relation.ReflTransGen (Search.Edge g.neighbours) u v

/-! ### The search -/

/-- The loop of `is_connected` with enough rounds visits what it visits with no bound on them. -/
theorem visit_eq {s t : Search.State Node} (h : Search.Ends g.neighbours s t) {fuel : Nat}
    (hwork : Search.work g.neighbours g.vertices s ≤ fuel) :
    g.visit fuel s.visited s.stack = t.visited := by
  induction h generalizing fuel with
  | @stop s h =>
      rw [Search.round_eq_none.mp h]
      cases fuel <;> rfl
  | @next s t u h _ ih =>
      have hlt : Search.work g.neighbours g.vertices t < Search.work g.neighbours g.vertices s :=
        Search.work_lt (fun v hv => neighbours_of_notMem hv) h
      obtain ⟨visited, stack⟩ := s
      cases fuel with
      | zero => omega
      | succ fuel =>
          cases stack with
          | nil => simp [Search.round] at h
          | cons v stack =>
              have hrest : g.visit fuel t.visited t.stack = u.visited := ih (by omega)
              simp only [Search.round] at h
              simp only [visit]
              by_cases hv : v ∈ visited
              · rw [if_pos hv] at h ⊢
                obtain rfl := Option.some.inj h
                exact hrest
              · rw [if_neg hv] at h ⊢
                obtain rfl := Option.some.inj h
                exact hrest

theorem work_start (h : g.Wf) (start : Node) :
    Search.work g.neighbours g.vertices ⟨[], [start]⟩ = g.rounds := by
  unfold Search.work rounds vertices
  rw [List.map_map]
  congr 2
  apply List.map_congr_left
  intro e he
  simp [neighbours, KeyedList.get_of_mem h.once he]

theorem Wf.edge_symm (h : g.Wf) {u v : Node} (hedge : Search.Edge g.neighbours u v) :
    Search.Edge g.neighbours v u := by
  apply entries_pos.mp
  rw [← h.symm u v]
  exact entries_pos.mpr hedge

theorem Wf.reach_symm (h : g.Wf) {u v : Node}
    (hreach : Relation.ReflTransGen (Search.Edge g.neighbours) u v) :
    Relation.ReflTransGen (Search.Edge g.neighbours) v u := by
  induction hreach with
  | refl => exact .refl
  | tail _ hedge ih => exact ih.head (h.edge_symm hedge)

private theorem Wf.mem_vertices (h : g.Wf) {u v : Node} (hu : u ∈ g.vertices)
    (hreach : Relation.ReflTransGen (Search.Edge g.neighbours) u v) : v ∈ g.vertices := by
  induction hreach with
  | refl => exact hu
  | tail _ hedge _ => exact h.closed _ _ hedge

/-- The loop of `is_connected` ends, and what it has visited decides the answer. -/
theorem Wf.isConnected_ends (h : g.Wf) {start : Node} {list : List Node}
    {rest : List (Node × List Node)} (hgraph : g.graph = (start, list) :: rest) :
    ∃ t, Search.Ends g.neighbours ⟨[], [start]⟩ t ∧
      g.isConnected = decide (t.visited.length = g.graph.length) := by
  have hnone : ∀ v, v ∉ g.vertices → g.neighbours v = [] := fun v hv => neighbours_of_notMem hv
  obtain ⟨t, ht⟩ := Search.exists_ends hnone ⟨[], [start]⟩
  refine ⟨t, ht, ?_⟩
  have hvisit := visit_eq ht (work_start h start).le
  unfold isConnected
  rw [hgraph]
  dsimp only
  rw [hvisit, ← hgraph]

/-- `is_connected` decides whether every two vertices are joined by a path. -/
theorem Wf.isConnected_iff (h : g.Wf) : g.isConnected = true ↔ g.Connected := by
  cases hgraph : g.graph with
  | nil =>
      have hnone : g.vertices = [] := by rw [vertices, hgraph, List.map_nil]
      simp [isConnected, hgraph, Connected, hnone]
  | cons e rest =>
      obtain ⟨start, list⟩ := e
      obtain ⟨t, hends, hconnected⟩ := h.isConnected_ends hgraph
      have hexplored := (Search.explores_start start).ends hends
      have hvisited := hexplored.mem_visited_iff hends.stack_eq_nil
      have hstart : start ∈ g.vertices := by simp [vertices, hgraph]
      have hsub : t.visited ⊆ g.vertices := fun v hv => h.mem_vertices hstart ((hvisited v).mp hv)
      have hlength : g.graph.length = g.vertices.length := by rw [vertices, List.length_map]
      rw [hconnected, decide_eq_true_iff, hlength]
      constructor
      · intro hall u hu v hv
        have hmem : ∀ w ∈ g.vertices, w ∈ t.visited :=
          (List.subperm_of_subset hexplored.once hsub).perm_of_length_le hall.ge |>.symm.subset
        have hto := (hvisited u).mp (hmem u hu)
        have hfrom := (hvisited v).mp (hmem v hv)
        exact (h.reach_symm hto).trans hfrom
      · intro hall
        have hmem : g.vertices ⊆ t.visited := fun v hv => (hvisited v).mpr (hall start hstart v hv)
        apply Nat.le_antisymm
        · exact (List.subperm_of_subset hexplored.once hsub).length_le
        · exact (List.subperm_of_subset h.once hmem).length_le

/-! ### The edges of a graph that was built -/

theorem Wf.call (h : g.Wf) {c : GraphCall Node} (hcall : g.call c = some g') : g'.Wf := by
  cases c with
  | addVertex vertex =>
      obtain rfl := Option.some.inj hcall
      exact h.addVertex vertex
  | addEdge u v =>
      obtain rfl := Option.some.inj hcall
      exact h.addEdge u v
  | eraseEdge u v => exact h.eraseEdge hcall

/-- The entries for `u` and `v` that a call on an edge between `a` and `b` makes or takes out. -/
private theorem joins_eq (a b u v : Node) :
    joins a b u v = if s(a, b) = s(u, v) then joins u v u v else 0 := by
  by_cases hsame : s(a, b) = s(u, v)
  · rw [if_pos hsame]
    rcases Sym2.eq_iff.mp hsame with ⟨rfl, rfl⟩ | ⟨rfl, rfl⟩
    · rfl
    · unfold joins
      omega
  · rw [if_neg hsame]
    rw [Sym2.eq_iff, not_or, not_and, not_and] at hsame
    have hfirst : ¬ (u = a ∧ v = b) := fun h => hsame.1 h.1.symm h.2.symm
    have hsecond : ¬ (u = b ∧ v = a) := fun h => hsame.2 h.2.symm h.1.symm
    simp [joins, half, hfirst, hsecond]

private theorem entries_exec {calls : List (GraphCall Node)} (h : machine.exec g calls = some g')
    (u v : Node) :
    g'.entries u v + calls.countP (GraphCall.erases s(u, v)) * joins u v u v =
      g.entries u v + calls.countP (GraphCall.adds s(u, v)) * joins u v u v := by
  induction calls generalizing g with
  | nil =>
      obtain rfl := Option.some.inj h
      simp
  | cons c calls ih =>
      obtain ⟨mid, hcall, hrest⟩ := Option.bind_eq_some_iff.mp h
      have hih := ih hrest
      rw [List.countP_cons, List.countP_cons]
      cases c with
      | addVertex vertex =>
          obtain rfl := Option.some.inj hcall
          rw [entries_addVertex] at hih
          simpa [GraphCall.adds, GraphCall.erases] using hih
      | addEdge a b =>
          obtain rfl := Option.some.inj hcall
          rw [entries_addEdge, joins_eq a b] at hih
          by_cases hsame : s(a, b) = s(u, v)
          · simp only [GraphCall.adds, GraphCall.erases, hsame, decide_true, if_true,
              Bool.false_eq_true, if_false, Nat.add_mul, Nat.one_mul, Nat.add_zero] at hih ⊢
            omega
          · simpa [GraphCall.adds, GraphCall.erases, hsame] using hih
      | eraseEdge a b =>
          have herase := (eraseEdge_eq_some hcall).1 u v
          rw [joins_eq a b] at herase
          by_cases hsame : s(a, b) = s(u, v)
          · simp only [GraphCall.adds, GraphCall.erases, hsame, decide_true, if_true,
              Bool.false_eq_true, if_false, Nat.add_mul, Nat.one_mul, Nat.add_zero] at hih herase ⊢
            omega
          · simp only [GraphCall.adds, GraphCall.erases, hsame, decide_false, Bool.false_eq_true,
              if_false, Nat.add_zero] at hih herase ⊢
            omega

/-- Between the vertices of a graph that was built there are the edges that were added more often
than erased. -/
theorem edge_iff_linked {calls : List (GraphCall Node)}
    (h : machine.exec empty calls = some g) (u v : Node) :
    Search.Edge g.neighbours u v ↔ GraphCall.Linked calls u v := by
  have hcount := entries_exec h u v
  have hnone : (empty : Graph Node).entries u v = 0 := by
    simp [entries, neighbours, empty, KeyedList.get]
  have hpos : 0 < joins u v u v := by simp [joins, half]
  rw [hnone, Nat.zero_add] at hcount
  have hlt : calls.countP (GraphCall.erases s(u, v)) * joins u v u v <
      calls.countP (GraphCall.adds s(u, v)) * joins u v u v ↔ GraphCall.Linked calls u v :=
    Nat.mul_lt_mul_right hpos
  rw [Search.Edge, ← entries_pos, ← hlt]
  omega

/-- The loop of `is_connected` ends on every graph that was built, and the answer is whether every
two vertices are joined by a path of edges that were added more often than erased. -/
theorem isConnected_decides {calls : List (GraphCall Node)}
    (h : machine.exec empty calls = some g) :
    (∀ start list rest, g.graph = (start, list) :: rest →
      ∃ t, Search.Ends g.neighbours ⟨[], [start]⟩ t ∧
        g.isConnected = decide (t.visited.length = g.graph.length)) ∧
    (g.isConnected = true ↔ ∀ u ∈ g.vertices, ∀ v ∈ g.vertices,
      Relation.ReflTransGen (GraphCall.Linked calls) u v) := by
  have hwf : g.Wf := (Machine.reach_of_exec h).invariant wf_empty
    fun _ _ _ hwf _ hcall => hwf.call hcall
  have hedges : Search.Edge g.neighbours = GraphCall.Linked calls := by
    ext u v
    exact edge_iff_linked h u v
  refine ⟨fun _ _ _ hgraph => hwf.isConnected_ends hgraph, ?_⟩
  rw [hwf.isConnected_iff, Connected, hedges]

theorem isConnected_decides_of_erased_edge :
    let calls : List (GraphCall Nat) :=
      [.addEdge 1 2, .addEdge 2 1, .addEdge 3 3, .eraseEdge 1 2, .addVertex 4, .addEdge 3 1]
    ∃ g, machine.exec empty calls = some g ∧ g.isConnected = false ∧
      ¬ ∀ u ∈ g.vertices, ∀ v ∈ g.vertices, Relation.ReflTransGen (GraphCall.Linked calls) u v := by
  intro calls
  obtain ⟨g, hg⟩ : ∃ g, machine.exec empty calls = some g := Option.isSome_iff_exists.mp (by decide)
  have hfalse : (machine.exec empty calls).map isConnected = some false := by decide
  rw [hg, Option.map_some, Option.some.injEq] at hfalse
  refine ⟨g, hg, hfalse, ?_⟩
  rw [← (isConnected_decides hg).2, hfalse]
  decide

end Graph

end Diplom
