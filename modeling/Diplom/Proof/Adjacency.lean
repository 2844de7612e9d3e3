import Diplom.Emulator.CombineLogs

/-!
# The graph's lists of neighbours

What the three operations of `Graph` do to the vertices and to how often one vertex is in the list
of another. An edge is counted at both its ends, and an edge from a vertex to itself twice at that
vertex.
-/

namespace Diplom

namespace Graph

variable {Node : Type} [DecidableEq Node] (g : Graph Node)

def vertices : List Node := g.graph.map Prod.fst

/-- How often `v` is in the list of `u`. -/
def entries (u v : Node) : Nat := (g.neighbours u).count v

/-- Whether an edge between `u` and `v` puts `y` into the list of `x` from the side of `u`. -/
def half (u v x y : Node) : Nat := if x = u ∧ y = v then 1 else 0

/-- A graph whose dictionary has each key once, whose edges are at both their ends, and whose
neighbours are vertices. -/
structure Wf : Prop where
  once : g.vertices.Nodup
  symm : ∀ u v, g.entries u v = g.entries v u
  closed : ∀ u v, v ∈ g.neighbours u → v ∈ g.vertices

variable {g}

theorem neighbours_of_notMem {v : Node} (h : v ∉ g.vertices) : g.neighbours v = [] := by
  rw [neighbours, KeyedList.get_eq_none.mpr h]
  rfl

theorem entries_pos {u v : Node} : 0 < g.entries u v ↔ v ∈ g.neighbours u := List.count_pos_iff

omit [DecidableEq Node] in
@[simp] theorem vertices_empty : (empty : Graph Node).vertices = [] := rfl

theorem wf_empty : (empty : Graph Node).Wf := by
  refine ⟨List.nodup_nil, fun u v => ?_, fun u v hv => ?_⟩
  · rfl
  · simp [neighbours, empty, KeyedList.get] at hv

/-! ### One list at a time -/

theorem neighbours_setNeighbours (g : Graph Node) (u w : Node) (list : List Node) :
    (g.setNeighbours u list).neighbours w = if w = u then list else g.neighbours w := by
  rw [neighbours, setNeighbours, KeyedList.get_set]
  split <;> rfl

theorem vertices_setNeighbours (g : Graph Node) (u : Node) (list : List Node) :
    (g.setNeighbours u list).vertices = KeyedList.putLast u g.vertices :=
  KeyedList.map_fst_set u list g.graph

theorem neighbours_addVertex (g : Graph Node) (v w : Node) :
    (g.addVertex v).neighbours w = g.neighbours w := by
  unfold addVertex
  cases hv : KeyedList.get v g.graph with
  | some list => rfl
  | none =>
      rw [neighbours, KeyedList.get_set]
      by_cases hw : w = v
      · rw [if_pos hw, neighbours, hw, hv]
        rfl
      · rw [if_neg hw, neighbours]

theorem vertices_addVertex (g : Graph Node) (v : Node) :
    (g.addVertex v).vertices = KeyedList.putLast v g.vertices := by
  unfold addVertex
  cases hv : KeyedList.get v g.graph with
  | some list =>
      have hmem : v ∈ g.vertices := List.mem_map_of_mem (KeyedList.mem_of_get hv)
      simp [KeyedList.putLast, hmem]
  | none => exact KeyedList.map_fst_set v [] g.graph

theorem entries_addVertex (g : Graph Node) (v x y : Node) :
    (g.addVertex v).entries x y = g.entries x y := by
  rw [entries, neighbours_addVertex, entries]

private theorem entries_append (g : Graph Node) (u v x y : Node) :
    (g.setNeighbours u (g.neighbours u ++ [v])).entries x y = g.entries x y + half u v x y := by
  rw [entries, neighbours_setNeighbours, entries, half]
  by_cases hx : x = u
  · rw [if_pos hx, List.count_append, hx, List.count_singleton]
    by_cases hy : y = v
    · simp [hy]
    · simp [hy, Ne.symm hy]
  · simp [hx]

private theorem removeNeighbour_eq_some {g g' : Graph Node} {u v : Node}
    (h : g.removeNeighbour u v = some g') :
    v ∈ g.neighbours u ∧ g'.vertices = KeyedList.putLast u g.vertices ∧
      ∀ x y, g'.entries x y + half u v x y = g.entries x y := by
  unfold removeNeighbour at h
  by_cases hv : v ∈ g.neighbours u
  · rw [if_pos hv] at h
    obtain rfl := Option.some.inj h
    refine ⟨hv, vertices_setNeighbours g u _, fun x y => ?_⟩
    rw [entries, neighbours_setNeighbours, entries, half]
    by_cases hx : x = u
    · rw [if_pos hx, hx, List.count_erase]
      by_cases hy : y = v
      · have hpos : 0 < (g.neighbours u).count v := List.count_pos_iff.mpr hv
        simp only [hy, beq_self_eq_true, if_true, and_self]
        omega
      · simp [hy, Ne.symm hy]
    · simp [hx]
  · simp [hv] at h

/-! ### Whole edges -/

/-- An edge between `u` and `v` as it is counted in the list of `x`. -/
def joins (u v x y : Node) : Nat := half u v x y + half v u x y

theorem joins_symm (u v x y : Node) : joins u v x y = joins u v y x := by
  unfold joins half
  simp only [and_comm (a := x = u), and_comm (a := x = v)]
  omega

theorem entries_addEdge (g : Graph Node) (u v x y : Node) :
    (g.addEdge u v).entries x y = g.entries x y + joins u v x y := by
  unfold addEdge joins
  dsimp only
  rw [entries_append, entries_append, entries_addVertex, entries_addVertex]
  omega

theorem mem_vertices_addEdge (g : Graph Node) (u v w : Node) :
    w ∈ (g.addEdge u v).vertices ↔ w = u ∨ w = v ∨ w ∈ g.vertices := by
  unfold addEdge
  dsimp only
  simp only [vertices_setNeighbours, vertices_addVertex, KeyedList.mem_putLast]
  tauto

private theorem nodup_addEdge (h : g.vertices.Nodup) (u v : Node) :
    (g.addEdge u v).vertices.Nodup := by
  unfold addEdge
  dsimp only
  simp only [vertices_setNeighbours, vertices_addVertex]
  apply KeyedList.nodup_putLast
  apply KeyedList.nodup_putLast
  apply KeyedList.nodup_putLast
  exact KeyedList.nodup_putLast u h

theorem eraseEdge_eq_some {g' : Graph Node} {u v : Node} (h : g.eraseEdge u v = some g') :
    (∀ x y, g'.entries x y + joins u v x y = g.entries x y) ∧
      (∀ w, w ∈ g'.vertices ↔ w = u ∨ w = v ∨ w ∈ g.vertices) ∧
      (g.vertices.Nodup → g'.vertices.Nodup) := by
  obtain ⟨mid, hmid, hlast⟩ := Option.bind_eq_some_iff.mp h
  obtain ⟨-, hmidVertices, hmidEntries⟩ := removeNeighbour_eq_some hmid
  obtain ⟨-, hvertices, hentries⟩ := removeNeighbour_eq_some hlast
  rw [hmidVertices, vertices_addVertex, vertices_addVertex] at hvertices
  refine ⟨fun x y => ?_, fun w => ?_, fun hnodup => ?_⟩
  · have hfirst := hmidEntries x y
    have hsecond := hentries x y
    rw [entries_addVertex, entries_addVertex] at hfirst
    unfold joins
    omega
  · simp only [hvertices, KeyedList.mem_putLast]
    tauto
  · rw [hvertices]
    apply KeyedList.nodup_putLast
    apply KeyedList.nodup_putLast
    apply KeyedList.nodup_putLast
    exact KeyedList.nodup_putLast u hnodup

private theorem removeNeighbour_isSome {u v : Node} (h : v ∈ g.neighbours u) :
    ∃ g', g.removeNeighbour u v = some g' :=
  ⟨_, if_pos h⟩

/-- `erase_edge` returns if there is an edge to erase. -/
theorem Wf.eraseEdge_isSome (h : g.Wf) {u v : Node} (hle : joins u v u v ≤ g.entries u v) :
    ∃ g', g.eraseEdge u v = some g' := by
  have hself : half u v u v = 1 := if_pos ⟨rfl, rfl⟩
  have hother : half u v v u = half v u u v := by simp only [half, and_comm]
  unfold joins at hle
  have hmem : v ∈ ((g.addVertex u).addVertex v).neighbours u := by
    apply entries_pos.mp
    rw [entries_addVertex, entries_addVertex]
    omega
  obtain ⟨mid, hmid⟩ := removeNeighbour_isSome hmem
  have hback : u ∈ mid.neighbours v := by
    apply entries_pos.mp
    have hvu := (removeNeighbour_eq_some hmid).2.2 v u
    rw [entries_addVertex, entries_addVertex, ← h.symm] at hvu
    omega
  obtain ⟨last, hlast⟩ := removeNeighbour_isSome hback
  exact ⟨last, Option.bind_eq_some_iff.mpr ⟨mid, hmid, hlast⟩⟩

/-! ### Well-formed graphs stay so -/

theorem Wf.addVertex (h : g.Wf) (v : Node) : (g.addVertex v).Wf := by
  refine ⟨?_, fun x y => ?_, fun x y hy => ?_⟩
  · rw [vertices_addVertex]
    exact KeyedList.nodup_putLast v h.once
  · rw [entries_addVertex, entries_addVertex, h.symm]
  · rw [neighbours_addVertex] at hy
    rw [vertices_addVertex, KeyedList.mem_putLast]
    exact .inr (h.closed x y hy)

theorem Wf.addEdge (h : g.Wf) (u v : Node) : (g.addEdge u v).Wf := by
  refine ⟨nodup_addEdge h.once u v, fun x y => ?_, fun x y hy => ?_⟩
  · rw [entries_addEdge, entries_addEdge, h.symm, joins_symm]
  · have hpos := entries_pos.mpr hy
    rw [entries_addEdge] at hpos
    rw [mem_vertices_addEdge]
    by_cases hold : y ∈ g.neighbours x
    · exact .inr (.inr (h.closed x y hold))
    · have hzero : g.entries x y = 0 := List.count_eq_zero.mpr hold
      by_cases hyv : y = v
      · exact .inr (.inl hyv)
      · left
        by_contra hyu
        simp [hzero, joins, half, hyu, hyv] at hpos

theorem Wf.eraseEdge (h : g.Wf) {g' : Graph Node} {u v : Node}
    (herase : g.eraseEdge u v = some g') :
    g'.Wf := by
  obtain ⟨hentries, hvertices, hnodup⟩ := eraseEdge_eq_some herase
  refine ⟨hnodup h.once, fun x y => ?_, fun x y hy => ?_⟩
  · have hxy := hentries x y
    have hyx := hentries y x
    rw [joins_symm, h.symm] at hxy
    omega
  · have hpos := entries_pos.mpr hy
    have hxy := hentries x y
    have hold : 0 < g.entries x y := by omega
    exact (hvertices y).mpr (.inr (.inr (h.closed x y (entries_pos.mp hold))))

end Graph

end Diplom
