import Mathlib.Data.Option.Basic

/-!
# Finite maps as partial functions

The operations of an associative container whose iteration order nobody looks at: a lookup is the
map applied to the key. `insert` is the container's own insert, which keeps an entry that is already
there; `set` is assignment through the subscript, which overwrites it.
-/

/-- A map from keys to values, `none` where there is no entry. -/
abbrev PartialMap (K V : Type) : Type := K → Option V

namespace PartialMap

variable {K V : Type} [DecidableEq K] (m : PartialMap K V)

def empty : PartialMap K V := fun _ => none

def contains (m : PartialMap K V) (k : K) : Bool := (m k).isSome

/-- Assignment through the subscript: the entry is created or overwritten. -/
def set (k : K) (v : V) : PartialMap K V := fun k' => if k' = k then some v else m k'

/-- Insertion: an entry that is already there stays. -/
def insert (k : K) (v : V) : PartialMap K V := if m.contains k then m else m.set k v

def erase (k : K) : PartialMap K V := fun k' => if k' = k then none else m k'

omit [DecidableEq K] in
@[simp] theorem empty_apply (k : K) : (empty : PartialMap K V) k = none := rfl

omit [DecidableEq K] in
@[simp] theorem contains_eq_true {m : PartialMap K V} {k : K} :
    m.contains k = true ↔ m k ≠ none := by
  simp only [contains, Option.isSome_iff_ne_none]

omit [DecidableEq K] in
@[simp] theorem contains_eq_false {m : PartialMap K V} {k : K} :
    m.contains k = false ↔ m k = none := by
  simp [contains]

theorem set_apply (k k' : K) (v : V) : (m.set k v) k' = if k' = k then some v else m k' := rfl

@[simp] theorem set_self (k : K) (v : V) : (m.set k v) k = some v := by
  rw [set_apply, if_pos rfl]

theorem set_of_ne {k k' : K} (h : k' ≠ k) (v : V) : (m.set k v) k' = m k' := by
  rw [set_apply, if_neg h]

theorem set_of_some {k : K} {v : V} (h : m k = some v) : m.set k v = m := by
  funext k'
  rw [set_apply]
  split
  · rename_i hk
    rw [hk, h]
  · rfl

theorem erase_apply (k k' : K) : (m.erase k) k' = if k' = k then none else m k' := rfl

@[simp] theorem erase_self (k : K) : (m.erase k) k = none := by
  rw [erase_apply, if_pos rfl]

theorem erase_of_ne {k k' : K} (h : k' ≠ k) : (m.erase k) k' = m k' := by
  rw [erase_apply, if_neg h]

theorem erase_eq_some {k k' : K} {v : V} : (m.erase k) k' = some v ↔ k' ≠ k ∧ m k' = some v := by
  rw [erase_apply]
  by_cases h : k' = k <;> simp [h]

omit [DecidableEq K] in
/-- An entry that has stayed or gone was there before. -/
theorem eq_some_of_kept {entry entry' : Option V} {v : V} (h : entry' = entry ∨ entry' = none)
    (hentry : entry' = some v) : entry = some v := by
  rcases h with hsame | hnone
  · exact hsame.symm.trans hentry
  · exact absurd (hnone.symm.trans hentry) (by simp)

theorem erase_of_none {k : K} (h : m k = none) : m.erase k = m := by
  funext k'
  by_cases hk : k' = k
  · rw [hk, erase_self, h]
  · rw [erase_of_ne m hk]

@[simp] theorem set_erase (k : K) (v : V) : (m.erase k).set k v = m.set k v := by
  funext k'
  rw [set_apply, set_apply, erase_apply]
  split <;> rfl

@[simp] theorem erase_set (k : K) (v : V) : (m.set k v).erase k = m.erase k := by
  funext k'
  rw [erase_apply, erase_apply, set_apply]
  split <;> rfl

@[simp] theorem contains_set_self (k : K) (v : V) : (m.set k v).contains k = true := by
  simp [contains]

theorem contains_set_of_ne {k k' : K} (h : k' ≠ k) (v : V) :
    (m.set k v).contains k' = m.contains k' := by
  rw [contains, set_of_ne m h, contains]

@[simp] theorem contains_erase_self (k : K) : (m.erase k).contains k = false := by
  simp [contains]

theorem contains_erase_of_ne {k k' : K} (h : k' ≠ k) : (m.erase k).contains k' = m.contains k' := by
  rw [contains, erase_of_ne m h, contains]

theorem insert_of_none {k : K} (h : m k = none) (v : V) : m.insert k v = m.set k v := by
  rw [insert, if_neg]
  simp [contains, h]

theorem insert_of_some {k : K} {w : V} (h : m k = some w) (v : V) : m.insert k v = m := by
  rw [insert, if_pos]
  simp [contains, h]

theorem insert_of_ne {k k' : K} (h : k' ≠ k) (v : V) : (m.insert k v) k' = m k' := by
  unfold insert
  split
  · rfl
  · exact set_of_ne m h v

theorem insert_self_isSome (k : K) (v : V) : ((m.insert k v) k).isSome := by
  cases h : m k with
  | none => rw [insert_of_none m h, set_self]; rfl
  | some w => rw [insert_of_some m h, h]; rfl

/-! ### Two maps that are each other's inverse -/

section Inverse

variable {m : PartialMap K V} {n : PartialMap V K}

/-- Both maps hold the same pairs, each from its own end. -/
def Inverse (m : PartialMap K V) (n : PartialMap V K) : Prop := ∀ k v, m k = some v ↔ n v = some k

omit [DecidableEq K] in
theorem inverse_empty : Inverse (empty : PartialMap K V) empty := fun k v => by simp

omit [DecidableEq K] in
theorem Inverse.unique (h : Inverse m n) {k k' : K} {v : V} (hk : m k = some v)
    (hk' : m k' = some v) : k = k' :=
  Option.some.inj (((h k v).mp hk).symm.trans ((h k' v).mp hk'))

theorem Inverse.set [DecidableEq V] (h : Inverse m n) {k : K} {v : V} (hk : m k = none)
    (hv : n v = none) : Inverse (m.set k v) (n.set v k) := by
  intro k' v'
  have hother := h k' v'
  simp only [set_apply]
  by_cases hkk : k' = k <;> by_cases hvv : v' = v
  · simp [hkk, hvv]
  · subst hkk
    have hnone : ¬ n v' = some k' := by rw [← hother, hk]; simp
    simpa [hvv, hnone] using fun heq => hvv heq.symm
  · subst hvv
    have hnone : ¬ m k' = some v' := by rw [hother, hv]; simp
    simpa [hkk, hnone] using fun heq => hkk heq.symm
  · simpa [hkk, hvv] using hother

theorem Inverse.erase [DecidableEq V] (h : Inverse m n) {k : K} {v : V} (hk : m k = some v) :
    Inverse (m.erase k) (n.erase v) := by
  intro k' v'
  rw [erase_eq_some, erase_eq_some, ← h k' v']
  refine ⟨fun ⟨hne, hk'⟩ => ⟨fun hvv => hne ?_, hk'⟩, fun ⟨hne, hk'⟩ => ⟨fun hkk => hne ?_, hk'⟩⟩
  · exact h.unique (hvv ▸ hk') hk
  · rw [hkk, hk] at hk'
    exact (Option.some.inj hk').symm

end Inverse

end PartialMap
