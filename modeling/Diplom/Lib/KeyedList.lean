import Mathlib.Algebra.GroupWithZero.Nat
import Mathlib.Algebra.Order.BigOperators.Group.List
import Mathlib.Algebra.Order.Group.Nat
import Mathlib.Data.List.Nodup
import Mathlib.Tactic.Tauto

/-!
# Entries in an order that shows

Containers whose entries are visited one after another, as lists of keys with their values. An
ordered container keeps its entries by increasing key; one that remembers insertion gives a new key
the last place and leaves an old one where it is.
-/

namespace KeyedList

variable {K V : Type} [DecidableEq K]

def setOrdered [LT K] [DecidableLT K] (k : K) (v : V) : List (K × V) → List (K × V)
  | [] => [(k, v)]
  | e :: rest =>
      if k = e.1 then (k, v) :: rest
      else if k < e.1 then (k, v) :: e :: rest
      else e :: setOrdered k v rest

section Ordered

variable [LT K] [DecidableLT K]

theorem self_mem_setOrdered (k : K) (v : V) (l : List (K × V)) : (k, v) ∈ setOrdered k v l := by
  induction l with
  | nil => simp [setOrdered]
  | cons e rest ih =>
      simp only [setOrdered]
      split
      · simp
      · split
        · simp
        · exact List.mem_cons_of_mem _ ih

theorem mem_of_mem_setOrdered {k : K} {v : V} {l : List (K × V)} {e : K × V}
    (h : e ∈ setOrdered k v l) : e = (k, v) ∨ e ∈ l := by
  induction l with
  | nil => exact .inl (List.mem_singleton.mp h)
  | cons e' rest ih =>
      simp only [setOrdered] at h
      split at h
      · rcases List.mem_cons.mp h with rfl | hrest
        · exact .inl rfl
        · exact .inr (List.mem_cons_of_mem _ hrest)
      · split at h
        · exact List.mem_cons.mp h
        · rcases List.mem_cons.mp h with rfl | hrest
          · exact .inr List.mem_cons_self
          · exact (ih hrest).imp_right (List.mem_cons_of_mem _)

end Ordered

/-! ### In order of insertion -/

def get (k : K) (l : List (K × V)) : Option V := (l.find? fun e => e.1 = k).map Prod.snd

/-- Assignment: a new key goes to the end, an old one keeps its place. -/
def set (k : K) (v : V) : List (K × V) → List (K × V)
  | [] => [(k, v)]
  | e :: rest => if e.1 = k then (k, v) :: rest else e :: set k v rest

/-- Insertion: an entry that is already there stays. -/
def insert (k : K) (v : V) (l : List (K × V)) : List (K × V) :=
  if (get k l).isSome then l else set k v l

def setAll (entries l : List (K × V)) : List (K × V) :=
  entries.foldl (fun l e => set e.1 e.2 l) l

def erase (k : K) (l : List (K × V)) : List (K × V) := l.filter fun e => e.1 ≠ k

@[simp] theorem get_nil (k : K) : get k ([] : List (K × V)) = none := rfl

theorem mem_of_get {k : K} {v : V} {l : List (K × V)} (h : get k l = some v) : (k, v) ∈ l := by
  obtain ⟨e, hfind, rfl⟩ := Option.map_eq_some_iff.mp h
  have hkey : e.1 = k := by simpa using List.find?_some hfind
  have hmem := List.mem_of_find?_eq_some hfind
  rwa [← hkey]

theorem get_set (k k' : K) (v : V) (l : List (K × V)) :
    get k' (set k v l) = if k' = k then some v else get k' l := by
  induction l with
  | nil =>
      by_cases hk : k' = k
      · simp [get, set, hk]
      · simp [get, set, hk, Ne.symm hk]
  | cons e rest ih =>
      unfold get at ih ⊢
      by_cases he : e.1 = k
      · by_cases hk : k' = k
        · simp [set, he, hk]
        · simp [set, he, hk, Ne.symm hk]
      · by_cases hk : e.1 = k'
        · have hne : k' ≠ k := fun h => he (hk.trans h)
          simp [set, hk, hne]
        · simp only [set, if_neg he, List.find?_cons, hk, decide_false]
          exact ih

theorem get_eq_none {k : K} {l : List (K × V)} : get k l = none ↔ k ∉ l.map Prod.fst := by
  simp only [get, Option.map_eq_none_iff, List.find?_eq_none, List.mem_map, not_exists, not_and,
    decide_eq_true_eq]

theorem mem_of_mem_set {k : K} {v : V} {l : List (K × V)} {e : K × V} (h : e ∈ set k v l) :
    e = (k, v) ∨ e ∈ l := by
  induction l with
  | nil => exact .inl (List.mem_singleton.mp h)
  | cons e' rest ih =>
      unfold set at h
      split at h
      · rcases List.mem_cons.mp h with rfl | hrest
        · exact .inl rfl
        · exact .inr (List.mem_cons_of_mem _ hrest)
      · rcases List.mem_cons.mp h with rfl | hrest
        · exact .inr List.mem_cons_self
        · exact (ih hrest).imp_right (List.mem_cons_of_mem _)

theorem insert_of_none {k : K} {l : List (K × V)} (h : get k l = none) (v : V) :
    insert k v l = set k v l := by
  simp [insert, h]

theorem get_insert (k k' : K) (v : V) (l : List (K × V)) :
    get k' (insert k v l)
      = if (get k l).isSome then get k' l else if k' = k then some v else get k' l := by
  unfold insert
  split
  · rfl
  · exact get_set k k' v l

theorem get_erase (k k' : K) (l : List (K × V)) :
    get k' (erase k l) = if k' = k then none else get k' l := by
  induction l with
  | nil => simp [erase, get]
  | cons e rest ih =>
      unfold get erase at ih ⊢
      by_cases he : e.1 = k
      · rw [List.filter_cons_of_neg (by simpa using he), ih]
        by_cases hk : k' = k
        · rw [if_pos hk, if_pos hk]
        · rw [if_neg hk, if_neg hk, List.find?_cons_of_neg]
          simpa [he] using fun heq => hk heq.symm
      · rw [List.filter_cons_of_pos (by simpa using he), List.find?_cons, List.find?_cons]
        by_cases hk : e.1 = k'
        · have hne : ¬ k' = k := fun heq => he (hk.trans heq)
          simp [hk, hne]
        · simp only [hk, decide_false]
          exact ih

theorem erase_set (k : K) (v : V) (l : List (K × V)) : erase k (set k v l) = erase k l := by
  unfold erase
  induction l with
  | nil => simp [set]
  | cons e rest ih =>
      by_cases he : e.1 = k
      · simp [set, he]
      · rw [set, if_neg he, List.filter_cons_of_pos (by simpa using he), ih,
          List.filter_cons_of_pos (by simpa using he)]

theorem set_set (k : K) (v w : V) (l : List (K × V)) : set k w (set k v l) = set k w l := by
  induction l with
  | nil => simp [set]
  | cons e rest ih =>
      by_cases he : e.1 = k
      · simp [set, he]
      · simp [set, he, ih]

theorem sum_erase_add_le (f : K × V → Nat) {k : K} {v : V} {l : List (K × V)}
    (h : get k l = some v) : ((erase k l).map f).sum + f (k, v) ≤ (l.map f).sum := by
  induction l with
  | nil => simp [get] at h
  | cons e rest ih =>
      unfold get at h ih
      unfold erase at ih ⊢
      by_cases he : e.1 = k
      · rw [List.find?_cons_of_pos (by simpa using he), Option.map_some, Option.some.injEq] at h
        obtain rfl : e = (k, v) := Prod.ext he h
        rw [List.filter_cons_of_neg (by simp), List.map_cons, List.sum_cons]
        have hpart : ((rest.filter fun e => e.1 ≠ k).map f).Sublist (rest.map f) :=
          List.filter_sublist.map f
        have hle := hpart.sum_le_sum fun n _ => n.zero_le
        omega
      · rw [List.find?_cons_of_neg (by simpa using he)] at h
        rw [List.filter_cons_of_pos (by simpa using he)]
        simp only [List.map_cons, List.sum_cons]
        have hle := ih h
        omega

/-- An entry of a list without double keys is the one that is found. -/
theorem get_of_mem {e : K × V} {l : List (K × V)} (hkeys : (l.map Prod.fst).Nodup) (h : e ∈ l) :
    get e.1 l = some e.2 := by
  induction l with
  | nil => simp at h
  | cons e' rest ih =>
      rw [List.map_cons, List.nodup_cons] at hkeys
      rcases List.mem_cons.mp h with rfl | hrest
      · simp [get]
      · have hne : ¬ e'.1 = e.1 := fun heq => hkeys.1 (heq ▸ List.mem_map_of_mem hrest)
        have hfound := ih hkeys.2 hrest
        unfold get at hfound ⊢
        rwa [List.find?_cons_of_neg (by simpa using hne)]

theorem set_of_notMem {k : K} {l : List (K × V)} (h : k ∉ l.map Prod.fst) (v : V) :
    set k v l = l ++ [(k, v)] := by
  induction l with
  | nil => rfl
  | cons e rest ih =>
      rw [List.map_cons, List.mem_cons, not_or] at h
      rw [set, if_neg fun he => h.1 he.symm, ih h.2, List.cons_append]

/-- Entries without double keys, none of which is there yet, are put behind the others. -/
theorem setAll_of_nodup {entries l : List (K × V)}
    (h : (l.map Prod.fst ++ entries.map Prod.fst).Nodup) : setAll entries l = l ++ entries := by
  induction entries generalizing l with
  | nil => exact (List.append_nil l).symm
  | cons e rest ih =>
      have hnew : e.1 ∉ l.map Prod.fst := by
        intro hmem
        exact (List.nodup_append.mp h).2.2 e.1 hmem e.1 (by simp) rfl
      have hstep : setAll (e :: rest) l = setAll rest (set e.1 e.2 l) := rfl
      rw [hstep, set_of_notMem hnew, ih]
      · rw [List.append_assoc, List.singleton_append]
      · rw [List.map_append, List.append_assoc]
        exact h

theorem get_map {K' V' : Type} [DecidableEq K'] {f : K → K'} (hf : Function.Injective f)
    (g : V → V') (k : K) (l : List (K × V)) :
    get (f k) (l.map fun e => (f e.1, g e.2)) = (get k l).map g := by
  induction l with
  | nil => rfl
  | cons e rest ih =>
      unfold get at ih ⊢
      by_cases he : e.1 = k
      · simp [he]
      · have hne : ¬ f e.1 = f k := fun heq => he (hf heq)
        rw [List.map_cons, List.find?_cons_of_neg (by simpa using hne),
          List.find?_cons_of_neg (by simpa using he)]
        exact ih

theorem get_append (k : K) (l l' : List (K × V)) : get k (l ++ l') = (get k l).or (get k l') := by
  unfold get
  rw [List.find?_append]
  cases l.find? fun e => e.1 = k <;> rfl

theorem get_reverse (k : K) {l : List (K × V)} (hkeys : (l.map Prod.fst).Nodup) :
    get k l.reverse = get k l := by
  cases hget : get k l with
  | none => rwa [get_eq_none, List.map_reverse, List.mem_reverse, ← get_eq_none]
  | some v =>
      have hreverse : (l.reverse.map Prod.fst).Nodup := by
        rw [List.map_reverse]
        exact List.nodup_reverse.mpr hkeys
      exact get_of_mem hreverse (List.mem_reverse.mpr (mem_of_get hget))

theorem get_setAll (k : K) (entries l : List (K × V)) :
    get k (setAll entries l) = (get k entries.reverse).or (get k l) := by
  induction entries generalizing l with
  | nil => rfl
  | cons e rest ih =>
      have hstep : setAll (e :: rest) l = setAll rest (set e.1 e.2 l) := rfl
      rw [hstep, ih, get_set, List.reverse_cons, get_append, Option.or_assoc]
      congr 1
      by_cases hk : k = e.1
      · simp [get, hk]
      · have hne : ¬ e.1 = k := fun heq => hk heq.symm
        simp [get, hk, hne]

theorem get_reverse_eq_some {k : K} {v : V} {entries : List (K × V)} :
    get k entries.reverse = some v ↔
      ∃ before after, entries = before ++ (k, v) :: after ∧ k ∉ after.map Prod.fst := by
  constructor
  · intro h
    induction entries with
    | nil => simp [get] at h
    | cons e rest ih =>
        rw [List.reverse_cons, get_append, Option.or_eq_some_iff] at h
        rcases h with h | ⟨hrest, h⟩
        · obtain ⟨before, after, rfl, hafter⟩ := ih h
          exact ⟨e :: before, after, rfl, hafter⟩
        · have he : e = (k, v) := List.mem_singleton.mp (mem_of_get h) |>.symm
          refine ⟨[], rest, by rw [he, List.nil_append], ?_⟩
          rwa [get_eq_none, List.map_reverse, List.mem_reverse] at hrest
  · rintro ⟨before, after, rfl, hafter⟩
    have hnone : get k after.reverse = none := by
      rwa [get_eq_none, List.map_reverse, List.mem_reverse]
    rw [List.reverse_append, List.reverse_cons, get_append, get_append, hnone]
    simp [get]

/-! ### Values filed under names of their own -/

section Named

variable {name : V → K}

def named (name : V → K) (values : List V) : List (K × V) := values.map fun v => (name v, v)

omit [DecidableEq K] in
@[simp] theorem snd_named (values : List V) : (named name values).map Prod.snd = values := by
  simp [named, Function.comp_def]

variable [DecidableEq V]

/-- A value that is there stays in its place, and a new one goes to the end. -/
def putLast (v : V) (values : List V) : List V := if v ∈ values then values else values ++ [v]

theorem mem_putLast {v w : V} {values : List V} : w ∈ putLast v values ↔ w = v ∨ w ∈ values := by
  unfold putLast
  split
  · rename_i hmem
    refine ⟨.inr, ?_⟩
    rintro (rfl | hw)
    · exact hmem
    · exact hw
  · rw [List.mem_append, List.mem_singleton, or_comm]

theorem nodup_putLast (v : V) {values : List V} (h : values.Nodup) : (putLast v values).Nodup := by
  unfold putLast
  split
  · exact h
  · rename_i hnew
    rw [← List.concat_eq_append]
    exact h.concat hnew

omit [DecidableEq V] in
theorem map_fst_set (k : K) (v : V) (l : List (K × V)) :
    (set k v l).map Prod.fst = putLast k (l.map Prod.fst) := by
  induction l with
  | nil => rfl
  | cons e rest ih =>
      by_cases he : e.1 = k
      · simp [set, putLast, he]
      · have hk : ¬ k = e.1 := fun h => he h.symm
        simp only [set, if_neg he, List.map_cons, ih, putLast, List.mem_cons, hk, false_or]
        split <;> simp

omit [DecidableEq V] in
theorem mem_map_fst_setAll {k : K} {entries l : List (K × V)} :
    k ∈ (setAll entries l).map Prod.fst ↔ k ∈ entries.map Prod.fst ∨ k ∈ l.map Prod.fst := by
  induction entries generalizing l with
  | nil => simp [setAll]
  | cons e rest ih =>
      have hstep : setAll (e :: rest) l = setAll rest (set e.1 e.2 l) := rfl
      rw [hstep, ih, map_fst_set, mem_putLast, List.map_cons, List.mem_cons]
      tauto

omit [DecidableEq V] in
theorem nodup_setAll (entries : List (K × V)) {l : List (K × V)} (h : (l.map Prod.fst).Nodup) :
    ((setAll entries l).map Prod.fst).Nodup := by
  induction entries generalizing l with
  | nil => exact h
  | cons e rest ih =>
      apply ih
      rw [map_fst_set]
      exact nodup_putLast e.1 h

theorem set_named (hname : Function.Injective name) (v : V) (values : List V) :
    set (name v) v (named name values) = named name (putLast v values) := by
  induction values with
  | nil => rfl
  | cons w rest ih =>
      simp only [named, List.map_cons, set, hname.eq_iff] at ih ⊢
      by_cases hw : w = v
      · simp [hw, putLast]
      · have hv : ¬ v = w := fun heq => hw heq.symm
        rw [if_neg hw, ih]
        by_cases hmem : v ∈ rest <;> simp [putLast, hmem, hv]

theorem erase_named (hname : Function.Injective name) (v : V) (values : List V) :
    erase (name v) (named name values) = named name (values.filter (· ≠ v)) := by
  simp [erase, named, List.filter_map, Function.comp_def, hname.eq_iff]

end Named

end KeyedList
