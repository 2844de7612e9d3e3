import Mathlib.Data.List.Sort

/-!
# Merging sequences with a stable sort

Several sequences are put one after another and sorted. If every element tells which sequence it is
from, the elements of one sequence stand in the result as if this sequence had been sorted alone;
what the others hold does not matter.
-/

namespace Merge

variable {α β κ : Type} (r : α → α → Prop) [DecidableRel r]

private theorem orderedInsert_of_forall_rel {a : α} {l : List α} (h : ∀ b ∈ l, r a b) :
    l.orderedInsert r a = a :: l := by
  cases l with
  | nil => rfl
  | cons b l => exact List.orderedInsert_cons_of_le r l (h b List.mem_cons_self)

theorem filter_orderedInsert [IsTrans α r] (p : α → Bool) (a : α) {l : List α}
    (hl : l.Pairwise r) :
    (l.orderedInsert r a).filter p =
      if p a then (l.filter p).orderedInsert r a else l.filter p := by
  induction l with
  | nil => cases hp : p a <;> simp [hp]
  | cons b l ih =>
      obtain ⟨hb, hl⟩ := List.pairwise_cons.mp hl
      rw [List.orderedInsert_cons]
      by_cases hab : r a b
      · have hall : ∀ c ∈ (b :: l).filter p, r a c := by
          intro c hc
          rcases List.mem_cons.mp (List.mem_of_mem_filter hc) with rfl | hc
          · exact hab
          · exact trans_of r hab (hb c hc)
        rw [if_pos hab, orderedInsert_of_forall_rel r hall, List.filter_cons]
      · rw [if_neg hab, List.filter_cons, List.filter_cons, ih hl]
        by_cases hpb : p b = true
        · by_cases hpa : p a = true
          · simp [hpa, hpb, hab]
          · simp [hpa, hpb]
        · simp [hpb]

/-- The sort is stable, whatever part of its result is looked at. -/
theorem filter_insertionSort [Std.Total r] [IsTrans α r] (p : α → Bool) (l : List α) :
    (l.insertionSort r).filter p = (l.filter p).insertionSort r := by
  induction l with
  | nil => rfl
  | cons a l ih =>
      rw [List.insertionSort_cons, filter_orderedInsert r p a (List.pairwise_insertionSort r l), ih,
        List.filter_cons]
      split
      · rw [List.insertionSort_cons]
      · rfl

omit [DecidableRel r] in
/-- Where what is kept comes before what is left out, a front of the sequence is kept. -/
theorem filter_front {p : α → Bool} {l : List α}
    (h : l.Pairwise fun a b => p b = true → p a = true) : l.filter p <+: l := by
  induction l with
  | nil => exact List.nil_prefix
  | cons a l ih =>
      obtain ⟨ha, hl⟩ := List.pairwise_cons.mp h
      rw [List.filter_cons]
      split
      · exact List.cons_prefix_cons.mpr ⟨rfl, ih hl⟩
      · rename_i hp
        have hnone : l.filter p = [] := by
          rw [List.filter_eq_nil_iff]
          intro b hb hpb
          exact hp (ha b hb hpb)
        rw [hnone]
        exact List.nil_prefix

/-! ### Several sequences -/

variable [DecidableEq κ] {owner : α → κ} {name : β → κ} {f : β → List α} {l : List β} {x : β}

theorem filter_flatMap (howner : ∀ y ∈ l, ∀ a ∈ f y, owner a = name y)
    (hnames : (l.map name).Nodup) (hx : x ∈ l) :
    (l.flatMap f).filter (fun a => owner a = name x) = f x := by
  induction l with
  | nil => exact absurd hx List.not_mem_nil
  | cons y l ih =>
      obtain ⟨hfresh, hnames⟩ := List.nodup_cons.mp hnames
      have hothers := fun z hz => howner z (List.mem_cons_of_mem y hz)
      rw [List.flatMap_cons, List.filter_append]
      by_cases hxl : x ∈ l
      · have hne : name y ≠ name x := fun heq => hfresh (heq ▸ List.mem_map_of_mem hxl)
        have hnone : (f y).filter (fun a => owner a = name x) = [] := by
          rw [List.filter_eq_nil_iff]
          intro a ha
          simpa [howner y List.mem_cons_self a ha] using hne
        rw [hnone, ih hothers hnames hxl, List.nil_append]
      · obtain rfl := (List.mem_cons.mp hx).resolve_right hxl
        have hown : (f x).filter (fun a => owner a = name x) = f x := by
          rw [List.filter_eq_self]
          intro a ha
          simpa using howner x List.mem_cons_self a ha
        have hnone : (l.flatMap f).filter (fun a => owner a = name x) = [] := by
          rw [List.filter_eq_nil_iff]
          intro a ha
          obtain ⟨z, hz, ha⟩ := List.mem_flatMap.mp ha
          have hne : name z ≠ name x := fun heq => hfresh (heq ▸ List.mem_map_of_mem hz)
          simpa [hothers z hz a ha] using hne
        rw [hown, hnone, List.append_nil]

theorem filter_merge [Std.Total r] [IsTrans α r] (howner : ∀ y ∈ l, ∀ a ∈ f y, owner a = name y)
    (hnames : (l.map name).Nodup) (hx : x ∈ l) :
    ((l.flatMap f).insertionSort r).filter (fun a => owner a = name x) =
      (f x).insertionSort r := by
  rw [filter_insertionSort, filter_flatMap howner hnames hx]

end Merge
