import Diplom.Lib.PartialMap

/-!
# Objects that are held, and then retired

Objects are numbered in the order of creation. An object is created into a free place of a table,
and retired from it into a list that is emptied elsewhere. `Custody.Kept` says that nothing is lost
or held twice: an object is in one place of the table, or it has been retired once.
-/

structure Custody (Key : Type) where
  table : PartialMap Key Nat
  /-- Every object that has left the table, in order. -/
  retired : List Nat
  created : Nat

namespace Custody

variable {Key : Type} [DecidableEq Key]

def empty : Custody Key := ⟨.empty, [], 0⟩

def create (c : Custody Key) (key : Key) : Custody Key :=
  { c with table := c.table.set key c.created, created := c.created + 1 }

/-- The object in a place is retired, if there is one. -/
def retire (c : Custody Key) (key : Key) : Custody Key :=
  match c.table key with
  | none => c
  | some id => { c with table := c.table.erase key, retired := c.retired ++ [id] }

structure Kept (c : Custody Key) : Prop where
  once : c.retired.Nodup
  one : ∀ key key' id, c.table key = some id → c.table key' = some id → key = key'
  apart : ∀ key id, c.table key = some id → id ∉ c.retired
  known : ∀ id, id < c.created ↔ id ∈ c.retired ∨ ∃ key, c.table key = some id

omit [DecidableEq Key] in
theorem kept_empty : (empty : Custody Key).Kept where
  once := .nil
  one key key' id h _ := absurd h (by simp [empty])
  apart key id h := absurd h (by simp [empty])
  known id := by simp [empty]

variable {c : Custody Key} {key : Key}

omit [DecidableEq Key] in
theorem Kept.fresh (h : c.Kept) : c.created ∉ c.retired ∧ ∀ key, c.table key ≠ some c.created := by
  refine ⟨fun hretired => ?_, fun key hkey => ?_⟩
  · exact absurd ((h.known c.created).mpr (.inl hretired)) (Nat.lt_irrefl _)
  · exact absurd ((h.known c.created).mpr (.inr ⟨key, hkey⟩)) (Nat.lt_irrefl _)

theorem Kept.create (h : c.Kept) (hfree : c.table key = none) : (c.create key).Kept where
  once := h.once
  one key₁ key₂ id h₁ h₂ := by
    simp only [Custody.create, PartialMap.set_apply] at h₁ h₂
    split at h₁ <;> split at h₂
    · rename_i hkey₁ hkey₂
      rw [hkey₁, hkey₂]
    · exact absurd (h₂.trans h₁.symm) (h.fresh.2 key₂)
    · exact absurd (h₁.trans h₂.symm) (h.fresh.2 key₁)
    · exact h.one key₁ key₂ id h₁ h₂
  apart key' id hkey' := by
    simp only [Custody.create, PartialMap.set_apply] at hkey'
    split at hkey'
    · exact Option.some.inj hkey' ▸ h.fresh.1
    · exact h.apart key' id hkey'
  known id := by
    simp only [Custody.create]
    rw [Nat.lt_succ_iff_lt_or_eq, h.known id]
    constructor
    · rintro ((hretired | ⟨key', hkey'⟩) | rfl)
      · exact .inl hretired
      · refine .inr ⟨key', ?_⟩
        rw [PartialMap.set_of_ne _ fun heq => ?_, hkey']
        rw [heq, hfree] at hkey'
        exact absurd hkey' (by simp)
      · exact .inr ⟨key, PartialMap.set_self _ _ _⟩
    · rintro (hretired | ⟨key', hkey'⟩)
      · exact .inl (.inl hretired)
      · rw [PartialMap.set_apply] at hkey'
        split at hkey'
        · exact .inr (Option.some.inj hkey').symm
        · exact .inl (.inr ⟨key', hkey'⟩)

theorem Kept.retire (h : c.Kept) (key : Key) : (c.retire key).Kept := by
  unfold Custody.retire
  split
  · exact h
  · rename_i id hid
    refine ⟨?_, fun key₁ key₂ id' h₁ h₂ => ?_, fun key' id' hkey' => ?_, fun id' => ?_⟩
    · rw [List.nodup_append]
      refine ⟨h.once, by simp, fun a ha b hb => ?_⟩
      rw [List.mem_singleton.mp hb]
      exact fun heq => h.apart key id hid (heq ▸ ha)
    · exact h.one key₁ key₂ id' (PartialMap.erase_eq_some c.table |>.mp h₁).2
        (PartialMap.erase_eq_some c.table |>.mp h₂).2
    · obtain ⟨hne, hkey'⟩ := PartialMap.erase_eq_some c.table |>.mp hkey'
      rw [List.mem_append, List.mem_singleton, not_or]
      exact ⟨h.apart key' id' hkey', fun heq => hne (h.one key' key id (heq ▸ hkey') hid)⟩
    · rw [h.known id']
      simp only [List.mem_append, List.mem_singleton]
      constructor
      · rintro (hretired | ⟨key', hkey'⟩)
        · exact .inl (.inl hretired)
        · by_cases hsame : key' = key
          · rw [hsame, hid] at hkey'
            exact .inl (.inr (Option.some.inj hkey').symm)
          · exact .inr ⟨key', (PartialMap.erase_eq_some c.table).mpr ⟨hsame, hkey'⟩⟩
      · rintro ((hretired | rfl) | ⟨key', hkey'⟩)
        · exact .inl hretired
        · exact .inr ⟨key, hid⟩
        · exact .inr ⟨key', (PartialMap.erase_eq_some c.table |>.mp hkey').2⟩

theorem retire_table (c : Custody Key) (key : Key) : (c.retire key).table = c.table.erase key := by
  unfold retire
  split
  · rename_i hnone
    exact (PartialMap.erase_of_none _ hnone).symm
  · rfl

end Custody
