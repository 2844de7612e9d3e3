import Diplom.Lib.Text
import Mathlib.Data.List.Infix

/-!
# Lines of a file, and parts of a text

Reading a file line by line ends a line at each `\n`, `\r` and `\r\n`, and all three are read as
`\n`. What is found in a text that is put together is found in one of its pieces, if the character
between the pieces does not occur in it.
-/

namespace Diplom

/-! ### Lines -/

def universalNewlines : Text → Text
  | '\r' :: '\n' :: rest => '\n' :: universalNewlines rest
  | '\r' :: rest => '\n' :: universalNewlines rest
  | c :: rest => c :: universalNewlines rest
  | [] => []

def splitLines : Text → List Text
  | [] => []
  | '\n' :: rest => ['\n'] :: splitLines rest
  | c :: rest =>
      match splitLines rest with
      | [] => [[c]]
      | line :: lines => (c :: line) :: lines

/-- `for line in f`. -/
def fileLines (text : Text) : List Text := splitLines (universalNewlines text)

theorem universalNewlines_append {front : Text} (h : '\r' ∉ front) (rest : Text) :
    universalNewlines (front ++ rest) = front ++ universalNewlines rest := by
  induction front with
  | nil => rfl
  | cons c front ih =>
      have hc : c ≠ '\r' := fun heq => h (heq ▸ List.mem_cons_self)
      have hfront := ih fun hmem => h (List.mem_cons_of_mem c hmem)
      rw [List.cons_append, universalNewlines, hfront]
      · rfl
      · rintro _ rfl
        exact absurd rfl hc
      · rintro rfl
        exact absurd rfl hc

theorem splitLines_line {line : Text} (h : '\n' ∉ line) (rest : Text) :
    splitLines (line ++ '\n' :: rest) = (line ++ ['\n']) :: splitLines rest := by
  induction line with
  | nil => rfl
  | cons c line ih =>
      have hc : c ≠ '\n' := fun heq => h (heq ▸ List.mem_cons_self)
      have hline := ih fun hmem => h (List.mem_cons_of_mem c hmem)
      rw [List.cons_append, splitLines, hline]
      · rfl
      · rintro rfl
        exact absurd rfl hc

/-- Lines that are written one after another are read as they were written. -/
theorem fileLines_written (lines : List Text) (h : ∀ line ∈ lines, '\n' ∉ line ∧ '\r' ∉ line) :
    fileLines (lines.flatMap fun line => line ++ ['\n']) =
      lines.map fun line => line ++ ['\n'] := by
  induction lines with
  | nil => rfl
  | cons line rest ih =>
      obtain ⟨hnewline, hreturn⟩ := h line List.mem_cons_self
      have hrest := ih fun line' hline' => h line' (List.mem_cons_of_mem line hline')
      have hread : universalNewlines (line ++ '\n' :: rest.flatMap fun line => line ++ ['\n']) =
          line ++ '\n' :: universalNewlines (rest.flatMap fun line => line ++ ['\n']) := by
        rw [universalNewlines_append hreturn]
        rfl
      rw [List.flatMap_cons, List.append_assoc, List.singleton_append, fileLines, hread,
        splitLines_line hnewline, List.map_cons]
      rw [fileLines] at hrest
      rw [hrest]

/-! ### Parts -/

section Parts

variable {α : Type} {part front back : List α} {c : α}

/-- A part without the character in the middle lies on one side of it. -/
theorem infix_around (hc : c ∉ part) :
    part <:+: front ++ c :: back ↔ part <:+: front ∨ part <:+: back := by
  constructor
  · rintro ⟨s, t, h⟩
    rcases List.append_eq_append_iff.mp h with ⟨mid, hfront, -⟩ | ⟨mid, hpart, hback⟩
    · exact .inl ⟨s, mid, hfront.symm⟩
    · cases mid with
      | nil =>
          rw [List.append_nil] at hpart
          exact .inl ⟨s, [], by rw [List.append_nil, hpart]⟩
      | cons d mid =>
          obtain ⟨rfl, rfl⟩ := List.cons.inj hback
          rcases List.append_eq_append_iff.mp hpart with ⟨inner, -, hinner⟩ | ⟨inner, -, hinner⟩
          · exact absurd (hinner ▸ List.mem_append_right inner List.mem_cons_self) hc
          · cases inner with
            | nil =>
                rw [List.nil_append] at hinner
                exact absurd (hinner ▸ List.mem_cons_self) hc
            | cons e inner =>
                obtain ⟨-, rfl⟩ := List.cons.inj hinner
                exact .inr ⟨inner, t, rfl⟩
  · rintro (h | h)
    · exact h.trans (List.prefix_append _ _).isInfix
    · exact h.trans ((List.suffix_cons _ _).trans (List.suffix_append _ _)).isInfix

theorem infix_behind (hc : c ∉ front) :
    c :: part <:+: front ++ back ↔ c :: part <:+: back := by
  induction front with
  | nil => rfl
  | cons d front ih =>
      rw [List.cons_append, List.infix_cons_iff, ih fun hmem => hc (List.mem_cons_of_mem d hmem)]
      refine or_iff_right fun hbegins => hc ?_
      rw [(List.cons_prefix_cons.mp hbegins).1]
      exact List.mem_cons_self

end Parts

end Diplom
