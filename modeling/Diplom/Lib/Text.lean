import Mathlib.Data.List.Basic

/-!
# Texts

A text is the list of its characters. Beside it stand the digits of hexadecimal numbers, which
programs write in lower case and read in either.
-/

namespace Diplom

abbrev Text := List Char

def hexValue (c : Char) : Option Nat :=
  if c.isDigit then some (c.toNat - 48)
  else if 'a' ≤ c ∧ c ≤ 'f' then some (c.toNat - 87)
  else if 'A' ≤ c ∧ c ≤ 'F' then some (c.toNat - 55)
  else none

def hexDigits : Text :=
  ['0', '1', '2', '3', '4', '5', '6', '7', '8', '9', 'a', 'b', 'c', 'd', 'e', 'f']

theorem hexDigits_spec {n : Nat} (h : n < 16) :
    ∃ c, hexDigits[n]? = some c ∧ hexValue c = some n := by
  rcases n with _ | _ | _ | _ | _ | _ | _ | _ | _ | _ | _ | _ | _ | _ | _ | _ | n
  all_goals first | exact ⟨_, rfl, by decide⟩ | omega

private theorem of_range {P : Char → Prop} (first last : Char)
    (h : ∀ k < last.toNat + 1 - first.toNat, P (Char.ofNat (first.toNat + k))) {c : Char}
    (hfirst : first ≤ c) (hlast : c ≤ last) : P c := by
  have hlow : first.toNat ≤ c.toNat := hfirst
  have hhigh : c.toNat ≤ last.toNat := hlast
  have hc := h (c.toNat - first.toNat) (by omega)
  rwa [show first.toNat + (c.toNat - first.toNat) = c.toNat by omega, Char.ofNat_toNat] at hc

/-- A digit has a value below sixteen, which is written as the digit in lower case. -/
theorem of_hexValue {c : Char} {n : Nat} (h : hexValue c = some n) :
    n < 16 ∧ hexDigits[n]? = some c.toLower := by
  unfold hexValue at h
  split at h
  · rename_i hdigit
    obtain rfl := Option.some.inj h
    rw [Char.isDigit, Bool.and_eq_true, decide_eq_true_iff, decide_eq_true_iff] at hdigit
    exact of_range '0' '9'
      (P := fun c => c.toNat - 48 < 16 ∧ hexDigits[c.toNat - 48]? = some c.toLower)
      (by decide) hdigit.1 hdigit.2
  · split at h
    · rename_i hlower
      obtain rfl := Option.some.inj h
      exact of_range 'a' 'f'
        (P := fun c => c.toNat - 87 < 16 ∧ hexDigits[c.toNat - 87]? = some c.toLower)
        (by decide) hlower.1 hlower.2
    · split at h
      · rename_i hupper
        obtain rfl := Option.some.inj h
        exact of_range 'A' 'F'
          (P := fun c => c.toNat - 55 < 16 ∧ hexDigits[c.toNat - 55]? = some c.toLower)
          (by decide) hupper.1 hupper.2
      · simp at h

end Diplom
