import Mathlib.Data.List.Chain

/-!
# Logs of openings and closings

A log whose entries open and close keys, possibly among other things: `mark` says which key an entry
is about, and whether it opens it. A key's log is well bracketed if openings and closings take
turns, an opening first; it is open after a log of which the last mark opens it. Logs grow at their
end, so the rules are about one more entry.

Where openings are never refused and a closing only needs an opening before it, the log is `Paired`.
A key's log depends on the entries about the key alone, so the entries of several writers can be
looked at writer by writer.
-/

namespace Brackets

variable {Note Key : Type} [DecidableEq Key] (mark : Note → Option (Key × Bool))

/-- The openings (`true`) and closings of one key, in order. -/
def marks (key : Key) (log : List Note) : List Bool :=
  log.filterMap fun note => (mark note).bind fun m => if m.1 = key then some m.2 else none

/-- Openings and closings take turns, an opening first. -/
def Alternates (key : Key) (log : List Note) : Prop := (false :: marks mark key log).IsChain (· ≠ ·)

/-- The key has been opened and not closed since. -/
def IsOpen (key : Key) (log : List Note) : Prop := (marks mark key log).getLast? = some true

variable {mark} {key : Key} {log : List Note} {note : Note}

theorem alternates_nil : Alternates mark key [] := List.isChain_singleton false

theorem not_isOpen_nil : ¬ IsOpen mark key [] := by simp [IsOpen, marks]

theorem marks_other (h : ∀ b, mark note ≠ some (key, b)) :
    marks mark key (log ++ [note]) = marks mark key log := by
  have hnone : (mark note).bind (fun m => if m.1 = key then some m.2 else none) = none := by
    rw [Option.bind_eq_none_iff]
    rintro ⟨k, b⟩ hmark
    exact if_neg fun hk : k = key => h b (hk ▸ hmark)
  simp [marks, List.filterMap_append, hnone]

theorem marks_own {b : Bool} (h : mark note = some (key, b)) :
    marks mark key (log ++ [note]) = marks mark key log ++ [b] := by
  simp [marks, List.filterMap_append, h]

theorem marks_cons_other (h : ∀ b, mark note ≠ some (key, b)) :
    marks mark key (note :: log) = marks mark key log := by
  have hnone : marks mark key ([] ++ [note]) = [] := marks_other h
  rw [marks, ← List.singleton_append, List.filterMap_append]
  exact congrArg (· ++ marks mark key log) hnone

theorem marks_cons_own {b : Bool} (h : mark note = some (key, b)) :
    marks mark key (note :: log) = b :: marks mark key log := by
  simp [marks, h]

theorem isOpen_other (h : ∀ b, mark note ≠ some (key, b)) :
    IsOpen mark key (log ++ [note]) ↔ IsOpen mark key log := by
  rw [IsOpen, marks_other h, IsOpen]

theorem isOpen_own {b : Bool} (h : mark note = some (key, b)) :
    IsOpen mark key (log ++ [note]) ↔ b = true := by
  rw [IsOpen, marks_own h, List.getLast?_concat, Option.some.injEq]

theorem Alternates.other (halt : Alternates mark key log) (h : ∀ b, mark note ≠ some (key, b)) :
    Alternates mark key (log ++ [note]) := by
  rw [Alternates, marks_other h]
  exact halt

theorem Alternates.own (halt : Alternates mark key log) {b : Bool} (h : mark note = some (key, b))
    (hturn : b = true ↔ ¬ IsOpen mark key log) : Alternates mark key (log ++ [note]) := by
  have hlast : (false :: marks mark key log).getLast? ≠ some b := by
    rw [List.getLast?_cons]
    cases hmarks : (marks mark key log).getLast? with
    | none =>
        have : b = true := hturn.mpr (by simp [IsOpen, hmarks])
        simp [this]
    | some last =>
        cases last <;> cases b <;> simp_all [IsOpen]
  rw [Alternates, marks_own h, ← List.cons_append, List.isChain_append]
  refine ⟨halt, List.isChain_singleton b, fun x hx y hy => ?_⟩
  rintro rfl
  obtain rfl : b = x := by simpa using hy
  exact hlast (Option.mem_def.mp hx)

/-! ### Closings that find something open -/

variable (mark) in
/-- No closing comes without an opening since the closing before it. -/
def Paired (key : Key) (log : List Note) : Prop :=
  (false :: marks mark key log).IsChain fun last next => last = true ∨ next = true

theorem paired_nil : Paired mark key [] := List.isChain_singleton false

theorem Alternates.paired (h : Alternates mark key log) : Paired mark key log := by
  apply List.IsChain.imp _ h
  intro last next hne
  cases last
  · exact .inr (by simpa using hne.symm)
  · exact .inl rfl

/-- A closing may come if the key is open, everything else at any time. -/
theorem paired_concat : Paired mark key (log ++ [note]) ↔
    Paired mark key log ∧ (mark note = some (key, false) → IsOpen mark key log) := by
  by_cases hown : ∃ b, mark note = some (key, b)
  · obtain ⟨b, hb⟩ := hown
    rw [Paired, marks_own hb, ← List.cons_append, List.isChain_append, ← Paired]
    refine and_congr_right fun _ => ?_
    cases b with
    | true => simp [hb]
    | false =>
        rw [List.getLast?_cons, IsOpen, hb]
        cases (marks mark key log).getLast? <;> simp
  · have hother : ∀ b, mark note ≠ some (key, b) := fun b hb => hown ⟨b, hb⟩
    rw [Paired, marks_other hother, ← Paired]
    exact (and_iff_left fun hclose => absurd hclose (hother false)).symm

/-! ### Parts of a log -/

private theorem mem_mark {m : Option (Key × Bool)} {b : Bool} :
    (m.bind fun m => if m.1 = key then some m.2 else none) = some b ↔ m = some (key, b) := by
  cases m with
  | none => simp
  | some m =>
      simp only [Option.bind_some, Option.ite_none_right_eq_some, Option.some.injEq]
      rw [Prod.ext_iff]

theorem marks_map {Note' : Type} (f : Note' → Note) (log : List Note') :
    marks mark key (log.map f) = marks (fun note => mark (f note)) key log := by
  rw [marks, List.filterMap_map]
  rfl

theorem marks_filterMap {Note' : Type} (f : Note' → Option Note) (log : List Note') :
    marks mark key (log.filterMap f) = marks (fun note => (f note).bind mark) key log := by
  rw [marks, List.filterMap_filterMap]
  simp only [marks, Option.bind_assoc]

theorem marks_congr {Key' : Type} [DecidableEq Key'] {mark' : Note → Option (Key' × Bool)}
    {key' : Key'}
    (h : ∀ note ∈ log, ∀ b, mark note = some (key, b) ↔ mark' note = some (key', b)) :
    marks mark key log = marks mark' key' log := by
  apply List.filterMap_congr
  intro note hnote
  ext b
  rw [mem_mark, mem_mark]
  exact h note hnote b

theorem marks_filter {p : Note → Bool}
    (h : ∀ note ∈ log, ∀ b, mark note = some (key, b) → p note = true) :
    marks mark key (log.filter p) = marks mark key log := by
  rw [marks, List.filterMap_filter]
  apply List.filterMap_congr
  intro note hnote
  split
  · rfl
  · rename_i hp
    symm
    rw [Option.eq_none_iff_forall_ne_some]
    intro b hb
    exact hp (h note hnote b (mem_mark.mp hb))

theorem marks_of_unmarked (h : ∀ note ∈ log, ∀ b, mark note ≠ some (key, b)) :
    marks mark key log = [] := by
  rw [marks, List.filterMap_eq_nil_iff]
  intro note hnote
  rw [Option.eq_none_iff_forall_ne_some]
  intro b hb
  exact h note hnote b (mem_mark.mp hb)

theorem paired_of_unmarked (h : ∀ note ∈ log, ∀ b, mark note ≠ some (key, b)) :
    Paired mark key log := by
  rw [Paired, marks_of_unmarked h]
  exact List.isChain_singleton false

theorem Paired.front {before : List Note} (h : Paired mark key log) (hbefore : before <+: log) :
    Paired mark key before := by
  have hmarks : marks mark key before <+: marks mark key log := hbefore.filterMap _
  exact List.IsChain.prefix h (List.cons_prefix_cons.mpr ⟨rfl, hmarks⟩)

/-! ### All keys at once -/

variable (mark) in
/-- Every key takes turns, and the keys that are open are these. -/
structure Tells (log : List Note) (opened : Key → Prop) : Prop where
  turns : ∀ key, Alternates mark key log
  last : ∀ key, IsOpen mark key log ↔ opened key

variable {opened opened' : Key → Prop}

theorem tells_nil (h : ∀ key, ¬ opened key) : Tells mark [] opened :=
  ⟨fun _ => alternates_nil, fun key => iff_of_false not_isOpen_nil (h key)⟩

theorem Tells.congr (htells : Tells mark log opened) (h : ∀ key, opened' key ↔ opened key) :
    Tells mark log opened' :=
  ⟨htells.turns, fun key => (htells.last key).trans (h key).symm⟩

theorem Tells.aside (htells : Tells mark log opened) (h : mark note = none) :
    Tells mark (log ++ [note]) opened := by
  have hother : ∀ key b, mark note ≠ some (key, b) := fun key b => by rw [h]; simp
  refine ⟨fun key => (htells.turns key).other (hother key), fun key => ?_⟩
  rw [isOpen_other (hother key)]
  exact htells.last key

/-- A key that is open is closed, or one that is not is opened; the others stay. -/
theorem Tells.own (htells : Tells mark log opened) {b : Bool} (h : mark note = some (key, b))
    (hturn : b = true ↔ ¬ opened key) (hkey : opened' key ↔ b = true)
    (hothers : ∀ k, k ≠ key → (opened' k ↔ opened k)) : Tells mark (log ++ [note]) opened' := by
  have hother : ∀ k, k ≠ key → ∀ c, mark note ≠ some (k, c) := by
    intro k hk c hc
    exact hk (Prod.mk.inj (Option.some.inj (hc.symm.trans h))).1
  constructor
  · intro k
    by_cases hk : k = key
    · subst hk
      exact (htells.turns k).own h (hturn.trans (not_congr (htells.last k)).symm)
    · exact (htells.turns k).other (hother k hk)
  · intro k
    by_cases hk : k = key
    · subst hk
      rw [isOpen_own h, hkey]
    · rw [isOpen_other (hother k hk), htells.last k, hothers k hk]

end Brackets
