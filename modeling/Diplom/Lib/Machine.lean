import Mathlib.Data.List.Basic

/-!
# Guarded machines and their runs

A machine is one executable step function: `step s i` is the state after input `i`, or nothing where
`i` cannot happen in `s`. The same function is replayed on a concrete input list and carries the
induction of every invariant.

A run may be restricted by a condition on its steps, and a property may be asked of every state a
run visits. `always_iff_eachStep` is the rule that trades one for the other: where a single step
keeps the property exactly when it meets the condition, a whole run does too.
-/

/-- A guarded step function: nothing where the input cannot happen. -/
structure Machine (State Input : Type) where
  step : State → Input → Option State

namespace Machine

variable {State Input : Type} (M : Machine State Input)

/-- The state after a list of inputs, or nothing if one of them cannot happen. -/
def exec : State → List Input → Option State
  | s, [] => some s
  | s, i :: rest => (M.step s i).bind fun t => exec t rest

/-- The states reached from `start` by steps that all meet `ok`. -/
inductive Reach (ok : State → Input → Prop) (start : State) : State → Prop
  | refl : Reach ok start start
  | tail {s t : State} {i : Input} (hs : Reach ok start s) (hok : ok s i)
      (hstep : M.step s i = some t) : Reach ok start t

/-- Every state the run visits, the first included, satisfies `P`. -/
def Always (P : State → Prop) : State → List Input → Prop
  | s, [] => P s
  | s, i :: rest => P s ∧ ∀ t, M.step s i = some t → Always P t rest

/-- Every step the run takes meets `ok`. -/
def EachStep (ok : State → Input → Prop) : State → List Input → Prop
  | _, [] => True
  | s, i :: rest => ∀ t, M.step s i = some t → ok s i ∧ EachStep ok t rest

instance decidableEachStep {ok : State → Input → Prop} [∀ s i, Decidable (ok s i)] :
    ∀ (inputs : List Input) (s : State), Decidable (M.EachStep ok s inputs)
  | [], _ => isTrue trivial
  | i :: rest, s =>
      match h : M.step s i with
      | none => isTrue fun t ht => absurd (h.symm.trans ht) (by simp)
      | some t =>
          have : Decidable (M.EachStep ok t rest) := decidableEachStep rest t
          decidable_of_iff (ok s i ∧ M.EachStep ok t rest)
            ⟨fun hgood t' ht' => Option.some.inj (h.symm.trans ht') ▸ hgood, fun hall => hall t h⟩

variable {M}

/-- The invariant rule: what holds at the start and is kept by every step that meets the condition
holds wherever such steps lead. -/
theorem Reach.invariant {ok : State → Input → Prop} {start s : State} {I : State → Prop}
    (h : M.Reach ok start s) (hstart : I start)
    (hstep : ∀ s i t, I s → ok s i → M.step s i = some t → I t) : I s := by
  induction h with
  | refl => exact hstart
  | tail _ hok hs ih => exact hstep _ _ _ ih hok hs

theorem Reach.exec {start s : State} (h : M.Reach (fun _ _ => True) start s) :
    ∀ (inputs : List Input) {t : State}, M.exec s inputs = some t →
      M.Reach (fun _ _ => True) start t := by
  intro inputs
  induction inputs generalizing s with
  | nil =>
      intro t hexec
      exact Option.some.inj hexec ▸ h
  | cons i rest ih =>
      intro t hexec
      obtain ⟨mid, hmid, hrest⟩ := Option.bind_eq_some_iff.mp hexec
      exact ih (h.tail trivial hmid) hrest

theorem exec_append (s : State) (before after : List Input) :
    M.exec s (before ++ after) = (M.exec s before).bind fun t => M.exec t after := by
  induction before generalizing s with
  | nil => rfl
  | cons i rest ih =>
      rw [List.cons_append, exec, exec, Option.bind_assoc]
      exact Option.bind_congr fun t _ => ih t

theorem reach_of_exec {start t : State} {inputs : List Input} (h : M.exec start inputs = some t) :
    M.Reach (fun _ _ => True) start t :=
  Reach.refl.exec inputs h

theorem Always.head {P : State → Prop} {s : State} {inputs : List Input} (h : M.Always P s inputs) :
    P s := by
  cases inputs with
  | nil => exact h
  | cons i rest => exact h.1

theorem Always.last {P : State → Prop} {s t : State} {inputs : List Input} (h : M.Always P s inputs)
    (hexec : M.exec s inputs = some t) : P t := by
  induction inputs generalizing s with
  | nil => exact Option.some.inj hexec ▸ h
  | cons i rest ih =>
      obtain ⟨mid, hmid, hrest⟩ := Option.bind_eq_some_iff.mp hexec
      exact ih (h.2 mid hmid) hrest

theorem Always.mono {P Q : State → Prop} {s : State} {inputs : List Input} (h : M.Always P s inputs)
    (himp : ∀ s, P s → Q s) : M.Always Q s inputs := by
  induction inputs generalizing s with
  | nil => exact himp s h
  | cons i rest ih => exact ⟨himp s h.1, fun t ht => ih (h.2 t ht)⟩

/-- Where every step that meets the condition keeps an invariant, a run of such steps visits only
states that have what the invariant implies. -/
theorem always_of_eachStep {I P : State → Prop} {ok : State → Input → Prop} (hP : ∀ s, I s → P s)
    (hstep : ∀ s i t, I s → ok s i → M.step s i = some t → I t) {s : State} (inputs : List Input)
    (hI : I s) (h : M.EachStep ok s inputs) : M.Always P s inputs := by
  induction inputs generalizing s with
  | nil => exact hP s hI
  | cons i rest ih =>
      refine ⟨hP s hI, fun t ht => ?_⟩
      obtain ⟨hok, hrest⟩ := h t ht
      exact ih (hstep s i t hI hok ht) hrest

theorem EachStep.and {ok ok' : State → Input → Prop} {s : State} {inputs : List Input}
    (h : M.EachStep ok s inputs) (h' : M.EachStep ok' s inputs) :
    M.EachStep (fun s i => ok s i ∧ ok' s i) s inputs := by
  induction inputs generalizing s with
  | nil => trivial
  | cons i rest ih =>
      intro t ht
      obtain ⟨hok, hrest⟩ := h t ht
      obtain ⟨hok', hrest'⟩ := h' t ht
      exact ⟨⟨hok, hok'⟩, ih hrest hrest'⟩

theorem EachStep.inside {State' : Type} {M' : Machine State' Input} {f : State' → State}
    (hstep : ∀ s i t, M'.step s i = some t → M.step (f s) i = some (f t))
    {ok : State → Input → Prop} {inputs : List Input} {s : State'}
    (h : M.EachStep ok (f s) inputs) : M'.EachStep (fun s i => ok (f s) i) s inputs := by
  induction inputs generalizing s with
  | nil => trivial
  | cons i rest ih =>
      intro t ht
      obtain ⟨hok, hrest⟩ := h (f t) (hstep s i t ht)
      exact ⟨hok, ih hrest⟩

theorem always_of_invariant {I : State → Prop} (hstep : ∀ s i t, I s → M.step s i = some t → I t)
    {s : State} (inputs : List Input) (hI : I s) : M.Always I s inputs := by
  induction inputs generalizing s with
  | nil => exact hI
  | cons i rest ih => exact ⟨hI, fun t ht => ih (hstep s i t hI ht)⟩

/-- Under an invariant of all steps, a condition that every step from it meets is met throughout. -/
theorem eachStep_of_invariant {I : State → Prop} {ok : State → Input → Prop}
    (hstep : ∀ s i t, I s → M.step s i = some t → I t ∧ ok s i) {s : State} (inputs : List Input)
    (hI : I s) : M.EachStep ok s inputs := by
  induction inputs generalizing s with
  | nil => trivial
  | cons i rest ih =>
      intro t ht
      obtain ⟨hIt, hok⟩ := hstep s i t hI ht
      exact ⟨hok, ih hIt⟩

/-- Where, under an invariant of all steps, a step from a good state leads to a good state exactly
when it meets the condition, a run visits good states only exactly when all its steps meet the
condition. -/
theorem always_iff_eachStep {I P : State → Prop} {ok : State → Input → Prop}
    (hinv : ∀ s i t, I s → M.step s i = some t → I t)
    (hstep : ∀ s i t, I s → P s → M.step s i = some t → (P t ↔ ok s i))
    {s : State} (inputs : List Input) (hI : I s) (hP : P s) :
    M.Always P s inputs ↔ M.EachStep ok s inputs := by
  constructor
  · intro h
    induction inputs generalizing s with
    | nil => trivial
    | cons i rest ih =>
        intro t ht
        have hPt : P t := (h.2 t ht).head
        exact ⟨(hstep s i t hI hP ht).mp hPt, ih (hinv s i t hI ht) hPt (h.2 t ht)⟩
  · refine always_of_eachStep (I := fun s => I s ∧ P s) (fun _ h => h.2) ?_ inputs ⟨hI, hP⟩
    intro s i t hgood hok ht
    exact ⟨hinv s i t hgood.1 ht, (hstep s i t hgood.1 hgood.2 ht).mpr hok⟩

/-- Two conditions that agree on every step under an invariant agree on every run. -/
theorem eachStep_congr {I : State → Prop} {ok ok' : State → Input → Prop}
    (hinv : ∀ s i t, I s → M.step s i = some t → I t)
    (hok : ∀ s i t, I s → M.step s i = some t → (ok s i ↔ ok' s i))
    {s : State} (inputs : List Input) (hI : I s) :
    M.EachStep ok s inputs ↔ M.EachStep ok' s inputs := by
  induction inputs generalizing s with
  | nil => exact Iff.rfl
  | cons i rest ih =>
      simp only [EachStep]
      refine forall_congr' fun t => forall_congr' fun ht => ?_
      rw [hok s i t hI ht, ih (hinv s i t hI ht)]

end Machine
