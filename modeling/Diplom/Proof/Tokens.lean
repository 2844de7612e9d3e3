import Diplom.Lib.Machine
import Diplom.Transport.EpollLoop

/-!
# Which action a token owns

`cancelMap` says where a token's action was registered, `fdToCallback` what is registered there now.
`DeregisterFd` empties the second and forgets the first, so a token may outlive its action, and a
later registration of the same descriptor and direction puts another action where the token still
points.

The file replays the four operations with a ledger of what was issued to whom. The ledger never
looks at `cancelMap`: it records the key each token was issued for, who put the action that is
registered now, and which tokens were handed back. Against it, a call with a token touches its own
action and no other exactly when the token's place has not been taken over.
-/

namespace Diplom

/-- The loop, and beside it the ledger of its tokens. -/
structure TokenLedger (Callback Keep : Type) where
  loop : EpollLoop Callback Keep
  /-- Whose `RegisterAction` created the action that is registered now. -/
  owner : PartialMap FdDirection CancellationToken
  /-- The key each token was issued for. -/
  issued : PartialMap CancellationToken FdDirection
  /-- The tokens `DeregisterAction` was called with after they were issued. -/
  handedBack : CancellationToken → Bool

namespace TokenLedger

variable {Callback Keep : Type}

def init : TokenLedger Callback Keep where
  loop := .init
  owner := .empty
  issued := .empty
  handedBack := fun _ => false

/-- The owners of the actions that `loop` still has. -/
def ownersIn (s : TokenLedger Callback Keep) (loop : EpollLoop Callback Keep) :
    PartialMap FdDirection CancellationToken :=
  fun key => if loop.fdToCallback.contains key then s.owner key else none

def step (s : TokenLedger Callback Keep) : LoopCall Callback Keep → TokenLedger Callback Keep
  | .registerAction fd dir callback afd ok =>
      match s.loop.registerAction fd dir callback afd ok with
      | none => s
      | some (token, loop) =>
          { s with loop := loop, owner := s.owner.set ⟨fd, dir⟩ token, issued :=
            s.issued.set token ⟨fd, dir⟩ }
  | .replaceAction token callback => { s with loop := (s.loop.replaceAction token callback).2 }
  | .deregisterAction token ok =>
      let loop := (s.loop.deregisterAction token ok).2
      { s with
        loop := loop
        owner := s.ownersIn loop
        handedBack := fun t => s.handedBack t || (decide (t = token) && s.issued.contains t) }
  | .deregisterFd fd ok =>
      let loop := s.loop.deregisterFd fd ok
      { s with loop := loop, owner := s.ownersIn loop }

/-- Histories of calls. Every call can be made in every state. -/
def machine : Machine (TokenLedger Callback Keep) (LoopCall Callback Keep) where
  step s call := some (s.step call)

/-- A call with `token` that returned `result` changed no action but the token's own, and where that
action is gone it returned false and changed none at all. -/
def TouchesOwn (s : TokenLedger Callback Keep) (token : CancellationToken)
    (result : Bool × EpollLoop Callback Keep) : Prop :=
  (∀ key, s.owner key ≠ some token → result.2.fdToCallback key = s.loop.fdToCallback key) ∧
    ((∀ key, s.owner key ≠ some token) →
      result.1 = false ∧ ∀ key, result.2.fdToCallback key = s.loop.fdToCallback key)

/-- Every call that names a token touches that token's own action only. -/
def OwnActionOnly (s : TokenLedger Callback Keep) : LoopCall Callback Keep → Prop
  | .replaceAction token callback => s.TouchesOwn token (s.loop.replaceAction token callback)
  | .deregisterAction token ok => s.TouchesOwn token (s.loop.deregisterAction token ok)
  | _ => True

/-- The token's own action is still there, or the token was handed back, or nothing is registered
where the action was. -/
def NotTakenOver (s : TokenLedger Callback Keep) (token : CancellationToken) : Prop :=
  ∀ key, s.issued token = some key → s.handedBack token = false → s.owner key ≠ some token →
    s.loop.fdToCallback key = none

/-- No call names a token whose action `DeregisterFd` removed and whose descriptor and direction are
registered again. -/
def PlaceNotTaken (s : TokenLedger Callback Keep) : LoopCall Callback Keep → Prop
  | .replaceAction token _ => s.NotTakenOver token
  | .deregisterAction token _ => s.NotTakenOver token
  | _ => True

/-! ### The ledger against the tables -/

/-- What the tables and the ledger have to do with each other. -/
structure Inv (s : TokenLedger Callback Keep) : Prop where
  cancel : ∀ token key, s.loop.cancelMap token = some key ↔
    s.issued token = some key ∧ s.handedBack token = false
  owned : ∀ key token, s.owner key = some token →
    s.issued token = some key ∧ s.handedBack token = false
  slot : ∀ key, s.owner key = none ↔ s.loop.fdToCallback key = none
  fresh : ∀ token key, s.issued token = some key → token < s.loop.nextToken
  unissued : ∀ token, s.issued token = none → s.handedBack token = false

theorem inv_init : Inv (init : TokenLedger Callback Keep) where
  cancel token key := by simp [init]
  owned key token h := by simp [init] at h
  slot key := by simp [init]
  fresh token key h := by simp [init] at h
  unissued token _ := rfl

variable {s : TokenLedger Callback Keep}

theorem Inv.owner_unique (h : s.Inv) {token : CancellationToken} {key key' : FdDirection}
    (hissued : s.issued token = some key) (howner : s.owner key' = some token) : key' = key :=
  Option.some.inj ((h.owned key' token howner).1.symm.trans hissued)

theorem Inv.next_unissued (h : s.Inv) : s.issued s.loop.nextToken = none := by
  cases hissued : s.issued s.loop.nextToken with
  | none => rfl
  | some key => exact absurd (h.fresh _ _ hissued) (Nat.lt_irrefl _)

theorem Inv.next_uncancelled (h : s.Inv) : s.loop.cancelMap s.loop.nextToken = none := by
  cases hcancel : s.loop.cancelMap s.loop.nextToken with
  | none => rfl
  | some key =>
      have hissued := ((h.cancel _ _).mp hcancel).1
      rw [h.next_unissued] at hissued
      exact absurd hissued (by simp)

theorem ownersIn_eq_some {loop : EpollLoop Callback Keep} {key : FdDirection}
    {token : CancellationToken} (h : s.ownersIn loop key = some token) :
    s.owner key = some token := by
  unfold ownersIn at h
  split at h
  · exact h
  · exact absurd h (by simp)

/-- Where the loop only lost actions, the owners of those it still has match its slots. -/
theorem Inv.ownersIn_slot (h : s.Inv) {loop : EpollLoop Callback Keep}
    (hsub : ∀ key, s.loop.fdToCallback key = none → loop.fdToCallback key = none)
    (key : FdDirection) : s.ownersIn loop key = none ↔ loop.fdToCallback key = none := by
  unfold ownersIn
  split
  · rename_i hthere
    rw [PartialMap.contains_eq_true] at hthere
    refine iff_of_false (fun hnone => hthere (hsub key ((h.slot key).mp hnone))) hthere
  · rename_i hgone
    exact iff_of_true rfl (by simpa using hgone)

theorem inv_registerAction (h : s.Inv) (fd : Fd) (dir : IoDirection) (callback : Callback)
    (afd : Option Keep) (ok : Bool) : (s.step (.registerAction fd dir callback afd ok)).Inv := by
  cases hreg : s.loop.registerAction fd dir callback afd ok with
  | none => simpa only [step, hreg] using h
  | some result =>
      obtain ⟨token, loop⟩ := result
      simp only [step, hreg]
      obtain ⟨hfree, rfl, hslots, hcancel, hnext, _⟩ := EpollLoop.registerAction_eq_some hreg
      have hunissued := h.next_unissued
      rw [PartialMap.insert_of_none _ h.next_uncancelled] at hcancel
      refine ⟨fun token key => ?_, fun key token howner => ?_, fun key => ?_,
        fun token key hissued => ?_, fun token hnone => ?_⟩
      · simp only [hcancel, PartialMap.set_apply]
        by_cases ht : token = s.loop.nextToken
        · subst ht
          simp [h.unissued _ hunissued]
        · simpa [ht] using h.cancel token key
      · simp only [PartialMap.set_apply] at howner ⊢
        by_cases hk : key = ⟨fd, dir⟩
        · subst hk
          obtain rfl : s.loop.nextToken = token := by simpa using howner
          simp [h.unissued _ hunissued]
        · rw [if_neg hk] at howner
          have hold := h.owned key token howner
          have ht : token ≠ s.loop.nextToken := by
            rintro rfl
            rw [hunissued] at hold
            exact absurd hold.1 (by simp)
          simpa [ht] using hold
      · simp only [hslots, PartialMap.set_apply]
        by_cases hk : key = ⟨fd, dir⟩
        · simp [hk]
        · simpa [hk] using h.slot key
      · simp only [hnext]
        simp only [PartialMap.set_apply] at hissued
        by_cases ht : token = s.loop.nextToken
        · exact ht ▸ Nat.lt_succ_self _
        · rw [if_neg ht] at hissued
          exact Nat.lt_succ_of_lt (h.fresh token key hissued)
      · simp only [PartialMap.set_apply] at hnone
        by_cases ht : token = s.loop.nextToken
        · rw [if_pos ht] at hnone
          exact absurd hnone (by simp)
        · rw [if_neg ht] at hnone
          exact h.unissued token hnone

theorem inv_replaceAction (h : s.Inv) (token : CancellationToken) (callback : Callback) :
    (s.step (.replaceAction token callback)).Inv := by
  simp only [step]
  rcases s.loop.replaceAction_cases token callback with ⟨hsame, _⟩ | ⟨key, keeper, _, hslot, hnew⟩
  · rw [hsame]
    exact h
  · rw [hnew]
    refine ⟨h.cancel, h.owned, fun key' => ?_, h.fresh, h.unissued⟩
    simp only [PartialMap.set_apply]
    by_cases hk : key' = key
    · subst hk
      simp [h.slot key', hslot]
    · simpa [hk] using h.slot key'

theorem inv_deregisterAction (h : s.Inv) (token : CancellationToken) (ok : Bool) :
    (s.step (.deregisterAction token ok)).Inv := by
  -- However the call went, the token leads nowhere afterwards and owns nothing.
  have hgone : ∀ loop : EpollLoop Callback Keep, (s.loop.deregisterAction token ok).2 = loop →
      (∀ t, loop.cancelMap t = if t = token then none else s.loop.cancelMap t) ∧
        (∀ key, s.loop.fdToCallback key = none → loop.fdToCallback key = none) ∧
        (∀ key, s.owner key = some token → loop.fdToCallback key = none) ∧
        loop.nextToken = s.loop.nextToken := by
    rintro loop rfl
    rcases s.loop.deregisterAction_cases token
        ok with ⟨hnone, hcall⟩ | ⟨key, hkey, hslot, hcall⟩ | ⟨key, keeper, hkey, _, _, _, hcall⟩
    · rw [hcall]
      refine ⟨fun t => ?_, fun _ hk => hk, fun key howner => ?_, rfl⟩
      · by_cases ht : t = token
        · simp [ht, hnone]
        · simp [ht]
      · have hcancel := (h.cancel token key).mpr (h.owned key token howner)
        rw [hnone] at hcancel
        exact absurd hcancel (by simp)
    · rw [hcall]
      refine ⟨fun t => rfl, fun _ hk => hk, fun key' howner => ?_, rfl⟩
      rw [h.owner_unique ((h.cancel _ _).mp hkey).1 howner]
      exact hslot
    · rw [hcall]
      refine ⟨fun t => rfl, fun key' hk => ?_, fun key' howner => ?_, rfl⟩
      · simp only [PartialMap.erase_apply]
        split
        · rfl
        · exact hk
      · rw [h.owner_unique ((h.cancel _ _).mp hkey).1 howner]
        exact PartialMap.erase_self _ _
  obtain ⟨hcancel, hsub, hown, hnext⟩ := hgone _ rfl
  simp only [step]
  refine ⟨fun t key => ?_, fun key t howner => ?_, h.ownersIn_slot hsub, fun t key hissued => ?_,
    fun t hnone => ?_⟩
  · simp only [hcancel]
    by_cases ht : t = token
    · subst ht
      cases hissued : s.issued t <;> simp [PartialMap.contains, hissued]
    · simpa [ht] using h.cancel t key
  · have hthere : s.ownersIn (s.loop.deregisterAction token ok).2 key = some t := howner
    have ht : t ≠ token := by
      rintro rfl
      have hnone := (h.ownersIn_slot hsub key).mpr (hown key (ownersIn_eq_some hthere))
      exact absurd (hthere.symm.trans hnone) (by simp)
    simpa [ht] using h.owned key t (ownersIn_eq_some hthere)
  · simpa only [hnext] using h.fresh t key hissued
  · have hunissued : s.issued t = none := hnone
    simp [h.unissued t hunissued, PartialMap.contains, hunissued]

theorem inv_deregisterFd (h : s.Inv) (fd : Fd) (ok : Bool) :
    (s.step (.deregisterFd fd ok)).Inv := by
  obtain ⟨hslots, hcancel, hnext⟩ := s.loop.deregisterFd_tables fd ok
  have hsub : ∀ key, s.loop.fdToCallback key = none →
      (s.loop.deregisterFd fd ok).fdToCallback key = none := by
    intro key hk
    rw [hslots]
    simp [PartialMap.erase_apply, hk]
  simp only [step]
  refine ⟨fun token key => ?_, fun key token howner => h.owned key token (ownersIn_eq_some howner),
    h.ownersIn_slot hsub, fun token key hissued => ?_, h.unissued⟩
  · simpa only [hcancel] using h.cancel token key
  · simpa only [hnext] using h.fresh token key hissued

theorem inv_step (h : s.Inv) (call : LoopCall Callback Keep) : (s.step call).Inv := by
  cases call with
  | registerAction fd dir callback afd ok => exact inv_registerAction h fd dir callback afd ok
  | replaceAction token callback => exact inv_replaceAction h token callback
  | deregisterAction token ok => exact inv_deregisterAction h token ok
  | deregisterFd fd ok => exact inv_deregisterFd h fd ok

/-! ### One call -/

theorem touchesOwn_of_unchanged {token : CancellationToken} {loop : EpollLoop Callback Keep}
    (h : loop.fdToCallback = s.loop.fdToCallback) : s.TouchesOwn token (false, loop) :=
  ⟨fun key _ => congrFun h key, fun _ => ⟨rfl, congrFun h⟩⟩

/-- A call that returned true and changed the action at `key` is within its rights exactly if the
token owns `key`. -/
theorem touchesOwn_iff_owner (h : s.Inv) {token : CancellationToken} {key : FdDirection}
    {result : Bool × EpollLoop Callback Keep} (hkey : s.loop.cancelMap token = some key)
    (hkeep : ∀ key', key' ≠ key → result.2.fdToCallback key' = s.loop.fdToCallback key')
    (hchange : result.1 = true ∨ result.2.fdToCallback key ≠ s.loop.fdToCallback key) :
    s.TouchesOwn token result ↔ s.owner key = some token := by
  constructor
  · intro htouch
    by_contra hne
    have hnowhere : ∀ key', s.owner key' ≠ some token := fun key' howner =>
      hne (h.owner_unique ((h.cancel _ _).mp hkey).1 howner ▸ howner)
    obtain ⟨hfalse, hsame⟩ := htouch.2 hnowhere
    rcases hchange with htrue | hdiff
    · rw [hfalse] at htrue
      exact absurd htrue (by decide)
    · exact hdiff (hsame key)
  · intro howner
    refine ⟨fun key' hne => hkeep key' ?_, fun hnowhere => absurd howner (hnowhere key)⟩
    rintro rfl
    exact hne howner

/-- A token's place is taken over exactly if it leads to an action that it does not own. -/
theorem notTakenOver_iff (h : s.Inv) (token : CancellationToken) :
    s.NotTakenOver token ↔ ∀ key, s.loop.cancelMap token = some key →
      s.loop.fdToCallback key ≠ none → s.owner key = some token := by
  constructor
  · intro hfree key hcancel hslot
    by_contra hne
    obtain ⟨hissued, hback⟩ := (h.cancel token key).mp hcancel
    exact hslot (hfree key hissued hback hne)
  · intro hlead key hissued hback hne
    by_contra hslot
    exact hne (hlead key ((h.cancel token key).mpr ⟨hissued, hback⟩) hslot)

theorem replaceAction_touchesOwn_iff (h : s.Inv) (token : CancellationToken) (callback : Callback) :
    s.TouchesOwn token (s.loop.replaceAction token callback) ↔ s.NotTakenOver token := by
  rw [notTakenOver_iff h]
  rcases s.loop.replaceAction_cases token
      callback with ⟨hsame, hnone⟩ | ⟨key, keeper, hkey, hslot, hnew⟩
  · rw [hsame]
    exact iff_of_true (touchesOwn_of_unchanged rfl) fun key hcancel hsome =>
      absurd (hnone key hcancel) hsome
  · rw [touchesOwn_iff_owner h hkey (fun key' hk => by rw [hnew]; exact PartialMap.set_of_ne _ hk _)
      (.inl (by rw [hnew]))]
    simp [hkey, hslot]

theorem deregisterAction_touchesOwn_iff (h : s.Inv) (token : CancellationToken) (ok : Bool) :
    s.TouchesOwn token (s.loop.deregisterAction token ok) ↔ s.NotTakenOver token := by
  rw [notTakenOver_iff h]
  rcases s.loop.deregisterAction_cases token
      ok with ⟨hnone, hcall⟩ | ⟨key, hkey, hslot, hcall⟩ | ⟨key, keeper, hkey, hslot, _, _, hcall⟩
  · rw [hcall]
    exact iff_of_true (touchesOwn_of_unchanged rfl)
      fun key hcancel _ => by rw [hnone] at hcancel; exact absurd hcancel (by simp)
  · rw [hcall]
    refine iff_of_true (touchesOwn_of_unchanged rfl) fun key' hcancel hsome => ?_
    rw [hkey] at hcancel
    exact absurd (Option.some.inj hcancel ▸ hslot) hsome
  · rw [touchesOwn_iff_owner h hkey
      (fun key' hk => by rw [hcall]; exact PartialMap.erase_of_ne _ hk)
      (.inr (by rw [hcall, hslot]; simp))]
    simp [hkey, hslot]

theorem ownActionOnly_iff (h : s.Inv) (call : LoopCall Callback Keep) :
    s.OwnActionOnly call ↔ s.PlaceNotTaken call := by
  cases call with
  | registerAction => exact Iff.rfl
  | replaceAction token callback => exact replaceAction_touchesOwn_iff h token callback
  | deregisterAction token ok => exact deregisterAction_touchesOwn_iff h token ok
  | deregisterFd => exact Iff.rfl

/-! ### Whole histories -/

/-- In a history of calls, every call with a token touches that token's own action only, exactly if
no call names a token whose place has been taken over. -/
theorem own_action_only_iff_place_not_taken (calls : List (LoopCall Callback Keep)) :
    machine.EachStep OwnActionOnly init calls ↔ machine.EachStep PlaceNotTaken init calls :=
  Machine.eachStep_congr (I := Inv)
    (fun _ call _ h hstep => Option.some.inj hstep ▸ inv_step h call)
    (fun _ call _ h _ => ownActionOnly_iff h call) calls inv_init

/-- Descriptor 5 is registered, dropped as a whole and registered again; then the first token is
handed back. -/
def staleHistory : List (LoopCall Unit Unit) :=
  [.registerAction 5 .input () none true, .deregisterFd 5 true,
    .registerAction 5 .input () none true, .deregisterAction 1 true]

/-- The first token takes out the second registration. -/
theorem stale_token_removes_other : ¬ machine.EachStep OwnActionOnly init staleHistory := by
  intro h
  have hlast := ((((h _ rfl).2 _ rfl).2 _ rfl).2 _ rfl).1
  have hkept := hlast.1 ⟨5, .input⟩ (by decide)
  exact absurd hkept (by decide)

end TokenLedger

end Diplom
