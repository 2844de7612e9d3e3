import Diplom.Transport.AsyncFd

/-!
# Operations in the loop's tables

Where a closure of an `AsyncFd` is kept between its events. An object that is `Armed` holds the
token of its own entry, so a callback that runs can always put its successor in its own place; when
it resolves, the place is free again. The proofs about connections use these lemmas and never open
the loop's tables.
-/

namespace Diplom

namespace EpollLoop

variable {Callback Keep : Type} {loop : EpollLoop Callback Keep}

/-- Tokens are positive, and those in use have been issued. -/
structure Wf (loop : EpollLoop Callback Keep) : Prop where
  next_pos : 0 < loop.nextToken
  issued : ∀ token key, loop.cancelMap token = some key → token < loop.nextToken

theorem init_wf : (init : EpollLoop Callback Keep).Wf :=
  ⟨Nat.one_pos, fun _ _ h => absurd h (by simp)⟩

theorem Wf.next_free (h : loop.Wf) : loop.cancelMap loop.nextToken = none := by
  rw [Option.eq_none_iff_forall_ne_some]
  intro key hkey
  exact Nat.lt_irrefl _ (h.issued _ _ hkey)

theorem Wf.registerAction (h : loop.Wf) {fd : Fd} {dir : IoDirection} {callback : Callback}
    {afd : Option Keep} {ok : Bool} {token : CancellationToken} {loop' : EpollLoop Callback Keep}
    (hreg : loop.registerAction fd dir callback afd ok = some (token, loop')) : loop'.Wf := by
  obtain ⟨_, _, _, hcancel, hnext, _⟩ := registerAction_eq_some hreg
  rw [PartialMap.insert_of_none _ h.next_free] at hcancel
  refine ⟨by rw [hnext]; exact Nat.succ_pos _, fun token key hkey => ?_⟩
  rw [hnext]
  by_cases htoken : token = loop.nextToken
  · exact htoken ▸ Nat.lt_succ_self _
  · rw [hcancel, PartialMap.set_of_ne _ htoken] at hkey
    exact Nat.lt_succ_of_lt (h.issued _ _ hkey)

theorem Wf.deregisterAction (h : loop.Wf) (token : CancellationToken) (ok : Bool) :
    (loop.deregisterAction token ok).2.Wf := by
  have herase : ∀ token' key, (loop.cancelMap.erase token) token' = some key →
      token' < loop.nextToken :=
    fun token' key hkey => h.issued _ _ (PartialMap.erase_eq_some _ |>.mp hkey).2
  rcases deregisterAction_cases loop token
      ok with ⟨_, heq⟩ | ⟨_, _, _, heq⟩ | ⟨_, _, _, _, _, _, heq⟩
  · rw [heq]
    exact h
  · rw [heq]
    exact ⟨h.next_pos, herase⟩
  · rw [heq]
    exact ⟨h.next_pos, herase⟩

/-- Nothing but one place of the table has changed, and the tokens of the other places still lead
there. -/
structure SameElsewhere (key : FdDirection) (loop loop' : EpollLoop Callback Keep) : Prop where
  slots : ∀ key', key' ≠ key → loop'.fdToCallback key' = loop.fdToCallback key'
  tokens : ∀ key', key' ≠ key → ∀ token, loop.cancelMap token = some key' →
    loop'.cancelMap token = some key'

theorem Wf.registerAction_same (h : loop.Wf) {fd : Fd} {dir : IoDirection} {callback : Callback}
    {afd : Option Keep} {ok : Bool} {token : CancellationToken} {loop' : EpollLoop Callback Keep}
    (hreg : loop.registerAction fd dir callback afd ok = some (token, loop')) :
    SameElsewhere ⟨fd, dir⟩ loop loop' := by
  obtain ⟨_, _, hslots, hcancel, _, _⟩ := registerAction_eq_some hreg
  rw [PartialMap.insert_of_none _ h.next_free] at hcancel
  refine ⟨fun key hne => by rw [hslots, PartialMap.set_of_ne _ hne], fun key _ t ht => ?_⟩
  have hne : t ≠ loop.nextToken := Nat.ne_of_lt (h.issued _ _ ht)
  rw [hcancel, PartialMap.set_of_ne _ hne, ht]

/-- The place a token leads to is the only one its removal can touch. -/
theorem deregisterAction_same {token : CancellationToken} {key : FdDirection}
    (htoken : loop.cancelMap token = some key) (ok : Bool) :
    SameElsewhere key loop (loop.deregisterAction token ok).2 := by
  have herase : ∀ key', key' ≠ key → ∀ t, loop.cancelMap t = some key' →
      (loop.cancelMap.erase token) t = some key' := by
    intro key' hne t ht
    refine (PartialMap.erase_eq_some _).mpr ⟨fun htt => hne ?_, ht⟩
    rw [htt, htoken] at ht
    exact (Option.some.inj ht).symm
  rcases deregisterAction_cases loop token
      ok with ⟨hnone, _⟩ | ⟨key', hkey', _, heq⟩ | ⟨key', _, hkey', _, _, _, heq⟩
  · exact absurd htoken (by rw [hnone]; simp)
  · rw [heq]
    exact ⟨fun _ _ => rfl, herase⟩
  · obtain rfl := Option.some.inj (hkey'.symm.trans htoken)
    rw [heq]
    exact ⟨fun k hne => PartialMap.erase_of_ne _ hne, herase⟩

/-- Once the last action of a descriptor is taken out and `epoll_ctl` agrees, the kernel does not
watch it any more. -/
theorem deregisterAction_interest {token : CancellationToken} {key : FdDirection}
    (htoken : loop.cancelMap token = some key) (hslot : loop.fdToCallback key ≠ none)
    (hother : loop.fdToCallback ⟨key.fd, key.direction.opposite⟩ = none) :
    (loop.deregisterAction token true).2.interest key.fd = none := by
  obtain ⟨keeper, hkeeper⟩ := Option.ne_none_iff_exists'.mp hslot
  have hfree : (loop.fdToCallback.erase key).contains ⟨key.fd, key.direction.opposite⟩ = false := by
    rw [PartialMap.contains_eq_false, PartialMap.erase_apply]
    split
    · rfl
    · exact hother
  simp only [deregisterAction, htoken, hkeeper, utilizeCallback, hfree, ctl, epollCtl]
  by_cases hwatched : loop.interest key.fd = none
  · simp [PartialMap.contains_eq_false.mpr hwatched, hwatched]
  · simp [PartialMap.contains_eq_true.mpr hwatched]

end EpollLoop

namespace AsyncFd

variable {OnMessage OnSent Resolve : Type} {a : AsyncFd} {loop : AsyncLoop OnMessage OnSent}
  {closure : Closure OnMessage OnSent}

/-- The object's operation is registered under its token, with this closure. -/
structure Armed (a : AsyncFd) (loop : AsyncLoop OnMessage OnSent)
    (closure : Closure OnMessage OnSent) : Prop where
  wf : loop.Wf
  token_ne : a.token ≠ 0
  token_own : loop.cancelMap a.token = some ⟨a.fd, closure.dir⟩
  slot : loop.fdToCallback ⟨a.fd, closure.dir⟩ = some ⟨closure, some ()⟩

structure Free (loop : AsyncLoop OnMessage OnSent) (fd : Fd) (dir : IoDirection) : Prop where
  wf : loop.Wf
  slot : loop.fdToCallback ⟨fd, dir⟩ = none

/-- An operation stays armed while its own place is left alone. -/
theorem Armed.of_same {loop' : AsyncLoop OnMessage OnSent} {key : FdDirection}
    (h : a.Armed loop closure) (hsame : EpollLoop.SameElsewhere key loop loop') (hwf : loop'.Wf)
    (hne : ⟨a.fd, closure.dir⟩ ≠ key) : a.Armed loop' closure :=
  ⟨hwf, h.token_ne, hsame.tokens _ hne _ h.token_own, (hsame.slots _ hne).trans h.slot⟩

theorem Armed.callbackAt (h : a.Armed loop closure) :
    loop.callbackAt a.fd closure.dir = some closure := by
  rw [EpollLoop.callbackAt, h.slot]
  rfl

theorem Free.callbackAt {fd : Fd} {dir : IoDirection} (h : Free loop fd dir) :
    loop.callbackAt fd dir = none := by
  rw [EpollLoop.callbackAt, h.slot]
  rfl

/-- The first `ProcData` call of a fresh object arms it, unless the registration fails and nothing
changes. -/
theorem procData_create {fd : Fd} (closure : Closure OnMessage OnSent)
    (h : Free loop fd closure.dir) (ok : Bool) :
    (create fd).procData loop closure ok = none ∨ ∃ a loop',
      (create fd).procData loop closure ok = some (a, loop') ∧ a.fd = fd ∧ a.Armed loop' closure ∧
      EpollLoop.SameElsewhere ⟨fd, closure.dir⟩ loop loop' := by
  cases hreg : loop.registerAction fd closure.dir closure (some ()) ok with
  | none => exact .inl (by simp only [procData, create, if_true, hreg, Option.map_none])
  | some pair =>
      obtain ⟨token, loop'⟩ := pair
      refine .inr ⟨⟨fd, token⟩,
        loop', by simp only [procData, create, if_true, hreg, Option.map_some], rfl, ?_⟩
      have hwf := h.wf.registerAction hreg
      have hsame := h.wf.registerAction_same hreg
      obtain ⟨_, rfl, hslots, hcancel, _, _⟩ := EpollLoop.registerAction_eq_some hreg
      rw [PartialMap.insert_of_none _ h.wf.next_free] at hcancel
      refine ⟨⟨hwf, Nat.pos_iff_ne_zero.mp h.wf.next_pos, ?_, ?_⟩, hsame⟩
      · rw [hcancel, PartialMap.set_self]
      · rw [hslots, PartialMap.set_self]

/-- A later `ProcData` call finds its own entry and replaces the closure in it. -/
theorem Armed.procData (h : a.Armed loop closure) (next : Closure OnMessage OnSent)
    (hdir : next.dir = closure.dir) (ok : Bool) :
    ∃ loop', a.procData loop next ok = some (a, loop') ∧ a.Armed loop' next ∧
      EpollLoop.SameElsewhere ⟨a.fd, closure.dir⟩ loop loop' := by
  rcases EpollLoop.replaceAction_cases loop a.token
      next with ⟨_, hnone⟩ | ⟨key, keeper, hkey, hkeeper, heq⟩
  · exact absurd h.slot (by rw [hnone _ h.token_own]; simp)
  · obtain rfl := Option.some.inj (hkey.symm.trans h.token_own)
    obtain rfl := Option.some.inj (hkeeper.symm.trans h.slot)
    have hproc : a.procData loop next ok = some (a, (loop.replaceAction a.token next).2) := by
      simp only [AsyncFd.procData, if_neg h.token_ne, heq]
    refine ⟨_, hproc, ?_⟩
    rw [heq]
    refine ⟨⟨⟨h.wf.next_pos, h.wf.issued⟩, h.token_ne, ?_, ?_⟩,
      ⟨fun key hne => PartialMap.set_of_ne _ hne _, fun _ _ _ ht => ht⟩⟩
    · rw [hdir]
      exact h.token_own
    · rw [hdir]
      exact PartialMap.set_self _ _ _

theorem Armed.keep (h : a.Armed loop closure) (next : Closure OnMessage OnSent)
    (hdir : next.dir = closure.dir) :
    a.Armed (a.keep loop next) next ∧
      EpollLoop.SameElsewhere ⟨a.fd, closure.dir⟩ loop (a.keep loop next) := by
  have hslot : loop.fdToCallback ⟨a.fd, next.dir⟩ = some ⟨closure, some ()⟩ := by
    rw [hdir]
    exact h.slot
  simp only [AsyncFd.keep, hslot]
  refine ⟨⟨⟨h.wf.next_pos, h.wf.issued⟩, h.token_ne, ?_, PartialMap.set_self _ _ _⟩, ?_⟩
  · rw [hdir]
    exact h.token_own
  · rw [hdir]
    exact ⟨fun key hne => PartialMap.set_of_ne _ hne _, fun _ _ _ ht => ht⟩

/-- `Deregister` frees the place, whatever `epoll_ctl` answers. -/
theorem Armed.deregister (h : a.Armed loop closure) (ok : Bool) :
    (a.deregister loop ok).1 = create a.fd ∧ Free (a.deregister loop ok).2 a.fd closure.dir ∧
      EpollLoop.SameElsewhere ⟨a.fd, closure.dir⟩ loop (a.deregister loop ok).2 := by
  simp only [AsyncFd.deregister, if_neg h.token_ne]
  refine ⟨rfl, ⟨h.wf.deregisterAction _ _, ?_⟩, EpollLoop.deregisterAction_same h.token_own ok⟩
  rcases EpollLoop.deregisterAction_cases loop a.token ok with
    ⟨hnone, _⟩ | ⟨key, hkey, hnone, _⟩ | ⟨key, keeper, hkey, _, done, interest, heq⟩
  · exact absurd h.token_own (by rw [hnone]; simp)
  · obtain rfl := Option.some.inj (hkey.symm.trans h.token_own)
    exact absurd h.slot (by rw [hnone]; simp)
  · obtain rfl := Option.some.inj (hkey.symm.trans h.token_own)
    rw [heq]
    exact PartialMap.erase_self _ _

theorem Armed.finish {Op Result : Type} (toClosure : Op → Closure OnMessage OnSent) {op : Op}
  (h : a.Armed loop (toClosure op)) (hdir : ∀ op', (toClosure op').dir = (toClosure op).dir)
  (resolve : Resolve) (ok : Bool) (progress : Progress Op Result) :
    match progress with
    | .waiting op' | .next op' =>
        ∃ loop', a.finish loop toClosure resolve ok progress = .pending a loop' ∧
          a.Armed loop' (toClosure op') ∧
          EpollLoop.SameElsewhere ⟨a.fd, (toClosure op).dir⟩ loop loop'
    | .resolved result =>
        ∃ loop', a.finish loop toClosure resolve ok progress = .resolved (create a.fd) loop' resolve
          result ∧ Free loop' a.fd (toClosure op).dir ∧
          EpollLoop.SameElsewhere ⟨a.fd, (toClosure op).dir⟩ loop loop'
    | .aborted => a.finish loop toClosure resolve ok progress = .aborted := by
  cases progress with
  | waiting op' => exact ⟨_, rfl, h.keep _ (hdir op')⟩
  | next op' =>
      obtain ⟨loop', heq, hrest⟩ := h.procData (toClosure op') (hdir op') ok
      exact ⟨loop', by simp only [AsyncFd.finish, heq], hrest⟩
  | resolved result =>
      obtain ⟨hfst, hrest⟩ := h.deregister ok
      exact ⟨_, by simp only [AsyncFd.finish, hfst], hrest⟩
  | aborted => rfl

/-- A started receive is armed with its first closure, or resolves with an error at once. -/
theorem recvMessage_create {fd : Fd} (h : Free loop fd .input) (resolve : OnMessage) (ok : Bool) :
    (create fd).recvMessage loop resolve ok = .resolved (create fd) loop resolve (.err .error) ∨
    ∃ a loop', (create fd).recvMessage loop resolve ok = .pending a loop' ∧ a.fd = fd ∧
      a.Armed loop' (.recv .start resolve) ∧ EpollLoop.SameElsewhere ⟨fd, .input⟩ loop loop' := by
  have hfresh : ¬ (create fd).token ≠ 0 := by simp [create]
  rcases procData_create (.recv .start resolve) h ok with heq | ⟨a, loop', heq, hfd, hrest⟩
  · exact .inl (by simp only [recvMessage, if_neg hfresh, heq])
  · exact .inr ⟨a, loop', by simp only [recvMessage, if_neg hfresh, heq], hfd, hrest⟩

/-- A started send likewise, given a message of which the length says something. -/
theorem sendMessage_create (order : ByteOrder) {fd : Fd} (h : Free loop fd .output) {data : Message}
    (hlen : SendOp.msgLen data ≠ 0) (resolve : OnSent) (ok : Bool) :
    (create fd).sendMessage order loop data resolve ok
      = .resolved (create fd) loop resolve (.err .error) ∨ ∃ a loop',
      (create fd).sendMessage order loop data resolve ok = .pending a loop' ∧ a.fd = fd ∧
      a.Armed loop' (.send (.start order data) resolve) ∧
      EpollLoop.SameElsewhere ⟨fd, .output⟩ loop loop' := by
  have hfresh : ¬ (create fd).token ≠ 0 := by simp [create]
  rcases procData_create (.send (.start order data) resolve) h
      ok with heq | ⟨a, loop', heq, hfd, hrest⟩
  · exact .inl (by simp only [sendMessage, if_neg hfresh, if_neg hlen, heq])
  · exact .inr ⟨a, loop', by simp only [sendMessage, if_neg hfresh, if_neg hlen, heq], hfd, hrest⟩

end AsyncFd

end Diplom
