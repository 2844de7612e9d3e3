import Diplom.Proof.Io

/-!
# The registered actions

The table of the loop as one map from places to closures, and what each operation of `Io` makes of
it. Where code runs in pieces on two threads, a place is what it takes away or leaves alone.
-/

namespace Diplom

namespace Io

variable {OnMessage OnSent : Type} {io io' : Io OnMessage OnSent}

def actionAt (io : Io OnMessage OnSent) : PartialMap FdDirection (Closure OnMessage OnSent) :=
  fun key => io.loop.callbackAt key.fd key.direction

theorem actionAt_apply (io : Io OnMessage OnSent) (key : FdDirection) :
    io.actionAt key = (io.loop.fdToCallback key).map CallbackKeeper.callback := rfl

theorem actionAt_eq_none {key : FdDirection} :
    io.actionAt key = none ↔ io.loop.fdToCallback key = none := by
  rw [actionAt_apply, Option.map_eq_none_iff]

theorem actionAt_congr {key : FdDirection}
    (h : io'.loop.fdToCallback key = io.loop.fdToCallback key) :
    io'.actionAt key = io.actionAt key := by
  rw [actionAt_apply, actionAt_apply, h]

theorem actionAt_of_loop (h : io'.loop = io.loop) : io'.actionAt = io.actionAt := by
  funext key
  apply actionAt_congr
  rw [h]

theorem Wf.dir_of_actionAt (h : io.Wf) {key : FdDirection} {closure : Closure OnMessage OnSent}
    (hat : io.actionAt key = some closure) : closure.dir = key.direction := by
  obtain ⟨keeper, hslot, rfl⟩ := Option.map_eq_some_iff.mp hat
  obtain ⟨_, _, _, hdir, _⟩ := h.armed key keeper hslot
  exact hdir

structure Registered (io io' : Io OnMessage OnSent) (fd : Fd) (closure : Closure OnMessage OnSent) :
    Prop extends Silent io io' where
  wf : io'.Wf
  free : io.actionAt ⟨fd, closure.dir⟩ = none
  actionAt : io'.actionAt = io.actionAt.set ⟨fd, closure.dir⟩ closure
  tokens : ∀ token key, io.loop.cancelMap token = some key → io'.loop.cancelMap token = some key
  issued : ∀ token, token < io.loop.nextToken → io'.loop.cancelMap token = io.loop.cancelMap token
  next : io.loop.nextToken ≤ io'.loop.nextToken
  objects : ∀ key, key ≠ ⟨fd, closure.dir⟩ → io'.objects key = io.objects key
  orphans : io'.orphans = io.orphans

/-- What `ProcData` of a new object does to the table. -/
theorem registered_of_procData (h : io.Wf) {fd : Fd} {closure : Closure OnMessage OnSent}
    {ok : Bool} {a : AsyncFd} {loop : AsyncLoop OnMessage OnSent}
    (hproc : (AsyncFd.create fd).procData io.loop closure ok = some (a, loop)) :
    Registered io (io.place ⟨fd, closure.dir⟩ a loop) fd closure := by
  have hmap := hproc
  simp only [AsyncFd.procData, AsyncFd.create, if_true, Option.map_eq_some_iff, Prod.exists] at hmap
  obtain ⟨token, loop', hreg, heq⟩ := hmap
  obtain ⟨rfl, rfl⟩ := Prod.mk.inj heq
  obtain ⟨hfree, _, hslots, hcancel, hnext, _⟩ := EpollLoop.registerAction_eq_some hreg
  rw [PartialMap.insert_of_none _ h.loop.next_free] at hcancel
  have hwf : (io.place ⟨fd, closure.dir⟩ ⟨fd, token⟩ loop').Wf := by
    rcases AsyncFd.procData_create closure ⟨h.loop, hfree⟩
        ok with hnone | ⟨a, loop, hsome, hfd, harmed, hsame⟩
    · exact absurd (hproc.symm.trans hnone) (by simp)
    · obtain ⟨rfl, rfl⟩ := Prod.mk.inj (Option.some.inj (hproc.symm.trans hsome))
      exact h.place harmed hsame
  refine ⟨⟨⟨rfl, rfl, rfl, rfl⟩, rfl, rfl⟩, hwf, actionAt_eq_none.mpr hfree, ?_, fun t key ht => ?_,
    fun t ht => ?_, ?_, fun key hne => PartialMap.set_of_ne _ hne _, rfl⟩
  · funext key
    by_cases hkey : key = ⟨fd, closure.dir⟩
    · subst hkey
      rw [PartialMap.set_self, actionAt_apply, place, hslots, PartialMap.set_self]
      rfl
    · rw [PartialMap.set_of_ne _ hkey]
      apply actionAt_congr
      rw [place, hslots, PartialMap.set_of_ne _ hkey]
  · have hne : t ≠ io.loop.nextToken := Nat.ne_of_lt (h.loop.issued _ _ ht)
    rw [place, hcancel, PartialMap.set_of_ne _ hne, ht]
  · rw [place, hcancel, PartialMap.set_of_ne _ (Nat.ne_of_lt ht)]
  · rw [place, hnext]
    exact Nat.le_succ _

theorem registered_of_recvMessage (h : io.Wf) {fd : Fd} {resolve : OnMessage} {ok : Bool}
    (hstart : io.recvMessage fd resolve ok = some io') :
    Registered io io' fd (.recv .start resolve) := by
  have hfresh : ¬ (AsyncFd.create fd).token ≠ 0 := by simp [AsyncFd.create]
  unfold recvMessage AsyncFd.recvMessage at hstart
  rw [if_neg hfresh] at hstart
  cases hproc :
    (AsyncFd.create fd).procData io.loop (.recv .start resolve) (ok && io.fds.contains fd) with
  | none =>
      rw [hproc] at hstart
      exact absurd hstart (by simp)
  | some pair =>
      rw [hproc] at hstart
      obtain rfl := Option.some.inj hstart
      exact registered_of_procData h hproc

theorem registered_of_sendMessage (h : io.Wf) {fd : Fd} {data : Message} {resolve : OnSent}
    {ok : Bool} (hstart : io.sendMessage fd data resolve ok = .pending io') :
    Registered io io' fd (.send (.start io.order data) resolve) := by
  have hfresh : ¬ (AsyncFd.create fd).token ≠ 0 := by simp [AsyncFd.create]
  have hlength := sendMessage_pending hstart
  unfold sendMessage AsyncFd.sendMessage at hstart
  rw [if_neg hfresh, if_neg hlength] at hstart
  cases hproc :
    (AsyncFd.create fd).procData io.loop (.send (.start io.order data) resolve)
      (ok && io.fds.contains fd) with
  | none =>
      rw [hproc] at hstart
      exact absurd hstart (by simp)
  | some pair =>
      rw [hproc] at hstart
      obtain rfl := Started.pending.inj hstart
      exact registered_of_procData h hproc

/-- `DeregisterFd` empties the two places of a descriptor, and no token is forgotten. -/
theorem deregisterFd_actions (io : Io OnMessage OnSent) (fd : Fd) (ok : Bool) :
    (io.deregisterFd fd ok).actionAt = (io.actionAt.erase ⟨fd, .input⟩).erase ⟨fd, .output⟩ ∧
      (io.deregisterFd fd ok).loop.cancelMap = io.loop.cancelMap := by
  obtain ⟨hslots, hcancel, _⟩ := EpollLoop.deregisterFd_tables io.loop fd ok
  refine ⟨?_, hcancel⟩
  funext key
  rw [actionAt_apply, deregisterFd, hslots]
  simp only [PartialMap.erase_apply, actionAt_apply]
  split
  · rfl
  · split <;> rfl

theorem destroy_actions (io : Io OnMessage OnSent) {token : CancellationToken} {key : FdDirection}
    (htoken : io.loop.cancelMap token = some key) (ok : Bool) :
    (io.destroy token ok).actionAt = io.actionAt.erase key := by
  have hloop : (io.destroy token ok).loop = (io.loop.deregisterAction token ok).2 := by
    simp only [destroy, htoken]
  funext key'
  rw [actionAt_apply, hloop, PartialMap.erase_apply]
  rcases EpollLoop.deregisterAction_cases io.loop token
      ok with ⟨hnone, _⟩ | ⟨k, hk, hslot, heq⟩ | ⟨k, _, hk, _, _, _, heq⟩
  · exact absurd htoken (by rw [hnone]; simp)
  · obtain rfl := Option.some.inj (hk.symm.trans htoken)
    rw [heq]
    split
    · rename_i hkey
      rw [hkey]
      exact actionAt_eq_none.mpr hslot
    · rfl
  · obtain rfl := Option.some.inj (hk.symm.trans htoken)
    rw [heq]
    simp only [PartialMap.erase_apply]
    split <;> rfl

theorem destroy_actions_of_unknown (io : Io OnMessage OnSent) {token : CancellationToken}
    (htoken : io.loop.cancelMap token = none) (ok : Bool) :
    (io.destroy token ok).actionAt = io.actionAt := by
  simp only [destroy, htoken, EpollLoop.deregisterAction]
  rfl

/-! ### Actions that go -/

/-- `DeregisterFd` empties a place or leaves it alone. -/
theorem deregisterFd_taken (io : Io OnMessage OnSent) (fd : Fd) (ok : Bool) (key : FdDirection) :
    (io.deregisterFd fd ok).actionAt key = io.actionAt key ∨
      (io.deregisterFd fd ok).actionAt key = none := by
  rw [(deregisterFd_actions io fd ok).1, PartialMap.erase_apply]
  split
  · exact .inr rfl
  · rw [PartialMap.erase_apply]
    split
    · exact .inr rfl
    · exact .inl rfl

theorem destroy_taken (io : Io OnMessage OnSent) (token : CancellationToken) (ok : Bool)
    (key : FdDirection) :
    (io.destroy token ok).actionAt key = io.actionAt key ∨
      (io.destroy token ok).actionAt key = none := by
  cases htoken : io.loop.cancelMap token with
  | none => exact .inl (congrFun (destroy_actions_of_unknown io htoken ok) key)
  | some key' =>
      rw [destroy_actions io htoken, PartialMap.erase_apply]
      split
      · exact .inr rfl
      · exact .inl rfl

end Io

end Diplom
