import Diplom.Proof.Parts

/-!
# Connections that are up

A descriptor is up from `socket` or `accept` to the first step of `CloseFD`. While it is up, its
place in the loop is its own: no object that is still to be destroyed has a token for it, and what
runs there is still registered. So the hand that sends is not lost while there are messages in the
queue.
-/

namespace Diplom

namespace Io

variable {io io' : Io OnMessage OnSent}

/-- An object that is still to be destroyed has a token for a descriptor. -/
def Stale (io : Io OnMessage OnSent) (fd : Fd) : Prop :=
  ∃ token ∈ io.orphans, ∃ key, io.loop.cancelMap token = some key ∧ key.fd = fd

/-- The tokens of such objects have been given out. -/
def Issued (io : Io OnMessage OnSent) : Prop := ∀ token ∈ io.orphans, token < io.loop.nextToken

theorem mem_droppedToken (h : io.Wf) {key : FdDirection} {token : CancellationToken}
    (hmem : token ∈ io.droppedToken key) :
    io.loop.cancelMap token = some key ∧ ∃ a, io.Holds key a ∧ a.token = token := by
  unfold droppedToken at hmem
  split at hmem
  · rename_i hslot
    obtain ⟨keeper, hkeeper⟩ := Option.ne_none_iff_exists'.mp (PartialMap.contains_eq_true.mp hslot)
    obtain ⟨a, hobj, hfd, hdir, harmed⟩ := h.armed key keeper hkeeper
    have hown := harmed.token_own
    rw [hfd, hdir] at hown
    have htoken : a.token = token := by simpa [hobj, eq_comm] using hmem
    exact ⟨htoken ▸ hown, a, ⟨hslot, hobj⟩, htoken⟩
  · exact absurd hmem (by simp)

theorem Stale.of_same (horphans : io'.orphans = io.orphans)
    (hcancel : io'.loop.cancelMap = io.loop.cancelMap) {fd : Fd} (h : io'.Stale fd) :
    io.Stale fd := by
  obtain ⟨token, hmem, key, hkey, hfd⟩ := h
  exact ⟨token, horphans ▸ hmem, key, hcancel ▸ hkey, hfd⟩

/-! ### New operations -/

theorem Registered.stale {fd fd' : Fd} {closure : Closure OnMessage OnSent}
    (h : Registered io io' fd closure) (hissued : io.Issued) (hstale : io'.Stale fd') :
    io.Stale fd' := by
  obtain ⟨token, hmem, key, hkey, hfd⟩ := hstale
  rw [h.orphans] at hmem
  exact ⟨token, hmem, key, (h.issued token (hissued token hmem)).symm.trans hkey, hfd⟩

theorem Registered.issued_of {fd : Fd} {closure : Closure OnMessage OnSent}
    (h : Registered io io' fd closure) (hissued : io.Issued) : io'.Issued := by
  intro token hmem
  rw [h.orphans] at hmem
  exact Nat.lt_of_lt_of_le (hissued token hmem) h.next

theorem Registered.holds {fd : Fd} {closure : Closure OnMessage OnSent}
    (h : Registered io io' fd closure) {key : FdDirection} {a : AsyncFd} (hholds : io.Holds key a) :
    io'.Holds key a := by
  obtain ⟨hslot, hobj⟩ := hholds
  have htaken : io.actionAt key ≠ none := by
    rw [ne_eq, actionAt_eq_none]
    exact PartialMap.contains_eq_true.mp hslot
  have hne : key ≠ ⟨fd, closure.dir⟩ := fun heq => htaken (heq ▸ h.free)
  have hat : io'.actionAt key ≠ none := by
    rw [h.actionAt, PartialMap.set_of_ne _ hne]
    exact htaken
  rw [ne_eq, actionAt_eq_none] at hat
  exact ⟨PartialMap.contains_eq_true.mpr hat, (h.objects key hne).trans hobj⟩

/-! ### `DeregisterFd` -/

theorem deregisterFd_stale (h : io.Wf) (fd : Fd) (ok : Bool) {fd' : Fd}
    (hstale : (io.deregisterFd fd ok).Stale fd') : io.Stale fd' ∨ fd' = fd := by
  obtain ⟨token, hmem, key, hkey, rfl⟩ := hstale
  rw [(deregisterFd_actions io fd ok).2] at hkey
  simp only [deregisterFd, List.mem_append] at hmem
  have hdropped : ∀ {dir}, token ∈ io.droppedToken ⟨fd, dir⟩ → key.fd = fd := by
    intro dir hdrop
    rw [Option.some.inj (hkey.symm.trans (mem_droppedToken h hdrop).1)]
  rcases hmem with (hold | hin) | hout
  · exact .inl ⟨token, hold, key, hkey, rfl⟩
  · exact .inr (hdropped hin)
  · exact .inr (hdropped hout)

theorem deregisterFd_issued (h : io.Wf) (hissued : io.Issued) (fd : Fd) (ok : Bool) :
    (io.deregisterFd fd ok).Issued := by
  intro token hmem
  have hnext : (io.deregisterFd fd ok).loop.nextToken = io.loop.nextToken :=
    (EpollLoop.deregisterFd_tables io.loop fd ok).2.2
  simp only [deregisterFd, List.mem_append] at hmem
  rw [hnext]
  rcases hmem with (hold | hin) | hout
  · exact hissued token hold
  · exact h.loop.issued _ _ (mem_droppedToken h hin).1
  · exact h.loop.issued _ _ (mem_droppedToken h hout).1

theorem deregisterFd_holds {fd : Fd} {ok : Bool} {key : FdDirection} {a : AsyncFd}
    (hne : key.fd ≠ fd) (h : io.Holds key a) : (io.deregisterFd fd ok).Holds key a := by
  have hin : key ≠ ⟨fd, .input⟩ := fun heq => hne (congrArg FdDirection.fd heq)
  have hout : key ≠ ⟨fd, .output⟩ := fun heq => hne (congrArg FdDirection.fd heq)
  obtain ⟨hslot, hobj⟩ := h
  refine ⟨?_, ?_⟩
  · rw [deregisterFd, (EpollLoop.deregisterFd_tables io.loop fd ok).1,
      PartialMap.contains_erase_of_ne _ hout, PartialMap.contains_erase_of_ne _ hin]
    exact hslot
  · have hsame : (io.deregisterFd fd ok).objects key = io.objects key := by
      simp only [deregisterFd, PartialMap.erase_of_ne _ hout, PartialMap.erase_of_ne _ hin]
    rw [hsame, hobj]

/-! ### Objects that go -/

theorem destroy_tokens {token : CancellationToken} {key : FdDirection}
    (htoken : io.loop.cancelMap token = some key) (ok : Bool) :
    (io.destroy token ok).loop.cancelMap = io.loop.cancelMap.erase token ∧
      (io.destroy token ok).loop.nextToken = io.loop.nextToken ∧
      (io.destroy token ok).orphans = io.orphans.erase token ++ io.droppedToken key := by
  have horphans :
      (io.destroy token ok).orphans = io.orphans.erase token ++ io.droppedToken key := by
    simp only [destroy, htoken]
  have hloop : (io.destroy token ok).loop = (io.loop.deregisterAction token ok).2 := by
    simp only [destroy, htoken]
  rcases EpollLoop.deregisterAction_cases io.loop token
      ok with ⟨hnone, _⟩ | ⟨_, _, _, heq⟩ | ⟨_, _, _, _, _, _, heq⟩
  · exact absurd htoken (by rw [hnone]; simp)
  · rw [hloop, heq]
    exact ⟨rfl, rfl, horphans⟩
  · rw [hloop, heq]
    exact ⟨rfl, rfl, horphans⟩

theorem destroy_stale (h : io.Wf) {token : CancellationToken} (hmem : token ∈ io.orphans)
    (ok : Bool) {fd : Fd} (hstale : (io.destroy token ok).Stale fd) : io.Stale fd := by
  obtain ⟨token', hmem', key', hkey', rfl⟩ := hstale
  cases htoken : io.loop.cancelMap token with
  | none =>
      simp only [destroy, htoken, EpollLoop.deregisterAction] at hmem' hkey'
      exact ⟨token', List.mem_of_mem_erase hmem', key', hkey', rfl⟩
  | some key =>
      obtain ⟨hcancel, -, horphans⟩ := destroy_tokens htoken ok
      rw [hcancel] at hkey'
      have hold := ((PartialMap.erase_eq_some _).mp hkey').2
      rw [horphans, List.mem_append] at hmem'
      rcases hmem' with hleft | hdrop
      · exact ⟨token', List.mem_of_mem_erase hleft, key', hold, rfl⟩
      · have hkey := (mem_droppedToken h hdrop).1
        exact ⟨token, hmem, key, htoken, by rw [Option.some.inj (hkey.symm.trans hold)]⟩

theorem destroy_issued (h : io.Wf) (hissued : io.Issued) (token : CancellationToken) (ok : Bool) :
    (io.destroy token ok).Issued := by
  intro token' hmem'
  cases htoken : io.loop.cancelMap token with
  | none =>
      simp only [destroy, htoken, EpollLoop.deregisterAction] at hmem' ⊢
      exact hissued token' (List.mem_of_mem_erase hmem')
  | some key =>
      obtain ⟨-, hnext, horphans⟩ := destroy_tokens htoken ok
      rw [horphans, List.mem_append] at hmem'
      rw [hnext]
      rcases hmem' with hleft | hdrop
      · exact hissued token' (List.mem_of_mem_erase hleft)
      · exact h.loop.issued _ _ (mem_droppedToken h hdrop).1

/-- An object that hands its token back leaves none behind, unless the action in its place is
another one's. -/
theorem handBack_stale (h : io.Wf) {a : AsyncFd} {key : FdDirection}
    (htoken : io.loop.cancelMap a.token = some key) (ok : Bool) {fd : Fd}
    (hstale : (io.handBack a ok).Stale fd) : io.Stale fd ∨ fd = key.fd ∧ ¬ io.Holds key a := by
  obtain ⟨token', hmem', key', hkey', rfl⟩ := hstale
  obtain ⟨hcancel, -, horphans⟩ := destroy_tokens htoken ok
  have hkey' : (io.destroy a.token ok).loop.cancelMap token' = some key' := hkey'
  have hmem' :=
    List.mem_of_mem_erase (show token' ∈ (io.destroy a.token ok).orphans.erase a.token from hmem')
  rw [hcancel] at hkey'
  obtain ⟨hne, hold⟩ := (PartialMap.erase_eq_some _).mp hkey'
  rw [horphans, List.mem_append] at hmem'
  rcases hmem' with hleft | hdrop
  · exact .inl ⟨token', List.mem_of_mem_erase hleft, key', hold, rfl⟩
  · obtain ⟨hkey, a', hholds', rfl⟩ := mem_droppedToken h hdrop
    refine .inr ⟨by rw [Option.some.inj (hkey.symm.trans hold)], fun hholds => hne ?_⟩
    rw [Option.some.inj (hholds.2.symm.trans hholds'.2)]

theorem handBack_issued (h : io.Wf) (hissued : io.Issued) (a : AsyncFd) (ok : Bool) :
    (io.handBack a ok).Issued :=
  fun token' hmem' => destroy_issued h hissued a.token ok token' (List.mem_of_mem_erase hmem')

end Io

/-! ### What a section does to its descriptor -/

namespace Shared

variable {s s' : Shared} {sec : Section} {next : List Section}

/-- Only `CloseFD` takes an entry out of `activeConns`. -/
theorem Runs.active (hruns : s.Runs sec s' next) {fd : Fd} (h : s.manager.activeConns fd ≠ none) :
    s'.manager.activeConns fd ≠ none ∨ ∃ hd, sec = .eraseActive hd ∧ hd.fd = fd := by
  cases hruns with
  | @eraseActive hd conn _ =>
      by_cases hfd : hd.fd = fd
      · exact .inr ⟨hd, rfl, hfd⟩
      · refine .inl ?_
        have hsame := PartialMap.erase_of_ne s.manager.activeConns (Ne.symm hfd)
        exact fun hnone => h (hsame.symm.trans hnone)
  | @insertActive hd conn =>
      refine .inl fun hnone => ?_
      have hnone : (s.manager.activeConns.insert hd.fd conn) fd = none := hnone
      by_cases hfd : fd = hd.fd
      · subst hfd
        exact absurd (PartialMap.insert_self_isSome s.manager.activeConns hd.fd conn)
          (by simp [hnone])
      · exact h ((PartialMap.insert_of_ne _ hfd conn).symm.trans hnone)
  | _ => exact .inl h

/-- Only the end of an exchange makes a queue. -/
theorem Runs.queue (hruns : s.Runs sec s' next) {fd : Fd} (h : s'.manager.sendQueues fd ≠ none) :
    s.manager.sendQueues fd ≠ none ∨ ∃ hd conn, sec = .insertQueue hd conn ∧ hd.fd = fd := by
  have hset : ∀ {fd' : Fd} {old new : List Parcel}, s.manager.sendQueues fd' = some old →
      (s.manager.sendQueues.set fd' new) fd ≠ none → s.manager.sendQueues fd ≠ none := by
    intro fd' old new hold hnew
    by_cases hfd : fd = fd'
    · simp [hfd, hold]
    · rwa [PartialMap.set_of_ne _ hfd] at hnew
  cases hruns with
  | eraseQueue =>
      exact .inl fun hnone =>
        h (by simp [Shared.setManager, ConnectionManager.eraseQueue, PartialMap.erase_apply, hnone])
  | pushBack hqueue => exact .inl (hset hqueue h)
  | takeFront hqueue => exact .inl (hset hqueue h)
  | popFront hqueue => exact .inl (hset hqueue h)
  | @insertQueue hd conn =>
      by_cases hfd : hd.fd = fd
      · exact .inr ⟨hd, conn, rfl, hfd⟩
      · exact .inl fun hnone => h ((PartialMap.insert_of_ne _ (Ne.symm hfd) []).trans hnone)
  | _ => exact .inl h

/-- Only `DeregisterFd` takes an operation from its place. -/
theorem Runs.holds (hruns : s.Runs sec s' next) (hwf : s.manager.io.Wf) {key : FdDirection}
    {a : AsyncFd} (h : s.manager.io.Holds key a) :
    s'.manager.io.Holds key a ∨ ∃ hd, sec = .deregisterFd hd ∧ hd.fd = key.fd := by
  cases hruns with
  | @deregisterFd hd ok =>
      by_cases hfd : hd.fd = key.fd
      · exact .inr ⟨hd, rfl, hfd⟩
      · exact .inl (Io.deregisterFd_holds (Ne.symm hfd) h)
  | recvStarted hstart => exact .inl ((Io.registered_of_recvMessage hwf hstart).holds h)
  | sendStarted hstart => exact .inl ((Io.registered_of_sendMessage hwf hstart).holds h)
  | _ => exact .inl h

/-- Only `DeregisterFd` leaves tokens behind. -/
theorem Runs.stale (hruns : s.Runs sec s' next) (hwf : s.manager.io.Wf)
    (hissued : s.manager.io.Issued) {fd : Fd} (h : s'.manager.io.Stale fd) :
    s.manager.io.Stale fd ∨ ∃ hd, sec = .deregisterFd hd ∧ hd.fd = fd := by
  cases hruns with
  | @deregisterFd hd ok =>
      rcases Io.deregisterFd_stale hwf hd.fd ok h with hold | rfl
      · exact .inl hold
      · exact .inr ⟨hd, rfl, rfl⟩
  | recvStarted hstart => exact .inl ((Io.registered_of_recvMessage hwf hstart).stale hissued h)
  | sendStarted hstart => exact .inl ((Io.registered_of_sendMessage hwf hstart).stale hissued h)
  | _ => exact .inl h

theorem Runs.issued (hruns : s.Runs sec s' next) (hwf : s.manager.io.Wf) (h : s.manager.io.Issued) :
    s'.manager.io.Issued := by
  cases hruns with
  | @deregisterFd hd ok => exact Io.deregisterFd_issued hwf h hd.fd ok
  | recvStarted hstart => exact (Io.registered_of_recvMessage hwf hstart).issued_of h
  | sendStarted hstart => exact (Io.registered_of_sendMessage hwf hstart).issued_of h
  | _ => exact h

/-- A role that follows was there before, where a section leaves everything as it is. -/
theorem Leads.part (hleads : s.Leads sec next) {sec' : Section} (hmem : sec' ∈ next) {role : Role}
    {fd : Fd} (hpart : sec'.part = some (role, fd)) : sec.part = some (role, fd) := by
  have hle := hleads.cast_le role fd
  have hpos : 0 < cast role fd next := List.countP_pos_iff.mpr ⟨sec', hmem, decide_eq_true hpart⟩
  rw [cast_singleton] at hle
  by_contra hne
  rw [if_neg hne] at hle
  omega

/-- The other two entries follow the first one, in which the connection is active by then. -/
theorem Runs.fills (hruns : s.Runs sec s' next) {sec' : Section} (hmem : sec' ∈ next) {fd : Fd}
    (hpart : sec'.part = some (.filling, fd)) :
    sec.part = some (.filling, fd) ∨ s'.manager.activeConns fd ≠ none := by
  cases hruns with
  | leads hleads => exact .inl (hleads.part hmem hpart)
  | notify =>
      exact absurd (hpart.symm.trans (Section.part_of_handle_none (Call.handle_none_of_mem hmem)))
        (by simp)
  | @opens peer fd' told _ htold =>
      rcases htold with rfl | rfl
      all_goals simp only [List.nil_append, List.cons_append, List.mem_cons, List.not_mem_nil,
        or_false] at hmem
      · rw [hmem] at hpart
        exact absurd hpart (by simp [Section.part, OnSent.role])
      · rcases hmem with rfl | rfl
        all_goals exact absurd hpart (by simp [Section.part, OnSent.role])
  | @insertActive hd conn =>
      rw [List.mem_singleton.mp hmem] at hpart
      obtain ⟨-, rfl⟩ := Prod.mk.inj (Option.some.inj hpart)
      have hsome := PartialMap.insert_self_isSome s.manager.activeConns hd.fd conn
      exact .inr (Option.isSome_iff_ne_none.mp hsome)
  | insertConnToFd =>
      rw [List.mem_singleton.mp hmem] at hpart
      exact .inl hpart
  | @insertQueue hd conn =>
      unfold opened at hmem
      split at hmem
      all_goals
        simp only [List.mem_cons, List.not_mem_nil, or_false] at hmem
        rcases hmem with rfl | rfl
        all_goals exact absurd hpart (by simp [Section.part, OnMessage.role])
  | pushBack _ =>
      split at hmem
      · rw [List.mem_singleton.mp hmem] at hpart
        exact absurd hpart (by simp [Section.part])
      · exact absurd hmem (by simp)
  | popFront _ =>
      split at hmem
      · exact absurd hmem (by simp)
      · rw [List.mem_singleton.mp hmem] at hpart
        exact absurd hpart (by simp [Section.part])
  | recvRefused =>
      rw [List.mem_singleton.mp hmem] at hpart
      exact .inl hpart
  | sendRefused =>
      rw [List.mem_singleton.mp hmem] at hpart
      exact .inl hpart
  | _ =>
      first
      | exact absurd hmem List.not_mem_nil
      | rw [List.mem_singleton.mp hmem] at hpart
        exact absurd hpart (by simp [Section.part, OnSent.role])

/-- `close` is done when `CloseFD` comes to the tables. -/
theorem Runs.erases (hruns : s.Runs sec s' next) {hd : Handle} (hmem : .eraseActive hd ∈ next) :
    s'.manager.io.fds hd.fd = none := by
  cases hruns with
  | leads hleads => cases hleads <;> simp at hmem
  | notify => exact absurd (Call.handle_none_of_mem hmem) (by simp [Section.handle])
  | @opens peer fd' told _ htold => rcases htold with rfl | rfl <;> simp at hmem
  | @closeFd hd' =>
      obtain rfl : hd = hd' := by simpa using hmem
      exact PartialMap.erase_self _ _
  | insertQueue =>
      unfold opened at hmem
      split at hmem <;> simp at hmem
  | pushBack _ => split at hmem <;> simp at hmem
  | popFront _ => split at hmem <;> simp at hmem
  | _ => simp at hmem

end Shared

namespace Process

variable {p p' : Process} {input : Input}

/-- An open descriptor that no `CloseFD` has begun to take down. -/
structure Up (p : Process) (fd : Fd) : Prop where
  opened : p.shared.manager.io.fds fd ≠ none
  kept : ∀ t hd, .closeFd hd ∈ p.work t → hd.fd ≠ fd

/-- What holds of the descriptors that are up. -/
structure Upkept (p : Process) : Prop where
  issued : p.shared.manager.io.Issued
  fresh : ∀ fd, p.Up fd → ¬ p.shared.manager.io.Stale fd
  active : ∀ fd, p.Up fd → p.shared.manager.sendQueues fd ≠ none →
    p.shared.manager.activeConns fd ≠ none
  filled : ∀ t, ∀ sec ∈ p.work t, ∀ fd, sec.part = some (.filling, fd) → p.Up fd →
    p.shared.manager.activeConns fd ≠ none
  erasing : ∀ t hd, .eraseActive hd ∈ p.work t → p.shared.manager.io.fds hd.fd = none
  registered : ∀ r, p.running = some r → p.Up r.handle.fd → p.shared.manager.io.Holds r.key r.afd

theorem init_upkept (self : PeerId) (order : ByteOrder) : (init self order).Upkept := by
  have hdown : ∀ fd, ¬ (init self order).Up fd := fun fd hup => hup.opened rfl
  exact ⟨fun _ h => absurd h (by simp [init, Shared.init, ConnectionManager.init, Io.init]),
    fun fd hup => absurd hup (hdown fd), fun fd hup => absurd hup (hdown fd),
    fun _ _ _ fd _ hup => absurd hup (hdown fd), fun _ _ h => absurd h (by simp [init]),
    fun _ h => absurd h (by simp [init])⟩

/-- A step that opens nothing, takes no descriptor back up and leaves the tables of those that are
up. -/
theorem Upkept.of_quiet (h : p.Upkept) (hup : ∀ fd, p'.Up fd → p.Up fd)
    (hissued : p'.shared.manager.io.Issued)
    (hstale : ∀ fd, p'.Up fd → p'.shared.manager.io.Stale fd → p.shared.manager.io.Stale fd)
    (hqueues : p'.shared.manager.sendQueues = p.shared.manager.sendQueues)
    (hactive : p'.shared.manager.activeConns = p.shared.manager.activeConns)
    (hfilled : ∀ t, ∀ sec ∈ p'.work t, (sec ∈ p.work t) ∨ ∀ fd, sec.part ≠ some (.filling, fd))
    (herasing : ∀ t hd, .eraseActive hd ∈ p'.work t → .eraseActive hd ∈ p.work t)
    (hfds : ∀ fd, p.shared.manager.io.fds fd = none → p'.shared.manager.io.fds fd = none)
    (hregistered : ∀ r, p'.running = some r → p'.Up r.handle.fd →
      p'.shared.manager.io.Holds r.key r.afd) : p'.Upkept := by
  refine ⟨hissued, fun fd hup' hst => h.fresh fd (hup fd hup') (hstale fd hup' hst),
    fun fd hup' hqueue => ?_, fun t sec hmem fd hpart hup' => ?_,
    fun t hd hmem => hfds _ (h.erasing t hd (herasing t hd hmem)), hregistered⟩
  · rw [hactive]
    exact h.active fd (hup fd hup') (hqueues ▸ hqueue)
  · rw [hactive]
    rcases hfilled t sec hmem with hold | hnone
    · exact h.filled t sec hold fd hpart (hup fd hup')
    · exact absurd hpart (hnone fd)

/-! ### Steps -/

theorem Up.mono {fd : Fd} (hup : p'.Up fd)
    (hfds : p.shared.manager.io.fds fd = none → p'.shared.manager.io.fds fd = none)
    (hwork : ∀ t hd, .closeFd hd ∈ p.work t →
      .closeFd hd ∈ p'.work t ∨ p'.shared.manager.io.fds hd.fd = none) : p.Up fd := by
  refine ⟨fun hnone => hup.opened (hfds hnone), fun t hd hmem heq => ?_⟩
  rcases hwork t hd hmem with hkept | hclosed
  · exact hup.kept t hd hkept heq
  · exact hup.opened (heq ▸ hclosed)

theorem Up.of_run (hwf : p.Wf) {t : ThreadId} {sec : Section} {rest next : List Section}
    {shared : Shared} {fd : Fd} (hwork : p.work t = sec :: rest)
    (hruns : p.shared.Runs sec shared next) (hsec : ∀ peer, sec ≠ .dial peer)
    (hup : (p.went t next rest shared).Up fd) : p.Up fd := by
  refine hup.mono (fun hnone => ?_) fun t' hd hmem => ?_
  · rcases hruns.fds hwf.io hsec fd with hsame | hclosed
    · exact hsame.trans hnone
    · exact hclosed
  · rcases p.mem_setWork hwork next hmem with rfl | hkept
    · cases hruns with
      | leads hleads => exact absurd hleads (by rintro ⟨⟩)
      | closeFd => exact .inr (PartialMap.erase_self _ _)
    · exact .inl hkept

theorem not_up_of_closeFd (p : Process) {t : ThreadId} {rest next : List Section} {shared : Shared}
    {hd : Handle} (hnext : .closeFd hd ∈ next) : ¬ (p.went t next rest shared).Up hd.fd := by
  intro hup
  refine hup.kept t hd ?_ rfl
  show .closeFd hd ∈ (p.setWork t (next ++ rest)).work t
  rw [setWork_self]
  exact List.mem_append_left _ hnext

theorem Upkept.run (hwf : p.Wf) (h : p.Upkept) {t : ThreadId} {sec : Section}
    {rest next : List Section} {shared : Shared} (hwork : p.work t = sec :: rest)
    (hruns : p.shared.Runs sec shared next) (hsec : ∀ peer, sec ≠ .dial peer) :
    (p.went t next rest shared).Upkept := by
  have hmem : sec ∈ p.work t := by simp [hwork]
  have hup : ∀ fd, (p.went t next rest shared).Up fd → p.Up fd :=
    fun fd => Up.of_run hwf hwork hruns hsec
  have hdown : ∀ {hd fd}, sec = .deregisterFd hd → hd.fd = fd →
      ¬ (p.went t next rest shared).Up fd := by
    rintro hd fd rfl rfl
    refine not_up_of_closeFd p ?_
    cases hruns with
    | leads hleads => exact absurd hleads (by rintro ⟨⟩)
    | deregisterFd => exact List.mem_singleton.mpr rfl
  have hactive : ∀ {fd}, (p.went t next rest shared).Up fd →
      p.shared.manager.activeConns fd ≠ none → shared.manager.activeConns fd ≠ none := by
    intro fd hup' hactive
    rcases hruns.active hactive with hkept | ⟨hd, rfl, rfl⟩
    · exact hkept
    · exact absurd (h.erasing t hd hmem) (hup _ hup').opened
  refine ⟨hruns.issued hwf.io h.issued, fun fd hup' hstale => ?_, fun fd hup' hqueue => ?_,
    fun t' sec' hmem' fd hpart hup' => ?_, fun t' hd hmem' => ?_, fun r hrunning hup' => ?_⟩
  · rcases hruns.stale hwf.io h.issued hstale with hold | ⟨hd, heq, hfd⟩
    · exact h.fresh fd (hup fd hup') hold
    · exact hdown heq hfd hup'
  · rcases hruns.queue hqueue with hold | ⟨hd, conn, rfl, rfl⟩
    · exact hactive hup' (h.active fd (hup fd hup') hold)
    · exact hactive hup' (h.filled t _ hmem hd.fd rfl (hup _ hup'))
  · rcases p.of_mem_setWork hwork hmem' with hnext | hold
    · rcases hruns.fills hnext hpart with hfilling | hkept
      · exact hactive hup' (h.filled t sec hmem fd hfilling (hup fd hup'))
      · exact hkept
    · exact hactive hup' (h.filled t' sec' hold fd hpart (hup fd hup'))
  · rcases p.of_mem_setWork hwork hmem' with hnext | hold
    · exact hruns.erases hnext
    · rcases hruns.fds hwf.io hsec hd.fd with hsame | hclosed
      · exact hsame.trans (h.erasing t' hd hold)
      · exact hclosed
  · rcases hruns.holds hwf.io (h.registered r hrunning (hup _ hup')) with hholds | ⟨hd, heq, hfd⟩
    · exact hholds
    · exact absurd hup' (hdown heq hfd)

/-- A new socket comes with nothing but its exchange. -/
theorem Upkept.opened (h : p.Upkept) {fd : Fd} (hfd : ¬ p.Named fd)
    (hshared : p'.shared = p.shared.setIo (p.shared.manager.io.openFd fd))
    (hrunning : p'.running = p.running)
    (hkept : ∀ t hd, .closeFd hd ∈ p.work t → .closeFd hd ∈ p'.work t)
    (hnew : ∀ t, ∀ sec ∈ p'.work t, sec ∈ p.work t ∨ (∀ fd', sec.part ≠ some (.filling, fd')) ∧
      ∀ hd, sec ≠ .eraseActive hd) : p'.Upkept := by
  have hfds : ∀ fd', fd' ≠ fd → p'.shared.manager.io.fds fd' = p.shared.manager.io.fds fd' := by
    intro fd' hne
    rw [hshared]
    exact PartialMap.set_of_ne _ hne _
  have hup : ∀ fd', fd' ≠ fd → p'.Up fd' → p.Up fd' := fun fd' hne hup' =>
    ⟨hfds fd' hne ▸ hup'.opened, fun t hd hmem => hup'.kept t hd (hkept t hd hmem)⟩
  have hqueues : p'.shared.manager.sendQueues = p.shared.manager.sendQueues := by rw [hshared]; rfl
  have hactive : p'.shared.manager.activeConns = p.shared.manager.activeConns := by
    rw [hshared]
    rfl
  have horphans : p'.shared.manager.io.orphans = p.shared.manager.io.orphans := by rw [hshared]; rfl
  have hloop : p'.shared.manager.io.loop = p.shared.manager.io.loop := by rw [hshared]; rfl
  have hobjects : p'.shared.manager.io.objects = p.shared.manager.io.objects := by rw [hshared]; rfl
  refine ⟨?_, fun fd' hup' hstale => ?_, fun fd' hup' hqueue => ?_,
    fun t sec hmem fd' hpart hup' => ?_, fun t hd hmem => ?_, fun r hr hup' => ?_⟩
  · intro token hmem
    rw [hloop]
    exact h.issued token (horphans ▸ hmem)
  · have hold := hstale.of_same horphans (congrArg EpollLoop.cancelMap hloop)
    by_cases heq : fd' = fd
    · obtain ⟨token, hmem, key, hkey, hfd'⟩ := hold
      exact hfd (heq ▸ hfd' ▸ .token hmem hkey)
    · exact h.fresh fd' (hup fd' heq hup') hold
  · rw [hqueues] at hqueue
    rw [hactive]
    by_cases heq : fd' = fd
    · obtain ⟨queue, hqueue'⟩ := Option.ne_none_iff_exists'.mp hqueue
      exact absurd (heq ▸ .queue hqueue') hfd
    · exact h.active fd' (hup fd' heq hup') hqueue
  · rw [hactive]
    rcases hnew t sec hmem with hold | ⟨hnone, -⟩
    · by_cases heq : fd' = fd
      · obtain ⟨hd, hhandle, hfd'⟩ := Section.handle_of_part hpart
        exact absurd (heq ▸ hfd' ▸ .work hold hhandle) hfd
      · exact h.filled t sec hold fd' hpart (hup fd' heq hup')
    · exact absurd hpart (hnone fd')
  · rcases hnew t _ hmem with hold | ⟨-, hnone⟩
    · by_cases heq : hd.fd = fd
      · exact absurd (heq ▸ .work hold rfl) hfd
      · rw [hfds hd.fd heq]
        exact h.erasing t hd hold
    · exact absurd rfl (hnone hd)
  · rw [hrunning] at hr
    by_cases heq : r.handle.fd = fd
    · exact absurd (heq ▸ .running hr) hfd
    · have hholds := h.registered r hr (hup _ heq hup')
      rw [Io.Holds, hloop, hobjects]
      exact hholds

theorem quiet_of_handle_none {sec : Section} (h : sec.handle = none) :
    (∀ fd, sec.part ≠ some (.filling, fd)) ∧ ∀ hd, sec ≠ .eraseActive hd := by
  refine ⟨fun fd => by rw [Section.part_of_handle_none h]; simp, ?_⟩
  rintro hd rfl
  exact absurd h (by simp [Section.handle])

theorem Upkept.of_work (h : p.Upkept) (hshared : p'.shared = p.shared)
    (hkept : ∀ t hd, .closeFd hd ∈ p.work t → .closeFd hd ∈ p'.work t)
    (hnew : ∀ t, ∀ sec ∈ p'.work t, sec ∈ p.work t ∨ (∀ fd, sec.part ≠ some (.filling, fd)) ∧ ∀ hd,
      sec ≠ .eraseActive hd)
    (hregistered : ∀ r, p'.running = some r → p.Up r.handle.fd →
      p.shared.manager.io.Holds r.key r.afd) : p'.Upkept := by
  have hup : ∀ fd, p'.Up fd → p.Up fd := fun fd hup' => by
    refine hup'.mono (fun hnone => ?_) fun t hd hmem => .inl (hkept t hd hmem)
    rw [hshared]
    exact hnone
  refine h.of_quiet hup (by rw [hshared]; exact h.issued) (fun fd _ hstale => hshared ▸ hstale)
    (by rw [hshared]) (by rw [hshared]) (fun t sec hmem => (hnew t sec hmem).imp_right And.left) ?_
    (fun fd hnone => hshared ▸ hnone) fun r hr hup' => ?_
  · exact fun t hd hmem => (hnew t _ hmem).resolve_right fun hquiet => hquiet.2 hd rfl
  · rw [hshared]
    exact hregistered r hr (hup _ hup')

theorem Upkept.of_io (h : p.Upkept) (hfds : p'.shared.manager.io.fds = p.shared.manager.io.fds)
    (hqueues : p'.shared.manager.sendQueues = p.shared.manager.sendQueues)
    (hactive : p'.shared.manager.activeConns = p.shared.manager.activeConns)
    (hissued : p'.shared.manager.io.Issued)
    (hstale : ∀ fd, p.Up fd → p'.shared.manager.io.Stale fd → p.shared.manager.io.Stale fd)
    (hkept : ∀ t hd, .closeFd hd ∈ p.work t → .closeFd hd ∈ p'.work t)
    (hnew : ∀ t, ∀ sec ∈ p'.work t, sec ∈ p.work t ∨ (∀ fd, sec.part ≠ some (.filling, fd)) ∧ ∀ hd,
      sec ≠ .eraseActive hd)
    (hregistered : ∀ r, p'.running = some r → p.Up r.handle.fd →
      p'.shared.manager.io.Holds r.key r.afd) : p'.Upkept := by
  have hup : ∀ fd, p'.Up fd → p.Up fd := fun fd hup' => by
    refine hup'.mono (fun hnone => ?_) fun t hd hmem => .inl (hkept t hd hmem)
    rw [hfds]
    exact hnone
  refine h.of_quiet hup hissued (fun fd hup' => hstale fd (hup fd hup')) hqueues hactive
    (fun t sec hmem => (hnew t sec hmem).imp_right And.left) ?_ (fun fd hnone => hfds ▸ hnone)
    fun r hr hup' => hregistered r hr (hup _ hup')
  exact fun t hd hmem => (hnew t _ hmem).resolve_right fun hquiet => hquiet.2 hd rfl

theorem Upkept.of_loop (h : p.Upkept) {loop : AsyncLoop OnMessage OnSent}
    (hcancel : loop.cancelMap = p.shared.manager.io.loop.cancelMap)
    (hnext : loop.nextToken = p.shared.manager.io.loop.nextToken) :
    ({ p.setIo { p.shared.manager.io with loop := loop } with running := none } :
      Process).Upkept := by
  refine h.of_io rfl rfl rfl (fun token hmem => ?_) (fun fd _ hstale => ?_) (fun _ _ => id)
    (fun _ _ hmem => .inl hmem) fun r hr => absurd hr (by simp)
  · have hlt := h.issued token hmem
    rw [← hnext] at hlt
    exact hlt
  · obtain ⟨token, hmem, key, hkey, hfd⟩ := hstale
    have hkey : loop.cancelMap token = some key := hkey
    exact ⟨token, hmem, key, hcancel ▸ hkey, hfd⟩

theorem Upkept.dial (h : p.Upkept) {t : ThreadId} {answer : Answer} {peer : PeerId}
    {rest next : List Section} {shared : Shared} (hok : p.OpensUnnamed (.run t answer))
    (hwork : p.work t = .dial peer :: rest)
    (hrun : p.shared.run answer (.dial peer) = some (shared, next)) :
    (p.went t next rest shared).Upkept := by
  have hkept : ∀ t' hd, .closeFd hd ∈ p.work t' →
      .closeFd hd ∈ (p.went t next rest shared).work t' := by
    intro t' hd hmem
    rcases p.mem_setWork hwork next hmem with heq | hkept
    · exact absurd heq (by simp)
    · exact hkept
  have hnew : (∀ sec ∈ next, (∀ fd, sec.part ≠ some (.filling, fd)) ∧ ∀ hd, sec ≠ .eraseActive hd) →
      ∀ t', ∀ sec ∈ (p.went t next rest shared).work t',
        sec ∈ p.work t' ∨ (∀ fd, sec.part ≠ some (.filling, fd)) ∧ ∀ hd, sec ≠ .eraseActive hd := by
    intro hquiet t' sec hmem
    rcases p.of_mem_setWork hwork hmem with hnext | hold
    · exact .inr (hquiet sec hnext)
    · exact .inl hold
  rcases dial_cases hwork hrun with ⟨-, rfl, hnone⟩ | ⟨fd, told, hopens, rfl, htold, rfl⟩
  · exact h.of_work rfl hkept
      (hnew fun sec hmem => quiet_of_handle_none (hnone sec hmem)) h.registered
  · refine h.opened (hok fd hopens) rfl rfl hkept (hnew fun sec hmem => ?_)
    rcases List.mem_append.mp hmem with htold' | hhello
    · exact quiet_of_handle_none (htold sec htold')
    · obtain rfl := List.mem_singleton.mp hhello
      exact ⟨by simp [Section.part, OnSent.role], by simp⟩

theorem Upkept.step (hwf : p.Wf) (h : p.Upkept) (hok : p.OpensUnnamed input)
    (hstep : Step p input p') : p'.Upkept := by
  have hpassed : ∀ {t sec rest} (hwork : p.work t = sec :: rest), (∀ hd, sec ≠ .closeFd hd) →
      (∀ t' hd, .closeFd hd ∈ p.work t' → .closeFd hd ∈ (p.setWork t ([] ++ rest)).work t') ∧ ∀ t',
      ∀ sec' ∈ (p.setWork t ([] ++ rest)).work t', sec' ∈ p.work t' ∨
      (∀ fd, sec'.part ≠ some (.filling, fd)) ∧ ∀ hd, sec' ≠ .eraseActive hd := by
    intro t sec rest hwork hne
    refine ⟨fun t' hd hmem => ?_, fun t' sec' hmem => ?_⟩
    · exact (p.mem_setWork hwork [] hmem).resolve_left fun heq => hne hd heq.symm
    · exact .inl ((p.of_mem_setWork hwork hmem).resolve_left List.not_mem_nil)
  have hsame : ∀ t, ∀ sec ∈ p.work t, sec ∈ p.work t ∨ (∀ fd, sec.part ≠ some (.filling, fd)) ∧
      ∀ hd, sec ≠ .eraseActive hd :=
    fun _ _ hmem => .inl hmem
  cases hstep with
  | lock hwork _ =>
      obtain ⟨hkept, hnew⟩ := hpassed hwork (by simp)
      exact h.of_work rfl hkept hnew h.registered
  | unlock hwork =>
      obtain ⟨hkept, hnew⟩ := hpassed hwork (by simp)
      exact h.of_work rfl hkept hnew h.registered
  | @run t answer sec rest next shared hwork hrun =>
      by_cases hdial : ∃ peer, sec = .dial peer
      · obtain ⟨peer, rfl⟩ := hdial
        exact h.dial hok hwork hrun
      · exact h.run hwf hwork (Shared.run_cases hrun) fun peer heq => hdial ⟨peer, heq⟩
  | @call t call hidle =>
      refine h.of_work rfl (fun t' hd hmem => p.mem_setWork_of_idle hidle.1 _ hmem)
        (fun t' sec hmem => ?_) h.registered
      rcases p.of_mem_setWork_new hmem with hnew | hold
      · exact .inr (quiet_of_handle_none (Call.handle_none hnew))
      · exact .inl hold
  | @accept fd hidle hfd =>
      refine h.opened (hok fd rfl) rfl rfl (fun t hd hmem => ?_) fun t sec hmem => ?_
      · exact (p.setIo (p.shared.manager.io.openFd fd)).mem_setWork_of_idle hidle.1 _ hmem
      · rcases (p.setIo (p.shared.manager.io.openFd fd)).of_mem_setWork_new hmem with hnew | hold
        · obtain rfl := List.mem_singleton.mp hnew
          exact .inr ⟨by simp [Section.part, OnMessage.role], by simp⟩
        · exact .inl hold
  | @openOther fd _ => exact h.opened (hok fd rfl) rfl rfl (fun _ _ => id) hsame
  | @closeOther fd _ =>
      have hgone : ∀ fd', p.shared.manager.io.fds fd' = none →
          (p.shared.manager.io.close fd).fds fd' = none := by
        intro fd' hnone
        exact (PartialMap.erase_apply _ _ _).trans (by rw [hnone, ite_self])
      have hup : ∀ fd', ({ p.setIo (p.shared.manager.io.close fd) with
          others := p.others.erase fd } : Process).Up fd' → p.Up fd' :=
        fun fd' hup' => hup'.mono (hgone fd') fun _ _ => .inl
      exact h.of_quiet hup h.issued (fun _ _ hstale => hstale.of_same rfl rfl) rfl rfl
        (fun _ _ => .inl) (fun _ _ => id) hgone fun r hr hup' => h.registered r hr (hup _ hup')
  | @fetch fd dir closure a hidle hat hobj =>
      refine h.of_work rfl (fun _ _ => id) hsame fun r hr _ => ?_
      obtain rfl := Option.some.inj hr
      have hkey : Running.key ⟨⟨fd, p.shared.actionOf ⟨fd, dir⟩⟩, a, closure, none⟩
          = ⟨fd, dir⟩ := by
        rw [Running.key, hwf.io.dir_of_actionAt hat]
      rw [hkey]
      refine ⟨PartialMap.contains_eq_true.mpr fun hnone => ?_, hobj⟩
      rw [Io.actionAt_eq_none.mpr hnone] at hat
      exact absurd hat (by simp)
  | @transfer res recv send r hrunning _ =>
      obtain ⟨hloop, hobjects, hsockets⟩ := p.shared.transfer_io r res recv send
      have htables := p.shared.transfer_tables r res recv send
      have horphans := p.shared.transfer_orphans r res recv send
      refine h.of_io hsockets.fds (by rw [htables]) (by rw [htables]) (fun token hmem => ?_)
        (fun fd _ hstale => hstale.of_same horphans (congrArg EpollLoop.cancelMap hloop))
        (fun _ _ => id) hsame fun r' hr' hup => ?_
      · rw [hloop]
        exact h.issued token (horphans ▸ hmem)
      · obtain rfl := Option.some.inj hr'
        rw [Io.Holds, hloop, hobjects]
        exact h.registered r hrunning hup
  | @kept ok r next hrunning houtcome hholds =>
      have hr := hwf.running r hrunning
      obtain ⟨-, -, hcancel⟩ := Io.keep_kept hwf.io hr.fd (hr.fits _ houtcome) hholds
      refine h.of_loop hcancel ?_
      unfold AsyncFd.keep
      split <;> rfl
  | @dropped ok r next hrunning _ hholds =>
      exact h.of_work rfl (fun _ _ => id) hsame fun r' hr' => absurd hr' (by simp)
  | @replaced ok r next loop hrunning houtcome hreplace =>
      rcases EpollLoop.replaceAction_cases p.shared.manager.io.loop r.afd.token
          next with ⟨hfalse, _⟩ | ⟨key, keeper, -, -, heq⟩
      · exact absurd (hreplace.symm.trans hfalse) (by simp)
      · obtain rfl := (Prod.mk.inj (hreplace.symm.trans heq)).2
        exact h.of_loop rfl rfl
  | @unreplaced ok r next hrunning _ _ =>
      refine h.of_work rfl (fun _ _ => id) hsame fun r' hr' hup => ?_
      obtain rfl := Option.some.inj hr'
      exact h.registered r hrunning hup
  | @resolved ok r next hrunning houtcome =>
      have hr := hwf.running r hrunning
      obtain ⟨-, -, hsockets⟩ := Io.handBack_handed hwf.io hr.token ok
      have hidle : p.work .eventLoop = [] := hwf.alone (by simp [hrunning])
      refine h.of_io hsockets.fds rfl rfl (Io.handBack_issued hwf.io h.issued r.afd ok)
        (fun fd hup hstale => ?_) (fun t hd hmem => p.mem_setWork_of_idle hidle [next] hmem)
        (fun t sec hmem => ?_) fun r' hr' => absurd hr' (by simp)
      · rcases Io.handBack_stale hwf.io hr.token ok hstale with hold | ⟨rfl, hlost⟩
        · exact hold
        · exact absurd (h.registered r hrunning hup) hlost
      · rcases p.of_mem_setWork_new hmem with hnew | hold
        · obtain rfl := List.mem_singleton.mp hnew
          refine .inr ⟨?_, ?_⟩
          · rw [resolves_part (hr.fits _ houtcome)]
            cases r.closure with
            | recv op resolve => cases resolve <;> simp [Closure.role, OnMessage.role]
            | send op resolve => cases resolve <;> simp [Closure.role, OnSent.role]
          · rintro hd rfl
            exact absurd (resolves_part (hr.fits _ houtcome)) (by simp [Section.part])
        · exact .inl hold
  | aborted _ _ =>
      exact h.of_io rfl rfl rfl h.issued (fun _ _ => id) (fun _ _ => id) hsame h.registered
  | @destroy token ok hidle hmem =>
      have hfewer := Io.destroy_fewer hwf.io token ok
      exact h.of_io hfewer.fds rfl rfl (Io.destroy_issued hwf.io h.issued token ok)
        (fun _ _ hstale => Io.destroy_stale hwf.io hmem ok hstale) (fun _ _ => id) hsame
        fun r hr => absurd ((hidle.2 rfl).symm.trans hr) (by simp)

end Process

end Diplom
