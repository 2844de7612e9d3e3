import Diplom.Proof.Interest
import Diplom.Proof.LoopRun

/-!
# Events that have become stale

`epoll_wait` reports a batch of events, and by the time one of them is dispatched its descriptor may
be closed, the number given to a new socket, and an action registered for that one. The dispatch
goes by the number. A closed descriptor leaves the interest set, so what was registered for older
sockets does no harm. An event reaches the callback of another socket in two ways: an action is
registered in a place for which an event of the batch is still to come, or a token that outlived
its action puts its callback in the place of another socket's.
-/

namespace Diplom

/-- The next call of `RunCallback`. -/
def Thread.nextCall : Thread → Option Dispatch
  | .dispatching (d :: _) _ => some d
  | _ => none

/-- The calls of `RunCallback` that an event of the array leads to. -/
def Reported.calls : Reported → List Dispatch
  | .io fd events sock => dispatches fd events sock
  | _ => []

/-- The calls of `RunCallback` that are still to come of a batch. -/
def Thread.pending : Thread → List Dispatch
  | .handling rest => rest.flatMap Reported.calls
  | .dispatching calls rest => calls ++ rest.flatMap Reported.calls
  | .running _ calls rest => calls ++ rest.flatMap Reported.calls
  | .draining rest => rest.flatMap Reported.calls
  | .destroying _ rest => rest.flatMap Reported.calls
  | _ => []

theorem Thread.nextCall_pending {thread : Thread} {d : Dispatch} (h : thread.nextCall = some d) :
    d ∈ thread.pending := by
  cases thread with
  | dispatching calls rest =>
      cases calls with
      | nil => exact absurd h (by simp [nextCall])
      | cons d' calls =>
          obtain rfl := Option.some.inj h
          exact List.mem_cons_self
  | _ => exact absurd h (by simp [nextCall])

theorem fd_of_dispatches {fd : Fd} {events : EpollEvents} {sock : Sock} {d : Dispatch}
    (h : d ∈ dispatches fd events sock) : d.fd = fd ∧ d.sock = sock := by
  unfold dispatches at h
  split at h
  · simp only [List.mem_cons, List.not_mem_nil, or_false] at h
    rcases h with rfl | rfl <;> exact ⟨rfl, rfl⟩
  · split at h
    · rw [List.mem_singleton.mp h]
      exact ⟨rfl, rfl⟩
    · split at h
      · rw [List.mem_singleton.mp h]
        exact ⟨rfl, rfl⟩
      · exact absurd h List.not_mem_nil

namespace LoopRun

variable {Keep : Type} {s t : LoopRun Keep}

/-- The callback that the next call of `RunCallback` finds was made for the socket that the event
was reported for. -/
def SameSocket (s : LoopRun Keep) : Prop :=
  ∀ d ∈ s.thread.nextCall, ∀ keeper ∈ s.loop.fdToCallback d.key,
    s.callbackSock keeper.callback = some d.sock

/-- A call that puts no callback in the way of another socket's event: an action is registered only
where no event of an earlier socket is still to come, and a callback is replaced only by one for the
same socket. -/
def KeepsApart (s : LoopRun Keep) : LoopEvent Keep → Prop
  | .call (.registerAction fd dir _ _ _) => ∀ sock ∈ s.fds fd, ∀ d ∈ s.thread.pending,
    d.key = ⟨fd, dir⟩ → d.sock = sock
  | .call (.replaceAction token _) => ∀ key ∈ s.loop.cancelMap token,
    ∀ keeper ∈ s.loop.fdToCallback key, s.callbackSock keeper.callback = s.tokenSock token
  | _ => True

instance (s : LoopRun Keep) : (event : LoopEvent Keep) → Decidable (s.KeepsApart event)
  | .call (.registerAction fd dir _ _ _) =>
      inferInstanceAs (Decidable (∀ sock ∈ s.fds fd, ∀ d ∈ s.thread.pending,
        d.key = ⟨fd, dir⟩ → d.sock = sock))
  | .call (.replaceAction token _) =>
      inferInstanceAs (Decidable (∀ key ∈ s.loop.cancelMap token,
        ∀ keeper ∈ s.loop.fdToCallback key, s.callbackSock keeper.callback = s.tokenSock token))
  | .call (.deregisterAction _ _) => isTrue trivial
  | .call (.deregisterFd _ _) => isTrue trivial
  | .poll _ => isTrue trivial
  | .next => isTrue trivial
  | .fetch => isTrue trivial
  | .finish => isTrue trivial
  | .drain => isTrue trivial
  | .destroyed => isTrue trivial
  | .openFd _ => isTrue trivial
  | .closeFd _ => isTrue trivial

/-- A registered callback is made for a socket: for the one behind the descriptor if the kernel
watches that, and for the one of each event that is still to come there. -/
structure Socks (s : LoopRun Keep) : Prop where
  created : ∀ key keeper, s.loop.fdToCallback key = some keeper → keeper.callback < s.created
  watched : ∀ fd, s.loop.interest fd ≠ none → ∃ sock, s.fds fd = some sock ∧
    ∀ dir keeper, s.loop.fdToCallback ⟨fd, dir⟩ = some keeper →
      s.callbackSock keeper.callback = some sock
  pending : ∀ d ∈ s.thread.pending, ∀ keeper, s.loop.fdToCallback d.key = some keeper →
    s.callbackSock keeper.callback = some d.sock

theorem init_socks : (init : LoopRun Keep).Socks where
  created key keeper h := absurd h (by simp [init])
  watched fd h := absurd rfl h
  pending d h := absurd h (by simp [init, Thread.pending])

theorem Socks.sameSocket (h : s.Socks) : s.SameSocket :=
  fun d hd => h.pending d (Thread.nextCall_pending hd)

/-- A step of the thread that leaves everything but its own place. -/
theorem Socks.moved (h : s.Socks) {thread : Thread} {destroyed : List CallbackId}
    {queue : List CallbackId} (hpending : ∀ d ∈ thread.pending, d ∈ s.thread.pending) :
    Socks { s with
      loop := { s.loop with removeQueue := queue }, thread := thread, destroyed := destroyed } :=
  ⟨h.created, h.watched, fun d hd => h.pending d (hpending d hd)⟩

theorem Socks.fewer (h : s.Socks) {loop : EpollLoop CallbackId Keep}
    (hactions : ∀ key keeper, loop.fdToCallback key = some keeper →
      s.loop.fdToCallback key = some keeper)
    (hinterest : ∀ fd, loop.interest fd ≠ none → s.loop.interest fd ≠ none) :
    Socks { s with loop := loop } := by
  refine ⟨fun key keeper hat => h.created key keeper (hactions key keeper hat), fun fd hfd => ?_,
    fun d hd keeper hat => h.pending d hd keeper (hactions d.key keeper hat)⟩
  obtain ⟨sock, hsock, hall⟩ := h.watched fd (hinterest fd hfd)
  exact ⟨sock, hsock, fun dir keeper hat => hall dir keeper (hactions _ keeper hat)⟩

theorem madeFor_of_lt {id : CallbackId} (h : id < s.created) (sock : Option Sock) :
    s.madeFor sock id = s.callbackSock id :=
  if_neg (Nat.ne_of_lt h)

theorem madeFor_self (s : LoopRun Keep) (sock : Option Sock) : s.madeFor sock s.created = sock :=
  if_pos rfl

end LoopRun

namespace EpollLoop

variable {Callback Keep : Type} {loop : EpollLoop Callback Keep}

/-- Only a command to add makes the kernel watch another descriptor. -/
theorem epollCtl_known {interest interest' : PartialMap Fd EpollEvents} {fd : Fd} {cmd : EpollCmd}
    {ev : EpollEvents} {ok : Bool} (h : epollCtl interest fd cmd ev ok = some interest')
    (hcmd : cmd ≠ .add) {fd' : Fd} (hfd : interest' fd' ≠ none) : interest fd' ≠ none := by
  unfold epollCtl at h
  split at h
  · exact absurd h (by simp)
  · cases cmd with
    | add => exact absurd rfl hcmd
    | mod =>
        simp only at h
        split at h
        · rename_i hknown
          obtain rfl := Option.some.inj h
          rw [PartialMap.set_apply] at hfd
          split at hfd
          · rename_i heq
            exact heq ▸ PartialMap.contains_eq_true.mp hknown
          · exact hfd
        · exact absurd h (by simp)
    | del =>
        simp only at h
        split at h
        · obtain rfl := Option.some.inj h
          rw [PartialMap.erase_apply] at hfd
          split at hfd
          · exact absurd rfl hfd
          · exact hfd
        · exact absurd h (by simp)

theorem call_known {call : LoopCall Callback Keep}
    (hcall : ∀ command ∈ loop.ctlCall call, command.2 ≠ .add) {fd : Fd}
    (hfd : (loop.call call).interest fd ≠ none) : loop.interest fd ≠ none := by
  rcases call_interest loop call with hsame | ⟨command, ev, ok, hcommand, hset⟩
  · exact hsame ▸ hfd
  · exact epollCtl_known hset (hcall command hcommand) hfd

theorem deregisterAction_command {token : CancellationToken} {ok : Bool} :
    ∀ command ∈ loop.ctlCall (.deregisterAction token ok), command.2 ≠ .add := by
  intro command hcommand
  obtain ⟨key, -, hkey⟩ := Option.bind_eq_some_iff.mp hcommand
  split at hkey
  · obtain rfl := Option.some.inj hkey
    dsimp only
    split <;> simp
  · exact absurd hkey (by simp)

theorem deregisterFd_command {fd : Fd} {ok : Bool} :
    ∀ command ∈ loop.ctlCall (.deregisterFd fd ok), command.2 ≠ .add := by
  intro command hcommand
  rw [ctlCall] at hcommand
  split at hcommand
  · obtain rfl := Option.some.inj hcommand
    simp
  · exact absurd hcommand (by simp)

/-- Beside an action for the other direction, a new one needs a descriptor that the kernel watches.
-/
theorem registerAction_known {fd : Fd} {dir : IoDirection} {callback : Callback} {afd : Option Keep}
    {ok : Bool} {result : CancellationToken × EpollLoop Callback Keep}
    (h : loop.registerAction fd dir callback afd ok = some result)
    (hother : loop.fdToCallback ⟨fd, dir.opposite⟩ ≠ none) : loop.interest fd ≠ none := by
  unfold registerAction at h
  split at h
  · exact absurd h (by simp)
  · dsimp only at h
    split at h
    · exact absurd h (by simp)
    · rename_i loop₁ hctl
      obtain ⟨interest, hset, -⟩ := Option.map_eq_some_iff.mp hctl
      rw [if_pos (PartialMap.contains_eq_true.mpr hother)] at hset
      unfold epollCtl at hset
      split at hset
      · exact absurd hset (by simp)
      · simp only at hset
        split at hset
        · rename_i hknown
          exact PartialMap.contains_eq_true.mp hknown
        · exact absurd hset (by simp)

end EpollLoop

namespace LoopRun

variable {Keep : Type} {s t : LoopRun Keep}

theorem Socks.keeper_cases (h : s.Socks) {loop : EpollLoop CallbackId Keep} {key : FdDirection}
    {keep : Option Keep} (sock : Option Sock)
    (hactions : loop.fdToCallback = s.loop.fdToCallback.set key ⟨s.created, keep⟩)
    {key' : FdDirection} {keeper : CallbackKeeper CallbackId Keep}
    (hat : loop.fdToCallback key' = some keeper) :
    (key' = key ∧ keeper.callback = s.created ∧ s.madeFor sock keeper.callback = sock) ∨
      (key' ≠ key ∧ s.loop.fdToCallback key' = some keeper ∧ keeper.callback < s.created ∧
        s.madeFor sock keeper.callback = s.callbackSock keeper.callback) := by
  rw [hactions, PartialMap.set_apply] at hat
  split at hat
  · rename_i heq
    obtain rfl := Option.some.inj hat
    exact .inl ⟨heq, rfl, s.madeFor_self sock⟩
  · rename_i hne
    have hlt := h.created key' keeper hat
    exact .inr ⟨hne, hat, hlt, madeFor_of_lt hlt sock⟩

theorem Socks.registerAction (h : s.Socks) {fd : Fd} {dir : IoDirection} {afd : Option Keep}
    {ok : Bool} {sock : Sock} {token : CancellationToken} {loop : EpollLoop CallbackId Keep}
    (hsock : s.fds fd = some sock)
    (hapart : ∀ d ∈ s.thread.pending, d.key = ⟨fd, dir⟩ → d.sock = sock)
    (hregister : s.loop.registerAction fd dir s.created afd ok = some (token, loop)) :
    Socks { s with
      loop := loop, created := s.created + 1, tokenSock := s.tokenSock.set token sock,
      callbackSock := s.madeFor (some sock) } := by
  obtain ⟨hslot, -, hactions, -⟩ := EpollLoop.registerAction_eq_some hregister
  have hinterest := EpollLoop.registerAction_interest hregister
  refine ⟨fun key keeper hat => ?_, fun fd' hfd' => ?_, fun d hd keeper hat => ?_⟩
  · rcases h.keeper_cases (some sock) hactions hat with ⟨-, hnew, -⟩ | ⟨-, -, hlt, -⟩
    · rw [hnew]
      exact Nat.lt_succ_self _
    · exact Nat.lt_succ_of_lt hlt
  · by_cases hfd : fd' = fd
    · subst hfd
      refine ⟨sock, hsock, fun dir' keeper hat => ?_⟩
      rcases h.keeper_cases _ hactions hat with ⟨-, -, hmade⟩ | ⟨hne, hold, -, hmade⟩
      · exact hmade
      · -- the action for the other direction was made for a socket that the kernel still watches
        have hdir : dir' = dir.opposite := by
          cases dir <;> cases dir' <;> simp_all [IoDirection.opposite]
        have hother : s.loop.fdToCallback ⟨fd', dir.opposite⟩ ≠ none := by
          rw [← hdir, hold]
          simp
        obtain ⟨sock₁, hsock₁, hall⟩ :=
            h.watched fd' (EpollLoop.registerAction_known hregister hother)
        obtain rfl : sock₁ = sock := Option.some.inj (hsock₁.symm.trans hsock)
        exact hmade.trans (hall dir' keeper hold)
    · have hwatched : s.loop.interest fd' ≠ none := by
        rw [← PartialMap.set_of_ne s.loop.interest hfd, ← hinterest]
        exact hfd'
      obtain ⟨sock₁, hsock₁, hall⟩ := h.watched fd' hwatched
      refine ⟨sock₁, hsock₁, fun dir' keeper hat => ?_⟩
      rcases h.keeper_cases _ hactions hat with ⟨heq, -, -⟩ | ⟨-, hold, -, hmade⟩
      · exact absurd (congrArg FdDirection.fd heq) hfd
      · exact hmade.trans (hall dir' keeper hold)
  · rcases h.keeper_cases _ hactions hat with ⟨heq, -, hmade⟩ | ⟨-, hold, -, hmade⟩
    · rw [hapart d hd heq]
      exact hmade
    · exact hmade.trans (h.pending d hd keeper hold)

theorem Socks.replaceAction (h : s.Socks) {token : CancellationToken}
    (hapart : ∀ key ∈ s.loop.cancelMap token, ∀ keeper ∈ s.loop.fdToCallback key,
      s.callbackSock keeper.callback = s.tokenSock token) {loop : EpollLoop CallbackId Keep}
    (hreplace : s.loop.replaceAction token s.created = (true, loop)) :
    Socks { s with
      loop := loop, created := s.created + 1, callbackSock := s.madeFor (s.tokenSock token) } := by
  rcases EpollLoop.replaceAction_cases s.loop token
      s.created with ⟨hfailed, -⟩ | ⟨key, old, hkey, hslot, hreplaced⟩
  · exact absurd (hfailed.symm.trans hreplace) (by simp)
  obtain ⟨-, rfl⟩ := Prod.mk.inj (hreplaced.symm.trans hreplace)
  have hsame := hapart key hkey old hslot
  refine ⟨fun key' keeper hat => ?_, fun fd hfd => ?_, fun d hd keeper hat => ?_⟩
  · rcases h.keeper_cases (s.tokenSock token) rfl hat with ⟨-, hnew, -⟩ | ⟨-, -, hlt, -⟩
    · rw [hnew]
      exact Nat.lt_succ_self _
    · exact Nat.lt_succ_of_lt hlt
  · obtain ⟨sock, hsock, hall⟩ := h.watched fd hfd
    refine ⟨sock, hsock, fun dir keeper hat => ?_⟩
    rcases h.keeper_cases _ rfl hat with ⟨rfl, -, hmade⟩ | ⟨-, hold, -, hmade⟩
    · exact hmade.trans (hsame.symm.trans (hall dir old hslot))
    · exact hmade.trans (hall dir keeper hold)
  · rcases h.keeper_cases _ rfl hat with ⟨rfl, -, hmade⟩ | ⟨-, hold, -, hmade⟩
    · exact hmade.trans (hsame.symm.trans (h.pending d hd old hslot))
    · exact hmade.trans (h.pending d hd keeper hold)

theorem Socks.callStep (h : s.Socks) {call : LoopCall Unit Keep}
    (hapart : s.KeepsApart (.call call)) : (s.callStep call).Socks := by
  cases call with
  | registerAction fd dir callback afd ok =>
      simp only [LoopRun.callStep]
      split
      · exact h
      · rename_i sock hsock
        split
        · exact h
        · exact h.registerAction hsock (hapart sock hsock) ‹_›
  | replaceAction token callback =>
      simp only [LoopRun.callStep]
      split
      · exact h.replaceAction hapart ‹_›
      · exact h
  | deregisterAction token ok =>
      refine h.fewer (fun key keeper hat => ?_) fun fd hfd =>
        EpollLoop.call_known EpollLoop.deregisterAction_command hfd
      rcases EpollLoop.deregisterAction_cases s.loop token
          ok with ⟨-, heq⟩ | ⟨key₁, -, -, heq⟩ | ⟨key₁, old, -, -, done, interest, heq⟩
      · rwa [heq] at hat
      · rwa [heq] at hat
      · rw [heq] at hat
        exact ((PartialMap.erase_eq_some _).mp hat).2
  | deregisterFd fd ok =>
      refine h.fewer (fun key keeper hat => ?_) fun fd hfd =>
        EpollLoop.call_known EpollLoop.deregisterFd_command hfd
      rw [(EpollLoop.deregisterFd_tables s.loop fd ok).1] at hat
      exact ((PartialMap.erase_eq_some _).mp ((PartialMap.erase_eq_some _).mp hat).2).2

/-- What `epoll_wait` has just reported is the state of the sockets behind the descriptors. -/
theorem Socks.polls (h : s.Socks) {events : List Reported} (hreports : ∀ r ∈ events, s.Reports r) :
    Socks { s with thread := .handling events } := by
  refine ⟨h.created, h.watched, fun d hd keeper hat => ?_⟩
  obtain ⟨reported, hreported, hcall⟩ := List.mem_flatMap.mp hd
  cases reported with
  | io fd ev sock =>
      obtain ⟨rfl, rfl⟩ := fd_of_dispatches hcall
      obtain ⟨hwatched, hsock⟩ := hreports _ hreported
      obtain ⟨sock, hsock', hall⟩ := h.watched d.fd (PartialMap.contains_eq_true.mp hwatched)
      obtain rfl : sock = d.sock := Option.some.inj (hsock'.symm.trans hsock)
      exact hall d.dir keeper hat
  | remove => exact absurd hcall List.not_mem_nil
  | stop => exact absurd hcall List.not_mem_nil

theorem Socks.opened (h : s.Socks) {fd : Fd} (hfree : s.fds fd = none) :
    Socks { s with fds := s.fds.set fd s.nextSock, nextSock := s.nextSock + 1 } := by
  refine ⟨h.created, fun fd' hfd' => ?_, h.pending⟩
  obtain ⟨sock, hsock, hall⟩ := h.watched fd' hfd'
  have hne : fd' ≠ fd := by
    intro heq
    rw [heq, hfree] at hsock
    exact absurd hsock (by simp)
  exact ⟨sock, (PartialMap.set_of_ne _ hne _).trans hsock, hall⟩

theorem Socks.closed (h : s.Socks) (fd : Fd) :
    Socks { s with fds := s.fds.erase fd, loop :=
      { s.loop with interest := s.loop.interest.erase fd } } := by
  refine ⟨h.created, fun fd' hfd' => ?_, h.pending⟩
  by_cases heq : fd' = fd
  · subst heq
    exact absurd (PartialMap.erase_self _ _) hfd'
  · have hwatched : s.loop.interest fd' ≠ none := by
      rw [← PartialMap.erase_of_ne s.loop.interest heq]
      exact hfd'
    obtain ⟨sock, hsock, hall⟩ := h.watched fd' hwatched
    exact ⟨sock, (PartialMap.erase_of_ne _ heq).trans hsock, hall⟩

theorem Socks.step (h : s.Socks) {event : LoopEvent Keep} (hapart : s.KeepsApart event)
    (hstep : s.step event = some t) : t.Socks := by
  cases step_cases hstep with
  | pollFailed _ => exact h.moved (by simp [Thread.pending])
  | polled _ hreports => exact h.polls hreports
  | batchDone _ => exact h.moved (by simp [Thread.pending])
  | stopped _ => exact h.moved (by simp [Thread.pending])
  | removing hthread =>
      exact h.moved fun d hd => by simpa [Thread.pending, hthread, Reported.calls] using hd
  | event hthread =>
      exact h.moved fun d hd => by simpa [Thread.pending, hthread, Reported.calls] using hd
  | eventDone hthread => exact h.moved fun d hd => by simpa [Thread.pending, hthread] using hd
  | found hthread _ => exact h.moved fun d hd => hthread ▸ List.mem_cons_of_mem _ hd
  | notFound hthread _ => exact h.moved fun d hd => hthread ▸ List.mem_cons_of_mem _ hd
  | finished hthread => exact h.moved fun d hd => hthread ▸ hd
  | drained hthread _ => exact h.moved fun d hd => hthread ▸ hd
  | takenOut hthread _ => exact h.moved fun d hd => hthread ▸ hd
  | destroyed hthread => exact h.moved fun d hd => hthread ▸ hd
  | call call => exact h.callStep hapart
  | opened hfree => exact h.opened hfree
  | closed fd => exact h.closed fd

/-- As long as no call puts a callback in the way of another socket's event, an event reaches
callbacks of its own socket only. -/
theorem same_socket_of_apart (events : List (LoopEvent Keep))
    (h : machine.EachStep KeepsApart (init : LoopRun Keep) events) :
    machine.Always SameSocket (init : LoopRun Keep) events :=
  Machine.always_of_eachStep (fun _ hs => hs.sameSocket)
    (fun _ _ _ hs hapart hstep => hs.step hapart hstep) events init_socks h

/-- A descriptor that is waited on for input reports that it was hung up. Its callback closes it and
opens a new socket, which gets the number `fd`; that one starts to send. -/
def hangUp (fd : Fd) : List (LoopEvent Unit) :=
  [.openFd 5, .call (.registerAction 5 .input () none true), .poll (some [.io 5 epollHup 0]), .next,
    .fetch, .call (.deregisterFd 5 true), .closeFd 5, .openFd fd,
    .call (.registerAction fd .output () none true), .finish]

/-- The new socket gets another number. -/
theorem same_socket_of_hang_up :
    (machine.exec (init : LoopRun Unit) (hangUp 7)).isSome ∧
      machine.Always SameSocket (init : LoopRun Unit) (hangUp 7) :=
  ⟨by decide, same_socket_of_apart _ (by decide)⟩

/-- The new socket gets the same number, and the error of the first socket is reported to it. -/
theorem hang_up_reaches_next_socket :
    ¬ ∀ (events : List (LoopEvent Unit)) (s : LoopRun Unit),
      machine.exec init events = some s → s.SameSocket := by
  intro h
  have hrun : (machine.exec (init : LoopRun Unit) (hangUp 5)).map (fun s =>
      (s.thread.nextCall.map Dispatch.sock,
        s.thread.nextCall.bind fun d => (s.loop.fdToCallback d.key).bind fun keeper =>
          s.callbackSock keeper.callback))
      = some (some 0, some 1) := by
    decide
  obtain ⟨s, hexec, hstate⟩ := Option.map_eq_some_iff.mp hrun
  obtain ⟨hsock, hmade⟩ := Prod.mk.inj hstate
  obtain ⟨d, hd, hzero⟩ := Option.map_eq_some_iff.mp hsock
  rw [hd, Option.bind_some] at hmade
  obtain ⟨keeper, hkeeper, hone⟩ := Option.bind_eq_some_iff.mp hmade
  have hsame := h _ s hexec d hd keeper hkeeper
  rw [hone, hzero] at hsame
  exact absurd hsame (by decide)

end LoopRun

end Diplom
