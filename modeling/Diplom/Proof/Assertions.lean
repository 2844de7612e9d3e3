import Diplom.Proof.Alive
import Diplom.Proof.Listening

/-!
# Which input trips an assertion

`RegisterAction` and `ReplaceAction` assert what `ProcData` has just looked at. The two assertions
on the length of a message guard against input instead: a length prefix that shows zero, and a
message whose length the prefix would show as zero. Where none of either comes, and no `recv` says
`EAGAIN`, the process lives through every run: a reader then stands where the bytes that were sent
have a length or a body, so the lengths that it sees are those that were sent.
-/

namespace Diplom

namespace Snapshot

variable {s s' s'' : Snapshot} {fd : Fd}

/-- Behind the front of every queue are messages with a length to send. -/
def Sendable (s : Snapshot) : Prop :=
  ∀ fd queue, s.sendQueues fd = some queue → ∀ parcel ∈ queue.tail, SendOp.msgLen parcel.body ≠ 0

/-- The process lives as before, and no queue has anything new in it. -/
structure Calm (s s' : Snapshot) : Prop where
  alive : s'.alive = s.alive
  queues : ∀ fd queue, s'.sendQueues fd = some queue → queue = [] ∨ s.sendQueues fd = some queue

theorem Calm.refl (s : Snapshot) : Calm s s := ⟨rfl, fun _ _ h => .inr h⟩

theorem Calm.trans (h : Calm s s') (h' : Calm s' s'') : Calm s s'' := by
  refine ⟨h'.alive.trans h.alive, fun fd queue hqueue => ?_⟩
  rcases h'.queues fd queue hqueue with hnil | hsame
  · exact .inl hnil
  · exact h.queues fd queue hsame

theorem Calm.sendable (h : Calm s s') (hs : s.Sendable) : s'.Sendable := by
  intro fd queue hqueue parcel hparcel
  rcases h.queues fd queue hqueue with rfl | hsame
  · exact absurd hparcel (by simp)
  · exact hs fd queue hsame parcel hparcel

theorem Calm.after (h : Calm s' s'') (halive : s'.alive = s.alive)
    (hqueues : s'.sendQueues = s.sendQueues) : Calm s s'' :=
  ⟨h.alive.trans halive, fun fd queue hqueue => hqueues ▸ h.queues fd queue hqueue⟩

theorem Calm.note (h : Calm s s') (n : Notification) : Calm s (s'.note n) := ⟨h.alive, h.queues⟩

theorem calm_established (s : Snapshot) (fd : Fd) (conn : Conn) :
    Calm s (s.established fd conn) := by
  refine ⟨rfl, fun fd' queue hqueue => ?_⟩
  change (s.sendQueues.insert fd []) fd' = some queue at hqueue
  by_cases hfd : fd' = fd
  · subst hfd
    cases hold : s.sendQueues fd' with
    | none =>
        rw [PartialMap.insert_of_none _ hold, PartialMap.set_self] at hqueue
        exact .inl (Option.some.inj hqueue).symm
    | some old =>
        rw [PartialMap.insert_of_some _ hold, hold] at hqueue
        exact .inr hqueue
  · rw [PartialMap.insert_of_ne _ hfd] at hqueue
    exact .inr hqueue

theorem calm_closeFD (s : Snapshot) (fd : Fd) : Calm s (s.closeFD fd) := by
  unfold closeFD
  dsimp only
  split
  · exact ⟨rfl, fun _ _ h => .inr h⟩
  · exact ⟨rfl, fun _ _ h => .inr (PartialMap.erase_eq_some s.sendQueues |>.mp h).2⟩

theorem calm_reader (s : Snapshot) (fd : Fd) (registered : Bool) :
    Calm s (s.reader fd registered) := by
  cases registered with
  | true => exact ⟨rfl, fun _ _ h => .inr h⟩
  | false => exact calm_closeFD s fd

theorem calm_notesIf (s : Snapshot) (given : Bool) (n : Notification) :
    Calm s (s.notesIf given n) := by
  cases given <;> exact ⟨rfl, fun _ _ h => .inr h⟩

theorem calm_closeConnDir (s : Snapshot) (conn : Conn) : Calm s (s.closeConnDir conn) := by
  unfold closeConnDir
  split
  · exact Calm.refl s
  · exact calm_closeFD s _

theorem calm_closeConn (s : Snapshot) (peer : PeerId) (dir : LinkDirection) :
    Calm s (s.closeConn peer dir) := by
  unfold closeConn
  dsimp only
  split <;> split
  · exact (calm_closeConnDir s _).trans (calm_closeConnDir _ _)
  · exact calm_closeConnDir s _
  · exact calm_closeConnDir s _
  · exact Calm.refl s

/-- A queue of messages with a length starts without an assertion that fails, and keeps them. -/
theorem QueueRun.sendable {queue : List Parcel} (h : QueueRun s fd queue s')
    (hqueue : ∀ parcel ∈ queue, SendOp.msgLen parcel.body ≠ 0)
    (hothers : ∀ fd' other, fd' ≠ fd → s.sendQueues fd' = some other → ∀ parcel ∈ other.tail,
      SendOp.msgLen parcel.body ≠ 0) : s'.alive = s.alive ∧ s'.Sendable := by
  have hset : ∀ front rest, (∀ parcel ∈ rest, SendOp.msgLen parcel.body ≠ 0) →
      (s.setQueue fd (front ++ rest)).sendQueues = s.sendQueues.set fd (front ++ rest) →
      front.length ≤ 1 → (s.setQueue fd (front ++ rest)).Sendable := by
    intro front rest hrest hsame hfront fd' other hother parcel hparcel
    rw [hsame, PartialMap.set_apply] at hother
    split at hother
    · obtain rfl := Option.some.inj hother
      refine hrest parcel ?_
      match front, hfront with
      | [], _ => exact List.mem_of_mem_tail hparcel
      | [_], _ => exact hparcel
    · rename_i hne
      exact hothers fd' other hne hother parcel hparcel
  induction h with
  | idle => exact ⟨rfl, hset [] [] (by simp) rfl (by simp)⟩
  | starts parcel rest hlength =>
      exact ⟨rfl, hset [parcel.movedOut] rest (fun p hp => hqueue p (List.mem_cons_of_mem _ hp))
        rfl (by simp)⟩
  | aborts parcel rest hlength => exact absurd hlength (hqueue parcel (by simp))
  | refused parcel h ih => exact ih fun p hp => hqueue p (List.mem_cons_of_mem _ hp)

end Snapshot

namespace ConnectionManager

open Snapshot (Calm)

/-- `recv` and `send` keep to what they are asked, and `recv` gives what the other end has sent, in
order. -/
def Event.Delivered (sent : Sock → List Byte) (w : ConnectionManager) : Event → Prop
  | .readable fd res ret _ => (∀ r ∈ w.io.recvAt fd, recvKept r.1 ret) ∧
      ∀ sock ∈ w.io.fds fd, w.io.taken sock ++ ret.bytes res <+: sent sock
  | .writable fd _ ret _ => ∀ r ∈ w.io.sendAt fd, sendKept r.1 ret
  | _ => True

/-- No message that a connection is given has a length that its prefix would show as zero. -/
def Event.Carriable (w : ConnectionManager) : Event → Prop
  | .sendMessage peer msg _ => ∀ fd ∈ w.lookupFd peer, (w.sendQueues fd).isSome →
    SendOp.msgLen msg ≠ 0
  | _ => True

instance (sent : Sock → List Byte) (w : ConnectionManager) (event : Event) :
    Decidable (event.Delivered sent w) := by
  cases event <;> unfold Event.Delivered <;> infer_instance

instance (w : ConnectionManager) (event : Event) : Decidable (event.Carriable w) := by
  cases event <;> unfold Event.Carriable <;> infer_instance

variable {w w' : ConnectionManager} {event : Event}

/-- What a socket has taken is whole frames, and what its reader has of the next one. -/
theorem taken_eq_frames {s : Listening} (h : s.Sound) {fd : Fd} {sock : Sock}
    (hsock : s.manager.io.fds fd = some sock) {op : RecvOp} {resolve : OnMessage}
    (hat : s.manager.io.recvAt fd = some (op, resolve)) :
    op.Wf ∧ ∃ messages, (uint32 s.manager.io.order).Fits messages ∧
      s.manager.io.taken sock =
        (uint32 s.manager.io.order).frames messages ++ op.consumed s.manager.io.order := by
  have hlife := h.manager.ok.life_of_held (s := s.manager.snapshot) hsock
  have hlistens := h.listens sock
  rw [hlife] at hlistens
  by_cases hread : resolve = .readMessage
  · subst hread
    obtain ⟨hwf, hheard⟩ := hlistens.reads op hat
    have hstaged : (s.manager.snapshot.lifeAt fd sock).Staged :=
      hlife ▸ Life.staged h.manager.ok sock
    obtain ⟨conn, hactive⟩ := hstaged.reader_active hat
    obtain ⟨type, htaken⟩ := (hheard conn (hlistens.active conn hactive)).bytes
    refine ⟨hwf, _, ?_, htaken⟩
    intro m hm
    rcases List.mem_cons.mp hm with rfl | hm
    · rw [HelloMsg.length_serialize, uint32_bound]
      decide
    · obtain ⟨e, he, rfl⟩ := List.mem_map.mp hm
      simpa using hlistens.fits e he
  · obtain ⟨hwf, htaken, -⟩ := hlistens.exchange op resolve hat hread
    exact ⟨hwf, [], by simp [LengthCode.Fits], htaken⟩

theorem zero_sent {s : Listening} (h : s.Sound) {sent : Sock → List Byte} {fd : Fd}
    {res : EpollResult} {ret : RecvReturn} {answers : Answers}
    (hdelivered : (Event.readable fd res ret answers).Delivered sent s.manager) {op : RecvOp}
    {resolve : OnMessage} (hat : s.manager.io.recvAt fd = some (op, resolve))
    (hevent : op.event s.manager.io.order res ret = .aborted) :
    ∃ sock, 0 ∈ (uint32 s.manager.io.order).lengths (sent sock) := by
  obtain ⟨hasked, hsent⟩ := hdelivered
  have hopen : s.manager.io.fds fd ≠ none := by
    intro hclosed
    have hnone := ((h.manager.ok.stage fd).closed hclosed).2.1
    exact absurd (hat.symm.trans hnone) (by simp)
  obtain ⟨sock, hsock⟩ := Option.ne_none_iff_exists'.mp hopen
  obtain ⟨hwf, messages, hfits, htaken⟩ := taken_eq_frames h hsock hat
  have hkept := hasked _ hat
  refine ⟨sock, hwf.zero_length hfits (fun bytes hret => ?_) (htaken ▸ hsent sock hsock) hevent⟩
  rw [hret] at hkept
  exact hkept

theorem move_alive (hs : w.snapshot.Sendable) {sent : Sock → List Byte}
    (hdelivered : event.Delivered sent w)
    (hreads : ∀ fd res ret answers, event = .readable fd res ret answers →
      ∀ op resolve, w.io.recvAt fd = some (op, resolve) →
        op.event w.io.order res ret ≠ .aborted)
    (hsends : ∀ peer msg registers, event = .sendMessage peer msg registers → SendOp.msgLen msg ≠ 0)
    {s' : Snapshot} (hmove : Snapshot.Move w.snapshot event s') :
    s'.alive = w.alive ∧ s'.Sendable := by
  have hcalm : Calm w.snapshot s' → s'.alive = w.alive ∧ s'.Sendable :=
    fun hc => ⟨hc.alive, hc.sendable hs⟩
  cases hmove with
  | accepted hfree => exact hcalm ⟨rfl, fun _ _ h => .inr h⟩
  | acceptUnwatched hfree => exact hcalm ⟨rfl, fun _ _ h => .inr h⟩
  | recvGoesOn hat hevent => exact hcalm ⟨rfl, fun _ _ h => .inr h⟩
  | recvAborts hat hevent =>
      exact absurd hevent (hreads _ _ _ _ rfl _ _ hat)
  | helloDropped hat hhello hevent hbad => exact hcalm ⟨rfl, fun _ _ h => .inr h⟩
  | helloAnswered hat hevent => exact hcalm ⟨rfl, fun _ _ h => .inr h⟩
  | sessionOut hat hevent registered hreader =>
      exact hcalm ((((Snapshot.calm_established _ _ _).trans (Snapshot.calm_reader _ _ _)).note
        _).after rfl rfl)
  | messageRead hat hconn hevent registered =>
      exact hcalm ((Snapshot.calm_reader _ _ _).after rfl rfl)
  | readFailed hat hevent => exact hcalm ((Snapshot.calm_closeFD _ _).after rfl rfl)
  | sendGoesOn hat hevent => exact hcalm ⟨rfl, fun _ _ h => .inr h⟩
  | sendAborts hat hevent =>
      obtain ⟨count, rfl, hmore⟩ := SendOp.event_aborted hevent
      exact absurd (hdelivered _ hat) (not_le.mpr hmore)
  | answerUnsent hat hevent => exact hcalm ⟨rfl, fun _ _ h => .inr h⟩
  | sessionIn hat hevent registered =>
      exact hcalm ((((Snapshot.calm_established _ _ _).note _).trans
        (Snapshot.calm_reader _ _ _)).after rfl rfl)
  | notifyUnsent hat hevent => exact hcalm ⟨rfl, fun _ _ h => .inr h⟩
  | notifySent hat hevent => exact hcalm ⟨rfl, fun _ _ h => .inr h⟩
  | notifyUnanswered hat hevent => exact hcalm ⟨rfl, fun _ _ h => .inr h⟩
  | queueAdvances hat hqueue hevent hrun =>
      exact hrun.sendable (hs _ _ hqueue) fun fd' other _ hother => hs fd' other hother
  | sendNowhere => exact hcalm (Calm.refl _)
  | @sendQueued peer msg registers fd queue hqueue hwaits =>
      refine ⟨rfl, fun fd' other hother parcel hparcel => ?_⟩
      change (w.snapshot.sendQueues.set fd (queue ++ [⟨peer, msg⟩])) fd' = some other at hother
      rw [PartialMap.set_apply] at hother
      split at hother
      · obtain rfl := Option.some.inj hother
        rw [List.tail_append_of_ne_nil hwaits, List.mem_append, List.mem_singleton] at hparcel
        rcases hparcel with hold | rfl
        · exact hs fd queue hqueue parcel hold
        · exact hsends peer msg registers rfl
      · exact hs fd' other hother parcel hparcel
  | @sendAlone peer msg registers fd _ hqueue hrun =>
      refine hrun.sendable ?_ fun fd' other hne hother => ?_
      · simpa using hsends peer msg registers rfl
      · change (w.snapshot.sendQueues.set fd [⟨peer, msg⟩]) fd' = some other at hother
        rw [PartialMap.set_of_ne _ hne] at hother
        exact hs fd' other hother
  | notDialed kind => exact hcalm ⟨rfl, fun _ _ h => .inr h⟩
  | dialed hfree early => exact hcalm ((Snapshot.calm_notesIf _ _ _).after rfl rfl)
  | dialUnwatched hfree early => exact hcalm (((Snapshot.calm_notesIf _ _ _).note _).after rfl rfl)
  | closed => exact hcalm (Snapshot.calm_closeConn _ _ _)
  | destroyed hrecv hsend => exact hcalm ⟨rfl, fun _ _ h => .inr h⟩

/-- A message for a peer without a connection is dropped. -/
theorem sendMessage_nowhere {peer : PeerId} {msg : Message} {registers : List Bool}
    (h : ¬ ∃ fd, w.lookupFd peer = some fd ∧ (w.sendQueues fd).isSome) :
    w.sendMessage peer msg registers = w := by
  unfold sendMessage
  cases hfd : w.lookupFd peer with
  | none => rfl
  | some fd =>
      cases hqueue : w.sendQueues fd with
      | none => simp [pushBack, hqueue]
      | some queue => exact absurd ⟨fd, hfd, by rw [hqueue]; rfl⟩ h

/-- The sockets of a manager are listened to, whatever has been passed on from them. -/
def Heeded (w : ConnectionManager) : Prop := ∃ got, (⟨w, got⟩ : Listening).Sound

theorem Heeded.step (h : w.Heeded) (hagain : event.NotAgain) (hstep : w.step event = some w') :
    w'.Heeded := by
  obtain ⟨got, hsound⟩ := h
  have hlistening : (⟨w, got⟩ : Listening).step event =
      some ⟨w', appendTo got (w.socketOf event) (w.passed w')⟩ := by
    rw [Listening.step, hstep]
    rfl
  exact ⟨_, hsound.step hagain hlistening⟩

theorem Heeded.step_alive (h : w.Heeded) (hs : w.snapshot.Sendable) {sent : Sock → List Byte}
    (hsent : ∀ sock, 0 ∉ (uint32 w.io.order).lengths (sent sock))
    (hdelivered : event.Delivered sent w) (hcarriable : event.Carriable w)
    (hstep : w.step event = some w') : w'.alive = true ∧ w'.snapshot.Sendable := by
  obtain ⟨got, hsound⟩ := h
  have halive : w.alive = true := by
    by_contra hdead
    have hnone : w.step event = none := if_pos (by simpa using hdead)
    exact absurd (hnone.symm.trans hstep) (by simp)
  have hreads : ∀ fd res ret answers, event = .readable fd res ret answers →
      ∀ op resolve, w.io.recvAt fd = some (op, resolve) →
        op.event w.io.order res ret ≠ .aborted := by
    rintro fd res ret answers rfl op resolve hat hevent
    obtain ⟨sock, hzero⟩ := zero_sent hsound hdelivered hat hevent
    exact hsent sock hzero
  by_cases hnowhere : ∃ peer msg registers, event = .sendMessage peer msg registers ∧
      ¬ ∃ fd, w.lookupFd peer = some fd ∧ (w.sendQueues fd).isSome
  · obtain ⟨peer, msg, registers, rfl, hnone⟩ := hnowhere
    have hunsent : w.step (.sendMessage peer msg registers)
        = some (w.sendMessage peer msg registers) :=
      if_neg (by simp [halive])
    rw [sendMessage_nowhere hnone] at hunsent
    obtain rfl := Option.some.inj (hunsent.symm.trans hstep)
    exact ⟨halive, hs⟩
  · obtain ⟨-, hmove⟩ := hsound.manager.step hstep
    refine (move_alive hs hdelivered hreads ?_ hmove).imp_left fun hsame => hsame.trans halive
    rintro peer msg registers rfl
    by_contra hzero
    refine hnowhere ⟨peer, msg, registers, rfl, fun ⟨fd, hfd, hqueue⟩ => ?_⟩
    exact hcarriable fd hfd hqueue (by simpa using hzero)

theorem alive_of_run (self : PeerId) (order : ByteOrder) (sent : Sock → List Byte)
    (hsent : ∀ sock, 0 ∉ (uint32 order).lengths (sent sock)) (events : List Event)
    (h : machine.EachStep (fun w event => event.Delivered sent w ∧ event.NotAgain ∧
      event.Carriable w) (init self order) events) :
    machine.Always (fun w => w.alive = true) (init self order) events := by
  refine Machine.always_of_eachStep
    (I := fun w => w.alive = true ∧ w.Heeded ∧ w.snapshot.Sendable ∧ w.io.order = order)
    (fun _ hw => hw.1) ?_ events ⟨rfl, ⟨_, Listening.init_sound self order⟩,
      fun fd queue hqueue => absurd hqueue (by simp [snapshot, init]), rfl⟩ h
  rintro w event w' ⟨-, hheeded, hs, rfl⟩ ⟨hdelivered, hagain, hcarriable⟩ hstep
  obtain ⟨halive, hsendable⟩ := hheeded.step_alive hs hsent hdelivered hcarriable hstep
  refine ⟨halive, hheeded.step hagain hstep, hsendable, ?_⟩
  obtain ⟨got, hsound⟩ := hheeded
  exact (hsound.manager.ok.move_life (hsound.manager.step hstep).2).order

end ConnectionManager

open ConnectionManager (Event)

/-- In a run whose input can be carried, no assertion fails: neither where a callback and a call are
one step, nor between two threads where a number is given to a new socket only when nothing names
it. -/
theorem no_assertion_fails (self : PeerId) (order : ByteOrder) (sent : Sock → List Byte)
    (hsent : ∀ sock, 0 ∉ (uint32 order).lengths (sent sock)) :
    (∀ events : List Event,
      ConnectionManager.machine.EachStep
        (fun w event => event.Delivered sent w ∧ event.NotAgain ∧ event.Carriable w)
        (.init self order) events →
      ConnectionManager.machine.Always (fun w => w.alive = true) (.init self order) events) ∧
    ∀ inputs : List Process.Input,
      Process.machine.EachStep (Process.Sane sent) (.init self order) inputs →
      Process.machine.Always (fun p => p.shared.manager.alive = true) (.init self order) inputs :=
  ⟨ConnectionManager.alive_of_run self order sent hsent,
    fun inputs => Process.alive_of_run self order inputs hsent⟩

section

open ConnectionManager Process

/-- An incoming connection, a message on it in each direction, and its end; and the same while the
manager's thread is in the middle of its call. -/
theorem no_assertion_fails_of_conversation :
    let events := incomingHandshake 5 ann ++
      [.sendMessage ann [7] [], .writable 5 (.ok ()) (.moved 4) .granted,
        .readable 5 (.ok ()) (.moved [1, 0, 0, 0]) .granted,
        .readable 5 (.ok ()) (.moved [9]) .granted, .closeSession ann .all true]
    let inputs := acceptsFrom 5 ann ++ [.call .manager (.sendMessage ann [7])] ++ managerRuns 2 ++
      readsMessage 5 [9] ++ managerRuns 4 ++ loopRuns 3 ++ writes 5 4 ++ writes 5 1 ++ loopRuns 2
    ((ConnectionManager.machine.exec (.init bob .little) events).isSome ∧
      ConnectionManager.machine.Always (fun w => w.alive = true) (.init bob .little) events) ∧
    (Process.machine.exec (.init bob .little) inputs).isSome ∧
      Process.machine.Always (fun p => p.shared.manager.alive = true) (.init bob .little)
        inputs := by
  let stream := (uint32 .little).frames [(HelloMsg.make ann helloNotify).serialize, [9]]
  have hstream : 0 ∉ (uint32 .little).lengths stream := by decide +kernel
  obtain ⟨hcalls, hthreads⟩ :=
    no_assertion_fails bob .little (fun _ => stream) fun _ => hstream
  exact ⟨⟨by decide +kernel, hcalls _ (by decide +kernel)⟩, by decide +kernel,
    hthreads _ (Machine.EachStep.and (eachStep_of_accept bob .little 5 _ (by decide))
      (by decide +kernel))⟩

/-- Four zero bytes from anyone who connects end the process. -/
theorem zero_length_aborts :
    ¬ ∀ (self : PeerId) (order : ByteOrder) (sent : Sock → List Byte) (events : List Event),
      ConnectionManager.machine.EachStep (fun w event => event.Delivered sent w) (.init self order)
        events →
      ConnectionManager.machine.Always (fun w => w.alive = true) (.init self order) events := by
  intro h
  have halive :=
    h bob .little (fun _ => [0, 0, 0, 0])
      [.accept 5 true, .readable 5 (.ok ()) (.moved [0, 0, 0, 0]) .granted] (by decide +kernel)
  exact absurd (halive.last
    (t := (ConnectionManager.machine.exec (.init bob .little)
      [.accept 5 true, .readable 5 (.ok ()) (.moved [0, 0, 0, 0]) .granted]).get
    (by decide +kernel)) (by simp)) (by decide +kernel)

end

end Diplom
