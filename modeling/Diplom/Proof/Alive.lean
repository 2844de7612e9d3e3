import Diplom.Proof.Queues
import Diplom.Proof.Taken

/-!
# What the process with two threads lives through

An assertion fails on a length of zero that a reader sees, or on a message to be sent whose length
the header would show as zero; and there is no front to be removed from an empty queue. Where a
number stands for one socket, the reader sees the lengths that were sent, the messages to be sent
are hellos and those that were put in the queues, and whoever removes the front of a queue has left
it there.
-/

namespace Diplom

/-- `recv` moves no more than it was asked for. -/
def recvKept (op : RecvOp) : RecvReturn → Prop
  | .moved bytes => bytes.length ≤ op.left
  | .failed _ => True

/-- `send` takes no more than it was offered. -/
def sendKept (op : SendOp) : SendReturn → Prop
  | .moved count => count ≤ op.left
  | .failed _ => True

instance (op : RecvOp) (ret : RecvReturn) : Decidable (recvKept op ret) := by
  cases ret <;> unfold recvKept <;> infer_instance

instance (op : SendOp) (ret : SendReturn) : Decidable (sendKept op ret) := by
  cases ret <;> unfold sendKept <;> infer_instance

theorem not_aborted_of_sendKept {op : SendOp} {res : EpollResult} {ret : SendReturn}
    (h : sendKept op ret) : op.event res ret ≠ .aborted := by
  intro hevent
  obtain ⟨count, rfl, hmore⟩ := SendOp.event_aborted hevent
  exact absurd h (Nat.not_le.mpr hmore)

/-- What a section puts in a queue, and the number of the queue. -/
def Section.pushes : Section → Option (Fd × Parcel)
  | .pushBack h parcel => some (h.fd, parcel)
  | _ => none

namespace Shared

/-- What the system call of an operation can return. -/
def Delivers (s : Shared) (sent : Sock → List Byte) (fd : Fd) (res : EpollResult)
    (recv : RecvReturn) (send : SendReturn) : Closure OnMessage OnSent → Prop
  | .recv op _ => recvKept op recv ∧
      (∀ sock ∈ s.manager.io.fds fd,
        s.manager.io.taken sock ++ recv.bytes res <+: sent sock) ∧
      (s.manager.io.fds fd = none → recv.bytes res = [])
  | .send op _ => sendKept op send

instance (s : Shared) (sent : Sock → List Byte) (fd : Fd) (res : EpollResult) (recv : RecvReturn)
    (send : SendReturn) (closure : Closure OnMessage OnSent) :
    Decidable (s.Delivers sent fd res recv send closure) := by
  cases closure <;> unfold Delivers <;> infer_instance

variable {s s' : Shared} {sec : Section} {next : List Section}

/-- What makes a section end the process. -/
theorem Runs.alive_or (hruns : s.Runs sec s' next) :
    s'.manager.alive = s.manager.alive ∨
      (∃ h, sec = .popFront h ∧ s.manager.sendQueues h.fd = some []) ∨
      ∃ h data resolve, sec = .sendMessage h data resolve ∧ SendOp.msgLen data = 0 := by
  cases hruns with
  | popEmpty hqueue => exact .inr (.inl ⟨_, rfl, hqueue⟩)
  | sendAborted haborted => exact .inr (.inr ⟨_, _, _, rfl, Io.sendMessage_aborted.mp haborted⟩)
  | _ => exact .inl rfl

theorem Runs.placed (hruns : s.Runs sec s' next) :
    s'.placed = s.placed ∨ ∃ h parcel sock, sec = .pushBack h parcel ∧
      (s.manager.sendQueues h.fd).isSome ∧ s'.placed = s.placed ++ [(sock, parcel)] := by
  cases hruns with
  | pushBack hqueue => exact .inr ⟨_, _, _, rfl, by simp [hqueue], rfl⟩
  | _ => exact .inl rfl

/-- A message to be sent is a hello, or the front of a queue. -/
theorem Runs.sendMessage (hruns : s.Runs sec s' next) {h : Handle} {data : Message}
    {resolve : OnSent} (hmem : .sendMessage h data resolve ∈ next) :
    (∃ id type, data = (HelloMsg.make id type).serialize) ∨
      ∃ hd parcel rest, sec = .takeFront hd ∧ s.manager.sendQueues hd.fd = some (parcel :: rest) ∧
        data = parcel.body := by
  cases hruns with
  | leads hleads =>
      cases hleads <;> simp_all
      exact ⟨_, _, rfl⟩
  | notify =>
      have hnone := Call.handle_none_of_mem hmem
      exact absurd hnone (by simp [Section.handle])
  | opens _ htold =>
      rcases htold with rfl | rfl <;> simp_all <;> exact ⟨_, _, rfl⟩
  | pushBack _ => split at hmem <;> simp_all
  | popFront _ => split at hmem <;> simp_all
  | takeFront hqueue =>
      obtain ⟨-, rfl, -⟩ := Section.sendMessage.inj (List.mem_singleton.mp hmem)
      exact .inr ⟨_, _, _, rfl, hqueue, rfl⟩
  | insertQueue =>
      unfold opened at hmem
      split at hmem <;> simp_all
  | _ => simp_all

end Shared

namespace Process

variable {p p' : Process} {input : Input} {latest : Fd → Option Sock} {sent : Sock → List Byte}

/-- `recv` and `send` keep to what they are asked, and `recv` gives what the other end has sent, in
order, and nothing where the number is closed. -/
def Delivered (sent : Sock → List Byte) (p : Process) : Input → Prop
  | .transfer res recv send => ∀ r ∈ p.running,
      p.shared.Delivers sent r.handle.fd res recv send r.closure
  | _ => True

/-- No message that is put in a queue has a length that its header would show as zero. -/
def Carriable (p : Process) : Input → Prop
  | .run t _ => ∀ sec ∈ (p.work t).head?, ∀ e ∈ sec.pushes,
      (p.shared.manager.sendQueues e.1).isSome → SendOp.msgLen e.2.body ≠ 0
  | _ => True

instance (sent : Sock → List Byte) (p : Process) (input : Input) :
    Decidable (p.Delivered sent input) :=
  match input with
  | .transfer res recv send => inferInstanceAs (Decidable (∀ r ∈ p.running,
      p.shared.Delivers sent r.handle.fd res recv send r.closure))
  | .run _ _ | .call _ _ | .accept _ | .openOther _ | .closeOther _ | .fetch _ _ | .finish _
  | .destroy _ _ => .isTrue trivial

instance (p : Process) (input : Input) : Decidable (p.Carriable input) :=
  match input with
  | .run t _ => inferInstanceAs (Decidable (∀ sec ∈ (p.work t).head?, ∀ e ∈ sec.pushes,
      (p.shared.manager.sendQueues e.1).isSome → SendOp.msgLen e.2.body ≠ 0))
  | .transfer _ _ _ | .call _ _ | .accept _ | .openOther _ | .closeOther _ | .fetch _ _
  | .finish _ | .destroy _ _ => .isTrue trivial

/-- Nothing that would end the process is on its way. -/
structure Lively (p : Process) : Prop where
  alive : p.shared.manager.alive = true
  carried : ∀ e ∈ p.shared.placed, SendOp.msgLen e.2.body ≠ 0
  sends : ∀ t h data resolve, .sendMessage h data resolve ∈ p.work t → SendOp.msgLen data ≠ 0
  goesOn : ∀ r, p.running = some r → r.outcome ≠ some .abort

theorem init_lively (self : PeerId) (order : ByteOrder) : (init self order).Lively :=
  ⟨rfl, fun _ h => absurd h List.not_mem_nil, fun _ _ _ _ h => absurd h List.not_mem_nil,
    fun _ h => absurd h (by simp [init])⟩

theorem Lively.of_same (h : p.Lively) (halive : p'.shared.manager.alive = p.shared.manager.alive)
    (hplaced : p'.shared.placed = p.shared.placed)
    (hsends : ∀ t hd data resolve, .sendMessage hd data resolve ∈ p'.work t →
      .sendMessage hd data resolve ∈ p.work t ∨ SendOp.msgLen data ≠ 0)
    (hgoesOn : ∀ r, p'.running = some r → r.outcome ≠ some .abort) : p'.Lively := by
  refine ⟨halive.trans h.alive, fun e hmem => ?_, fun t hd data resolve hmem => ?_, hgoesOn⟩
  · rw [hplaced] at hmem
    exact h.carried e hmem
  · rcases hsends t hd data resolve hmem with hold | hnew
    · exact h.sends t hd data resolve hold
    · exact hnew

theorem msgLen_hello (id : PeerId) (type : Byte) :
    SendOp.msgLen (HelloMsg.make id type).serialize ≠ 0 := by
  rw [SendOp.msgLen, HelloMsg.length_serialize]
  decide

/-- Whoever takes the front of a queue finds a message there that was put in it. -/
theorem placed_of_takeFront (howned : p.Owned latest) (hflow : p.Flow latest) {t : ThreadId}
    {h : Handle} {rest : List Section} {parcel : Parcel} {behind : List Parcel}
    (hwork : p.work t = .takeFront h :: rest)
    (hqueue : p.shared.manager.sendQueues h.fd = some (parcel :: behind)) :
    ∃ e ∈ p.shared.placed, e.2 = parcel := by
  obtain ⟨waiting, hat⟩ := hflow.at_fd h.fd h.sock ((howned.rest hwork).1 h rfl)
  have hnext : Section.takeFront h ∈ p.work t := by simp [hwork]
  have hfits := hat.hands .ahead (.work hnext rfl)
  have hwaiting : parcel :: behind = waiting := hfits _ hqueue
  have hmem : parcel ∈ parcelsOf p.shared.placed h.sock := by
    rw [hat.order, ← hwaiting]
    simp
  obtain ⟨e, hplaced, he⟩ := List.mem_filterMap.mp hmem
  split at he
  · exact ⟨e, hplaced, Option.some.inj he⟩
  · exact absurd he (by simp)

theorem Lively.run (hparts : p.Parts) (howned : p.Owned latest) (hflow : p.Flow latest)
    (h : p.Lively) {t : ThreadId} {answer : Answer} {sec : Section} {rest next : List Section}
    {shared : Shared} (hcarriable : p.Carriable (.run t answer)) (hwork : p.work t = sec :: rest)
    (hruns : p.shared.Runs sec shared next) : (p.went t next rest shared).Lively := by
  have hmem : sec ∈ p.work t := by simp [hwork]
  refine ⟨?_, fun e he => ?_, fun t' hd data resolve hsec => ?_, h.goesOn⟩
  · rcases hruns.alive_or with hsame | ⟨hd, rfl, hempty⟩ | ⟨hd, data, resolve, rfl, hzero⟩
    · exact hsame.trans h.alive
    · -- an empty queue has no hand
      have hidle := (hparts.at_fd hd.fd).idle hempty
      have hcast := cast_le_tally hmem .sending hd.fd
      rw [cast_pos (show (Section.popFront hd).part = some (.sending, hd.fd) from rfl)] at hcast
      omega
    · exact absurd hzero (h.sends t hd data resolve hmem)
  · have he : e ∈ shared.placed := he
    rcases hruns.placed with hsame | ⟨hd, parcel, sock, rfl, hqueue, hnew⟩
    · exact h.carried e (hsame ▸ he)
    · rw [hnew] at he
      rcases List.mem_append.mp he with hold | hlast
      · exact h.carried e hold
      · rw [List.mem_singleton.mp hlast]
        exact hcarriable (.pushBack hd parcel) (by simp [hwork]) (hd.fd, parcel) rfl hqueue
  · rcases p.of_mem_setWork hwork hsec with hnew | hold
    · rcases hruns.sendMessage hnew with ⟨id, type, rfl⟩ | ⟨hd', parcel, behind, rfl, hqueue, rfl⟩
      · exact msgLen_hello id type
      · obtain ⟨e, hplaced, rfl⟩ := placed_of_takeFront howned hflow hwork hqueue
        exact h.carried e hplaced
    · exact h.sends t' hd data resolve hold

/-- On what was sent, a system call does not end the process. -/
theorem transfer_goesOn (haligned : p.Aligned)
    (hsent : ∀ sock, 0 ∉ (uint32 p.shared.manager.io.order).lengths (sent sock)) {r : Running}
    (hrunning : p.running = some r) (hfresh : r.outcome = none) {res : EpollResult}
    {recv : RecvReturn} {send : SendReturn}
    (hdelivered : p.Delivered sent (.transfer res recv send)) :
    (p.shared.transfer r res recv send).2 ≠ .abort := by
  obtain ⟨hd, a, closure, outcome⟩ := r
  obtain rfl : outcome = none := hfresh
  have hdelivered := hdelivered _ hrunning
  cases closure with
  | recv op resolve =>
      obtain ⟨hkept, hgiven, hnothing⟩ := hdelivered
      obtain ⟨hwf, htaken⟩ := haligned.finds hrunning rfl rfl
      rw [(p.transfer_recv rfl res recv send).2]
      have hasked : ∀ bytes, recv = .moved bytes → bytes.length ≤ op.left := by
        rintro bytes rfl
        exact hkept
      cases hevent : op.event p.shared.manager.io.order res recv with
      | aborted =>
          exfalso
          cases hsock : p.shared.manager.io.fds hd.fd with
          | some sock =>
              have hnext := hgiven sock hsock
              obtain ⟨messages, hfits, heq⟩ := htaken sock hsock
              rw [heq] at hnext
              exact hsent sock (hwf.zero_length hfits hasked hnext hevent)
          | none => exact hwf.not_aborted_of_nothing (hnothing hsock) hevent
      | waiting op' => simp [Running.recvOutcome]
      | next op' => simp [Running.recvOutcome]
      | resolved result => simp [Running.recvOutcome]
  | send op resolve =>
      have hout : (p.shared.transfer ⟨hd, a, .send op resolve, none⟩ res recv send).2
          = Running.sendOutcome hd resolve (op.event res send) := rfl
      rw [hout]
      cases hevent : op.event res send with
      | aborted => exact absurd hevent (not_aborted_of_sendKept hdelivered)
      | waiting op' => simp [Running.sendOutcome]
      | next op' => simp [Running.sendOutcome]
      | resolved result => simp [Running.sendOutcome]

theorem Lively.transferred (haligned : p.Aligned)
    (hsent : ∀ sock, 0 ∉ (uint32 p.shared.manager.io.order).lengths (sent sock)) (h : p.Lively)
    {r : Running} (hrunning : p.running = some r) (hfresh : r.outcome = none) {res : EpollResult}
    {recv : RecvReturn} {send : SendReturn}
    (hdelivered : p.Delivered sent (.transfer res recv send)) :
    (p.transferred r res recv send).Lively := by
  have hgoesOn := p.transfer_goesOn haligned hsent hrunning hfresh hdelivered
  have halive : (p.shared.transfer r res recv send).1.manager.alive = p.shared.manager.alive := by
    rw [Shared.transfer_tables]
  have hplaced := (p.shared.transfer_logs r res recv send).1
  refine h.of_same halive hplaced (fun _ _ _ _ hmem => .inl hmem) fun r' hr' habort => ?_
  obtain rfl := Option.some.inj hr'
  exact hgoesOn (Option.some.inj habort)

theorem Lively.step (hwf : p.Wf) (hparts : p.Parts) (howned : p.Owned latest)
    (hflow : p.Flow latest) (haligned : p.Aligned)
    (hsent : ∀ sock, 0 ∉ (uint32 p.shared.manager.io.order).lengths (sent sock)) (h : p.Lively)
    (hdelivered : p.Delivered sent input) (hcarriable : p.Carriable input)
    (hstep : Step p input p') : p'.Lively := by
  have hidle : ∀ {q : Process}, q.running = none → ∀ r, q.running = some r →
      r.outcome ≠ some .abort :=
    fun hnone r hr => absurd (hnone.symm.trans hr) (by simp)
  have hpassed : ∀ {t sec rest}, p.work t = sec :: rest → ∀ t' hd data resolve,
      .sendMessage hd data resolve ∈ (p.setWork t ([] ++ rest)).work t' →
      .sendMessage hd data resolve ∈ p.work t' ∨ SendOp.msgLen data ≠ 0 :=
    fun hwork _ _ _ _ hmem => .inl ((p.of_mem_setWork hwork hmem).resolve_left List.not_mem_nil)
  have hstay : ∀ t hd data resolve, .sendMessage hd data resolve ∈ p.work t →
      .sendMessage hd data resolve ∈ p.work t ∨ SendOp.msgLen data ≠ 0 :=
    fun _ _ _ _ => .inl
  cases hstep with
  | lock hwork _ => exact h.of_same rfl rfl (hpassed hwork) h.goesOn
  | unlock hwork => exact h.of_same rfl rfl (hpassed hwork) h.goesOn
  | run hwork hrun => exact h.run hparts howned hflow hcarriable hwork (Shared.run_cases hrun)
  | call _ =>
      refine h.of_same rfl rfl (fun t' hd data resolve hmem => .inl ?_) h.goesOn
      rcases p.of_mem_setWork_new hmem with hnew | hold
      · exact absurd (Call.handle_none hnew) (by simp [Section.handle])
      · exact hold
  | @accept fd _ _ =>
      refine h.of_same rfl rfl (fun t' hd data resolve hmem => .inl ?_) h.goesOn
      rcases (p.setIo (p.shared.manager.io.openFd fd)).of_mem_setWork_new hmem with hnew | hold
      · exact absurd (List.mem_singleton.mp hnew) (by simp)
      · exact hold
  | openOther _ => exact h.of_same rfl rfl hstay h.goesOn
  | closeOther _ => exact h.of_same rfl rfl hstay h.goesOn
  | fetch _ _ _ =>
      refine h.of_same rfl rfl hstay fun r hr habort => ?_
      obtain rfl := Option.some.inj hr
      exact absurd habort (by simp)
  | transfer hrunning hfresh => exact h.transferred haligned hsent hrunning hfresh hdelivered
  | kept _ _ _ => exact h.of_same rfl rfl hstay (hidle rfl)
  | dropped _ _ _ => exact h.of_same rfl rfl hstay (hidle rfl)
  | replaced _ _ _ => exact h.of_same rfl rfl hstay (hidle rfl)
  | unreplaced _ _ _ =>
      refine h.of_same rfl rfl hstay fun r hr habort => ?_
      obtain rfl := Option.some.inj hr
      exact absurd habort (by simp)
  | @resolved ok r next hrunning houtcome =>
      refine h.of_same rfl rfl (fun t hd data resolve hmem => .inl ?_) (hidle rfl)
      rcases (p.setIo (p.shared.manager.io.handBack r.afd ok)).of_mem_setWork_new hmem
        with hnew | hold
      · -- the lambda begins with what the operation has come to
        obtain rfl := List.mem_singleton.mp hnew
        have hresolves : r.Resolves (.sendMessage hd data resolve) :=
          (hwf.running r hrunning).fits _ houtcome
        unfold Running.Resolves at hresolves
        split at hresolves <;> exact absurd hresolves (by simp)
      · exact hold
  | aborted hrunning houtcome => exact absurd houtcome (h.goesOn _ hrunning)
  | destroy _ _ => exact h.of_same rfl rfl hstay h.goesOn

theorem order_step (hwf : p.Wf) (hunmoved : p.Unmoved) (hstep : Step p input p') :
    p'.shared.manager.io.order = p.shared.manager.io.order := by
  have hturn : Turn reading p input p' := hstep.turn hwf hunmoved
  cases hturn with
  | runs _ hruns _ => exact (hruns.taken hwf.io).2
  | opens _ hshared _ =>
      rw [hshared]
      rfl
  | @transfers res recv send r _ _ => exact (p.shared.transfer_io r res recv send).2.2.order
  | unreplaced _ _ _ => rfl
  | stays hstays _ => exact hstays.order

/-- Whoever gets a number finds nothing of its last owner, and nothing comes from outside that the
process cannot carry. -/
def Sane (sent : Sock → List Byte) (p : Process) (input : Input) : Prop :=
  p.OpensUnnamed input ∧ p.Delivered sent input ∧ p.NotAgain input ∧ p.Carriable input

theorem alive_of_run (self : PeerId) (order : ByteOrder) (inputs : List Input)
    (hsent : ∀ sock, 0 ∉ (uint32 order).lengths (sent sock))
    (h : machine.EachStep (Sane sent) (init self order) inputs) :
    machine.Always (fun p => p.shared.manager.alive = true) (init self order) inputs := by
  refine Machine.always_of_eachStep
    (I := fun p => p.Wf ∧ p.Parts ∧ p.Unmoved ∧ p.Aligned ∧ p.Lively ∧
      p.shared.manager.io.order = order ∧ ∃ latest, p.Owned latest ∧ p.Flow latest)
    (fun p hp => hp.2.2.2.2.1.alive) (fun p input p' hp hok hstep => ?_) inputs
    ⟨init_wf self order, init_parts self order, unmoved_of_idle rfl, init_aligned self order,
      init_lively self order, rfl, _, init_owned self order, init_flow self order⟩ h
  obtain ⟨hwf, hparts, hunmoved, haligned, hlively, horder, latest, howned, hflow⟩ := hp
  obtain ⟨hopens, hdelivered, hagain, hcarriable⟩ := hok
  have hcases := step_cases hstep
  exact ⟨hwf.step hcases, hparts.step hwf hopens hcases, hunmoved.step hwf hparts hcases,
    haligned.step hwf hparts howned hunmoved hopens hagain hcases,
    hlively.step hwf hparts howned hflow haligned (horder ▸ hsent) hdelivered hcarriable hcases,
    (order_step hwf hunmoved hcases).trans horder,
    _, howned.step hwf hopens hcases, hflow.step hwf hparts howned hopens hcases⟩

end Process

end Diplom
