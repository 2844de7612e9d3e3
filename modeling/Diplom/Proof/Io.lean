import Diplom.Proof.AsyncLoop
import Diplom.Transport.Io

/-!
# What the layer below connections does

One lemma for each operation of `Io`: which operations are registered afterwards, and that nothing
else has changed. `Wf` says that every registered closure belongs to an object that holds the token
of that very place; it is why a callback never loses its place while it runs.
-/

namespace Diplom

namespace Io

variable {OnMessage OnSent : Type} {io io' : Io OnMessage OnSent}

/-- Every registered closure has its object, armed in its place. -/
structure Wf (io : Io OnMessage OnSent) : Prop where
  loop : io.loop.Wf
  armed : ∀ key keeper, io.loop.fdToCallback key = some keeper → ∃ a, io.objects key = some a ∧
    a.fd = key.fd ∧ keeper.callback.dir = key.direction ∧ a.Armed io.loop keeper.callback

theorem init_wf (order : ByteOrder) : (init order : Io OnMessage OnSent).Wf :=
  ⟨EpollLoop.init_wf, fun _ _ h => absurd h (by simp [init])⟩

/-- The descriptors and their sockets are the same ones. -/
structure SameSockets (io io' : Io OnMessage OnSent) : Prop where
  order : io'.order = io.order
  fds : io'.fds = io.fds
  nextSock : io'.nextSock = io.nextSock
  closes : io'.closes = io.closes

/-- The same, and nothing has passed through a socket. -/
structure Silent (io io' : Io OnMessage OnSent) : Prop extends SameSockets io io' where
  written : io'.written = io.written
  taken : io'.taken = io.taken

theorem Wf.of_same (h : io.Wf) {key : FdDirection}
    (hsame : EpollLoop.SameElsewhere key io.loop io'.loop) (hloop : io'.loop.Wf)
    (hobjects : ∀ key', key' ≠ key → io'.objects key' = io.objects key')
    (hkey : ∀ keeper, io'.loop.fdToCallback key = some keeper → ∃ a, io'.objects key = some a ∧
      a.fd = key.fd ∧ keeper.callback.dir = key.direction ∧ a.Armed io'.loop keeper.callback) :
    io'.Wf := by
  refine ⟨hloop, fun key' keeper hslot => ?_⟩
  by_cases hk : key' = key
  · subst hk
    exact hkey keeper hslot
  · rw [hsame.slots key' hk] at hslot
    obtain ⟨a, hobj, hfd, hdir, harmed⟩ := h.armed key' keeper hslot
    refine ⟨a, (hobjects key' hk).trans hobj, hfd, hdir, harmed.of_same hsame hloop ?_⟩
    rw [hfd, hdir]
    exact hk

theorem Wf.place (h : io.Wf) {a : AsyncFd} {loop : AsyncLoop OnMessage OnSent}
    {closure : Closure OnMessage OnSent} (harmed : a.Armed loop closure)
    (hsame : EpollLoop.SameElsewhere ⟨a.fd, closure.dir⟩ io.loop loop) :
    (io.place ⟨a.fd, closure.dir⟩ a loop).Wf := by
  refine h.of_same hsame harmed.wf (fun key hne => PartialMap.set_of_ne _ hne _) ?_
  intro keeper hkeeper
  obtain rfl := Option.some.inj (hkeeper.symm.trans harmed.slot)
  exact ⟨a, PartialMap.set_self _ _ _, rfl, rfl, harmed⟩

theorem Wf.vacate (h : io.Wf) {key : FdDirection} {loop : AsyncLoop OnMessage OnSent}
    (hloop : loop.Wf) (hfree : loop.fdToCallback key = none)
    (hsame : EpollLoop.SameElsewhere key io.loop loop) : (io.vacate key loop).Wf := by
  refine h.of_same hsame hloop (fun key' hne => PartialMap.erase_of_ne _ hne) ?_
  intro keeper hkeeper
  exact absurd (hkeeper.symm.trans hfree) (by simp)

/-! ### Reading the table -/

theorem recvAt_of_slot (io : Io OnMessage OnSent) {fd : Fd} {closure : Closure OnMessage OnSent}
    {keep : Option Unit} (h : io.loop.fdToCallback ⟨fd, .input⟩ = some ⟨closure, keep⟩) :
    io.recvAt fd = closure.asRecv := by
  simp [recvAt, EpollLoop.callbackAt, h]

theorem sendAt_of_slot (io : Io OnMessage OnSent) {fd : Fd} {closure : Closure OnMessage OnSent}
    {keep : Option Unit} (h : io.loop.fdToCallback ⟨fd, .output⟩ = some ⟨closure, keep⟩) :
    io.sendAt fd = closure.asSend := by
  simp [sendAt, EpollLoop.callbackAt, h]

theorem recvAt_of_free (io : Io OnMessage OnSent) {fd : Fd}
    (h : io.loop.fdToCallback ⟨fd, .input⟩ = none) : io.recvAt fd = none := by
  simp [recvAt, EpollLoop.callbackAt, h]

theorem sendAt_of_free (io : Io OnMessage OnSent) {fd : Fd}
    (h : io.loop.fdToCallback ⟨fd, .output⟩ = none) : io.sendAt fd = none := by
  simp [sendAt, EpollLoop.callbackAt, h]

theorem recvAt_congr {fd : Fd}
    (h : io'.loop.fdToCallback ⟨fd, .input⟩ = io.loop.fdToCallback ⟨fd, .input⟩) :
    io'.recvAt fd = io.recvAt fd := by
  simp only [recvAt, EpollLoop.callbackAt, h]

theorem sendAt_congr {fd : Fd}
    (h : io'.loop.fdToCallback ⟨fd, .output⟩ = io.loop.fdToCallback ⟨fd, .output⟩) :
    io'.sendAt fd = io.sendAt fd := by
  simp only [sendAt, EpollLoop.callbackAt, h]

theorem Wf.of_recvAt (h : io.Wf) {fd : Fd} {op : RecvOp} {resolve : OnMessage}
    (hat : io.recvAt fd = some (op, resolve)) :
    io.loop.callbackAt fd .input = some (.recv op resolve) ∧ ∃ a, io.objects ⟨fd, .input⟩ = some a ∧
      a.fd = fd ∧ a.Armed io.loop (.recv op resolve) := by
  obtain ⟨closure, hclosure, has⟩ := Option.bind_eq_some_iff.mp hat
  obtain ⟨keeper, hslot, rfl⟩ := Option.map_eq_some_iff.mp hclosure
  obtain ⟨a, hobj, hfd, hdir, harmed⟩ := h.armed _ keeper hslot
  cases hc : keeper.callback with
  | recv op' resolve' =>
      rw [hc] at has
      obtain ⟨rfl, rfl⟩ := Prod.mk.inj (Option.some.inj has)
      exact ⟨hc ▸ hclosure, a, hobj, hfd, hc ▸ harmed⟩
  | send op' resolve' => exact absurd hdir (by rw [hc]; simp [Closure.dir])

theorem Wf.of_sendAt (h : io.Wf) {fd : Fd} {op : SendOp} {resolve : OnSent}
    (hat : io.sendAt fd = some (op, resolve)) :
    io.loop.callbackAt fd .output = some (.send op resolve) ∧ ∃ a,
      io.objects ⟨fd, .output⟩ = some a ∧ a.fd = fd ∧ a.Armed io.loop (.send op resolve) := by
  obtain ⟨closure, hclosure, has⟩ := Option.bind_eq_some_iff.mp hat
  obtain ⟨keeper, hslot, rfl⟩ := Option.map_eq_some_iff.mp hclosure
  obtain ⟨a, hobj, hfd, hdir, harmed⟩ := h.armed _ keeper hslot
  cases hc : keeper.callback with
  | recv op' resolve' => exact absurd hdir (by rw [hc]; simp [Closure.dir])
  | send op' resolve' =>
      rw [hc] at has
      obtain ⟨rfl, rfl⟩ := Prod.mk.inj (Option.some.inj has)
      exact ⟨hc ▸ hclosure, a, hobj, hfd, hc ▸ harmed⟩

/-- A change in the input place of one descriptor, seen as a change of the receiving operations. -/
theorem place_recv (io : Io OnMessage OnSent) {fd : Fd} {a : AsyncFd}
    {loop : AsyncLoop OnMessage OnSent} {op : RecvOp} {resolve : OnMessage}
    (hsame : EpollLoop.SameElsewhere ⟨fd, .input⟩ io.loop loop)
    (hslot : loop.fdToCallback ⟨fd, .input⟩ = some ⟨.recv op resolve, some ()⟩) :
    (io.place ⟨fd, .input⟩ a loop).recvAt = io.recvAt.set fd (op, resolve) ∧
      (io.place ⟨fd, .input⟩ a loop).sendAt = io.sendAt := by
  constructor <;> funext fd'
  · by_cases hfd : fd' = fd
    · subst hfd
      rw [PartialMap.set_self]
      exact recvAt_of_slot (io.place _ a loop) hslot
    · rw [PartialMap.set_of_ne _ hfd]
      exact recvAt_congr (hsame.slots _ (by simp [hfd]))
  · exact sendAt_congr (hsame.slots _ (by simp))

theorem vacate_recv (io : Io OnMessage OnSent) {fd : Fd} {loop : AsyncLoop OnMessage OnSent}
    (hsame : EpollLoop.SameElsewhere ⟨fd, .input⟩ io.loop loop)
    (hslot : loop.fdToCallback ⟨fd, .input⟩ = none) :
    (io.vacate ⟨fd, .input⟩ loop).recvAt = io.recvAt.erase fd ∧
      (io.vacate ⟨fd, .input⟩ loop).sendAt = io.sendAt := by
  constructor <;> funext fd'
  · by_cases hfd : fd' = fd
    · subst hfd
      rw [PartialMap.erase_self]
      exact recvAt_of_free (io.vacate _ loop) hslot
    · rw [PartialMap.erase_of_ne _ hfd]
      exact recvAt_congr (hsame.slots _ (by simp [hfd]))
  · exact sendAt_congr (hsame.slots _ (by simp))

theorem place_send (io : Io OnMessage OnSent) {fd : Fd} {a : AsyncFd}
    {loop : AsyncLoop OnMessage OnSent} {op : SendOp} {resolve : OnSent}
    (hsame : EpollLoop.SameElsewhere ⟨fd, .output⟩ io.loop loop)
    (hslot : loop.fdToCallback ⟨fd, .output⟩ = some ⟨.send op resolve, some ()⟩) :
    (io.place ⟨fd, .output⟩ a loop).sendAt = io.sendAt.set fd (op, resolve) ∧
      (io.place ⟨fd, .output⟩ a loop).recvAt = io.recvAt := by
  constructor <;> funext fd'
  · by_cases hfd : fd' = fd
    · subst hfd
      rw [PartialMap.set_self]
      exact sendAt_of_slot (io.place _ a loop) hslot
    · rw [PartialMap.set_of_ne _ hfd]
      exact sendAt_congr (hsame.slots _ (by simp [hfd]))
  · exact recvAt_congr (hsame.slots _ (by simp))

theorem vacate_send (io : Io OnMessage OnSent) {fd : Fd} {loop : AsyncLoop OnMessage OnSent}
    (hsame : EpollLoop.SameElsewhere ⟨fd, .output⟩ io.loop loop)
    (hslot : loop.fdToCallback ⟨fd, .output⟩ = none) :
    (io.vacate ⟨fd, .output⟩ loop).sendAt = io.sendAt.erase fd ∧
      (io.vacate ⟨fd, .output⟩ loop).recvAt = io.recvAt := by
  constructor <;> funext fd'
  · by_cases hfd : fd' = fd
    · subst hfd
      rw [PartialMap.erase_self]
      exact sendAt_of_free (io.vacate _ loop) hslot
    · rw [PartialMap.erase_of_ne _ hfd]
      exact sendAt_congr (hsame.slots _ (by simp [hfd]))
  · exact recvAt_congr (hsame.slots _ (by simp))

/-! ### Starting an operation -/

/-- An operation has been put in a free place of an open descriptor. -/
structure RecvStarted (io io' : Io OnMessage OnSent) (fd : Fd) (resolve : OnMessage) :
    Prop extends Silent io io' where
  wf : io'.Wf
  free : io.recvAt fd = none
  isOpen : io.fds fd ≠ none
  recvAt : io'.recvAt = io.recvAt.set fd (.start, resolve)
  sendAt : io'.sendAt = io.sendAt

structure SendStarted (io io' : Io OnMessage OnSent) (fd : Fd) (data : Message) (resolve : OnSent) :
    Prop extends Silent io io' where
  wf : io'.Wf
  free : io.sendAt fd = none
  isOpen : io.fds fd ≠ none
  sendAt : io'.sendAt = io.sendAt.set fd (.start io.order data, resolve)
  recvAt : io'.recvAt = io.recvAt

private theorem registerAction_occupied {loop : AsyncLoop OnMessage OnSent} {fd : Fd}
    (closure : Closure OnMessage OnSent) (ok : Bool)
    (h : loop.fdToCallback ⟨fd, closure.dir⟩ ≠ none) :
    (AsyncFd.create fd).procData loop closure ok = none := by
  have hreg : loop.registerAction fd closure.dir closure (some ()) ok = none := by
    rw [EpollLoop.registerAction, if_pos (PartialMap.contains_eq_true.mpr h)]
  simp [AsyncFd.procData, AsyncFd.create, hreg]

private theorem registerAction_refused {loop : AsyncLoop OnMessage OnSent} {fd : Fd}
    {closure : Closure OnMessage OnSent} :
    (AsyncFd.create fd).procData loop closure false = none := by
  have hreg : loop.registerAction fd closure.dir closure (some ()) false = none := by
    unfold EpollLoop.registerAction
    split
    · rfl
    · simp [EpollLoop.ctl, epollCtl]
  simp [AsyncFd.procData, AsyncFd.create, hreg]

theorem recvMessage_started (h : io.Wf) {fd : Fd} {resolve : OnMessage} {ok : Bool}
    (hstart : io.recvMessage fd resolve ok = some io') : RecvStarted io io' fd resolve := by
  have hfresh : ¬ (AsyncFd.create fd).token ≠ 0 := by simp [AsyncFd.create]
  by_cases hopen : io.fds fd = none
  · have hclosed : (ok && io.fds.contains fd) = false := by simp [hopen]
    simp [recvMessage, AsyncFd.recvMessage, hfresh, hclosed, registerAction_refused] at hstart
  by_cases hslot : io.loop.fdToCallback ⟨fd, .input⟩ = none
  · rcases AsyncFd.recvMessage_create ⟨h.loop, hslot⟩ resolve (ok && io.fds.contains fd) with
      heq | ⟨a, loop, heq, rfl, harmed, hsame⟩
    · simp [recvMessage, heq] at hstart
    · simp only [recvMessage, heq] at hstart
      obtain rfl := Option.some.inj hstart
      obtain ⟨hrecv, hsend⟩ := place_recv io (a := a) hsame harmed.slot
      exact ⟨⟨⟨rfl, rfl, rfl, rfl⟩, rfl, rfl⟩, h.place harmed hsame, recvAt_of_free io hslot,
        hopen, hrecv, hsend⟩
  · have hnone := registerAction_occupied (.recv .start resolve) (ok && io.fds.contains fd) hslot
    simp [recvMessage, AsyncFd.recvMessage, hfresh, hnone] at hstart

theorem sendMessage_started (h : io.Wf) {fd : Fd} {data : Message} {resolve : OnSent} {ok : Bool}
    (hstart : io.sendMessage fd data resolve ok = .pending io') :
    SendStarted io io' fd data resolve := by
  have hfresh : ¬ (AsyncFd.create fd).token ≠ 0 := by simp [AsyncFd.create]
  by_cases hlen : SendOp.msgLen data = 0
  · simp [sendMessage, AsyncFd.sendMessage, hfresh, hlen] at hstart
  by_cases hopen : io.fds fd = none
  · have hclosed : (ok && io.fds.contains fd) = false := by simp [hopen]
    simp [sendMessage, AsyncFd.sendMessage, hfresh, hlen, hclosed, registerAction_refused] at hstart
  by_cases hslot : io.loop.fdToCallback ⟨fd, .output⟩ = none
  · rcases AsyncFd.sendMessage_create io.order ⟨h.loop, hslot⟩ hlen resolve
        (ok && io.fds.contains fd) with
      heq | ⟨a, loop, heq, rfl, harmed, hsame⟩
    · simp [sendMessage, heq] at hstart
    · simp only [sendMessage, heq] at hstart
      obtain rfl := Started.pending.inj hstart
      obtain ⟨hsend, hrecv⟩ := place_send io (a := a) hsame harmed.slot
      exact ⟨⟨⟨rfl, rfl, rfl, rfl⟩, rfl, rfl⟩, h.place harmed hsame, sendAt_of_free io hslot,
        hopen, hsend, hrecv⟩
  · have hnone :=
      registerAction_occupied (.send (.start io.order data) resolve)
        (ok && io.fds.contains fd) hslot
    simp [sendMessage, AsyncFd.sendMessage, hfresh, hlen, hnone] at hstart

/-- `SendMessage` aborts exactly on a message whose length the header shows as zero. -/
theorem sendMessage_aborted {fd : Fd} {data : Message} {resolve : OnSent} {ok : Bool} :
    io.sendMessage fd data resolve ok = .aborted ↔ SendOp.msgLen data = 0 := by
  have hfresh : ¬ (AsyncFd.create fd).token ≠ 0 := by simp [AsyncFd.create]
  by_cases hlen : SendOp.msgLen data = 0
  · simp [sendMessage, AsyncFd.sendMessage, hfresh, hlen]
  · simp only [hlen, iff_false, sendMessage, AsyncFd.sendMessage, if_neg hfresh, if_false]
    cases (AsyncFd.create fd).procData io.loop (.send (.start io.order data) resolve)
      (ok && io.fds.contains fd) <;> simp

theorem sendMessage_pending {fd : Fd} {data : Message} {resolve : OnSent} {ok : Bool}
    (hstart : io.sendMessage fd data resolve ok = .pending io') : SendOp.msgLen data ≠ 0 := by
  intro hlen
  rw [sendMessage_aborted.mpr hlen] at hstart
  exact absurd hstart (by simp)

/-! ### Running a callback -/

structure RecvRan (io io' : Io OnMessage OnSent) (fd : Fd) (bytes : List Byte) :
    Prop extends SameSockets io io' where
  wf : io'.Wf
  sendAt : io'.sendAt = io.sendAt
  written : io'.written = io.written
  taken : io'.taken = appendTo io.taken (io.fds fd) bytes

structure SendRan (io io' : Io OnMessage OnSent) (fd : Fd) (bytes : List Byte) :
    Prop extends SameSockets io io' where
  wf : io'.Wf
  recvAt : io'.recvAt = io.recvAt
  written : io'.written = appendTo io.written (io.fds fd) bytes
  taken : io'.taken = io.taken

theorem recvEvent_none {fd : Fd} (h : io.Wf) (hat : io.recvAt fd = none) (res : EpollResult)
    (ret : RecvReturn) (ok : Bool) : io.recvEvent fd res ret ok = none := by
  cases hslot : io.loop.fdToCallback ⟨fd, .input⟩ with
  | none => simp [recvEvent, EpollLoop.callbackAt, hslot]
  | some keeper =>
      obtain ⟨a, _, _, hdir, _⟩ := h.armed _ keeper hslot
      rw [recvAt_of_slot io hslot] at hat
      cases hc : keeper.callback with
      | recv op resolve => simp [hc, Closure.asRecv] at hat
      | send op resolve => exact absurd hdir (by rw [hc]; simp [Closure.dir])

theorem sendEvent_none {fd : Fd} (h : io.Wf) (hat : io.sendAt fd = none) (res : EpollResult)
    (ret : SendReturn) (ok : Bool) : io.sendEvent fd res ret ok = none := by
  cases hslot : io.loop.fdToCallback ⟨fd, .output⟩ with
  | none => simp [sendEvent, EpollLoop.callbackAt, hslot]
  | some keeper =>
      obtain ⟨a, _, _, hdir, _⟩ := h.armed _ keeper hslot
      rw [sendAt_of_slot io hslot] at hat
      cases hc : keeper.callback with
      | recv op resolve => exact absurd hdir (by rw [hc]; simp [Closure.dir])
      | send op resolve => simp [hc, Closure.asSend] at hat

/-- A run of a receiving callback does to the table what `RecvOp.event` says, and nothing else. -/
theorem recvEvent_cases (h : io.Wf) {fd : Fd} {op : RecvOp} {resolve : OnMessage}
    (hat : io.recvAt fd = some (op, resolve)) (res : EpollResult) (ret : RecvReturn) (ok : Bool) :
    (∃ op' io', (op.event io.order res ret = .waiting op' ∨ op.event io.order res ret = .next op') ∧
      io.recvEvent fd res ret ok = some (.pending io') ∧
      io'.recvAt = io.recvAt.set fd (op', resolve) ∧ RecvRan io io' fd (ret.bytes res)) ∨
      (∃ result io', op.event io.order res ret = .resolved result ∧
        io.recvEvent fd res ret ok = some (.resolved io' resolve result) ∧
        io'.recvAt = io.recvAt.erase fd ∧ RecvRan io io' fd (ret.bytes res)) ∨
      (op.event io.order res ret = .aborted ∧ io.recvEvent fd res ret ok = some .aborted) := by
  obtain ⟨hcallback, a, hobj, rfl, harmed⟩ := h.of_recvAt hat
  have hfinish :=
    harmed.finish (.recv · resolve) (fun _ => rfl) resolve ok (op.event io.order res ret)
  -- what has been taken is beside the point from here on
  let io₁ : Io OnMessage OnSent :=
    { io with taken := appendTo io.taken (io.fds a.fd) (ret.bytes res) }
  have h₁ : io₁.Wf := ⟨h.loop, h.armed⟩
  have hpending :
      ∀ op' loop, AsyncFd.recvEvent io.order a io.loop op resolve res ret ok = .pending a loop →
        a.Armed loop (.recv op' resolve) → EpollLoop.SameElsewhere ⟨a.fd, .input⟩ io.loop loop →
        io.recvEvent a.fd res ret ok = some (.pending (io₁.place ⟨a.fd, .input⟩ a loop)) ∧
          (io₁.place ⟨a.fd, .input⟩ a loop).recvAt = io.recvAt.set a.fd (op', resolve) ∧
          RecvRan io (io₁.place ⟨a.fd, .input⟩ a loop) a.fd (ret.bytes res) := by
    intro op' loop heq harmed' hsame
    obtain ⟨hrecv, hsend⟩ := place_recv io₁ (a := a) hsame harmed'.slot
    exact ⟨by simp only [recvEvent, hcallback, hobj, heq]; rfl, hrecv,
      ⟨rfl, rfl, rfl, rfl⟩, h₁.place harmed' hsame, hsend, rfl, rfl⟩
  cases hevent : op.event io.order res ret with
  | waiting op' =>
      rw [hevent] at hfinish
      obtain ⟨loop, heq, harmed', hsame⟩ := hfinish
      exact .inl ⟨op', _, .inl rfl,
        hpending op' loop (by rw [AsyncFd.recvEvent, hevent, heq]) harmed' hsame⟩
  | next op' =>
      rw [hevent] at hfinish
      obtain ⟨loop, heq, harmed', hsame⟩ := hfinish
      exact .inl ⟨op', _, .inr rfl,
        hpending op' loop (by rw [AsyncFd.recvEvent, hevent, heq]) harmed' hsame⟩
  | resolved result =>
      rw [hevent] at hfinish
      obtain ⟨loop, heq, hfree, hsame⟩ := hfinish
      obtain ⟨hrecv, hsend⟩ := vacate_recv io₁ hsame hfree.slot
      exact .inr (.inl ⟨result, io₁.vacate ⟨a.fd, .input⟩ loop, rfl,
        by simp only [recvEvent, hcallback, hobj, AsyncFd.recvEvent, hevent, heq]; rfl, hrecv,
        ⟨rfl, rfl, rfl, rfl⟩, h₁.vacate hfree.wf hfree.slot hsame, hsend, rfl, rfl⟩)
  | aborted =>
      rw [hevent] at hfinish
      exact .inr (.inr
        ⟨rfl, by simp only [recvEvent, hcallback, hobj, AsyncFd.recvEvent, hevent, hfinish]⟩)

theorem sendEvent_cases (h : io.Wf) {fd : Fd} {op : SendOp} {resolve : OnSent}
    (hat : io.sendAt fd = some (op, resolve)) (res : EpollResult) (ret : SendReturn) (ok : Bool) :
    (∃ op' io', (op.event res ret = .waiting op' ∨ op.event res ret = .next op') ∧
      io.sendEvent fd res ret ok = some (.pending io') ∧
      io'.sendAt = io.sendAt.set fd (op', resolve) ∧ SendRan io io' fd (op.put res ret)) ∨
      (∃ result io', op.event res ret = .resolved result ∧
        io.sendEvent fd res ret ok = some (.resolved io' resolve result) ∧
        io'.sendAt = io.sendAt.erase fd ∧ SendRan io io' fd (op.put res ret)) ∨
      (op.event res ret = .aborted ∧ io.sendEvent fd res ret ok = some .aborted) := by
  obtain ⟨hcallback, a, hobj, rfl, harmed⟩ := h.of_sendAt hat
  have hfinish := harmed.finish (.send · resolve) (fun _ => rfl) resolve ok (op.event res ret)
  let io₁ : Io OnMessage OnSent :=
    { io with written := appendTo io.written (io.fds a.fd) (op.put res ret) }
  have h₁ : io₁.Wf := ⟨h.loop, h.armed⟩
  have hpending : ∀ op' loop, AsyncFd.sendEvent a io.loop op resolve res ret ok = .pending a loop →
      a.Armed loop (.send op' resolve) → EpollLoop.SameElsewhere ⟨a.fd, .output⟩ io.loop loop →
      io.sendEvent a.fd res ret ok = some (.pending (io₁.place ⟨a.fd, .output⟩ a loop)) ∧
        (io₁.place ⟨a.fd, .output⟩ a loop).sendAt = io.sendAt.set a.fd (op', resolve) ∧
        SendRan io (io₁.place ⟨a.fd, .output⟩ a loop) a.fd (op.put res ret) := by
    intro op' loop heq harmed' hsame
    obtain ⟨hsend, hrecv⟩ := place_send io₁ (a := a) hsame harmed'.slot
    exact ⟨by simp only [sendEvent, hcallback, hobj, heq]; rfl, hsend,
      ⟨rfl, rfl, rfl, rfl⟩, h₁.place harmed' hsame, hrecv, rfl, rfl⟩
  cases hevent : op.event res ret with
  | waiting op' =>
      rw [hevent] at hfinish
      obtain ⟨loop, heq, harmed', hsame⟩ := hfinish
      exact .inl ⟨op', _, .inl rfl,
        hpending op' loop (by rw [AsyncFd.sendEvent, hevent, heq]) harmed' hsame⟩
  | next op' =>
      rw [hevent] at hfinish
      obtain ⟨loop, heq, harmed', hsame⟩ := hfinish
      exact .inl ⟨op', _, .inr rfl,
        hpending op' loop (by rw [AsyncFd.sendEvent, hevent, heq]) harmed' hsame⟩
  | resolved result =>
      rw [hevent] at hfinish
      obtain ⟨loop, heq, hfree, hsame⟩ := hfinish
      obtain ⟨hsend, hrecv⟩ := vacate_send io₁ hsame hfree.slot
      exact .inr (.inl ⟨result, io₁.vacate ⟨a.fd, .output⟩ loop, rfl,
        by simp only [sendEvent, hcallback, hobj, AsyncFd.sendEvent, hevent, heq]; rfl, hsend,
        ⟨rfl, rfl, rfl, rfl⟩, h₁.vacate hfree.wf hfree.slot hsame, hrecv, rfl, rfl⟩)
  | aborted =>
      rw [hevent] at hfinish
      exact .inr (.inr
        ⟨rfl, by simp only [sendEvent, hcallback, hobj, AsyncFd.sendEvent, hevent, hfinish]⟩)

theorem recvEvent_sockets (h : io.Wf) {fd : Fd} {res : EpollResult} {ret : RecvReturn} {ok : Bool}
  {ran : Ran (Io OnMessage OnSent) OnMessage Message}
  (hevent : io.recvEvent fd res ret ok = some ran) :
    match ran with
    | .pending io' | .resolved io' _ _ => io'.Wf ∧ SameSockets io io'
    | .aborted => True := by
  cases hat : io.recvAt fd with
  | none => exact absurd hevent (by rw [recvEvent_none h hat]; simp)
  | some pair =>
      rcases recvEvent_cases h hat res ret
          ok with ⟨_, io', _, heq, _, hran⟩ | ⟨_, io', _, heq, _, hran⟩ | ⟨_, heq⟩
      · obtain rfl := Option.some.inj (heq.symm.trans hevent)
        exact ⟨hran.wf, hran.toSameSockets⟩
      · obtain rfl := Option.some.inj (heq.symm.trans hevent)
        exact ⟨hran.wf, hran.toSameSockets⟩
      · obtain rfl := Option.some.inj (heq.symm.trans hevent)
        trivial

theorem sendEvent_sockets (h : io.Wf) {fd : Fd} {res : EpollResult} {ret : SendReturn} {ok : Bool}
    {ran : Ran (Io OnMessage OnSent) OnSent Unit} (hevent : io.sendEvent fd res ret ok = some ran) :
    match ran with
    | .pending io' | .resolved io' _ _ => io'.Wf ∧ SameSockets io io'
    | .aborted => True := by
  cases hat : io.sendAt fd with
  | none => exact absurd hevent (by rw [sendEvent_none h hat]; simp)
  | some pair =>
      rcases sendEvent_cases h hat res ret
          ok with ⟨_, io', _, heq, _, hran⟩ | ⟨_, io', _, heq, _, hran⟩ | ⟨_, heq⟩
      · obtain rfl := Option.some.inj (heq.symm.trans hevent)
        exact ⟨hran.wf, hran.toSameSockets⟩
      · obtain rfl := Option.some.inj (heq.symm.trans hevent)
        exact ⟨hran.wf, hran.toSameSockets⟩
      · obtain rfl := Option.some.inj (heq.symm.trans hevent)
        trivial

/-! ### Starting again -/

/-- Nothing is registered for an open descriptor, and the kernel does not watch it. -/
structure Idle (io : Io OnMessage OnSent) (fd : Fd) : Prop where
  isOpen : io.fds fd ≠ none
  input : io.loop.fdToCallback ⟨fd, .input⟩ = none
  output : io.loop.fdToCallback ⟨fd, .output⟩ = none
  interest : io.loop.interest fd = none

/-- On an idle descriptor nothing but the kernel can refuse a receiving operation. -/
theorem Idle.recvMessage {fd : Fd} (h : io.Idle fd) (resolve : OnMessage) :
    (io.recvMessage fd resolve true).isSome := by
  have hctl : ∀ ev,
      io.loop.ctl fd .add ev true
        = some { io.loop with interest := io.loop.interest.set fd ev } := by
    intro ev
    simp [EpollLoop.ctl, epollCtl, PartialMap.contains_eq_false.mpr h.interest]
  have hopen : io.fds.contains fd = true := by simpa using h.isOpen
  have hin : io.loop.fdToCallback.contains ⟨fd, .input⟩ = false :=
    PartialMap.contains_eq_false.mpr h.input
  have hout : io.loop.fdToCallback.contains ⟨fd, IoDirection.input.opposite⟩ = false :=
    PartialMap.contains_eq_false.mpr h.output
  simp [Io.recvMessage, AsyncFd.recvMessage, AsyncFd.procData, AsyncFd.create, Closure.dir,
    EpollLoop.registerAction, hin, hout, hopen, hctl]

/-- Where a receiving operation resolves, nothing is sent, and `epoll_ctl` agrees, the descriptor is
left idle. -/
theorem recvEvent_idle (h : io.Wf) {fd : Fd} {res : EpollResult} {ret : RecvReturn}
    {resolve : OnMessage} {result : IoResult Message}
    (hran : io.recvEvent fd res ret true = some (.resolved io' resolve result))
    (hopen : io.fds fd ≠ none) (hsend : io.sendAt fd = none) : io'.Idle fd := by
  have hout : io.loop.fdToCallback ⟨fd, .output⟩ = none := by
    rw [Option.eq_none_iff_forall_ne_some]
    intro keeper hslot
    obtain ⟨_, _, _, hdir, _⟩ := h.armed _ keeper hslot
    rw [sendAt_of_slot io hslot] at hsend
    cases hc : keeper.callback with
    | recv op resolve => exact absurd hdir (by rw [hc]; simp [Closure.dir])
    | send op resolve => simp [hc, Closure.asSend] at hsend
  cases hat : io.recvAt fd with
  | none => exact absurd hran (by rw [recvEvent_none h hat]; simp)
  | some pair =>
      obtain ⟨op, resolve'⟩ := pair
      obtain ⟨hcallback, a, hobj, rfl, harmed⟩ := h.of_recvAt hat
      simp only [recvEvent, hcallback, hobj, AsyncFd.recvEvent] at hran
      cases hevent : op.event io.order res ret with
      | waiting op' => simp [hevent, AsyncFd.finish] at hran
      | next op' =>
          obtain ⟨loop, heq, _⟩ := harmed.finish (.recv · resolve') (fun _ => rfl) resolve' true
            (.next op' : Progress RecvOp Message)
          simp [hevent, heq] at hran
      | aborted => simp [hevent, AsyncFd.finish] at hran
      | resolved result' =>
          have hnone :=
            EpollLoop.deregisterAction_interest harmed.token_own (by rw [harmed.slot]; simp) hout
          simp only [hevent, AsyncFd.finish, AsyncFd.deregister, if_neg harmed.token_ne,
            Option.some.injEq, Ran.resolved.injEq] at hran
          obtain ⟨rfl, -, -⟩ := hran
          obtain ⟨hfst, hfree, hsame⟩ := harmed.deregister true
          simp only [AsyncFd.deregister, if_neg harmed.token_ne] at hfree hsame
          exact ⟨hopen, hfree.slot,
            (hsame.slots _ (by simp [Closure.dir])).trans hout, hnone⟩

/-! ### Descriptors -/

theorem openFd_wf (h : io.Wf) (fd : Fd) : (io.openFd fd).Wf := ⟨h.loop, h.armed⟩

theorem close_wf (h : io.Wf) (fd : Fd) : (io.close fd).Wf := by
  refine ⟨⟨h.loop.next_pos, h.loop.issued⟩, fun key keeper hslot => ?_⟩
  obtain ⟨a, hobj, hfd, hdir, harmed⟩ := h.armed key keeper hslot
  exact ⟨a, hobj, hfd, hdir, ⟨h.loop.next_pos, h.loop.issued⟩, harmed.token_ne,
    harmed.token_own, harmed.slot⟩

@[simp] theorem close_recvAt (fd : Fd) : (io.close fd).recvAt = io.recvAt := rfl

@[simp] theorem close_sendAt (fd : Fd) : (io.close fd).sendAt = io.sendAt := rfl

@[simp] theorem openFd_recvAt (fd : Fd) : (io.openFd fd).recvAt = io.recvAt := rfl

@[simp] theorem openFd_sendAt (fd : Fd) : (io.openFd fd).sendAt = io.sendAt := rfl

theorem deregisterFd_wf (h : io.Wf) (fd : Fd) (ok : Bool) : (io.deregisterFd fd ok).Wf := by
  obtain ⟨hslots, hcancel, hnext⟩ := EpollLoop.deregisterFd_tables io.loop fd ok
  have hloop : (io.loop.deregisterFd fd ok).Wf := by
    refine ⟨hnext ▸ h.loop.next_pos, fun token key hkey => ?_⟩
    rw [hnext]
    rw [hcancel] at hkey
    exact h.loop.issued token key hkey
  refine ⟨hloop, fun key keeper hslot => ?_⟩
  have hkept : (io.loop.deregisterFd fd ok).fdToCallback key = some keeper := hslot
  have herased := hkept
  rw [hslots] at herased
  obtain ⟨hout, hslot'⟩ := (PartialMap.erase_eq_some _).mp herased
  obtain ⟨hin, hslot'⟩ := (PartialMap.erase_eq_some _).mp hslot'
  obtain ⟨a, hobj, hfd, hdir, harmed⟩ := h.armed key keeper hslot'
  refine ⟨a, ?_, hfd, hdir, hloop, harmed.token_ne, ?_, ?_⟩
  · exact (PartialMap.erase_of_ne _ hout).trans ((PartialMap.erase_of_ne _ hin).trans hobj)
  · exact (congrFun hcancel a.token).trans harmed.token_own
  · have hsame := harmed.slot
    rw [hfd, hdir] at hsame ⊢
    rw [← hsame, hslot']
    exact hkept

theorem deregisterFd_recvAt (fd : Fd) (ok : Bool) :
    (io.deregisterFd fd ok).recvAt = io.recvAt.erase fd := by
  have hslots := (EpollLoop.deregisterFd_tables io.loop fd ok).1
  funext fd'
  simp only [PartialMap.erase_apply, recvAt, EpollLoop.callbackAt, deregisterFd, hslots]
  by_cases hfd : fd' = fd <;> simp [hfd]

theorem deregisterFd_sendAt (fd : Fd) (ok : Bool) :
    (io.deregisterFd fd ok).sendAt = io.sendAt.erase fd := by
  have hslots := (EpollLoop.deregisterFd_tables io.loop fd ok).1
  funext fd'
  simp only [PartialMap.erase_apply, sendAt, EpollLoop.callbackAt, deregisterFd, hslots]
  by_cases hfd : fd' = fd <;> simp [hfd]

theorem deregisterFd_silent (fd : Fd) (ok : Bool) : Silent io (io.deregisterFd fd ok) :=
  ⟨⟨rfl, rfl, rfl, rfl⟩, rfl, rfl⟩

/-! ### Destructors -/

/-- Some operations may be gone, and nothing else has changed. -/
structure Fewer (io io' : Io OnMessage OnSent) : Prop extends Silent io io' where
  wf : io'.Wf
  recvAt : ∀ fd, io'.recvAt fd = io.recvAt fd ∨ io'.recvAt fd = none
  sendAt : ∀ fd, io'.sendAt fd = io.sendAt fd ∨ io'.sendAt fd = none

theorem destroy_fewer (h : io.Wf) (token : CancellationToken) (ok : Bool) :
    Fewer io (io.destroy token ok) := by
  cases htoken : io.loop.cancelMap token with
  | none =>
      have heq : io.destroy token ok = { io with orphans := io.orphans.erase token } := by
        simp [destroy, htoken, EpollLoop.deregisterAction]
      rw [heq]
      exact ⟨⟨⟨rfl, rfl, rfl, rfl⟩, rfl, rfl⟩, ⟨h.loop, h.armed⟩, fun _ => .inl rfl,
        fun _ => .inl rfl⟩
  | some key =>
      have heq : io.destroy token ok = { io with
          loop := (io.loop.deregisterAction token ok).2
          objects := if io.loop.fdToCallback.contains key then io.objects.erase key else io.objects
          orphans := io.orphans.erase token ++ io.droppedToken key } := by
        simp only [destroy, htoken]
      have hsame := EpollLoop.deregisterAction_same htoken ok
      have hwf := h.loop.deregisterAction token ok
      have hslot : (io.loop.deregisterAction token ok).2.fdToCallback key = none := by
        rcases EpollLoop.deregisterAction_cases io.loop token ok with
          ⟨hnone, _⟩ | ⟨key', hkey', hnone, hres⟩ | ⟨key', _, hkey', _, _, _, hres⟩
        · exact absurd htoken (by rw [hnone]; simp)
        · obtain rfl := Option.some.inj (hkey'.symm.trans htoken)
          rw [hres]
          exact hnone
        · obtain rfl := Option.some.inj (hkey'.symm.trans htoken)
          rw [hres]
          exact PartialMap.erase_self _ _
      rw [heq]
      refine ⟨⟨⟨rfl, rfl, rfl, rfl⟩, rfl, rfl⟩, h.of_same hsame hwf ?_ ?_,
        fun fd => ?_, fun fd => ?_⟩
      · intro key' hne
        simp only
        split
        · exact PartialMap.erase_of_ne _ hne
        · rfl
      · intro keeper hkeeper
        exact absurd (hkeeper.symm.trans hslot) (by simp)
      · by_cases hkey : (⟨fd, .input⟩ : FdDirection) = key
        · exact .inr (recvAt_of_free _ (hkey ▸ hslot))
        · exact .inl (recvAt_congr (hsame.slots _ hkey))
      · by_cases hkey : (⟨fd, .output⟩ : FdDirection) = key
        · exact .inr (sendAt_of_free _ (hkey ▸ hslot))
        · exact .inl (sendAt_congr (hsame.slots _ hkey))

theorem destroy_spares {token : CancellationToken} {fd : Fd}
    (h : ∀ dir, io.loop.cancelMap token ≠ some ⟨fd, dir⟩) (ok : Bool) :
    (io.destroy token ok).recvAt fd = io.recvAt fd ∧
      (io.destroy token ok).sendAt fd = io.sendAt fd := by
  cases htoken : io.loop.cancelMap token with
  | none =>
      have heq : io.destroy token ok = { io with orphans := io.orphans.erase token } := by
        simp [destroy, htoken, EpollLoop.deregisterAction]
      rw [heq]
      exact ⟨rfl, rfl⟩
  | some key =>
      have hsame := EpollLoop.deregisterAction_same htoken ok
      have hloop : (io.destroy token ok).loop = (io.loop.deregisterAction token ok).2 := by
        simp only [destroy, htoken]
      have hne : ∀ dir, (⟨fd, dir⟩ : FdDirection) ≠ key := fun dir heq =>
        h dir (htoken.trans (congrArg some heq.symm))
      rw [← hloop] at hsame
      exact ⟨recvAt_congr (hsame.slots _ (hne .input)), sendAt_congr (hsame.slots _ (hne .output))⟩

end Io

end Diplom
