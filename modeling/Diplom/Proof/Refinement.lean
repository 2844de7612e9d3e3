import Diplom.Lib.Machine
import Diplom.Proof.Io
import Diplom.Proof.Moves

/-!
# Every step of the manager is a move

The functions of `Transport/ConnManager.lean`, one by one, against `Spec/Moves.lean`. The loop
appears here for the last time: the proofs about the manager start from `Sound.step`.
-/

namespace Diplom

namespace ConnectionManager

variable {w w' : ConnectionManager} {fd : Fd}

structure Sound (w : ConnectionManager) : Prop where
  io : w.io.Wf
  ok : w.snapshot.Ok

theorem init_sound (self : PeerId) (order : ByteOrder) : (init self order).Sound :=
  ⟨Io.init_wf order, Snapshot.init_ok self order⟩

/-- The manager has come to this picture, with its loop in order. -/
structure Shows (w : ConnectionManager) (s : Snapshot) : Prop where
  io : w.io.Wf
  eq : w.snapshot = s

/-! ### Operations of the layer below -/

theorem shows_recvStarted {io : Io OnMessage OnSent} {resolve : OnMessage}
    (h : Io.RecvStarted w.io io fd resolve) :
    Shows { w with io := io } (w.snapshot.setRecv fd .start resolve) := by
  refine ⟨h.wf, ?_⟩
  simp only [snapshot, Snapshot.setRecv, h.order, h.recvAt, h.sendAt, h.fds, h.nextSock,
    h.written, h.taken]

theorem shows_sendStarted {io : Io OnMessage OnSent} {data : Message} {resolve : OnSent}
    (h : Io.SendStarted w.io io fd data resolve) :
    Shows { w with io := io } (w.snapshot.setSend fd (.start w.io.order data) resolve) := by
  refine ⟨h.wf, ?_⟩
  simp only [snapshot, Snapshot.setSend, h.order, h.recvAt, h.sendAt, h.fds, h.nextSock,
    h.written, h.taken]

theorem shows_recvRan {io : Io OnMessage OnSent} {bytes : List Byte} {op : RecvOp}
    {resolve : OnMessage} (h : Io.RecvRan w.io io fd bytes)
    (hat : io.recvAt = w.io.recvAt.set fd (op, resolve)) :
    Shows { w with io := io } ((w.snapshot.took fd bytes).setRecv fd op resolve) := by
  refine ⟨h.wf, ?_⟩
  simp only [snapshot, Snapshot.setRecv, Snapshot.took, h.order, hat, h.sendAt, h.fds, h.nextSock,
    h.written, h.taken]

theorem shows_recvEnded {io : Io OnMessage OnSent} {bytes : List Byte}
    (h : Io.RecvRan w.io io fd bytes) (hat : io.recvAt = w.io.recvAt.erase fd) :
    Shows { w with io := io } (w.snapshot.endRecv fd bytes) := by
  refine ⟨h.wf, ?_⟩
  simp only [snapshot, Snapshot.endRecv, Snapshot.took, h.order, hat, h.sendAt, h.fds, h.nextSock,
    h.written, h.taken]

theorem shows_sendRan {io : Io OnMessage OnSent} {bytes : List Byte} {op : SendOp}
    {resolve : OnSent} (h : Io.SendRan w.io io fd bytes)
    (hat : io.sendAt = w.io.sendAt.set fd (op, resolve)) :
    Shows { w with io := io } ((w.snapshot.put fd bytes).setSend fd op resolve) := by
  refine ⟨h.wf, ?_⟩
  simp only [snapshot, Snapshot.setSend, Snapshot.put, h.order, hat, h.recvAt, h.fds, h.nextSock,
    h.written, h.taken]

theorem shows_sendEnded {io : Io OnMessage OnSent} {bytes : List Byte}
    (h : Io.SendRan w.io io fd bytes) (hat : io.sendAt = w.io.sendAt.erase fd) :
    Shows { w with io := io } (w.snapshot.endSend fd bytes) := by
  refine ⟨h.wf, ?_⟩
  simp only [snapshot, Snapshot.endSend, Snapshot.put, h.order, hat, h.recvAt, h.fds, h.nextSock,
    h.written, h.taken]

theorem shows_openFd (h : w.io.Wf) (fd : Fd) :
    Shows { w with io := w.io.openFd fd } (w.snapshot.openFd fd) :=
  ⟨Io.openFd_wf h fd, rfl⟩

theorem Shows.closeHello {s : Snapshot} (h : Shows w s) (fd : Fd) :
    Shows (w.closeHello fd) (s.closeFd fd) :=
  ⟨Io.close_wf h.io fd, by rw [← h.eq]; rfl⟩

theorem Shows.notify {s : Snapshot} (h : Shows w s) (n : Notification) :
    Shows (w.notify n) (s.note n) :=
  ⟨h.io, by rw [← h.eq]; rfl⟩

theorem Shows.abort {s : Snapshot} (h : Shows w s) : Shows w.abort s.abort :=
  ⟨h.io, by rw [← h.eq]; rfl⟩

theorem Shows.established {s : Snapshot} (h : Shows w s) (fd : Fd) (conn : Conn) :
    Shows (w.established fd conn) (s.established fd conn) :=
  ⟨h.io, by rw [← h.eq]; rfl⟩

theorem Shows.recvMessage {s : Snapshot} (h : Shows w s) {io : Io OnMessage OnSent}
    {resolve : OnMessage} {ok : Bool} (hstart : w.io.recvMessage fd resolve ok = some io) :
    Shows { w with io := io } (s.setRecv fd .start resolve) :=
  h.eq ▸ shows_recvStarted (Io.recvMessage_started h.io hstart)

theorem Shows.sendMessage {s : Snapshot} (h : Shows w s) {io : Io OnMessage OnSent} {data : Message}
    {resolve : OnSent} {ok : Bool} (hstart : w.io.sendMessage fd data resolve ok = .pending io) :
    Shows { w with io := io } (s.setSend fd (.start s.order data) resolve) := by
  rw [← h.eq]
  exact shows_sendStarted (Io.sendMessage_started h.io hstart)

theorem hello_not_aborted {io : Io OnMessage OnSent} {hello : HelloMsg} {resolve : OnSent}
    {ok : Bool} : io.sendMessage fd hello.serialize resolve ok ≠ .aborted := by
  rw [ne_eq, Io.sendMessage_aborted, SendOp.msgLen, HelloMsg.length_serialize]
  decide

/-- Of all that an outgoing exchange can receive, the answer of the peer it dialed establishes a
connection, and the rest closes the descriptor. -/
theorem outgoingAnswer_eq (w : ConnectionManager) (fd : Fd) (peer : PeerId) (res : IoResult Message)
    (register deregister : Bool) :
    w.outgoingAnswer fd peer res register deregister =
      if res = .ok (HelloMsg.make peer helloAnswer).serialize then
        ((w.established fd (peer, .outgoing)).readMessage fd register deregister).notify
        (.sessionOpened peer .outgoing)
      else w.closeHello fd := by
  split
  · rename_i hgood
    simp only [hgood, outgoingAnswer, HelloMsg.deserialize_make]
    rw [if_neg (by simp [HelloMsg.make])]
  · rename_i hbad
    cases res with
    | err e => rfl
    | ok msg =>
        simp only [outgoingAnswer]
        split
        · rfl
        · rename_i hello hmsg
          rw [if_pos]
          by_contra hanswer
          rw [not_or, not_not, not_not] at hanswer
          obtain ⟨rfl, htype⟩ := hanswer
          obtain ⟨rfl, hidentifier⟩ := HelloMsg.deserialize_eq_some.mp hmsg
          exact hbad (by rw [HelloMsg.make, ← hidentifier, ← htype])

/-! ### Closing and reading -/

theorem Shows.closeFD {s : Snapshot} (h : Shows w s) (fd : Fd) (ok : Bool) :
    Shows (w.closeFD fd ok) (s.closeFD fd) := by
  have hio : ((w.io.deregisterFd fd ok).close fd).Wf :=
    Io.close_wf (Io.deregisterFd_wf h.io fd ok) fd
  have hrecv : ((w.io.deregisterFd fd ok).close fd).recvAt = w.io.recvAt.erase fd :=
    Io.deregisterFd_recvAt fd ok
  have hsend : ((w.io.deregisterFd fd ok).close fd).sendAt = w.io.sendAt.erase fd :=
    Io.deregisterFd_sendAt fd ok
  rw [← h.eq]
  cases hactive : w.activeConns fd with
  | none =>
      have hsnapshot : w.snapshot.activeConns fd = none := hactive
      simp only [ConnectionManager.closeFD, eraseActive, hactive, Option.map_none,
        Snapshot.closeFD, hsnapshot]
      refine ⟨hio, ?_⟩
      simp only [snapshot, hrecv, hsend]
      rfl
  | some conn =>
      have hsnapshot : w.snapshot.activeConns fd = some conn := hactive
      simp only [ConnectionManager.closeFD, eraseActive, hactive, Option.map_some,
        Snapshot.closeFD, hsnapshot]
      refine ⟨hio, ?_⟩
      simp only [snapshot, eraseConnToFd, eraseQueue, ConnectionManager.notify, hrecv, hsend]
      rfl

/-- `ReadMessage` on a connection leaves it with a reader, or closes it. -/
theorem Shows.readMessage {s : Snapshot} (h : Shows w s) (hactive : s.activeConns fd ≠ none)
    (register deregister : Bool) :
    Shows (w.readMessage fd register deregister)
      (s.reader fd (w.io.recvMessage fd .readMessage register).isSome) := by
  cases hstart : w.io.recvMessage fd .readMessage register with
  | some io =>
      simp only [ConnectionManager.readMessage, hstart]
      exact h.recvMessage hstart
  | none =>
      obtain ⟨conn, hconn⟩ := Option.ne_none_iff_exists'.mp hactive
      have hconn' : w.activeConns fd = some conn := by
        rw [← hconn, ← h.eq]
        rfl
      simp only [ConnectionManager.readMessage, hstart, readFailed, hconn']
      exact h.closeFD fd deregister

theorem Shows.closeConnDir {s : Snapshot} (h : Shows w s) (conn : Conn) (ok : Bool) :
    Shows (w.closeConnDir conn ok) (s.closeConnDir conn) := by
  have hsame : s.connToFd = w.connToFd := by
    rw [← h.eq]
    rfl
  simp only [ConnectionManager.closeConnDir, Snapshot.closeConnDir, hsame]
  cases w.connToFd conn with
  | none => exact h
  | some fd => exact h.closeFD fd ok

theorem Shows.closeConn {s : Snapshot} (h : Shows w s) (peer : PeerId) (dir : LinkDirection)
    (ok : Bool) : Shows (w.closeConn peer dir ok) (s.closeConn peer dir) := by
  unfold ConnectionManager.closeConn Snapshot.closeConn
  dsimp only
  split <;> split
  · exact (h.closeConnDir _ ok).closeConnDir _ ok
  · exact h.closeConnDir _ ok
  · exact h.closeConnDir _ ok
  · exact h

/-! ### Queues -/

theorem Shows.setQueue {s : Snapshot} (h : Shows w s) (fd : Fd) (queue : List Parcel) :
    Shows { w with sendQueues := w.sendQueues.set fd queue } (s.setQueue fd queue) :=
  ⟨h.io, by rw [← h.eq]; rfl⟩

private theorem setQueue_setQueue (s : Snapshot) (fd : Fd) (queue queue' : List Parcel) :
    (s.setQueue fd queue).setQueue fd queue' = s.setQueue fd queue' := by
  have hset : (s.sendQueues.set fd queue).set fd queue' = s.sendQueues.set fd queue' := by
    funext fd'
    simp only [PartialMap.set_apply]
    split <;> rfl
  simp only [Snapshot.setQueue, hset]

private theorem setQueue_same {s : Snapshot} {queue : List Parcel}
    (hqueue : s.sendQueues fd = some queue) : s.setQueue fd queue = s := by
  have hset : s.sendQueues.set fd queue = s.sendQueues := by
    funext fd'
    simp only [PartialMap.set_apply]
    split
    · rename_i hfd
      rw [hfd, hqueue]
    · rfl
  simp only [Snapshot.setQueue, hset]

private theorem queueRun_of_setQueue {s s' : Snapshot} {queue rest : List Parcel}
    (h : Snapshot.QueueRun (s.setQueue fd rest) fd queue s') : Snapshot.QueueRun s fd queue s' := by
  induction h with
  | idle =>
      rw [setQueue_setQueue]
      exact .idle
  | starts parcel rest' hlength =>
      rw [setQueue_setQueue]
      exact .starts parcel rest' hlength
  | aborts parcel rest' hlength =>
      rw [setQueue_setQueue]
      exact .aborts parcel rest' hlength
  | refused parcel _ ih => exact .refused parcel ih

/-- The lambda of `SendMessageFd` on a connection whose front message has come to its end. -/
theorem queuedSent_front {s : Snapshot} (h : Shows w s) (hactive : s.activeConns fd ≠ none)
    {front : Parcel} {rest : List Parcel} (hqueue : s.sendQueues fd = some (front :: rest))
    (next : ConnectionManager → ConnectionManager) :
    Shows { w with sendQueues := w.sendQueues.set fd rest } (s.setQueue fd rest) ∧
      w.queuedSent fd next =
        if rest = [] then { w with sendQueues := w.sendQueues.set fd rest }
        else next { w with sendQueues := w.sendQueues.set fd rest } := by
  have hsame : w.sendQueues fd = some (front :: rest) := by
    rw [← hqueue, ← h.eq]
    rfl
  obtain ⟨conn, hconn⟩ := Option.ne_none_iff_exists'.mp hactive
  have hconn' : w.activeConns fd = some conn := by
    rw [← hconn, ← h.eq]
    rfl
  refine ⟨h.setQueue fd rest, ?_⟩
  by_cases hrest : rest = []
  · simp [queuedSent, hconn', popFront, hsame, hrest]
  · simp [queuedSent, hconn', popFront, hsame, hrest]

/-- `SendMessageFd`, on a connection with at most `fuel` messages waiting. -/
theorem Shows.sendMessageFd {s : Snapshot} (h : Shows w s) (hactive : s.activeConns fd ≠ none)
    {queue : List Parcel} (hqueue : s.sendQueues fd = some queue) {fuel : Nat}
    (hfuel : queue.length ≤ fuel) (registers : List Bool) :
    ∃ s', Shows (ConnectionManager.sendMessageFd fd fuel registers w) s' ∧
      Snapshot.QueueRun s fd queue s' := by
  induction fuel generalizing w s queue registers with
  | zero =>
      obtain rfl : queue = [] := List.eq_nil_of_length_eq_zero (Nat.le_zero.mp hfuel)
      exact ⟨s.setQueue fd [], by rw [setQueue_same hqueue]; exact h, .idle⟩
  | succ fuel ih =>
      have hsame : w.sendQueues fd = some queue := by
        rw [← hqueue, ← h.eq]
        rfl
      cases queue with
      | nil =>
          refine ⟨s.setQueue fd [], ?_, .idle⟩
          rw [setQueue_same hqueue]
          simpa only [ConnectionManager.sendMessageFd, takeFront, hsame] using h
      | cons parcel rest =>
          have htaken := h.setQueue fd (parcel.movedOut :: rest)
          simp only [ConnectionManager.sendMessageFd, takeFront, hsame]
          cases hstart :
            w.io.sendMessage fd parcel.body (.queued parcel) (registers.headD true) with
          | pending io =>
              exact ⟨_, htaken.sendMessage hstart,
                .starts parcel rest (Io.sendMessage_pending hstart)⟩
          | aborted =>
              exact ⟨_, htaken.abort, .aborts parcel rest (Io.sendMessage_aborted.mp hstart)⟩
          | failed =>
              obtain ⟨hpopped, heq⟩ :=
                  queuedSent_front htaken hactive
                    (PartialMap.set_self s.sendQueues fd (parcel.movedOut :: rest))
                    (ConnectionManager.sendMessageFd fd fuel registers.tail)
              rw [setQueue_setQueue] at hpopped
              simp only [heq]
              by_cases hrest : rest = []
              · subst hrest
                exact ⟨_, hpopped, .refused parcel .idle⟩
              · rw [if_neg hrest]
                obtain ⟨s', hshows, hrun⟩ := ih hpopped hactive (PartialMap.set_self _ _ _)
                  (Nat.le_of_succ_le_succ hfuel) registers.tail
                exact ⟨s', hshows, .refused parcel (queueRun_of_setQueue hrun)⟩

theorem Shows.startQueue {s : Snapshot} (h : Shows w s) (hactive : s.activeConns fd ≠ none)
    {queue : List Parcel} (hqueue : s.sendQueues fd = some queue) (registers : List Bool) :
    ∃ s', Shows (w.startQueue fd registers) s' ∧ Snapshot.QueueRun s fd queue s' := by
  have hsame : w.sendQueues fd = some queue := by
    rw [← hqueue, ← h.eq]
    rfl
  refine h.sendMessageFd hactive hqueue ?_ registers
  simp [queueLength, hsame]

/-! ### Steps -/

open Snapshot (Move)

/-- Where a step of the code leads: a move of the picture, with the loop in order. -/
def Moves (w : ConnectionManager) (event : Event) (w' : ConnectionManager) : Prop :=
  ∃ s', Shows w' s' ∧ Move w.snapshot event s'

/-- After a receiving operation has resolved. -/
theorem onMessage_moves (h : w.Sound) {op : RecvOp} {resolve : OnMessage}
    (hat : w.io.recvAt fd = some (op, resolve)) {res : EpollResult} {ret : RecvReturn}
    {result : IoResult Message} (hevent : op.event w.io.order res ret = .resolved result)
    {io : Io OnMessage OnSent}
    (hended : Shows { w with io := io } (w.snapshot.endRecv fd (ret.bytes res))) (answers : Answers)
    (hidle : w.io.sendAt fd = none → answers.deregister = true → io.Idle fd) :
    Moves w (.readable fd res ret answers)
      ({ w with io := io }.onMessage fd resolve result answers) := by
  have hclosed : resolve ≠ .readMessage →
      (∀ peer, resolve = .outgoingAnswer peer →
        result ≠ .ok (HelloMsg.make peer helloAnswer).serialize) →
      ∃ s', Shows ({ w with io := io }.closeHello fd) s' ∧
        Move w.snapshot (.readable fd res ret answers) s' :=
    fun hhello hbad => ⟨_, hended.closeHello fd, .helloDropped hat hhello hevent hbad⟩
  cases resolve with
  | incomingHello =>
      have hdropped : ∃ s', Shows ({ w with io := io }.closeHello fd) s' ∧
          Move w.snapshot (.readable fd res ret answers) s' := hclosed (by simp) (by simp)
      cases result with
      | err e => exact hdropped
      | ok msg =>
          simp only [onMessage, incomingHello]
          cases hmsg : HelloMsg.deserialize msg with
          | none => exact hdropped
          | some hello =>
              obtain ⟨rfl, hidentifier⟩ := HelloMsg.deserialize_eq_some.mp hmsg
              dsimp only
              split
              · exact hdropped
              · rename_i htype
                split
                · exact hdropped
                · have hmake : hello = HelloMsg.make hello.id helloNotify := by
                    rw [ne_eq, not_not] at htype
                    rw [HelloMsg.make, ← hidentifier, ← htype]
                  split
                  · rename_i io' hstart
                    exact ⟨_, hended.sendMessage hstart, .helloAnswered hat (hmake ▸ hevent)⟩
                  · exact hdropped
                  · rename_i hstart
                    exact absurd hstart hello_not_aborted
  | outgoingAnswer peer =>
      simp only [onMessage, outgoingAnswer_eq]
      split
      · rename_i hgood
        have hbare := h.ok.bare_recv hat (by simp) (ret.bytes res)
        have hactive :
            ((w.snapshot.endRecv fd (ret.bytes res)).established fd (peer, .outgoing)).activeConns
              fd ≠ none := by
          rw [hbare.established]
          simp
        have hread :=
          (hended.established fd (peer, .outgoing)).readMessage hactive answers.register
          answers.deregister
        refine ⟨_, hread.notify _,
          .sessionOut hat (hgood ▸ hevent) _ fun hregister hderegister => ?_⟩
        rw [hregister]
        exact (hidle (h.ok.hello_recv hat (by simp)).2 hderegister).recvMessage _
      · rename_i hbad
        exact hclosed (by simp) fun peer' hpeer => OnMessage.outgoingAnswer.inj hpeer ▸ hbad
  | readMessage =>
      obtain ⟨conn, hconn⟩ := h.ok.reader_active hat
      have hconn' : w.activeConns fd = some conn := hconn
      cases result with
      | err e =>
          refine ⟨_, ?_, .readFailed hat hevent⟩
          simp only [onMessage, messageRead, readFailed, hconn']
          exact hended.closeFD fd answers.deregister
      | ok msg =>
          obtain ⟨peer, dir⟩ := conn
          have hactive :
              (((w.snapshot.endRecv fd (ret.bytes res)).note
                (.receivedMessage peer msg)).activeConns fd) ≠ none := by
            rw [show ((w.snapshot.endRecv fd (ret.bytes res)).note
              (.receivedMessage peer msg)).activeConns = w.snapshot.activeConns from rfl, hconn]
            simp
          have hread :=
            (hended.notify (.receivedMessage peer msg)).readMessage hactive answers.register
            answers.deregister
          have heq : { w with io := io }.onMessage fd .readMessage (.ok msg) answers
              = ({ w with io := io }.notify (.receivedMessage peer msg)).readMessage fd
                answers.register answers.deregister := by
            simp only [onMessage, messageRead, hconn']
          exact heq ▸ ⟨_, hread, .messageRead hat hconn hevent _⟩

theorem onSent_moves (h : w.Sound) {op : SendOp} {resolve : OnSent}
    (hat : w.io.sendAt fd = some (op, resolve)) {res : EpollResult} {ret : SendReturn}
    {result : IoResult Unit} (hevent : op.event res ret = .resolved result)
    {io : Io OnMessage OnSent}
    (hended : Shows { w with io := io } (w.snapshot.endSend fd (op.put res ret)))
    (answers : Answers) :
    Moves w (.writable fd res ret answers)
      ({ w with io := io }.onSent fd resolve result answers) := by
  cases resolve with
  | helloAnswer peer =>
      cases result with
      | err e => exact ⟨_, hended.closeHello fd, .answerUnsent hat hevent⟩
      | ok u =>
          have hbare := h.ok.bare_send hat trivial (op.put res ret)
          have hactive :
              (((w.snapshot.endSend fd (op.put res ret)).established fd (peer, .incoming)).note
                (.sessionOpened peer .incoming)).activeConns fd ≠ none := by
            rw [show (((w.snapshot.endSend fd (op.put res ret)).established fd
              (peer, .incoming)).note (.sessionOpened peer .incoming)).activeConns
              = ((w.snapshot.endSend fd (op.put res ret)).established fd
                (peer, .incoming)).activeConns from rfl, hbare.established]
            simp
          have hread :=
            ((hended.established fd (peer, .incoming)).notify
              (.sessionOpened peer .incoming)).readMessage hactive answers.register
            answers.deregister
          exact ⟨_, hread, .sessionIn hat hevent _⟩
  | helloNotify peer =>
      cases result with
      | err e => exact ⟨_, (hended.notify _).closeHello fd, .notifyUnsent hat hevent⟩
      | ok u =>
          simp only [onSent, helloNotifySent]
          split
          · rename_i io' hstart
            exact ⟨_, hended.recvMessage hstart, .notifySent hat hevent⟩
          · exact ⟨_, hended.closeHello fd, .notifyUnanswered hat hevent⟩
  | queued parcel =>
      obtain ⟨conn, hconn⟩ := h.ok.queued_active hat
      obtain ⟨rest, hqueue⟩ := (h.ok.stage fd).front op parcel hat
      have hactive : (w.snapshot.endSend fd (op.put res ret)).activeConns fd ≠ none := by
        rw [show (w.snapshot.endSend fd (op.put res ret)).activeConns
          = w.snapshot.activeConns from rfl, hconn]
        simp
      obtain ⟨hpopped, heq⟩ :=
          queuedSent_front hended hactive hqueue fun w => w.startQueue fd answers.registers
      simp only [onSent, heq]
      by_cases hrest : rest = []
      · subst hrest
        exact ⟨_, hpopped, .queueAdvances hat hqueue hevent .idle⟩
      · rw [if_neg hrest]
        obtain ⟨s', hshows, hrun⟩ :=
            hpopped.startQueue hactive (PartialMap.set_self _ _ _) answers.registers
        exact ⟨s', hshows, .queueAdvances hat hqueue hevent (queueRun_of_setQueue hrun)⟩

theorem readable_moves (h : w.Sound) {res : EpollResult} {ret : RecvReturn} {answers : Answers}
    (hstep : w.step (.readable fd res ret answers) = some w') :
    Moves w (.readable fd res ret answers) w' := by
  simp only [step] at hstep
  split at hstep
  · exact absurd hstep (by simp)
  cases hat : w.io.recvAt fd with
  | none => simp [Io.recvEvent_none h.io hat] at hstep
  | some pair =>
      obtain ⟨op, resolve⟩ := pair
      have hsnapshot : w.snapshot.recvAt fd = some (op, resolve) := hat
      rcases Io.recvEvent_cases h.io hat res ret answers.deregister with
        ⟨op', io, hevent, heq, hrecv, hran⟩ | ⟨result, io, hevent, heq, hrecv, hran⟩ | ⟨hevent, heq⟩
      · simp only [heq, Option.map_some, Option.some.injEq] at hstep
        exact hstep ▸ ⟨_, shows_recvRan hran hrecv, .recvGoesOn hsnapshot hevent⟩
      · simp only [heq, Option.map_some, Option.some.injEq] at hstep
        refine hstep ▸ onMessage_moves h hat hevent (shows_recvEnded hran hrecv) answers
          fun hsend hderegister => ?_
        obtain ⟨sock, hsock⟩ := h.ok.recv_open hsnapshot
        have hopen : w.io.fds fd = some sock := hsock
        exact Io.recvEvent_idle h.io (hderegister ▸ heq) (by simp [hopen]) hsend
      · simp only [heq, Option.map_some, Option.some.injEq] at hstep
        exact hstep ▸ ⟨_, Shows.abort ⟨h.io, rfl⟩, .recvAborts hsnapshot hevent⟩

theorem writable_moves (h : w.Sound) {res : EpollResult} {ret : SendReturn} {answers : Answers}
    (hstep : w.step (.writable fd res ret answers) = some w') :
    Moves w (.writable fd res ret answers) w' := by
  simp only [step] at hstep
  split at hstep
  · exact absurd hstep (by simp)
  cases hat : w.io.sendAt fd with
  | none => simp [Io.sendEvent_none h.io hat] at hstep
  | some pair =>
      obtain ⟨op, resolve⟩ := pair
      have hsnapshot : w.snapshot.sendAt fd = some (op, resolve) := hat
      rcases Io.sendEvent_cases h.io hat res ret answers.deregister with
        ⟨op', io, hevent, heq, hsend, hran⟩ | ⟨result, io, hevent, heq, hsend, hran⟩ | ⟨hevent, heq⟩
      · simp only [heq, Option.map_some, Option.some.injEq] at hstep
        exact hstep ▸ ⟨_, shows_sendRan hran hsend, .sendGoesOn hsnapshot hevent⟩
      · simp only [heq, Option.map_some, Option.some.injEq] at hstep
        exact hstep ▸ onSent_moves h hat hevent (shows_sendEnded hran hsend) answers
      · simp only [heq, Option.map_some, Option.some.injEq] at hstep
        exact hstep ▸ ⟨_, Shows.abort ⟨h.io, rfl⟩, .sendAborts hsnapshot hevent⟩

theorem incomingHelloExchange_moves (h : w.Sound) (hfree : w.io.fds fd = none) (register : Bool) :
    Moves w (.accept fd register)
      ({ w with io := w.io.openFd fd }.incomingHelloExchange fd register) := by
  have hopened := shows_openFd h.io fd
  unfold incomingHelloExchange
  split
  · rename_i io hstart
    exact ⟨_, hopened.recvMessage hstart, .accepted hfree⟩
  · exact ⟨_, hopened.closeHello fd, .acceptUnwatched hfree⟩

theorem establishConnection_moves (h : w.Sound) {peer : PeerId} {dial : Dial}
    (hfree : ∀ fd ∈ dial.socket, w.Unused fd) :
    Moves w (.openSession peer dial) (w.establishConnection peer dial) := by
  have hself : Shows w w.snapshot := ⟨h.io, rfl⟩
  unfold establishConnection
  split
  · exact ⟨_, hself.notify _, .notDialed .sessionExists⟩
  split
  · exact ⟨_, hself.notify _, .notDialed .noSuchPeer⟩
  split
  · exact ⟨_, hself.notify _, .notDialed .error⟩
  · rename_i fd hsocket
    have hclosed : w.snapshot.fds fd = none := (hfree fd hsocket).2
    have hopened := shows_openFd h.io fd
    dsimp only
    by_cases hearly : dial.connect = .failed
    · rw [if_pos hearly]
      have hnoted := hopened.notify (.error peer ⟨.error, .outgoing⟩)
      unfold outgoingHelloExchange
      split
      · rename_i io hstart
        exact ⟨_, hnoted.sendMessage hstart, .dialed hclosed true⟩
      · exact ⟨_, (hnoted.notify _).closeHello fd, .dialUnwatched hclosed true⟩
      · rename_i hstart
        exact absurd hstart hello_not_aborted
    · rw [if_neg hearly]
      unfold outgoingHelloExchange
      split
      · rename_i io hstart
        exact ⟨_, hopened.sendMessage hstart, .dialed hclosed false⟩
      · exact ⟨_, (hopened.notify _).closeHello fd, .dialUnwatched hclosed false⟩
      · rename_i hstart
        exact absurd hstart hello_not_aborted

theorem sendMessage_moves (h : w.Sound) (peer : PeerId) (msg : Message) (registers : List Bool) :
    Moves w (.sendMessage peer msg registers) (w.sendMessage peer msg registers) := by
  unfold sendMessage
  split
  · exact ⟨_, ⟨h.io, rfl⟩, .sendNowhere⟩
  · rename_i fd hlookup
    cases hqueue : w.sendQueues fd with
    | none =>
        simp only [pushBack, hqueue, Option.map_none]
        exact ⟨_, ⟨h.io, rfl⟩, .sendNowhere⟩
    | some queue =>
        have hsnapshot : w.snapshot.sendQueues fd = some queue := hqueue
        have hpushed : Shows { w with
            sendQueues := w.sendQueues.set fd (queue ++ [⟨peer, msg⟩])
            pushed := appendTo w.pushed (w.io.fds fd) [⟨peer, msg⟩] }
              (w.snapshot.push fd queue ⟨peer, msg⟩) := ⟨h.io, rfl⟩
        simp only [pushBack, hqueue, Option.map_some]
        cases queue with
        | nil =>
            simp only [List.nil_append, List.length_singleton, Nat.le_refl, decide_true, if_true]
            obtain ⟨conn, hconn⟩ := h.ok.queue_active hsnapshot
            have hactive : (w.snapshot.push fd [] ⟨peer, msg⟩).activeConns fd ≠ none := by
              rw [show (w.snapshot.push fd [] ⟨peer, msg⟩).activeConns
                = w.snapshot.activeConns from rfl, hconn]
              simp
            obtain ⟨s', hshows, hrun⟩ :=
                hpushed.startQueue hactive (PartialMap.set_self _ _ _) registers
            exact ⟨s', hshows, .sendAlone hsnapshot hrun⟩
        | cons front rest =>
            simp only [List.cons_append, List.length_cons, List.length_append, List.length_nil]
            rw [if_neg (by simp)]
            exact ⟨_, hpushed, .sendQueued hsnapshot (by simp)⟩

theorem destroy_moves (h : w.Sound) (token : CancellationToken) (ok : Bool) :
    Moves w (.destroy token ok) { w with io := w.io.destroy token ok } := by
  have hfewer := Io.destroy_fewer h.io token ok
  refine ⟨_, ⟨hfewer.wf, ?_⟩, .destroyed hfewer.recvAt hfewer.sendAt⟩
  simp only [snapshot, hfewer.order, hfewer.fds, hfewer.nextSock, hfewer.written, hfewer.taken]

theorem Sound.step (h : w.Sound) {event : Event} (hstep : w.step event = some w') :
    w'.Sound ∧ Move w.snapshot event w'.snapshot := by
  obtain ⟨s', hshows, hmove⟩ : Moves w event w' := by
    have hstep' := hstep
    simp only [ConnectionManager.step] at hstep
    split at hstep
    · exact absurd hstep (by simp)
    cases event with
    | accept fd register =>
        dsimp only at hstep
        split at hstep
        · rename_i hunused
          exact Option.some.inj hstep ▸ incomingHelloExchange_moves h hunused.2 register
        · exact absurd hstep (by simp)
    | openSession peer dial =>
        dsimp only at hstep
        split at hstep
        · rename_i hunused
          exact Option.some.inj hstep ▸ establishConnection_moves h hunused
        · exact absurd hstep (by simp)
    | closeSession peer dir ok =>
        obtain rfl := Option.some.inj hstep
        exact ⟨_, Shows.closeConn ⟨h.io, rfl⟩ peer dir ok, .closed⟩
    | sendMessage peer msg registers =>
        obtain rfl := Option.some.inj hstep
        exact sendMessage_moves h peer msg registers
    | readable fd res ret answers => exact readable_moves h hstep'
    | writable fd res ret answers => exact writable_moves h hstep'
    | destroy token ok =>
        dsimp only at hstep
        split at hstep
        · exact Option.some.inj hstep ▸ destroy_moves h token ok
        · exact absurd hstep (by simp)
  rw [← hshows.eq] at hmove
  exact ⟨⟨hshows.io, h.ok.move hmove⟩, hmove⟩

def machine : Machine ConnectionManager Event := ⟨step⟩

theorem sound_of_reach {allowed : ConnectionManager → Event → Prop} {self : PeerId}
    {order : ByteOrder} (h : machine.Reach allowed (init self order) w) : w.Sound :=
  h.invariant (init_sound self order) fun _ _ _ hs _ hstep => (hs.step hstep).1

end ConnectionManager

end Diplom
