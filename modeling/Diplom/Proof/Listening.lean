import Diplom.Proof.Network
import Diplom.Spec.Delivery

/-!
# What has been passed on from a socket

Each reader starts where the one before it has stopped, so the frames of the messages that are
passed on from a socket lie one behind the other in what the socket has taken, after the hello of
the exchange. What the reader has taken of a frame that is not complete is the rest. Again the runs
are those in which calls overlap no callback.
-/

namespace Diplom

open ConnectionManager (Event Answers incomingHandshake)

namespace Life

variable {node : PeerId} {order : ByteOrder} {l l' : Life} {event : Event}
  {got : List (PeerId × Message)} {conn : Conn}

def heardBy (order : ByteOrder) (active : Option Conn) (recv : Option (RecvOp × OnMessage)) :
    Event → List (PeerId × Message)
  | .readable _ res ret _ =>
      match active, recv with
      | some conn, some (op, .readMessage) =>
          match op.event order res ret with
          | .resolved (.ok msg) => [(conn.1, msg)]
          | _ => []
      | _, _ => []
  | _ => []

/-- What has come is the hello of a peer, the messages that were passed on, for this peer, and a
rest. -/
structure Heard (order : ByteOrder) (taken : List Byte) (got : List (PeerId × Message))
    (conn : Conn) (rest : List Byte) : Prop where
  bytes : ∃ type, taken = (uint32 order).frames
    ((HelloMsg.make conn.1 type).serialize :: got.map Prod.snd) ++ rest
  peers : ∀ e ∈ got, e.1 = conn.1

theorem Heard.more {taken rest : List Byte} (h : Heard order taken got conn rest)
    (bytes : List Byte) : Heard order (taken ++ bytes) got conn (rest ++ bytes) := by
  obtain ⟨⟨type, rfl⟩, hpeers⟩ := h
  exact ⟨⟨type, List.append_assoc _ _ _⟩, hpeers⟩

theorem Heard.message {taken rest : List Byte} (h : Heard order taken got conn rest) {m : Message}
    (hrest : frame order m = rest) : Heard order taken (got ++ [(conn.1, m)]) conn [] := by
  obtain ⟨⟨type, rfl⟩, hpeers⟩ := h
  refine ⟨⟨type, ?_⟩, ?_⟩
  · rw [List.map_append, ← List.cons_append, LengthCode.frames_append, List.append_nil, ← hrest]
    simp [frame]
  · intro e he
    rcases List.mem_append.mp he with hold | hnew
    · exact hpeers e hold
    · rw [List.mem_singleton.mp hnew]

theorem heard_hello {taken : List Byte} {type : Byte}
    (h : taken = helloFrame conn.1 order type) : Heard order taken [] conn [] := by
  refine ⟨⟨type, ?_⟩, by simp⟩
  rw [h]
  simp [helloFrame, frame]

/-- The next byte of the socket is where the next reader expects it. -/
structure Listener (order : ByteOrder) (l : Life) (got : List (PeerId × Message)) : Prop where
  exchange : ∀ op resolve, l.recv = some (op, resolve) → resolve ≠ .readMessage →
    op.Wf ∧ l.taken = op.consumed order ∧ l.recorded = []
  answers : ∀ op peer, l.send = some (op, .helloAnswer peer) →
    l.taken = helloFrame peer order helloNotify ∧ l.recorded = []
  notifies : ∀ op peer, l.send = some (op, .helloNotify peer) → l.taken = [] ∧ l.recorded = []
  reads : ∀ op, l.recv = some (op, .readMessage) →
    op.Wf ∧ ∀ conn ∈ l.recorded, Heard order l.taken got conn (op.consumed order)
  heard : ∀ conn ∈ l.recorded, l.recorded = [conn] ∧ ∃ rest, Heard order l.taken got conn rest
  active : ∀ conn, l.active = some conn → conn ∈ l.recorded
  unheard : l.recorded = [] → got = []
  fits : ∀ e ∈ got, e.2.length < 2 ^ 32

theorem new_listener (order : ByteOrder) : new.Listener order [] := by
  refine ⟨?_, ?_, ?_, ?_, ?_, ?_, ?_, ?_⟩ <;> simp [new]

/-- Nothing is received, and nothing is awaited that was not awaited before. -/
theorem Listener.same (h : l.Listener order got) (htaken : l'.taken = l.taken)
    (hrecorded : l'.recorded = l.recorded)
    (hactive : ∀ conn, l'.active = some conn → l.active = some conn)
    (hrecv : ∀ op resolve, l'.recv = some (op, resolve) → l.recv = some (op, resolve))
    (hsend : ∀ op resolve, l'.send = some (op, resolve) → resolve.IsHello →
      ∃ op', l.send = some (op', resolve)) : l'.Listener order got := by
  refine ⟨?_, ?_, ?_, ?_, ?_, ?_, ?_, h.fits⟩
  · intro op resolve hat hhello
    rw [htaken, hrecorded]
    exact h.exchange op resolve (hrecv op resolve hat) hhello
  · intro op peer hat
    obtain ⟨op', hat'⟩ := hsend op _ hat trivial
    rw [htaken, hrecorded]
    exact h.answers op' peer hat'
  · intro op peer hat
    obtain ⟨op', hat'⟩ := hsend op _ hat trivial
    rw [htaken, hrecorded]
    exact h.notifies op' peer hat'
  · intro op hat
    rw [htaken, hrecorded]
    exact h.reads op (hrecv op _ hat)
  · rw [htaken, hrecorded]
    exact h.heard
  · intro conn hconn
    rw [hrecorded]
    exact h.active conn (hactive conn hconn)
  · rw [hrecorded]
    exact h.unheard

theorem Listener.closed (h : l.Listener order got) : l.closed.Listener order got := by
  refine h.same rfl rfl ?_ ?_ ?_ <;> simp [Life.closed]

theorem Born.listener (h : Born node order new event l) : l.Listener order [] := by
  have hnew := new_listener order
  cases h with
  | accepted =>
      refine ⟨?_, hnew.answers, hnew.notifies, by simp, hnew.heard, hnew.active, hnew.unheard,
        hnew.fits⟩
      intro op resolve hat _
      obtain ⟨rfl, -⟩ := Prod.mk.inj (Option.some.inj hat)
      exact ⟨RecvOp.start_wf, by simp [new], rfl⟩
  | acceptUnwatched => exact hnew
  | dialed =>
      refine ⟨hnew.exchange, by simp, ?_, hnew.reads, hnew.heard, hnew.active, hnew.unheard,
        hnew.fits⟩
      intro op peer _
      exact ⟨rfl, rfl⟩
  | dialUnwatched => exact hnew

theorem Listener.took (h : l.Listener order got) (hstaged : l.Staged) {old : RecvOp × OnMessage}
    (hat : l.recv = some old) {recv : Option (RecvOp × OnMessage)} (bytes : List Byte)
    (hexchange : ∀ op resolve, recv = some (op, resolve) → resolve ≠ .readMessage →
      op.Wf ∧ l.taken ++ bytes = op.consumed order ∧ l.recorded = [])
    (hreads : ∀ op, recv = some (op, .readMessage) → op.Wf ∧ ∀ conn ∈ l.recorded,
      Heard order (l.taken ++ bytes) got conn (op.consumed order)) :
    { l with recv := recv, taken := l.taken ++ bytes }.Listener order got := by
  refine ⟨hexchange, ?_, ?_, hreads, ?_, h.active, h.unheard, h.fits⟩
  · intro op peer hsend
    exact absurd (hat.symm.trans (hstaged.hello_alone hsend trivial)) (by simp)
  · intro op peer hsend
    exact absurd (hat.symm.trans (hstaged.hello_alone hsend trivial)) (by simp)
  · intro conn hconn
    obtain ⟨honly, rest, hheard⟩ := h.heard conn hconn
    exact ⟨honly, _, hheard.more bytes⟩

theorem Listener.entered (h : l.Listener order got) (hnone : l.recorded = []) {type : Byte}
    (hactive : l'.active = some conn) (hrecorded : l'.recorded = [conn])
    (hrecv : l'.recv = some (.start, .readMessage)) (hsend : l'.send = none)
    (htaken : l'.taken = helloFrame conn.1 order type) : l'.Listener order got := by
  obtain rfl := h.unheard hnone
  have hheard : Heard order l'.taken [] conn [] := heard_hello htaken
  refine ⟨?_, by simp [hsend], by simp [hsend], ?_, ?_, ?_, fun _ => rfl, h.fits⟩
  · intro op resolve hat hhello
    obtain ⟨-, rfl⟩ := Prod.mk.inj (Option.some.inj (hrecv.symm.trans hat))
    exact absurd rfl hhello
  · intro op hat
    obtain ⟨rfl, -⟩ := Prod.mk.inj (Option.some.inj (hrecv.symm.trans hat))
    refine ⟨RecvOp.start_wf, fun conn' hconn' => ?_⟩
    rw [hrecorded, List.mem_singleton] at hconn'
    rw [hconn', RecvOp.start_consumed]
    exact hheard
  · intro conn' hconn'
    rw [hrecorded, List.mem_singleton] at hconn'
    rw [hconn']
    exact ⟨hrecorded, [], hheard⟩
  · intro conn' hconn'
    rw [hrecorded, List.mem_singleton]
    exact Option.some.inj (hconn'.symm.trans hactive)

theorem Listener.message (h : l.Listener order got) (hstaged : l.Staged) {op : RecvOp}
    (hat : l.recv = some (op, .readMessage)) (hactive : l.active = some conn) {res : EpollResult}
    {ret : RecvReturn} (hagain : (res, ret) ≠ (.ok (), .failed .eagain)) {m : Message}
    (hevent : op.event order res ret = .resolved (.ok m)) {recv : Option (RecvOp × OnMessage)}
    (hrecv : recv = none ∨ recv = some (.start, .readMessage)) :
    { l with recv := recv, taken := l.taken ++ ret.bytes res }.Listener order
      (got ++ [(conn.1, m)]) := by
  obtain ⟨hwf, hreads⟩ := h.reads op hat
  have hconn := h.active conn hactive
  have hone : l.recorded = [conn] := (h.heard conn hconn).1
  have hheard : Heard order (l.taken ++ ret.bytes res) (got ++ [(conn.1, m)]) conn [] :=
    ((hreads conn hconn).more (ret.bytes res)).message (hwf.completes hagain hevent)
  have hwaits : ∀ op' resolve, recv = some (op', resolve) →
      op' = .start ∧ resolve = .readMessage := by
    intro op' resolve hat'
    rcases hrecv with rfl | rfl
    · exact absurd hat' (by simp)
    · simpa using hat'.symm
  refine ⟨?_, ?_, ?_, ?_, ?_, h.active, ?_, ?_⟩
  · intro op' resolve hat' hhello
    exact absurd (hwaits op' resolve hat').2 hhello
  · intro op' peer hsend
    exact absurd (hat.symm.trans (hstaged.hello_alone hsend trivial)) (by simp)
  · intro op' peer hsend
    exact absurd (hat.symm.trans (hstaged.hello_alone hsend trivial)) (by simp)
  · intro op' hat'
    obtain ⟨rfl, -⟩ := hwaits op' _ hat'
    refine ⟨RecvOp.start_wf, fun conn' hconn' => ?_⟩
    rw [hone, List.mem_singleton] at hconn'
    rw [hconn', RecvOp.start_consumed]
    exact hheard
  · intro conn' hconn'
    have heq := hconn'
    rw [hone, List.mem_singleton] at heq
    rw [heq]
    exact ⟨hone, [], hheard⟩
  · intro hnone
    exact absurd (hone.symm.trans hnone) (by simp)
  · intro e he
    rcases List.mem_append.mp he with hold | hnew
    · exact h.fits e hold
    · rw [List.mem_singleton.mp hnew]
      exact hwf.fits hevent

theorem Staged.reader_active (h : l.Staged) {op : RecvOp} (hat : l.recv = some (op, .readMessage)) :
    ∃ conn, l.active = some conn := by
  obtain ⟨sock, hstage⟩ := h
  exact Option.ne_none_iff_exists'.mp ((hstage.reads op _ hat).mp rfl)

theorem Staged.exchange_alone (h : l.Staged) {op : RecvOp} {resolve : OnMessage}
    (hat : l.recv = some (op, resolve)) (hhello : resolve ≠ .readMessage) : l.send = none := by
  obtain ⟨sock, hstage⟩ := h
  have hactive : l.active = none := by
    by_contra hactive
    exact hhello ((hstage.reads op resolve hat).mpr hactive)
  exact (hstage.one hactive).resolve_left (by rw [hat]; simp)

/-- Without a message the reader passes nothing on. -/
theorem heardBy_nil {fd : Fd} {res : EpollResult} {ret : RecvReturn} {answers : Answers}
    {active : Option Conn} {op : RecvOp} {resolve : OnMessage}
    (h : resolve = .readMessage → ∀ m, op.event order res ret ≠ .resolved (.ok m)) :
    heardBy order active (some (op, resolve)) (.readable fd res ret answers) = [] := by
  cases active with
  | none => rfl
  | some conn =>
      cases resolve with
      | incomingHello => rfl
      | outgoingAnswer peer => rfl
      | readMessage =>
          simp only [heardBy]
          split
          · rename_i m hevent
            exact absurd hevent (h rfl m)
          · rfl

theorem heardBy_message {fd : Fd} {res : EpollResult} {ret : RecvReturn} {answers : Answers}
    {op : RecvOp} {m : Message} (hactive : l.active = some conn)
    (hat : l.recv = some (op, .readMessage)) (hevent : op.event order res ret = .resolved (.ok m)) :
    heardBy order l.active l.recv (.readable fd res ret answers) = [(conn.1, m)] := by
  simp only [heardBy, hactive, hat, hevent]

theorem Listener.step (h : l.Listener order got) (hstaged : l.Staged)
    (hstep : Step node order l event l') (hagain : event.NotAgain) :
    l'.Listener order (got ++ heardBy order l.active l.recv event) := by
  cases hstep with
  | @recvGoesOn fd res ret answers op op' resolve hat hevent =>
      have hnone : heardBy order l.active l.recv (.readable fd res ret answers) = [] := by
        rw [hat]
        apply heardBy_nil
        intro _ m hresolved
        rcases hevent with hevent | hevent <;> exact absurd (hevent.symm.trans hresolved) (by simp)
      rw [hnone, List.append_nil]
      refine h.took hstaged hat _ ?_ ?_
      · intro op'' resolve' hat' hhello
        obtain ⟨rfl, rfl⟩ := Prod.mk.inj (Option.some.inj hat')
        obtain ⟨hwf, htaken, hrecorded⟩ := h.exchange op _ hat hhello
        obtain ⟨hwf', hconsumed⟩ := hwf.goes_on hagain hevent
        exact ⟨hwf', by rw [htaken, hconsumed], hrecorded⟩
      · intro op'' hat'
        obtain ⟨rfl, rfl⟩ := Prod.mk.inj (Option.some.inj hat')
        obtain ⟨hwf, hreads⟩ := h.reads op hat
        obtain ⟨hwf', hconsumed⟩ := hwf.goes_on hagain hevent
        refine ⟨hwf', fun conn hconn => ?_⟩
        rw [hconsumed]
        exact (hreads conn hconn).more _
  | @recvEnds fd res ret answers op hat =>
      obtain ⟨op, resolve⟩ := op
      by_cases hmessage : resolve = .readMessage ∧ ∃ m, op.event order res ret = .resolved (.ok m)
      · obtain ⟨rfl, m, hevent⟩ := hmessage
        obtain ⟨conn, hactive⟩ := hstaged.reader_active hat
        rw [heardBy_message hactive hat hevent]
        exact h.message hstaged hat hactive hagain hevent (.inl rfl)
      · have hnone : heardBy order l.active l.recv (.readable fd res ret answers) = [] := by
          rw [hat]
          apply heardBy_nil
          intro hread m hevent
          exact hmessage ⟨hread, m, hevent⟩
        rw [hnone, List.append_nil]
        exact h.took hstaged hat _ (by simp) (by simp)
  | @helloAnswered fd res ret answers op peer hat hevent =>
      obtain ⟨hwf, htaken, hrecorded⟩ := h.exchange op _ hat (by simp)
      have hframe := hwf.completes hagain hevent
      have hnone : heardBy order l.active l.recv (.readable fd res ret answers) = [] := by
        rw [hat]
        exact heardBy_nil (by simp)
      rw [hnone, List.append_nil]
      refine ⟨by simp, ?_, by simp, by simp, ?_, h.active, h.unheard, h.fits⟩
      · intro op' peer' hat'
        obtain ⟨-, hpeer⟩ := Prod.mk.inj (Option.some.inj hat')
        obtain rfl := OnSent.helloAnswer.inj hpeer
        exact ⟨by rw [helloFrame, hframe, htaken], hrecorded⟩
      · simp [hrecorded]
  | @sessionOut fd res ret answers op peer hat hevent =>
      obtain ⟨hwf, htaken, hrecorded⟩ := h.exchange op _ hat (by simp)
      have hframe := hwf.completes hagain hevent
      have hnone : heardBy order l.active l.recv (.readable fd res ret answers) = [] := by
        rw [hat]
        exact heardBy_nil (by simp)
      have hsend : l.send = none := hstaged.exchange_alone hat (by simp)
      rw [hnone, List.append_nil]
      exact h.entered hrecorded rfl (by rw [hrecorded]; rfl) rfl hsend
        (by rw [helloFrame, hframe, htaken])
  | @messageRead fd res ret answers op m hat hevent =>
      obtain ⟨conn, hactive⟩ := hstaged.reader_active hat
      rw [heardBy_message hactive hat hevent]
      exact h.message hstaged hat hactive hagain hevent (.inr rfl)
  | @sendGoesOn fd res ret answers op op' resolve hat hevent =>
      change Listener order _ (got ++ [])
      rw [List.append_nil]
      refine h.same rfl rfl (fun _ => id) (fun _ _ => id) fun op'' resolve' hat' _ => ?_
      obtain ⟨-, rfl⟩ := Prod.mk.inj (Option.some.inj hat')
      exact ⟨op, hat⟩
  | @helloUnsent fd res ret answers op resolve hat hhello e hevent =>
      change Listener order _ (got ++ [])
      rw [List.append_nil]
      exact h.same rfl rfl (fun _ => id) (fun _ _ => id) (by simp)
  | @sessionIn fd res ret answers op peer hat hevent =>
      obtain ⟨htaken, hrecorded⟩ := h.answers op peer hat
      change Listener order _ (got ++ [])
      rw [List.append_nil]
      exact h.entered hrecorded rfl (by rw [hrecorded]; rfl) rfl rfl htaken
  | @notifySent fd res ret answers op peer hat hevent =>
      obtain ⟨htaken, hrecorded⟩ := h.notifies op peer hat
      change Listener order _ (got ++ [])
      rw [List.append_nil]
      refine ⟨?_, by simp, by simp, by simp, h.heard, h.active, h.unheard, h.fits⟩
      intro op' resolve hat' _
      obtain ⟨rfl, -⟩ := Prod.mk.inj (Option.some.inj hat')
      exact ⟨RecvOp.start_wf, by rw [RecvOp.start_consumed, htaken], hrecorded⟩
  | @queueAdvances fd res ret answers op parcel front rest queue result send hat hqueue hevent
      hstarts =>
      change Listener order _ (got ++ [])
      rw [List.append_nil]
      refine h.same rfl rfl (fun _ => id) (fun _ _ => id) fun op' resolve hat' hhello => ?_
      exact absurd hhello (hstarts.not_hello hat')
  | sendQueued hqueue hwaits =>
      change Listener order _ (got ++ [])
      rw [List.append_nil]
      exact h.same rfl rfl (fun _ => id) (fun _ _ => id) fun op resolve hat _ => ⟨op, hat⟩
  | @sendAlone peer msg registers queue send hqueue hstarts =>
      change Listener order _ (got ++ [])
      rw [List.append_nil]
      refine h.same rfl rfl (fun _ => id) (fun _ _ => id) fun op resolve hat hhello => ?_
      exact absurd hhello (hstarts.not_hello hat)
  | @destroyed token ok recv send hrecv hsend =>
      change Listener order _ (got ++ [])
      rw [List.append_nil]
      refine h.same rfl rfl (fun _ => id) (fun _ _ => PartialMap.eq_some_of_kept hrecv) ?_
      intro op resolve hat _
      exact ⟨op, PartialMap.eq_some_of_kept hsend hat⟩

end Life

/-! ### The messages of a move -/

namespace Snapshot

variable {s s' s'' : Snapshot} {event : Event} {fd : Fd}

def heard (s : Snapshot) (event : Event) : List (PeerId × Message) :=
  match event.fd with
  | none => []
  | some fd => Life.heardBy s.order (s.activeConns fd) (s.recvAt fd) event

/-- Notifications have been given, and among them these messages. -/
def Passes (s s' : Snapshot) (messages : List (PeerId × Message)) : Prop :=
  ∃ notes, s'.notes = s.notes ++ notes ∧ notes.filterMap Notification.received = messages

theorem Passes.refl (s : Snapshot) : Passes s s [] := ⟨[], (List.append_nil _).symm, rfl⟩

theorem Passes.silent {messages : List (PeerId × Message)} (h : Passes s s' messages)
    (h' : Passes s' s'' []) : Passes s s'' messages := by
  obtain ⟨notes, hnotes, hmessages⟩ := h
  obtain ⟨more, hmore, hnone⟩ := h'
  refine ⟨notes ++ more, ?_, ?_⟩
  · rw [hmore, hnotes, List.append_assoc]
  · rw [List.filterMap_append, hmessages, hnone, List.append_nil]

theorem passes_note (s : Snapshot) (n : Notification) : Passes s (s.note n) n.received.toList := by
  refine ⟨[n], rfl, ?_⟩
  cases n <;> rfl

theorem passes_notesIf (s : Snapshot) (given : Bool) (peer : PeerId) (err : OpenSessionError) :
    Passes s (s.notesIf given (.error peer err)) [] := by
  cases given with
  | true => exact passes_note s _
  | false => exact .refl s

theorem passes_closeFD (s : Snapshot) (fd : Fd) : Passes s (s.closeFD fd) [] := by
  unfold closeFD
  dsimp only
  cases s.activeConns fd with
  | none => exact .refl s
  | some conn => exact ⟨_, rfl, rfl⟩

theorem passes_reader (s : Snapshot) (fd : Fd) (registered : Bool) :
    Passes s (s.reader fd registered) [] := by
  cases registered with
  | true => exact .refl s
  | false => exact passes_closeFD s fd

theorem passes_closeConnDir (s : Snapshot) (conn : Conn) : Passes s (s.closeConnDir conn) [] := by
  unfold closeConnDir
  cases s.connToFd conn with
  | none => exact .refl s
  | some fd => exact passes_closeFD s fd

theorem passes_closeConn (s : Snapshot) (peer : PeerId) (dir : LinkDirection) :
    Passes s (s.closeConn peer dir) [] := by
  have hdir : ∀ (s : Snapshot) (conn : Conn) (closes : Prop) [Decidable closes],
      Passes s (if closes then s.closeConnDir conn else s) [] := by
    intro s conn closes _
    split
    · exact passes_closeConnDir s conn
    · exact .refl s
  exact (hdir s _ _).silent (hdir _ _ _)

theorem QueueRun.passes {queue : List Parcel} (h : QueueRun s fd queue s') : Passes s s' [] := by
  obtain ⟨_, _, _, rfl⟩ := h.eq
  exact .refl s

theorem heard_readable {res : EpollResult} {ret : RecvReturn} {answers : Answers} {op : RecvOp}
    {resolve : OnMessage} (hat : s.recvAt fd = some (op, resolve))
    (h : resolve = .readMessage → ∀ m, op.event s.order res ret ≠ .resolved (.ok m)) :
    s.heard (.readable fd res ret answers) = [] := by
  simp only [heard, Event.fd, hat]
  exact Life.heardBy_nil h

theorem Move.passes (h : Move s event s') : Passes s s' (s.heard event) := by
  cases h with
  | accepted hfree => exact .refl s
  | acceptUnwatched hfree => exact .refl s
  | recvGoesOn hat hevent =>
      rw [heard_readable hat fun _ m hresolved => by
        rcases hevent with hevent | hevent <;> exact absurd (hevent.symm.trans hresolved) (by simp)]
      exact .refl s
  | recvAborts hat hevent =>
      rw [heard_readable hat fun _ m hresolved => absurd (hevent.symm.trans hresolved) (by simp)]
      exact .refl s
  | helloDropped hat hhello hevent hbad =>
      rw [heard_readable hat fun hread => absurd hread hhello]
      exact .refl s
  | helloAnswered hat hevent =>
      rw [heard_readable hat (by simp)]
      exact .refl s
  | @sessionOut fd res ret answers op peer hat hevent registered hreader =>
      rw [heard_readable hat (by simp)]
      have hreader := passes_reader
        ((s.endRecv fd (ret.bytes res)).established fd (peer, .outgoing)) fd registered
      exact hreader.silent (passes_note _ (.sessionOpened peer .outgoing))
  | @messageRead fd res ret answers op conn m hat hconn hevent registered =>
      have hheard : s.heard (.readable fd res ret answers) = [(conn.1, m)] := by
        simp only [heard, Event.fd, Life.heardBy, hat, hconn, hevent]
      rw [hheard]
      exact (passes_note _ (.receivedMessage conn.1 m)).silent (passes_reader _ fd registered)
  | @readFailed fd res ret answers op e hat hevent =>
      rw [heard_readable hat fun _ m hresolved => absurd (hevent.symm.trans hresolved) (by simp)]
      exact passes_closeFD _ fd
  | sendGoesOn hat hevent => exact .refl s
  | sendAborts hat hevent => exact .refl s
  | answerUnsent hat hevent => exact .refl s
  | @sessionIn fd res ret answers op peer hat hevent registered =>
      exact (passes_note _ (.sessionOpened peer .incoming)).silent (passes_reader _ fd registered)
  | notifyUnsent hat hevent => exact ⟨_, rfl, rfl⟩
  | notifySent hat hevent => exact .refl s
  | notifyUnanswered hat hevent => exact .refl s
  | queueAdvances hat hqueue hevent hrun => exact hrun.passes
  | sendNowhere => exact .refl s
  | sendQueued hqueue hwaits => exact .refl s
  | sendAlone hqueue hrun => exact hrun.passes
  | @notDialed peer dial kind => exact passes_note s (.error peer ⟨kind, .outgoing⟩)
  | @dialed peer dial fd hfree early => exact passes_notesIf _ early peer _
  | @dialUnwatched peer dial fd hfree early =>
      have hearly := passes_notesIf ((s.openFd fd).closeFd fd) early peer ⟨.error, .outgoing⟩
      exact hearly.silent (passes_note _ (.error peer ⟨.error, .outgoing⟩))
  | @closed peer dir ok => exact passes_closeConn s peer dir
  | destroyed hrecv hsend => exact .refl s

theorem closeFD_taken (s : Snapshot) (fd : Fd) : (s.closeFD fd).taken = s.taken := by
  unfold closeFD
  dsimp only
  split <;> rfl

theorem Move.taken_of_message {res : EpollResult} {ret : RecvReturn} {answers : Answers}
    {op : RecvOp} {m : Message} (h : Move s (.readable fd res ret answers) s')
    (hat : s.recvAt fd = some (op, .readMessage))
    (hevent : op.event s.order res ret = .resolved (.ok m)) :
    s'.taken = appendTo s.taken (s.fds fd) (ret.bytes res) := by
  cases h with
  | recvGoesOn hat' hevent' =>
      obtain ⟨rfl, rfl⟩ := Prod.mk.inj (Option.some.inj (hat.symm.trans hat'))
      rcases hevent' with hevent' | hevent' <;>
        exact absurd (hevent.symm.trans hevent') (by simp)
  | recvAborts hat' hevent' =>
      obtain ⟨rfl, rfl⟩ := Prod.mk.inj (Option.some.inj (hat.symm.trans hat'))
      exact absurd (hevent.symm.trans hevent') (by simp)
  | helloDropped hat' hhello =>
      obtain ⟨rfl, rfl⟩ := Prod.mk.inj (Option.some.inj (hat.symm.trans hat'))
      exact absurd rfl hhello
  | helloAnswered hat' => exact absurd (hat.symm.trans hat') (by simp)
  | sessionOut hat' => exact absurd (hat.symm.trans hat') (by simp)
  | messageRead hat' hconn hevent' registered =>
      cases registered with
      | true => rfl
      | false => exact closeFD_taken _ fd
  | readFailed hat' hevent' =>
      obtain ⟨rfl, -⟩ := Prod.mk.inj (Option.some.inj (hat.symm.trans hat'))
      exact absurd (hevent.symm.trans hevent') (by simp)

end Snapshot

namespace Life

theorem heardBy_of_no_fd {order : ByteOrder} {active : Option Conn}
    {recv : Option (RecvOp × OnMessage)} {event : Event} (h : event.fd = none) :
    heardBy order active recv event = [] := by
  cases event with
  | readable => exact absurd h (by simp [Event.fd])
  | _ => rfl

theorem heardBy_ne_nil {order : ByteOrder} {active : Option Conn}
    {recv : Option (RecvOp × OnMessage)} {event : Event}
    (h : heardBy order active recv event ≠ []) :
    ∃ fd res ret answers op m, event = .readable fd res ret answers ∧
      recv = some (op, .readMessage) ∧ op.event order res ret = .resolved (.ok m) := by
  cases event with
  | readable fd res ret answers =>
      cases recv with
      | none =>
          refine absurd ?_ h
          cases active <;> rfl
      | some reader =>
          obtain ⟨op, resolve⟩ := reader
          by_contra hnone
          refine h (heardBy_nil fun hread m hevent => hnone ?_)
          exact ⟨fd, res, ret, answers, op, m, rfl, by rw [hread], hevent⟩
  | _ => exact absurd rfl h

/-- A socket that has taken a whole message is not as it was before. -/
theorem Listener.message_moves {order : ByteOrder} {l : Life} {got : List (PeerId × Message)}
    (h : l.Listener order got) {op : RecvOp} (hat : l.recv = some (op, .readMessage))
    {res : EpollResult} {ret : RecvReturn} (hagain : (res, ret) ≠ (.ok (), .failed .eagain))
    {m : Message} (hevent : op.event order res ret = .resolved (.ok m)) :
    ret.bytes res ≠ [] := by
  intro hnone
  obtain ⟨hwf, -⟩ := h.reads op hat
  have hframe := hwf.completes hagain hevent
  rw [hnone, List.append_nil] at hframe
  have hfits : m.length < (uint32 order).bound := by simpa using hwf.fits hevent
  have hincomplete := hwf.incomplete order
  exact hincomplete.not_frame_prefix _ hfits (hframe ▸ List.prefix_rfl)

end Life

/-! ### Every socket of a manager -/

namespace Listening

variable {s s' : Listening} {event : Event}

/-- Every socket is listened to, and those to come are new. -/
structure Sound (s : Listening) : Prop where
  manager : s.manager.Sound
  fresh : ∀ sock, s.manager.io.nextSock ≤ sock → s.manager.snapshot.life sock = .new
  listens : ∀ sock, (s.manager.snapshot.life sock).Listener s.manager.io.order (s.got sock)

theorem init_sound (self : PeerId) (order : ByteOrder) : (init self order).Sound := by
  have hnew : ∀ sock, (init self order).manager.snapshot.life sock = .new := fun sock =>
    Snapshot.life_of_closed fun fd hfd =>
      absurd hfd (by simp [init, ConnectionManager.snapshot, ConnectionManager.init, Io.init])
  refine ⟨ConnectionManager.init_sound self order, fun sock _ => hnew sock, fun sock => ?_⟩
  rw [hnew]
  exact Life.new_listener _

theorem passed_of_move {w w' : ConnectionManager} (h : Snapshot.Move w.snapshot event w'.snapshot) :
    w.passed w' = w.snapshot.heard event := by
  obtain ⟨notes, hnotes, hmessages⟩ := h.passes
  have hdrop : w'.notes.drop w.notes.length = notes := by
    rw [show w'.notes = w.notes ++ notes from hnotes, List.drop_left]
  rw [ConnectionManager.passed, hdrop, hmessages]

theorem Sound.own (h : s.Sound) {sock : Sock}
    (hheld : ∀ fd ∈ event.fd, s.manager.snapshot.fds fd = some sock) :
    appendTo s.got (s.manager.socketOf event) (s.manager.snapshot.heard event) sock
      = s.got sock ++ Life.heardBy s.manager.io.order (s.manager.snapshot.life sock).active
          (s.manager.snapshot.life sock).recv event := by
  cases hfd : event.fd with
  | none =>
      rw [Life.heardBy_of_no_fd hfd, List.append_nil, ConnectionManager.socketOf, hfd]
      rfl
  | some fd =>
      have hsock := hheld fd (by rw [hfd]; rfl)
      have hsocket : s.manager.socketOf event = some sock := by
        rw [ConnectionManager.socketOf, hfd]
        exact hsock
      rw [hsocket, appendTo_self, h.manager.ok.life_of_held hsock, Snapshot.heard, hfd]
      rfl

theorem Sound.idle (h : s.Sound) (hagain : event.NotAgain) {w : ConnectionManager}
    (hmove : Snapshot.Move s.manager.snapshot event w.snapshot) {sock : Sock}
    (htaken : w.io.taken sock = s.manager.io.taken sock) :
    appendTo s.got (s.manager.socketOf event) (s.manager.snapshot.heard event) sock
      = s.got sock := by
  by_cases hsocket : s.manager.socketOf event = some sock
  swap
  · exact appendTo_of_ne s.got hsocket _
  obtain ⟨fd, hfd, hsock⟩ := Option.bind_eq_some_iff.mp hsocket
  rw [hsocket, appendTo_self]
  by_cases hnone : s.manager.snapshot.heard event = []
  · rw [hnone, List.append_nil]
  · exfalso
    rw [Snapshot.heard, hfd] at hnone
    obtain ⟨fd', res, ret, answers, op, m, rfl, hat, hevent⟩ := Life.heardBy_ne_nil hnone
    obtain rfl := Option.some.inj hfd
    have hlife := h.manager.ok.life_of_held hsock
    have hbytes := (h.listens sock).message_moves (by rw [hlife]; exact hat) hagain hevent
    have hmoved : w.io.taken = appendTo s.manager.io.taken (s.manager.io.fds fd') (ret.bytes res) :=
      hmove.taken_of_message hat hevent
    rw [hmoved, hsock, appendTo_self] at htaken
    exact hbytes (List.append_right_eq_self.mp htaken)

theorem Sound.step (h : s.Sound) (hagain : event.NotAgain) (hstep : s.step event = some s') :
    s'.Sound := by
  obtain ⟨w, hmanager, rfl⟩ := Option.map_eq_some_iff.mp hstep
  obtain ⟨hsound, hmove⟩ := h.manager.step hmanager
  have hmoves := h.manager.ok.move_life hmove
  have horder : w.io.order = s.manager.io.order := hmoves.order
  refine ⟨hsound, fun sock => hmoves.fresh h.fresh, fun sock => ?_⟩
  dsimp only
  rw [horder, passed_of_move hmove]
  have htaken : ∀ {l : Life}, w.snapshot.life sock = l → w.io.taken sock = l.taken := fun hl =>
    hl ▸ (w.snapshot.life_logs sock).2.1.symm
  have hold : s.manager.io.taken sock = (s.manager.snapshot.life sock).taken :=
    (s.manager.snapshot.life_logs sock).2.1.symm
  rcases hmoves.life with ⟨-, hlives⟩ | ⟨-, hothers, hborn⟩
  · obtain ⟨l, hl, hlife⟩ := hlives sock
    have hlistens : l.Listener s.manager.io.order
        (appendTo s.got (s.manager.socketOf event) (s.manager.snapshot.heard event) sock) := by
      rcases hl with rfl | ⟨hlstep, hheld⟩
      · have hsame : w.io.taken sock = s.manager.io.taken sock := by
          rw [hold]
          rcases hlife with hlife | hlife <;> exact (htaken hlife).trans rfl
        rw [h.idle hagain hmove hsame]
        exact h.listens sock
      · rw [h.own hheld]
        exact (h.listens sock).step (Life.staged h.manager.ok sock) hlstep hagain
    rcases hlife with hlife | hlife
    · rw [hlife]
      exact hlistens
    · rw [hlife]
      exact hlistens.closed
  · by_cases hsock : sock = s.manager.snapshot.nextSock
    · subst hsock
      have hnew : s.manager.snapshot.life s.manager.snapshot.nextSock = .new :=
        h.fresh _ (Nat.le_refl _)
      have hgot : s.got s.manager.snapshot.nextSock = [] :=
        (h.listens _).unheard (by rw [hnew]; rfl)
      rw [hnew] at hborn
      have hlistens := hborn.listener
      rw [h.idle hagain hmove (by rw [htaken rfl, hold, hborn.taken, hnew]), hgot]
      exact hlistens
    · rw [h.idle hagain hmove (by rw [hold]; exact htaken (hothers sock hsock)),
        hothers sock hsock]
      exact h.listens sock

theorem Sound.hears (h : s.Sound) : s.HearsWhole := by
  have hentered : ∀ sock conn, (sock, conn) ∈ s.manager.records ↔
      conn ∈ (s.manager.snapshot.life sock).recorded := fun _ _ => Network.mem_records.symm
  have htaken : ∀ sock, (s.manager.snapshot.life sock).taken = s.manager.io.taken sock :=
    fun sock => (s.manager.snapshot.life_logs sock).2.1
  refine ⟨?_, ?_⟩
  · intro sock conn hrecord
    have hconn := (hentered sock conn).mp hrecord
    have hlistens := h.listens sock
    by_cases hreads : ∃ op, (s.manager.snapshot.life sock).recv = some (op, .readMessage)
    · obtain ⟨op, hat⟩ := hreads
      obtain ⟨hwf, hheard⟩ := hlistens.reads op hat
      obtain ⟨⟨type, hbytes⟩, hpeers⟩ := hheard conn hconn
      rw [htaken] at hbytes
      refine ⟨type, _, hbytes, hpeers, fun fd op' hfd hat' => ?_⟩
      have hsame := h.manager.ok.life_of_held hfd
      rw [hsame] at hat
      obtain ⟨rfl, -⟩ := Prod.mk.inj (Option.some.inj (hat.symm.trans hat'))
      exact hwf.incomplete _
    · obtain ⟨-, rest, ⟨type, hbytes⟩, hpeers⟩ := hlistens.heard conn hconn
      rw [htaken] at hbytes
      refine ⟨type, rest, hbytes, hpeers, fun fd op hfd hat => absurd ?_ hreads⟩
      rw [h.manager.ok.life_of_held hfd]
      exact ⟨op, hat⟩
  · intro sock hnone
    refine (h.listens sock).unheard (List.eq_nil_iff_forall_not_mem.mpr fun conn hconn => ?_)
    exact hnone conn ((hentered sock conn).mpr hconn)

/-- While no `recv` says `EAGAIN`, every message is passed on as it was framed, in order, and for
the peer that the connection is entered for. -/
theorem messages_whole (self : PeerId) (order : ByteOrder) (events : List Event)
    (h : machine.EachStep (fun _ event => event.NotAgain) (init self order) events) :
    machine.Always HearsWhole (init self order) events :=
  Machine.always_of_eachStep (fun _ hs => hs.hears)
    (fun _ _ _ hs hagain hstep => hs.step hagain hstep) events (init_sound self order) h

/-- A message that comes in three parts, and the length of the next one. -/
theorem messages_whole_in_parts :
    let self : PeerId := ⟨[2, 2, 2, 2, 2, 2], rfl⟩
    let peer : PeerId := ⟨[1, 1, 1, 1, 1, 1], rfl⟩
    let events := incomingHandshake 5 peer ++
      [.readable 5 (.ok ()) (.moved [2, 0]) .granted,
        .readable 5 (.ok ()) (.moved [0, 0]) .granted,
        .readable 5 (.ok ()) (.moved [7, 8]) .granted,
        .readable 5 (.ok ()) (.moved [1, 0, 0, 0]) .granted]
    (machine.exec (init self .little) events).map (fun s => s.got 0) = some [(peer, [7, 8])] ∧
      machine.Always HearsWhole (init self .little) events :=
  ⟨by decide +kernel, messages_whole _ _ _ (by decide +kernel)⟩

end Listening

end Diplom
