import Diplom.Proof.Refinement
import Diplom.Spec.Attempt

/-!
# What an attempt is reported as

The header of the manager promises a notification for any error of an outgoing connection. It is
given when the hello cannot be sent, and not when the answer cannot be received or is not the one
expected; and it is given twice when `connect` fails at once, because `EstablishConnection` goes on
after reporting it.
-/

namespace Diplom

namespace ConnectionManager

variable {w v v' : ConnectionManager} {fd : Fd} {peer : PeerId} {dial : Dial}
  {given : List Notification}

/-- What is reported before the hello is sent. -/
def Dial.early (dial : Dial) (peer : PeerId) : List Notification :=
  if dial.connect = .failed then [.error peer ⟨.error, .outgoing⟩] else []

/-- The attempt on `fd` is under way, and has only changed what lies below the tables. -/
structure Dialing (w v : ConnectionManager) (fd : Fd) (given : List Notification) : Prop where
  io : v.io.Wf
  sock : v.io.fds fd = some w.io.nextSock
  closes : v.io.closes = w.io.closes
  notes : v.notes = w.notes ++ given
  activeConns : v.activeConns = w.activeConns
  connToFd : v.connToFd = w.connToFd
  sendQueues : v.sendQueues = w.sendQueues

theorem Dialing.with_io (h : Dialing w v fd given) {io : Io OnMessage OnSent} (hwf : io.Wf)
    (hsame : Io.SameSockets v.io io) : Dialing w { v with io := io } fd given :=
  ⟨hwf, by rw [hsame.fds, h.sock], by rw [hsame.closes, h.closes], h.notes, h.activeConns,
    h.connToFd, h.sendQueues⟩

theorem Dialing.sent (h : Dialing w v fd given) {result : IoResult Unit}
    (hsent : SendResolves fd result v v') : Dialing w v' fd given := by
  induction hsent with
  | now _ _ _ hevent =>
      obtain ⟨hwf, hsame⟩ := Io.sendEvent_sockets h.io hevent
      exact h.with_io hwf hsame
  | later _ _ _ hevent _ ih =>
      obtain ⟨hwf, hsame⟩ := Io.sendEvent_sockets h.io hevent
      exact ih (h.with_io hwf hsame)

theorem Dialing.received (h : Dialing w v fd given) {result : IoResult Message}
    (hreceived : RecvResolves fd result v v') : Dialing w v' fd given := by
  induction hreceived with
  | now _ _ _ hevent =>
      obtain ⟨hwf, hsame⟩ := Io.recvEvent_sockets h.io hevent
      exact h.with_io hwf hsame
  | later _ _ _ hevent _ ih =>
      obtain ⟨hwf, hsame⟩ := Io.recvEvent_sockets h.io hevent
      exact ih (h.with_io hwf hsame)

/-! ### The call -/

theorem establishConnection_notDialed (h : ∀ fd, ¬ w.Dials peer dial fd) :
    ∃ kind, w.establishConnection peer dial = w.notify (.error peer ⟨kind, .outgoing⟩) := by
  unfold establishConnection
  split
  · exact ⟨_, rfl⟩
  · rename_i hnew
    split
    · exact ⟨_, rfl⟩
    · rename_i haddress
      cases hsocket : dial.socket with
      | none => exact ⟨_, rfl⟩
      | some fd => exact absurd ⟨by simpa using hnew, by simpa using haddress, hsocket⟩ (h fd)

theorem establishConnection_dials (h : w.Dials peer dial fd) :
    w.establishConnection peer dial
      = { w with io := w.io.openFd fd, notes := w.notes ++ dial.early peer }.outgoingHelloExchange
        fd peer dial.register := by
  obtain ⟨hnew, haddress, hsocket⟩ := h
  have hnew' : w.connToFd.contains (peer, .outgoing) = false :=
    PartialMap.contains_eq_false.mpr hnew
  simp only [establishConnection, hnew', haddress, hsocket, Dial.early]
  by_cases hconnect : dial.connect = .failed
  · simp [hconnect, notify]
  · simp [hconnect]

theorem Dials.unique (h : w.Dials peer dial fd) {fd' : Fd} (h' : w.Dials peer dial fd') :
    fd = fd' :=
  Option.some.inj (h.2.2.symm.trans h'.2.2)

theorem dials_cases (hw : w.io.Wf) (h : w.Dials peer dial fd) :
    ((w.establishConnection peer dial).io.sendAt fd ≠ none ∧
      Dialing w (w.establishConnection peer dial) fd (dial.early peer)) ∨
    ∃ v, Dialing w v fd (dial.early peer ++ [.error peer ⟨.error, .outgoing⟩]) ∧
      w.establishConnection peer dial = v.closeHello fd ∧ v.io.sendAt = w.io.sendAt := by
  rw [establishConnection_dials h]
  have hopened :
      Dialing w { w with io := w.io.openFd fd, notes := w.notes ++ dial.early peer } fd
        (dial.early peer) :=
    ⟨Io.openFd_wf hw fd, PartialMap.set_self _ _ _, rfl, rfl, rfl, rfl, rfl⟩
  unfold outgoingHelloExchange
  split
  · rename_i io hstart
    have hstarted := Io.sendMessage_started (Io.openFd_wf hw fd) hstart
    refine .inl ⟨?_, hopened.with_io hstarted.wf hstarted.toSameSockets⟩
    rw [hstarted.sendAt, PartialMap.set_self]
    simp
  · refine .inr ⟨_, ?_, rfl, rfl⟩
    refine ⟨hopened.io, hopened.sock, hopened.closes, ?_, rfl, rfl, rfl⟩
    exact List.append_assoc _ _ _
  · rename_i hstart
    exact absurd hstart hello_not_aborted

/-! ### The end -/

/-- An attempt that ends with its descriptor closed has one outcome if it has given one error. -/
theorem Dialing.closed_iff (h : Dialing w v fd given) (hdials : w.Dials peer dial fd)
    (hinactive : w.activeConns fd = none) :
    OneOutcome w peer dial (v.closeHello fd) ↔ ∃ kind, given = [.error peer ⟨kind, .outgoing⟩] := by
  have hnotes : (v.closeHello fd).notes = w.notes ++ given := h.notes
  constructor
  · rintro (⟨-, fd', hdials', hactive⟩ | ⟨⟨kind, hkind⟩, -⟩)
    · obtain rfl := hdials.unique hdials'
      have hsame : v.activeConns fd = some (peer, .outgoing) := hactive
      rw [h.activeConns, hinactive] at hsame
      exact absurd hsame (by simp)
    · exact ⟨kind, List.append_cancel_left (hnotes.symm.trans hkind)⟩
  · rintro ⟨kind, rfl⟩
    refine .inr ⟨⟨kind, hnotes⟩, .inr ⟨fd, hdials, ?_⟩, h.activeConns, h.connToFd, h.sendQueues⟩
    show v.io.closes ++ [(fd, v.io.fds fd)] = _
    rw [h.closes, h.sock]

/-- The right answer has come: the session is announced, after it has been lost if there is no
reader for it. -/
theorem Dialing.answered_iff (h : Dialing w v fd given) (hdials : w.Dials peer dial fd)
    (hinactive : w.activeConns fd = none) (register deregister : Bool) :
    OneOutcome w peer dial
      (((v.established fd (peer, .outgoing)).readMessage fd register deregister).notify
        (.sessionOpened peer .outgoing)) ↔
      given = [] ∧ (v.io.recvMessage fd .readMessage register).isSome = true := by
  have hactive : (v.established fd (peer, .outgoing)).activeConns fd = some (peer, .outgoing) := by
    have hnone : v.activeConns fd = none := by rw [h.activeConns, hinactive]
    show (v.activeConns.insert fd (peer, .outgoing)) fd = _
    rw [PartialMap.insert_of_none _ hnone, PartialMap.set_self]
  have hio : (v.established fd (peer, .outgoing)).io = v.io := rfl
  cases hreader : v.io.recvMessage fd .readMessage register with
  | some io =>
      have heq : (v.established fd (peer, .outgoing)).readMessage fd register deregister =
          { v.established fd (peer, .outgoing) with io := io } := by
        simp only [readMessage, hio, hreader]
      rw [heq]
      have hnotes :
          ({ v.established fd (peer, .outgoing) with io := io }.notify
            (.sessionOpened peer .outgoing)).notes
          = w.notes ++ (given ++ [.sessionOpened peer .outgoing]) := by
        rw [← List.append_assoc, ← h.notes]
        rfl
      simp only [Option.isSome_some, and_true]
      constructor
      · rintro (⟨hopened, -⟩ | ⟨⟨kind, hkind⟩, -⟩)
        · simpa using List.append_cancel_left (hnotes.symm.trans hopened)
        · have := congrArg List.getLast? (List.append_cancel_left (hnotes.symm.trans hkind))
          simp at this
      · rintro rfl
        exact .inl ⟨hnotes, fd, hdials, hactive⟩
  | none =>
      refine iff_of_false ?_ (by simp)
      have heq : (v.established fd (peer, .outgoing)).readMessage fd register deregister =
          (v.established fd (peer, .outgoing)).closeFD fd deregister := by
        simp only [readMessage, hio, hreader, readFailed, hactive]
      have hnotes :
          (((v.established fd (peer, .outgoing)).readMessage fd register deregister).notify
            (.sessionOpened peer .outgoing)).notes
          = w.notes ++ (given ++ [.sessionLost peer .outgoing, .sessionOpened peer .outgoing]) := by
        rw [heq, ← List.append_assoc, ← h.notes]
        have hactive' : v.activeConns.insert fd (peer, .outgoing) fd = some (peer, .outgoing) :=
          hactive
        simp [closeFD, eraseActive, established, insertActive, insertConnToFd, insertQueue,
          hactive', notify, eraseConnToFd, eraseQueue]
      rintro (⟨hopened, -⟩ | ⟨⟨kind, hkind⟩, -⟩)
      · have := congrArg List.length (List.append_cancel_left (hnotes.symm.trans hopened))
        simp at this
      · have := congrArg List.length (List.append_cancel_left (hnotes.symm.trans hkind))
        simp at this

theorem Dial.early_eq_nil : dial.early peer = [] ↔ dial.connect ≠ .failed := by
  unfold Dial.early
  split
  · rename_i hfailed
    simp [hfailed]
  · rename_i hfailed
    simp [hfailed]

theorem Dial.early_eq_error :
    (∃ kind, dial.early peer = [.error peer ⟨kind, .outgoing⟩]) ↔ dial.connect = .failed := by
  unfold Dial.early
  split
  · rename_i hfailed
    exact iff_of_true ⟨_, rfl⟩ hfailed
  · rename_i hfailed
    exact iff_of_false (by simp) hfailed

theorem Dial.early_append_error :
    (∃ kind, dial.early peer ++ [.error peer ⟨.error, .outgoing⟩] = [.error peer ⟨kind, .outgoing⟩])
      ↔ dial.connect ≠ .failed := by
  unfold Dial.early
  split
  · rename_i hfailed
    exact iff_of_false (by simp) (by simp [hfailed])
  · rename_i hfailed
    exact iff_of_true ⟨_, rfl⟩ hfailed

theorem SendResolves.registered {result : IoResult Unit} (h : SendResolves fd result w v)
    (hw : w.io.Wf) : w.io.sendAt fd ≠ none := by
  intro hat
  cases h with
  | now _ _ _ hevent => exact absurd hevent (by rw [Io.sendEvent_none hw hat]; simp)
  | later _ _ _ hevent _ => exact absurd hevent (by rw [Io.sendEvent_none hw hat]; simp)

/-- Where a sending operation of the attempt resolves, the attempt is under way. -/
theorem Sound.dialing (hw : w.Sound) (h : w.Dials peer dial fd) (hunused : w.Unused fd)
    {result : IoResult Unit} (hsent : SendResolves fd result (w.establishConnection peer dial) v) :
    Dialing w v fd (dial.early peer) := by
  rcases dials_cases hw.io h with ⟨-, hdialing⟩ | ⟨v', hdialing, heq, hsame⟩
  · exact hdialing.sent hsent
  · have hnone : w.io.sendAt fd = none := ((hw.ok.stage fd).closed hunused.2).2.2
    rw [heq] at hsent
    refine absurd ?_ (hsent.registered (Io.close_wf hdialing.io fd))
    rw [show (v'.closeHello fd).io.sendAt = v'.io.sendAt from rfl, hsame, hnone]

/-- An attempt, however its steps turn out, is reported once and leaves nothing behind on a failure
exactly on these courses. -/
theorem one_outcome_iff {self : PeerId} {order : ByteOrder} {course : Course}
    (hw : machine.Reach (fun _ _ => True) (init self order) w)
    (hunused : ∀ fd ∈ dial.socket, w.Unused fd) (h : Attempt w peer dial course v) :
    OneOutcome w peer dial v ↔ course.Notifies peer dial := by
  have hsound := sound_of_reach hw
  have hinactive : ∀ fd, w.Dials peer dial fd → w.activeConns fd = none := fun fd hdials =>
    ((hsound.ok.stage fd).closed (hunused fd hdials.2.2).2).1
  cases h with
  | notDialed h =>
      obtain ⟨kind, heq⟩ := establishConnection_notDialed h
      rw [heq]
      exact iff_of_true (.inr ⟨⟨kind, rfl⟩, .inl ⟨h, rfl⟩, rfl, rfl, rfl⟩) trivial
  | notSending hdials hrefused =>
      rcases dials_cases hsound.io hdials with ⟨hsending, -⟩ | ⟨v', hdialing, heq, -⟩
      · exact absurd hrefused hsending
      · rw [heq, hdialing.closed_iff hdials (hinactive _ hdials)]
        exact Dial.early_append_error
  | @unsent fd e w₁ hdials hsent register =>
      have hdialing := hsound.dialing hdials (hunused fd hdials.2.2) hsent
      have hnoted : Dialing w (w₁.notify (.error peer ⟨.error, .outgoing⟩)) fd
          (dial.early peer ++ [.error peer ⟨.error, .outgoing⟩]) := by
        refine ⟨hdialing.io, hdialing.sock, hdialing.closes, ?_, hdialing.activeConns,
          hdialing.connToFd, hdialing.sendQueues⟩
        rw [← List.append_assoc, ← hdialing.notes]
        rfl
      exact (hnoted.closed_iff hdials (hinactive _ hdials)).trans Dial.early_append_error
  | @notReceiving fd w₁ hdials hsent register hrefused =>
      have hdialing := hsound.dialing hdials (hunused fd hdials.2.2) hsent
      simp only [helloNotifySent, hrefused]
      exact (hdialing.closed_iff hdials (hinactive _ hdials)).trans Dial.early_eq_error
  | @answered fd answer w₁ w₂ hdials hsent register hwaits hanswer register' deregister =>
      obtain ⟨io, hstart⟩ := Option.ne_none_iff_exists'.mp hwaits
      have hdialing := hsound.dialing hdials (hunused fd hdials.2.2) hsent
      have hstarted := Io.recvMessage_started hdialing.io hstart
      simp only [helloNotifySent, hstart] at hanswer
      have hanswered := (hdialing.with_io hstarted.wf hstarted.toSameSockets).received hanswer
      rw [outgoingAnswer_eq, Course.Notifies]
      split
      · rw [hanswered.answered_iff hdials (hinactive _ hdials), Dial.early_eq_nil]
      · rw [hanswered.closed_iff hdials (hinactive _ hdials), Dial.early_eq_error]

/-- A peer that closes the connection instead of answering: nothing is reported. -/
theorem closed_by_peer_is_not_reported :
    ¬ ∀ (self : PeerId) (order : ByteOrder) (w : ConnectionManager) (peer : PeerId) (dial : Dial)
        (course : Course) (v : ConnectionManager),
      machine.Reach (fun _ _ => True) (init self order) w →
        (∀ fd ∈ dial.socket, w.Unused fd) → Attempt w peer dial course v →
        OneOutcome w peer dial v := by
  intro h
  let self : PeerId := ⟨[2, 2, 2, 2, 2, 2], rfl⟩
  let peer : PeerId := ⟨[1, 1, 1, 1, 1, 1], rfl⟩
  let dial : Dial := ⟨true, some 5, .inProgress, true⟩
  have hdials : (init self .little).Dials peer dial 5 := ⟨rfl, rfl, rfl⟩
  have hattempt :=
    Attempt.answered hdials
      (.later (.ok ()) (.moved 4) true rfl (.now (.ok ()) (.moved 13) true rfl)) true
      (Option.isSome_iff_ne_none.mp rfl) (.now (.ok ()) (.moved []) true rfl) true true
  rcases h _ _ _ _ _ _ _ .refl (by decide) hattempt with ⟨hnotes, -⟩ | ⟨⟨kind, hnotes⟩, -⟩
  · exact absurd (show ([] : List Notification) = [] ++ [_] from hnotes) (by simp)
  · exact absurd (show ([] : List Notification) = [] ++ [_] from hnotes) (by simp)

/-- A session that is opened. -/
theorem one_outcome_iff_of_opened_session :
    ∃ v, OneOutcome (init ⟨[2, 2, 2, 2, 2, 2], rfl⟩ .little) ⟨[1, 1, 1, 1, 1, 1], rfl⟩
      ⟨true, some 5, .inProgress, true⟩ v := by
  let self : PeerId := ⟨[2, 2, 2, 2, 2, 2], rfl⟩
  let peer : PeerId := ⟨[1, 1, 1, 1, 1, 1], rfl⟩
  let dial : Dial := ⟨true, some 5, .inProgress, true⟩
  have hdials : (init self .little).Dials peer dial 5 := ⟨rfl, rfl, rfl⟩
  have hattempt :=
    Attempt.answered hdials
      (.later (.ok ()) (.moved 4) true rfl (.now (.ok ()) (.moved 13) true rfl)) true
      (Option.isSome_iff_ne_none.mp rfl)
      (.later (.ok ()) (.moved [13, 0, 0, 0]) true rfl
        (.now (.ok ()) (.moved (HelloMsg.make peer helloAnswer).serialize) true rfl)) true true
  exact ⟨_, (one_outcome_iff .refl (by decide) hattempt).mpr (by decide)⟩

end ConnectionManager

end Diplom
