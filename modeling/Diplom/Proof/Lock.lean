import Diplom.Proof.PeerTables
import Diplom.Proof.Refinement
import Diplom.Transport.IpTransport

/-!
# Notifications and the transport's mutex

A callback of the event loop gives its notifications without `_connMutex`. The calls of a manager
hold the mutex from their first line to their last, and two of them notify: `OpenSession` when an
attempt fails before it waits for anything, and `CloseSession` when there is a session to close. A
change of the interfaces closes sessions too. What is said here holds from every state, so also for
a call that a manager makes inside a notification.
-/

namespace Diplom

namespace ConnectionManager

variable (w : ConnectionManager)

/-- An attempt that fails at nothing before it waits: there is no session, the address is known,
there is a socket, `connect` goes on, and the sender of the hello is registered. -/
def WaitsAfter (peer : PeerId) (dial : Dial) : Prop :=
  w.connToFd (peer, .outgoing) = none ∧ dial.address = true ∧ dial.connect ≠ .failed ∧ ∃ fd io,
    dial.socket = some fd ∧
    (w.io.openFd fd).sendMessage fd (HelloMsg.make w.self helloNotify).serialize (.helloNotify peer)
      dial.register = .pending io

/-- The descriptor kept for a session, if there is one, is of no active connection. -/
def NoSession (conn : Conn) : Prop := ∀ fd, w.connToFd conn = some fd → w.activeConns fd = none

/-- There is nothing to close. -/
def NothingToClose (peer : PeerId) (dir : LinkDirection) : Prop :=
  (dir = .all ∨ dir = .incoming → w.NoSession (peer, .incoming)) ∧
  (dir = .all ∨ dir = .outgoing → w.NoSession (peer, .outgoing))

/-! ### What the calls add to the notifications -/

variable {w}

/-- An outgoing exchange notifies, with an error, exactly if its sender is not registered. -/
theorem outgoingHelloExchange_notes (w : ConnectionManager) (fd : Fd) (peer : PeerId)
    (register : Bool) :
    w.notes.length ≤ (w.outgoingHelloExchange fd peer register).notes.length ∧
      ((w.outgoingHelloExchange fd peer register).notes.length ≤ w.notes.length ↔
        ∃ io, w.io.sendMessage fd (HelloMsg.make w.self helloNotify).serialize (.helloNotify peer)
          register = .pending io) := by
  unfold outgoingHelloExchange
  cases hsend :
    w.io.sendMessage fd (HelloMsg.make w.self helloNotify).serialize
      (.helloNotify peer) register with
  | pending io => exact ⟨Nat.le_refl _, iff_of_true (Nat.le_refl _) ⟨io, rfl⟩⟩
  | failed => simp [helloNotifySent, notify, closeHello]
  | aborted => exact absurd hsend hello_not_aborted

/-- `EstablishConnection` notifies exactly if the attempt fails before it waits. -/
theorem establishConnection_notes (w : ConnectionManager) (peer : PeerId) (dial : Dial) :
    (w.establishConnection peer dial).notes.length ≤ w.notes.length ↔ w.WaitsAfter peer dial := by
  unfold establishConnection WaitsAfter
  by_cases hexists : w.connToFd (peer, .outgoing) = none
  · have hcontains : w.connToFd.contains (peer, .outgoing) = false :=
      PartialMap.contains_eq_false.mpr hexists
    rw [if_neg (by simp [hcontains])]
    by_cases haddress : dial.address = false
    · simp [haddress, notify]
    · rw [if_neg haddress]
      cases hsocket : dial.socket with
      | none => simp [notify]
      | some fd =>
          dsimp only
          by_cases hconnect : dial.connect = .failed
          · obtain ⟨hgrows, -⟩ :=
                outgoingHelloExchange_notes
                  ({ w with io := w.io.openFd fd }.notify (.error peer ⟨.error, .outgoing⟩)) fd
                  peer dial.register
            rw [if_pos hconnect]
            refine iff_of_false (fun hle => ?_) fun hwaits => hwaits.2.2.1 hconnect
            have hmore : w.notes.length + 1 ≤ w.notes.length := by
              simpa [notify] using hgrows.trans hle
            omega
          · obtain ⟨-, hquiet⟩ :=
                outgoingHelloExchange_notes { w with io := w.io.openFd fd } fd peer dial.register
            rw [if_neg hconnect]
            refine hquiet.trans ?_
            simp [hexists, haddress, hconnect]
  · have hcontains : w.connToFd.contains (peer, .outgoing) = true :=
      PartialMap.contains_eq_true.mpr hexists
    rw [if_pos hcontains]
    exact iff_of_false (by simp [notify]) fun hwaits => hexists hwaits.1

/-- `CloseFD` reports an active connection lost, and otherwise leaves the tables and the
notifications alone. -/
theorem closeFD_notes (w : ConnectionManager) (fd : Fd) (ok : Bool) :
    w.notes.length ≤ (w.closeFD fd ok).notes.length ∧
      ((w.closeFD fd ok).notes.length ≤ w.notes.length ↔ w.activeConns fd = none) ∧
      (w.activeConns fd = none → (w.closeFD fd ok).connToFd = w.connToFd ∧
        (w.closeFD fd ok).activeConns = w.activeConns) := by
  unfold closeFD eraseActive
  dsimp only
  cases hactive : w.activeConns fd with
  | none => simp
  | some conn => simp [notify, eraseQueue, eraseConnToFd]

theorem closeConnDir_notes (w : ConnectionManager) (conn : Conn) (ok : Bool) :
    w.notes.length ≤ (w.closeConnDir conn ok).notes.length ∧
      ((w.closeConnDir conn ok).notes.length ≤ w.notes.length ↔ w.NoSession conn) ∧
      (w.NoSession conn → (w.closeConnDir conn ok).connToFd = w.connToFd ∧
        (w.closeConnDir conn ok).activeConns = w.activeConns) := by
  unfold closeConnDir NoSession
  cases hfd : w.connToFd conn with
  | none => simp
  | some fd => simpa using w.closeFD_notes fd ok

/-- `CloseConn` notifies exactly if there is something to close. -/
theorem closeConn_notes (w : ConnectionManager) (peer : PeerId) (dir : LinkDirection) (ok : Bool) :
    ((w.closeConn peer dir ok).notes.length ≤ w.notes.length ↔ w.NothingToClose peer dir) ∧
      (w.NothingToClose peer dir → (w.closeConn peer dir ok).connToFd = w.connToFd ∧
        (w.closeConn peer dir ok).activeConns = w.activeConns) := by
  obtain ⟨hgrows, hquiet, hsame⟩ := w.closeConnDir_notes (peer, .incoming) ok
  have hthen := (w.closeConnDir (peer, .incoming) ok).closeConnDir_notes (peer, .outgoing) ok
  cases dir with
  | incoming => simpa [closeConn, NothingToClose] using ⟨hquiet, hsame⟩
  | outgoing =>
      obtain ⟨-, hquiet', hsame'⟩ := w.closeConnDir_notes (peer, .outgoing) ok
      simpa [closeConn, NothingToClose] using ⟨hquiet', hsame'⟩
  | all =>
      obtain ⟨hgrows', hquiet', hsame'⟩ := hthen
      have hcarry : w.NoSession (peer, .incoming) →
          ((w.closeConnDir (peer, .incoming) ok).NoSession (peer, .outgoing) ↔
            w.NoSession (peer, .outgoing)) := by
        intro hin
        rw [NoSession, (hsame hin).1, (hsame hin).2, NoSession]
      simp only [closeConn, NothingToClose, true_or, if_true, true_imp_iff]
      refine ⟨⟨fun hle => ?_, fun hnone => ?_⟩, fun hnone => ?_⟩
      · have hin := hquiet.mp (hgrows'.trans hle)
        exact ⟨hin, (hcarry hin).mp (hquiet'.mp (hle.trans hgrows))⟩
      · exact (hquiet'.mpr ((hcarry hnone.1).mpr hnone.2)).trans (hquiet.mpr hnone.1)
      · obtain ⟨hfd, hactive⟩ := hsame' ((hcarry hnone.1).mpr hnone.2)
        exact ⟨hfd.trans (hsame hnone.1).1, hactive.trans (hsame hnone.1).2⟩

theorem popFront_notes {w w' : ConnectionManager} {fd : Fd} {more : Bool}
    (h : w.popFront fd = some (more, w')) : w'.notes = w.notes := by
  unfold popFront at h
  split at h
  · exact absurd h (by simp)
  · obtain ⟨-, rfl⟩ := Prod.mk.inj (Option.some.inj h)
    rfl
  · obtain ⟨-, rfl⟩ := Prod.mk.inj (Option.some.inj h)
    rfl

theorem queuedSent_notes (w : ConnectionManager) (fd : Fd)
    (next : ConnectionManager → ConnectionManager) (hnext : ∀ w, (next w).notes = w.notes) :
    (w.queuedSent fd next).notes = w.notes := by
  unfold queuedSent
  split
  · rfl
  · split
    · rfl
    · rename_i more w' hpop
      cases more
      · exact popFront_notes hpop
      · exact (hnext w').trans (popFront_notes hpop)

theorem sendMessageFd_notes (fd : Fd) (fuel : Nat) (registers : List Bool) (w : ConnectionManager) :
    (sendMessageFd fd fuel registers w).notes = w.notes := by
  induction fuel generalizing registers w with
  | zero => rfl
  | succ fuel ih =>
      unfold sendMessageFd takeFront
      cases hqueue : w.sendQueues fd with
      | none => rfl
      | some queue =>
          cases queue with
          | nil => rfl
          | cons parcel rest =>
              dsimp only
              split
              · rfl
              · exact queuedSent_notes _ fd _ (ih registers.tail)
              · rfl

theorem sendMessage_notes (w : ConnectionManager) (peer : PeerId) (msg : Message)
    (registers : List Bool) : (w.sendMessage peer msg registers).notes = w.notes := by
  unfold sendMessage pushBack
  cases w.lookupFd peer with
  | none => rfl
  | some fd =>
      dsimp only
      cases w.sendQueues fd with
      | none => rfl
      | some queue =>
          dsimp only [Option.map_some]
          split
          · exact sendMessageFd_notes fd _ registers _
          · rfl

end ConnectionManager

namespace IpTransport

variable {t t' : IpTransport}

/-- No notification was given under `_connMutex`. -/
def Unlocked (t : IpTransport) : Prop := ∀ given ∈ t.given, given.2 = false

/-- The event gives no notification under `_connMutex`: an attempt to open a session comes to wait
for something, and a session that is to be closed is not there. -/
def NotifiesOutside (t : IpTransport) : Event → Prop
  | .openSession peer answers => t.connManager.WaitsAfter peer (t.dial peer answers)
  | .closeSession peer dir _ => t.connManager.NothingToClose peer dir
  | .networkUpdate ifs _ => ∀ entry ∈ t.brManager.removed ifs,
    t.connManager.NothingToClose entry.2 .all
  | _ => True

/-! ### Under the mutex and outside it -/

/-- What runs under the mutex keeps to it exactly if it gives no notification. -/
theorem unlocked_locked_iff (h : t.Unlocked) (conn : ConnectionManager) :
    (t.locked fun t => t.goOn conn).Unlocked ↔ conn.notes.length ≤ t.connManager.notes.length := by
  rw [← List.drop_eq_nil_iff]
  constructor
  · intro hall
    cases hnew : conn.notes.drop t.connManager.notes.length with
    | nil => rfl
    | cons note rest =>
        have := hall (note, true) (by simp [locked, goOn, hnew])
        exact absurd this (by simp)
  · intro hnone given hgiven
    simp only [locked, goOn, hnone, List.map_nil, List.append_nil] at hgiven
    exact h given hgiven

theorem Unlocked.goOn (h : t.Unlocked) (hfree : t.connMutex = false) (conn : ConnectionManager) :
    (t.goOn conn).Unlocked := by
  intro given hgiven
  simp only [IpTransport.goOn, List.mem_append, List.mem_map] at hgiven
  rcases hgiven with hold | ⟨note, -, rfl⟩
  · exact h given hold
  · exact hfree

theorem Unlocked.notify (h : t.Unlocked) (hfree : t.connMutex = false) (note : Notification) :
    (t.notify note).Unlocked := by
  intro given hgiven
  rcases List.mem_append.mp hgiven with hold | hnew
  · exact h given hold
  · rw [List.mem_singleton.mp hnew]
    exact hfree

/-- The sessions that a wish closes. -/
def Closes (deed : Deed) (t : IpTransport) : Prop :=
  ∀ peer dir, deed = .closeSession peer dir → t.connManager.NothingToClose peer dir

theorem obey_free (ok : Bool) (deed : Deed) (hfree : t.connMutex = false) :
    (t.obey ok deed).connMutex = false := by
  cases deed with
  | closeSession peer dir => rfl
  | _ => exact hfree

theorem obey_given (ok : Bool) (deed : Deed) {given : Notification × Bool}
    (hgiven : given ∈ t.given) : given ∈ (t.obey ok deed).given := by
  cases deed with
  | closeSession peer dir => exact List.mem_append_left _ hgiven
  | neighborFound peer => exact List.mem_append_left _ hgiven
  | neighborLost peer => exact List.mem_append_left _ hgiven
  | _ => exact hgiven

theorem perform_given (deeds : List Deed) (oks : List Bool) (t : IpTransport)
    {given : Notification × Bool} (hgiven : given ∈ t.given) :
    given ∈ (perform deeds oks t).given := by
  induction deeds generalizing oks t with
  | nil => exact hgiven
  | cons deed rest ih => exact ih _ _ (obey_given _ deed hgiven)

theorem perform_free (deeds : List Deed) (oks : List Bool) (t : IpTransport)
    (hfree : t.connMutex = false) : (perform deeds oks t).connMutex = false := by
  induction deeds generalizing oks t with
  | nil => exact hfree
  | cons deed rest ih => exact ih _ _ (obey_free _ deed hfree)

/-- A wish keeps to the mutex exactly if there is no session that it closes, and then the tables of
sessions stay. -/
theorem obey_unlocked_iff (ok : Bool) (deed : Deed) (h : t.Unlocked) (hfree : t.connMutex = false) :
    ((t.obey ok deed).Unlocked ↔ Closes deed t) ∧ (Closes deed t →
      (t.obey ok deed).connManager.connToFd = t.connManager.connToFd ∧
        (t.obey ok deed).connManager.activeConns = t.connManager.activeConns) := by
  cases deed with
  | closeSession peer dir =>
      obtain ⟨hquiet, hsame⟩ := t.connManager.closeConn_notes peer dir ok
      have hcloses : Closes (.closeSession peer dir) t ↔ t.connManager.NothingToClose peer dir := by
        simp [Closes]
      rw [hcloses]
      exact ⟨(unlocked_locked_iff h _).trans hquiet, hsame⟩
  | neighborFound peer =>
      exact ⟨iff_of_true (h.notify hfree _) (by simp [Closes]), fun _ => ⟨rfl, rfl⟩⟩
  | neighborLost peer =>
      exact ⟨iff_of_true (h.notify hfree _) (by simp [Closes]), fun _ => ⟨rfl, rfl⟩⟩
  | _ => exact ⟨iff_of_true h (by simp [Closes]), fun _ => ⟨rfl, rfl⟩⟩

/-- The broadcast manager's wishes keep to the mutex exactly if there is none of the sessions it
wants closed. -/
theorem perform_unlocked_iff (deeds : List Deed) (oks : List Bool) (t : IpTransport)
    (h : t.Unlocked) (hfree : t.connMutex = false) :
    (perform deeds oks t).Unlocked ↔ ∀ deed ∈ deeds, Closes deed t := by
  induction deeds generalizing oks t with
  | nil => exact iff_of_true h (by simp)
  | cons deed rest ih =>
      obtain ⟨hobey, hsame⟩ := obey_unlocked_iff (oks.headD true) deed h hfree
      by_cases hquiet : Closes deed t
      · obtain ⟨hfd, hactive⟩ := hsame hquiet
        have hcarry : ∀ deed', Closes deed' (t.obey (oks.headD true) deed) ↔ Closes deed' t := by
          intro deed'
          simp only [Closes, ConnectionManager.NothingToClose,
            ConnectionManager.NoSession, hfd, hactive]
        rw [perform, ih _ _ (hobey.mpr hquiet) (obey_free _ deed hfree)]
        simp only [hcarry, List.forall_mem_cons, hquiet, true_and]
      · refine iff_of_false (fun hall => hquiet (hobey.mp fun given hgiven => ?_)) fun hall =>
          hquiet (hall deed (by simp))
        exact hall given (perform_given rest oks.tail _ hgiven)

/-! ### Steps -/

theorem hello_closes {br br' : BroadcastManager} {sender : InAddr} {id : PeerId} {needNotify : Bool}
    {timer : BroadcastManager.TimerAnswers}
    (h : br.processHello sender id needNotify timer = some br') (t : IpTransport) :
    ∀ deed ∈ br'.deeds.drop br.deeds.length, Closes deed t := by
  intro deed hmem peer dir heq
  subst heq
  rcases BroadcastManager.processHello_cases
      h with ⟨-, -, -, hdeeds⟩ | ⟨token, loop, ifname, -, rfl⟩
  · simp [hdeeds] at hmem
  · cases needNotify <;>
      simp [BroadcastManager.record, BroadcastManager.track, BroadcastManager.timerRegistered,
        BroadcastManager.foundDeeds] at hmem

theorem peerLost_closes (br : BroadcastManager) (fd : Fd) (ok : Bool) (t : IpTransport) :
    ∀ deed ∈ (br.processPeerLost fd ok).deeds.drop br.deeds.length, Closes deed t := by
  intro deed hmem peer dir heq
  subst heq
  cases hfd : br.fdToPeer fd with
  | none => simp [BroadcastManager.processPeerLost, hfd] at hmem
  | some entry => simp [BroadcastManager.processPeerLost, hfd, BroadcastManager.record] at hmem

theorem networkUpdate_closes (br : BroadcastManager) (ifs : List String) (t : IpTransport) :
    (∀ deed ∈ (br.processNetworkUpdate ifs).deeds.drop br.deeds.length, Closes deed t) ↔
      ∀ entry ∈ br.removed ifs, t.connManager.NothingToClose entry.2 .all := by
  have hdeeds : (br.processNetworkUpdate ifs).deeds.drop br.deeds.length
      = (br.removed ifs).flatMap BroadcastManager.lossDeeds ++ [.sendBroadcastHello] := by
    simp [BroadcastManager.processNetworkUpdate, BroadcastManager.record]
  rw [hdeeds]
  constructor
  · intro hall entry hentry
    refine hall (.closeSession entry.2 .all) (List.mem_append_left _ ?_) _ _ rfl
    exact List.mem_flatMap.mpr ⟨entry, hentry, by simp [BroadcastManager.lossDeeds]⟩
  · rintro hall deed hmem peer dir rfl
    simp only [List.mem_append, List.mem_flatMap, BroadcastManager.lossDeeds, List.mem_cons,
      List.not_mem_nil, or_false] at hmem
    rcases hmem with ⟨entry, hentry, heq | heq⟩ | heq
    · obtain ⟨rfl, rfl⟩ := Deed.closeSession.inj heq
      exact hall entry hentry
    · exact absurd heq (by simp)
    · exact absurd heq (by simp)

theorem callback_unlocked (h : t.Unlocked) (hfree : t.connMutex = false)
    {event : ConnectionManager.Event} (hstep : t.callback event = some t') :
    t'.Unlocked ∧ t'.connMutex = false := by
  obtain ⟨conn, -, rfl⟩ := Option.map_eq_some_iff.mp hstep
  exact ⟨h.goOn hfree conn, hfree⟩

theorem broadcast_unlocked_iff (h : t.Unlocked) (hfree : t.connMutex = false)
    (br : BroadcastManager) (oks : List Bool) :
    (t.broadcast br oks).connMutex = false ∧
      ((t.broadcast br oks).Unlocked ↔ ∀ deed ∈ br.deeds.drop t.brManager.deeds.length,
        Closes deed { t with brManager := br }) :=
  ⟨perform_free _ _ _ hfree, perform_unlocked_iff _ _ _ h hfree⟩

theorem hear_unlocked (h : t.Unlocked) (hfree : t.connMutex = false) {sender : InAddr}
    {timer : BroadcastManager.TimerAnswers} {hello : Option HelloMsg}
    (hhear : t.hear sender timer hello = some t') : t'.Unlocked ∧ t'.connMutex = false := by
  cases hello with
  | none => exact Option.some.inj hhear ▸ ⟨h, hfree⟩
  | some hello =>
      obtain ⟨br, hprocess, rfl⟩ := Option.map_eq_some_iff.mp hhear
      obtain ⟨hfree', hunlocked⟩ := broadcast_unlocked_iff h hfree br []
      exact ⟨hunlocked.mpr (hello_closes hprocess _), hfree'⟩

/-- After an event the mutex is free, and the event has kept its notifications outside exactly if it
meets the condition. -/
theorem step_unlocked_iff (h : t.Unlocked) (hfree : t.connMutex = false) {event : Event}
    (hstep : t.step event = some t') :
    t'.connMutex = false ∧ (t'.Unlocked ↔ t.NotifiesOutside event) := by
  have hcallback : ∀ {t t' : IpTransport} {event : ConnectionManager.Event}, t.Unlocked →
      t.connMutex = false → t.callback event = some t' →
      t'.connMutex = false ∧ (t'.Unlocked ↔ True) := by
    intro t t' event h hfree hstep
    obtain ⟨hunlocked, hfree'⟩ := callback_unlocked h hfree hstep
    exact ⟨hfree', iff_of_true hunlocked trivial⟩
  unfold step at hstep
  split at hstep
  · exact absurd hstep (by simp)
  · cases event with
    | openSession peer answers =>
        dsimp only at hstep
        split at hstep
        · obtain rfl := Option.some.inj hstep
          exact ⟨rfl, (unlocked_locked_iff h _).trans
            (t.connManager.establishConnection_notes peer (t.dial peer answers))⟩
        · exact absurd hstep (by simp)
    | sendMessage peer msg registers =>
        obtain rfl := Option.some.inj hstep
        refine ⟨rfl, iff_of_true ((unlocked_locked_iff h _).mpr ?_) trivial⟩
        rw [ConnectionManager.sendMessage_notes]
    | closeSession peer dir ok =>
        obtain rfl := Option.some.inj hstep
        exact ⟨rfl, (unlocked_locked_iff h _).trans (t.connManager.closeConn_notes peer dir ok).1⟩
    | accept fd register => exact hcallback h hfree hstep
    | readable fd res ret answers sender timer =>
        dsimp only at hstep
        split at hstep
        · obtain ⟨heard, hhear, hrun⟩ := Option.bind_eq_some_iff.mp hstep
          obtain ⟨hunlocked, hfree'⟩ := hear_unlocked h hfree hhear
          exact hcallback hunlocked hfree' hrun
        · exact absurd hstep (by simp)
    | writable fd res ret answers => exact hcallback h hfree hstep
    | destroy token ok => exact hcallback h hfree hstep
    | broadcastHello sender id timer =>
        obtain ⟨br, hbr, rfl⟩ := Option.map_eq_some_iff.mp hstep
        simp only [BroadcastManager.step] at hbr
        split at hbr
        · obtain ⟨hfree', hunlocked⟩ := broadcast_unlocked_iff h hfree br []
          exact ⟨hfree', iff_of_true (hunlocked.mpr (hello_closes hbr _)) trivial⟩
        · exact absurd hbr (by simp)
    | peerLost fd ok =>
        obtain ⟨br, hbr, rfl⟩ := Option.map_eq_some_iff.mp hstep
        obtain rfl := Option.some.inj hbr
        obtain ⟨hfree', hunlocked⟩ :=
            broadcast_unlocked_iff h hfree (t.brManager.processPeerLost fd ok) []
        exact ⟨hfree', iff_of_true (hunlocked.mpr (peerLost_closes _ fd ok _)) trivial⟩
    | networkUpdate ifs oks =>
        obtain ⟨br, hbr, rfl⟩ := Option.map_eq_some_iff.mp hstep
        obtain rfl := Option.some.inj hbr
        obtain ⟨hfree', hunlocked⟩ :=
            broadcast_unlocked_iff h hfree (t.brManager.processNetworkUpdate ifs) oks
        exact ⟨hfree', hunlocked.trans (networkUpdate_closes _ ifs _)⟩

/-- Between events nobody holds the mutex, and no notification was given under it. -/
def KeepsOutside (t : IpTransport) : Prop := t.connMutex = false ∧ t.Unlocked

/-- From any such state, a run keeps all notifications outside the mutex exactly if every attempt to
open a session comes to wait for something, and no session is there that a call or a lost interface
closes. -/
theorem outside_iff_notifiesOutside (t : IpTransport) (h : t.KeepsOutside) (events : List Event) :
    machine.Always KeepsOutside t events ↔ machine.EachStep NotifiesOutside t events := by
  refine Machine.always_iff_eachStep (I := fun _ => True) (fun _ _ _ _ _ => trivial) ?_
    events trivial h
  intro t event t' _ h hstep
  obtain ⟨hfree, hunlocked⟩ := step_unlocked_iff h.2 h.1 hstep
  exact ⟨fun h' => hunlocked.mp h'.2, fun hok => ⟨hfree, hunlocked.mpr hok⟩⟩

theorem init_outside (self : PeerId) (order : ByteOrder) : (init self order).KeepsOutside :=
  ⟨rfl, by simp [Unlocked, init]⟩

/-- A session is closed that is not there, and a neighbour is found and lost. -/
theorem outside_of_found_and_lost :
    machine.Always KeepsOutside (init ⟨[2, 2, 2, 2, 2, 2], rfl⟩ .little)
      [.closeSession ⟨[1, 1, 1, 1, 1, 1], rfl⟩ .all true,
        .broadcastHello 0x0100A8C0 ⟨[1, 1, 1, 1, 1, 1], rfl⟩ ⟨5, true, some "eth0"⟩,
        .peerLost 5 true] := by
  refine (outside_iff_notifiesOutside _ (init_outside _ _) _).mpr fun _ _ =>
    ⟨?_, fun _ _ => ⟨trivial, fun _ _ => ⟨trivial, trivial⟩⟩⟩
  have hnone : ∀ conn, (init ⟨[2, 2, 2, 2, 2, 2], rfl⟩ .little).connManager.NoSession conn :=
    fun conn fd hfd => by
    simp [init, ConnectionManager.init] at hfd
  exact ⟨fun _ => hnone _, fun _ => hnone _⟩

/-- A manager that opens a session to a peer nobody has heard of gets the error under the mutex. -/
theorem unknown_peer_reported_under_mutex :
    ¬ ∀ (self : PeerId) (order : ByteOrder) (events : List Event) (t : IpTransport),
      machine.exec (init self order) events = some t → t.Unlocked := by
  intro h
  let peer : PeerId := ⟨[1, 1, 1, 1, 1, 1], rfl⟩
  have hrun : (machine.exec (init ⟨[2, 2, 2, 2, 2, 2], rfl⟩ .little)
      [.openSession peer ⟨true, none, .inProgress, true⟩]).map (fun t => t.given)
      = some [(.error peer ⟨.noSuchPeer, .outgoing⟩, true)] := by
    decide +kernel
  obtain ⟨t, hexec, ht⟩ := Option.map_eq_some_iff.mp hrun
  have :=
    h _ _ _ t hexec (.error peer ⟨.noSuchPeer, .outgoing⟩, true)
      (by rw [ht]; exact List.mem_singleton.mpr rfl)
  exact absurd this (by simp)

end IpTransport

end Diplom
