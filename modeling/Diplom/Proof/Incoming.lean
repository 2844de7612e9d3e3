import Diplom.Proof.Closes
import Diplom.Proof.Life
import Diplom.Proof.Tables
import Diplom.Spec.Incoming
import Mathlib.Data.List.Nodup

/-!
# What an incoming exchange comes to

The header of the manager promises that a connection with an error on the way is closed without a
notification. Six exits of two lambdas close the descriptor, and the seventh hands it on; up to
there an exchange changes nothing but what lies below the tables.
-/

namespace Diplom

namespace Io

variable {OnMessage OnSent : Type} {io : Io OnMessage OnSent}

/-- Nothing is registered for a descriptor without operations. -/
theorem Wf.free (h : io.Wf) {fd : Fd} (hrecv : io.recvAt fd = none) (hsend : io.sendAt fd = none)
    (dir : IoDirection) : io.loop.fdToCallback ⟨fd, dir⟩ = none := by
  rw [Option.eq_none_iff_forall_ne_some]
  intro keeper hslot
  obtain ⟨-, -, -, hdir, -⟩ := h.armed _ keeper hslot
  cases hclosure : keeper.callback with
  | recv op resolve =>
      rw [hclosure] at hdir
      obtain rfl : IoDirection.input = dir := hdir
      rw [recvAt_of_slot io hslot, hclosure] at hrecv
      exact absurd hrecv (by simp [Closure.asRecv])
  | send op resolve =>
      rw [hclosure] at hdir
      obtain rfl : IoDirection.output = dir := hdir
      rw [sendAt_of_slot io hslot, hclosure] at hsend
      exact absurd hsend (by simp [Closure.asSend])

end Io

namespace ConnectionManager

variable {w w' v : ConnectionManager} {fd : Fd} {sock : Sock} {event : Event}

/-! ### One step of an exchange -/

/-- Up to here, a step from `w` has only changed what lies below the tables. -/
structure Untold (w v : ConnectionManager) (fd : Fd) (sock : Sock) : Prop where
  io : v.io.Wf
  sockets : v.io.Sockets
  sock : v.io.fds fd = some sock
  closes : v.io.closes = w.io.closes
  activeConns : v.activeConns = w.activeConns
  connToFd : v.connToFd = w.connToFd
  sendQueues : v.sendQueues = w.sendQueues
  notes : v.notes = w.notes

theorem Untold.silent (h : Untold w v fd sock) (event : Event) :
    (⟨w, event, v⟩ : ExchangeStep).Silent :=
  ⟨h.activeConns, h.connToFd, h.sendQueues, h.notes, h.closes⟩

theorem Untold.with_io (h : Untold w v fd sock) {io : Io OnMessage OnSent} (hwf : io.Wf)
    (hsame : Io.SameSockets v.io io) : Untold w { v with io := io } fd sock :=
  ⟨hwf, h.sockets.of_same hsame, hsame.fds ▸ h.sock, hsame.closes ▸ h.closes, h.activeConns,
    h.connToFd, h.sendQueues, h.notes⟩

theorem Untold.closeHello (h : Untold w v fd sock) (hrecv : v.io.recvAt fd = none)
    (hsend : v.io.sendAt fd = none) (event : Event) :
    (⟨w, event, v.closeHello fd⟩ : ExchangeStep).Closes fd sock := by
  have hcloses : (v.io.close fd).closes = w.io.closes ++ [(fd, some sock)] := by
    rw [← h.closes, ← h.sock]
    rfl
  refine ⟨hcloses, ?_, fun dir => h.io.free hrecv hsend dir, h.activeConns, h.connToFd,
    h.sendQueues, h.notes⟩
  have hmem : sock ∈ (v.io.close fd).closes.filterMap Prod.snd := by
    rw [hcloses]
    simp
  exact List.count_eq_one_of_mem (h.sockets.close fd).once hmem

theorem Untold.established (h : Untold w v fd sock) (hvacant : w.activeConns fd = none)
    (hrecv : v.io.recvAt fd = none) (hsend : v.io.sendAt fd = none) (event : Event) (peer : PeerId)
    (register deregister : Bool) :
    (⟨w, event, v.helloAnswerSent fd peer (.ok ()) register deregister⟩ : ExchangeStep).Opens fd
      sock peer := by
  refine ⟨hvacant, (v.established fd (peer, .incoming)).notify (.sessionOpened peer .incoming),
    register, deregister, rfl, ?_, ?_, h.sock, h.closes,
    fun hclosed => (h.sockets.closed sock hclosed).2 fd h.sock,
    fun dir => h.io.free hrecv hsend dir⟩
  · show v.activeConns.insert fd (peer, .incoming) = w.activeConns.set fd (peer, .incoming)
    rw [h.activeConns, PartialMap.insert_of_none _ hvacant]
  · show v.notes ++ _ = _
    rw [h.notes]

def ExchangeStep.Hears (step : ExchangeStep) (fd : Fd) (peer : PeerId) : Prop :=
  ∃ msg hello, step.Receives fd msg ∧ HelloMsg.deserialize msg = some hello ∧
    hello.type = helloNotify ∧ hello.id = peer

theorem Sound.untold (h : w.Sound) (hsockets : w.io.Sockets) (hsock : w.io.fds fd = some sock) :
    Untold w w fd sock :=
  ⟨h.io, hsockets, hsock, rfl, rfl, rfl, rfl, rfl⟩

theorem Sound.exchange_recv (h : w.Sound) (hsockets : w.io.Sockets)
    (hsock : w.io.fds fd = some sock) {op : RecvOp}
    (hat : w.io.recvAt fd = some (op, .incomingHello)) {res : EpollResult} {ret : RecvReturn}
    {answers : Answers} (hstep : w.step (.readable fd res ret answers) = some w') :
    (Untold w w' fd sock ∧
      ((∃ op', w'.io.recvAt fd = some (op', .incomingHello)) ∨ ∃ op' peer,
        w'.io.sendAt fd = some (op', .helloAnswer peer) ∧
        (⟨w, .readable fd res ret answers, w'⟩ : ExchangeStep).Hears fd peer)) ∨
      (⟨w, .readable fd res ret answers, w'⟩ : ExchangeStep).Closes fd sock := by
  have huntold := h.untold hsockets hsock
  have hsend : w.io.sendAt fd = none := (h.ok.hello_recv (s := w.snapshot) hat (by simp)).2
  simp only [ConnectionManager.step] at hstep
  split at hstep
  · exact absurd hstep (by simp)
  rcases Io.recvEvent_cases h.io hat res ret answers.deregister with
    ⟨op', io, hevent, heq, hrecv, hran⟩ | ⟨result, io, hevent, heq, hrecv, hran⟩ | ⟨hevent, heq⟩
  · simp only [heq, Option.map_some, Option.some.injEq] at hstep
    subst hstep
    refine .inl ⟨huntold.with_io hran.wf hran.toSameSockets, .inl ⟨op', ?_⟩⟩
    show io.recvAt fd = _
    rw [hrecv, PartialMap.set_self]
  · simp only [heq, Option.map_some, Option.some.injEq] at hstep
    subst hstep
    have hended := huntold.with_io hran.wf hran.toSameSockets
    have hgone : io.recvAt fd = none := by rw [hrecv, PartialMap.erase_self]
    have hquiet : io.sendAt fd = none := by rw [hran.sendAt, hsend]
    have hclosed := hended.closeHello hgone hquiet (.readable fd res ret answers)
    cases result with
    | err e => exact .inr hclosed
    | ok msg =>
        simp only [onMessage, incomingHello]
        cases hmsg : HelloMsg.deserialize msg with
        | none => exact .inr hclosed
        | some hello =>
            dsimp only
            split
            · exact .inr hclosed
            · rename_i htype
              split
              · exact .inr hclosed
              · split
                · rename_i io' hstart
                  have hstarted := Io.sendMessage_started hran.wf hstart
                  have hsending := (congrFun hstarted.sendAt fd).trans (PartialMap.set_self _ _ _)
                  refine .inl ⟨hended.with_io hstarted.wf hstarted.toSameSockets,
                    .inr ⟨_, hello.id, hsending, ?_⟩⟩
                  exact ⟨msg, hello, ⟨res, ret, answers, op, rfl, hat, hevent⟩,
                    hmsg, by simpa using htype, rfl⟩
                · exact .inr hclosed
                · rename_i hstart
                  exact absurd hstart hello_not_aborted
  · simp only [heq, Option.map_some, Option.some.injEq] at hstep
    subst hstep
    exact .inl ⟨⟨h.io, hsockets, hsock, rfl, rfl, rfl, rfl, rfl⟩, .inl ⟨op, hat⟩⟩

theorem Sound.exchange_send (h : w.Sound) (hsockets : w.io.Sockets)
    (hsock : w.io.fds fd = some sock) {op : SendOp} {peer : PeerId}
    (hat : w.io.sendAt fd = some (op, .helloAnswer peer)) {res : EpollResult} {ret : SendReturn}
    {answers : Answers} (hstep : w.step (.writable fd res ret answers) = some w') :
    (Untold w w' fd sock ∧ ∃ op', w'.io.sendAt fd = some (op', .helloAnswer peer)) ∨
      (⟨w, .writable fd res ret answers, w'⟩ : ExchangeStep).Opens fd sock peer ∨
      (⟨w, .writable fd res ret answers, w'⟩ : ExchangeStep).Closes fd sock := by
  have huntold := h.untold hsockets hsock
  obtain ⟨hvacant, hrecv⟩ := h.ok.hello_send (s := w.snapshot) hat trivial
  simp only [ConnectionManager.step] at hstep
  split at hstep
  · exact absurd hstep (by simp)
  rcases Io.sendEvent_cases h.io hat res ret answers.deregister with
    ⟨op', io, hevent, heq, hsend, hran⟩ | ⟨result, io, hevent, heq, hsend, hran⟩ | ⟨hevent, heq⟩
  · simp only [heq, Option.map_some, Option.some.injEq] at hstep
    subst hstep
    refine .inl ⟨huntold.with_io hran.wf hran.toSameSockets, op', ?_⟩
    show io.sendAt fd = _
    rw [hsend, PartialMap.set_self]
  · simp only [heq, Option.map_some, Option.some.injEq] at hstep
    subst hstep
    have hended := huntold.with_io hran.wf hran.toSameSockets
    have hgone : io.sendAt fd = none := by rw [hsend, PartialMap.erase_self]
    have hquiet : io.recvAt fd = none := by
      rw [hran.recvAt]
      exact hrecv
    cases result with
    | err e => exact .inr (.inr (hended.closeHello hquiet hgone _))
    | ok _ => exact .inr (.inl (hended.established hvacant hquiet hgone _ peer _ _))
  · simp only [heq, Option.map_some, Option.some.injEq] at hstep
    subst hstep
    exact .inl ⟨⟨h.io, hsockets, hsock, rfl, rfl, rfl, rfl, rfl⟩, op, hat⟩

theorem Sound.exchange_accept (h : w.Sound) (hsockets : w.io.Sockets) {register : Bool}
    (hstep : w.step (.accept fd register) = some w') :
    (Untold w w' fd w.io.nextSock ∧ w'.io.recvAt fd = some (.start, .incomingHello)) ∨
    (⟨w, .accept fd register, w'⟩ : ExchangeStep).Closes fd w.io.nextSock := by
  simp only [ConnectionManager.step] at hstep
  split at hstep
  · exact absurd hstep (by simp)
  split at hstep
  · rename_i hunused
    obtain rfl := Option.some.inj hstep
    have hopened : Untold w { w with io := w.io.openFd fd } fd w.io.nextSock :=
      ⟨Io.openFd_wf h.io fd, hsockets.openFd fd, PartialMap.set_self _ _ _, rfl, rfl, rfl, rfl, rfl⟩
    obtain ⟨-, hrecv, hsend⟩ := (h.ok.stage fd).closed hunused.2
    unfold incomingHelloExchange
    split
    · rename_i io hstart
      have hstarted := Io.recvMessage_started (Io.openFd_wf h.io fd) hstart
      have huntold := hopened.with_io hstarted.wf hstarted.toSameSockets
      refine .inl ⟨huntold, ?_⟩
      show io.recvAt fd = _
      rw [hstarted.recvAt, PartialMap.set_self]
    · exact .inr (hopened.closeHello hrecv hsend _)
  · exact absurd hstep (by simp)

end ConnectionManager

/-! ### The steps of others -/

namespace Tables

variable {t t' : Tables} {fd : Fd} {conn : Conn}

/-- A connection that `connToFd` knows is that of its descriptor. -/
def Backed (t : Tables) : Prop :=
  ∀ conn fd, t.connToFd conn = some fd → t.activeConns fd = some conn

theorem Backed.closeFD (h : t.Backed) (fd : Fd) : (t.closeFD fd).Backed := by
  unfold Tables.closeFD
  split
  · exact h
  · rename_i conn hconn
    intro conn' fd' hentry
    obtain ⟨hne, hold⟩ := (PartialMap.erase_eq_some _).mp hentry
    have hactive := h conn' fd' hold
    refine (PartialMap.erase_eq_some _).mpr ⟨fun hfd => hne ?_, hactive⟩
    rw [hfd, hconn] at hactive
    exact (Option.some.inj hactive).symm

theorem Backed.reader (h : t.Backed) (fd : Fd) (registered : Bool) :
    (t.reader fd registered).Backed := by
  cases registered
  · exact h.closeFD fd
  · exact h

theorem Backed.quiet (h : t.Backed) (hquiet : t.Quiet t') : t'.Backed := by
  induction hquiet with
  | refl => exact h
  | failed _ _ _ ih => exact ih
  | received _ _ _ ih => exact ih
  | closed _ fd ih => exact ih.closeFD fd

theorem Backed.completed (h : t.Backed) (hactive : t.activeConns fd = none) (conn : Conn)
    (registered : Bool) : (t.completed fd conn registered).Backed := by
  have hestablished : (t.established fd conn).Backed := by
    intro conn' fd' hentry
    simp only [Tables.established, PartialMap.insert_of_none _ hactive] at hentry ⊢
    have hold : ∀ conn' fd', t.connToFd conn' = some fd' →
        (t.activeConns.set fd conn) fd' = some conn' := by
      intro conn' fd' hentry
      have hactive' := h conn' fd' hentry
      rw [PartialMap.set_of_ne _ fun hfd => ?_]
      · exact hactive'
      · rw [hfd, hactive] at hactive'
        exact absurd hactive' (by simp)
    cases hconn : t.connToFd conn with
    | some other =>
        rw [PartialMap.insert_of_some _ hconn] at hentry
        exact hold conn' fd' hentry
    | none =>
        rw [PartialMap.insert_of_none _ hconn, PartialMap.set_apply] at hentry
        split at hentry
        · rename_i heq
          rw [← Option.some.inj hentry, heq, PartialMap.set_self]
        · exact hold conn' fd' hentry
  unfold Tables.completed
  split
  · exact Backed.reader hestablished fd registered
  · exact Backed.reader
      (show ((t.established fd conn).note _).Backed from hestablished) fd registered

end Tables

namespace Snapshot

variable {s s' s'' : Snapshot} {fd : Fd}

/-- A descriptor keeps its socket and its operations. -/
structure Apart (fd : Fd) (s s' : Snapshot) : Prop where
  fds : s'.fds fd = s.fds fd
  recvAt : s'.recvAt fd = s.recvAt fd
  sendAt : s'.sendAt fd = s.sendAt fd

theorem Apart.refl (fd : Fd) (s : Snapshot) : Apart fd s s := ⟨rfl, rfl, rfl⟩

theorem Apart.trans (h : Apart fd s s') (h' : Apart fd s' s'') : Apart fd s s'' :=
  ⟨h'.fds.trans h.fds, h'.recvAt.trans h.recvAt, h'.sendAt.trans h.sendAt⟩

theorem Only.apart {fd' : Fd} (h : Only fd' s s') (hne : fd ≠ fd') : Apart fd s s' :=
  ⟨h.fds fd hne, h.recvAt fd hne, h.sendAt fd hne⟩

theorem apart_openFd (s : Snapshot) {fd' : Fd} (hne : fd ≠ fd') : Apart fd s (s.openFd fd') :=
  ⟨PartialMap.set_of_ne _ hne _, rfl, rfl⟩

/-- `CloseConn` closes connections, and leaves a descriptor alone that is none. -/
theorem Ok.apart_closeConn (h : s.Ok) (hbacked : s.tables.Backed)
    (hvacant : s.activeConns fd = none) (peer : PeerId) (dir : LinkDirection) :
    Apart fd s (s.closeConn peer dir) := by
  have hdir : ∀ (t : Snapshot) (conn : Conn), t.Ok → t.tables.Backed → t.activeConns fd = none →
      Apart fd t (t.closeConnDir conn) ∧ (t.closeConnDir conn).tables.Backed ∧
        (t.closeConnDir conn).activeConns fd = none := by
    intro t conn ht hbacked hvacant
    unfold Snapshot.closeConnDir
    split
    · exact ⟨.refl fd t, hbacked, hvacant⟩
    · rename_i fd' hfd'
      have hne : fd ≠ fd' := by
        rintro rfl
        exact absurd ((hbacked conn fd hfd').symm.trans hvacant) (by simp)
      have honly : Only fd' t (t.closeFD fd') := ht.only_closeFD
      refine ⟨honly.apart hne, ?_, (honly.activeConns fd hne).trans hvacant⟩
      rw [tables_closeFD]
      exact hbacked.closeFD fd'
  unfold Snapshot.closeConn
  dsimp only
  split <;> split
  · obtain ⟨hfirst, hbacked', hvacant'⟩ := hdir s (peer, .incoming) h hbacked hvacant
    exact hfirst.trans (hdir _ (peer, .outgoing) (h.closeConnDir _) hbacked' hvacant').1
  · exact (hdir s _ h hbacked hvacant).1
  · exact (hdir s _ h hbacked hvacant).1
  · exact .refl fd s

open ConnectionManager (Event)

theorem Ok.apart_reader (h : s.Ok) {fd' : Fd} (hne : fd ≠ fd') (registered : Bool) :
    Apart fd s (s.reader fd' registered) := by
  cases registered
  · exact h.only_closeFD.apart hne
  · exact (only_setRecv s fd' _ _).apart hne

/-- A move for another descriptor leaves an open descriptor that is no connection where it is,
unless an object is destroyed. -/
theorem Ok.apart_move (h : s.Ok) (hbacked : s.tables.Backed) (hvacant : s.activeConns fd = none)
    (hopen : s.fds fd ≠ none) {event : Event} (hother : ¬ event.Concerns fd)
    (hkeeps : ∀ token ok, event ≠ .destroy token ok) (hmove : Move s event s') :
    Apart fd s s' := by
  have hnew : ∀ fd', s.fds fd' = none → fd ≠ fd' := fun fd' hfree heq => hopen (heq ▸ hfree)
  cases hmove with
  | accepted hfree =>
      exact (apart_openFd s (hnew _ hfree)).trans ((only_setRecv _ _ _ _).apart (hnew _ hfree))
  | acceptUnwatched hfree =>
      exact (apart_openFd s (hnew _ hfree)).trans ((only_closeFd _ _).apart (hnew _ hfree))
  | recvGoesOn hat hevent =>
      exact ((only_took s _ _).trans (only_setRecv _ _ _ _)).apart (Ne.symm hother)
  | recvAborts hat hevent => exact ⟨rfl, rfl, rfl⟩
  | helloDropped hat hhello hevent hbad =>
      exact ((only_endRecv s _ _).trans (only_closeFd _ _)).apart (Ne.symm hother)
  | helloAnswered hat hevent =>
      exact ((only_endRecv s _ _).trans (only_setSend _ _ _ _)).apart (Ne.symm hother)
  | @sessionOut fd' res ret answers op peer hat hevent registered hreader =>
      have hbare := h.bare_recv hat (by simp) (ret.bytes res)
      have hdone := (h.endRecv fd' (ret.bytes res)).established hbare (peer, .outgoing)
      have hestablished :=
        ((only_endRecv s fd' (ret.bytes res)).trans
          (only_established _ fd' (peer, .outgoing))).apart (Ne.symm hother)
      obtain ⟨hfds, hrecv, hsend⟩ :=
          hestablished.trans (hdone.apart_reader (Ne.symm hother) registered)
      exact ⟨hfds, hrecv, hsend⟩
  | @messageRead fd' res ret answers op conn msg hat hconn hevent registered =>
      have hdone := (h.endRecv fd' (ret.bytes res)).note (.receivedMessage conn.1 msg)
      exact (((only_endRecv s _ _).trans (only_note _ _ _)).apart (Ne.symm hother)).trans
        (hdone.apart_reader (Ne.symm hother) registered)
  | @readFailed fd' res ret answers op e hat hevent =>
      exact ((only_endRecv s _ _).trans (h.endRecv fd' (ret.bytes res)).only_closeFD).apart
        (Ne.symm hother)
  | sendGoesOn hat hevent =>
      exact ((only_put s _ _).trans (only_setSend _ _ _ _)).apart (Ne.symm hother)
  | sendAborts hat hevent => exact ⟨rfl, rfl, rfl⟩
  | answerUnsent hat hevent =>
      exact ((only_endSend s _ _).trans (only_closeFd _ _)).apart (Ne.symm hother)
  | @sessionIn fd' res ret answers op peer hat hevent registered =>
      have hbare := h.bare_send hat trivial (op.put res ret)
      have hdone :=
        ((h.endSend fd' (op.put res ret)).established hbare (peer, .incoming)).note
        (.sessionOpened peer .incoming)
      have hestablished :=
        ((only_endSend s fd' (op.put res ret)).trans
          (only_established _ fd' (peer, .incoming))).apart (Ne.symm hother)
      have hnoted :=
        hestablished.trans
          ((only_note _ fd' (.sessionOpened peer .incoming)).apart (Ne.symm hother))
      exact hnoted.trans (hdone.apart_reader (Ne.symm hother) registered)
  | notifyUnsent hat hevent =>
      exact (((only_endSend s _ _).trans (only_note _ _ _)).trans (only_closeFd _ _)).apart
        (Ne.symm hother)
  | notifySent hat hevent =>
      exact ((only_endSend s _ _).trans (only_setRecv _ _ _ _)).apart (Ne.symm hother)
  | notifyUnanswered hat hevent =>
      exact ((only_endSend s _ _).trans (only_closeFd _ _)).apart (Ne.symm hother)
  | queueAdvances hat hqueue hevent hrun =>
      exact ((only_endSend s _ _).trans hrun.only).apart (Ne.symm hother)
  | sendNowhere => exact .refl fd s
  | @sendQueued peer msg registers fd' queue hqueue hwaits =>
      refine (only_push s fd' _ _).apart fun heq => ?_
      exact absurd (h.queue_none hvacant) (by rw [heq, hqueue]; simp)
  | @sendAlone peer msg registers fd' s' hqueue hrun =>
      refine ((only_push s fd' _ _).trans hrun.only).apart fun heq => ?_
      exact absurd (h.queue_none hvacant) (by rw [heq, hqueue]; simp)
  | notDialed kind => exact ⟨rfl, rfl, rfl⟩
  | dialed hfree early =>
      exact (apart_openFd s (hnew _ hfree)).trans
        (((only_setSend _ _ _ _).trans (only_notesIf _ _ early _)).apart (hnew _ hfree))
  | dialUnwatched hfree early =>
      exact (apart_openFd s (hnew _ hfree)).trans
        ((((only_closeFd _ _).trans (only_notesIf _ _ early _)).trans (only_note _ _ _)).apart
          (hnew _ hfree))
  | closed => exact h.apart_closeConn hbacked hvacant _ _
  | destroyed hrecv hsend => exact absurd rfl (hkeeps _ _)

end Snapshot

/-! ### A whole exchange -/

namespace ConnectionManager

variable {w w' w₀ : ConnectionManager} {fd : Fd} {sock : Sock} {event : Event}

/-- What every state of a manager has. -/
structure Kept (w : ConnectionManager) : Prop where
  sound : w.Sound
  sockets : w.io.Sockets
  backed : w.snapshot.tables.Backed

theorem init_kept (self : PeerId) (order : ByteOrder) : (init self order).Kept :=
  ⟨init_sound self order, Io.init_sockets order,
    fun _ _ h => absurd h (by simp [Snapshot.tables, snapshot, init])⟩

theorem Kept.step (h : w.Kept) (hstep : w.step event = some w') : w'.Kept := by
  obtain ⟨hsound, hmove⟩ := h.sound.step hstep
  refine ⟨hsound, h.sound.step_sockets h.sockets hstep, ?_⟩
  rcases h.sound.ok.move_tables hmove with ⟨-, hquiet⟩ | ⟨fd, conn, registered, hcompleted⟩
  · exact h.backed.quiet hquiet
  · rw [hcompleted.tables]
    exact h.backed.completed hcompleted.free conn registered

theorem ExchangeStep.Free.not_exchanging (h : ExchangeStep.Free w fd) : ¬ w.Exchanging fd := by
  rintro (⟨op, hat⟩ | ⟨op, peer, hat⟩)
  · rw [Io.recvAt_of_free _ (h .input)] at hat
    exact absurd hat (by simp)
  · rw [Io.sendAt_of_free _ (h .output)] at hat
    exact absurd hat (by simp)

theorem Sound.not_exchanging (h : w.Sound) (hactive : w.activeConns fd ≠ none) :
    ¬ w.Exchanging fd := by
  rintro (⟨op, hat⟩ | ⟨op, peer, hat⟩)
  · exact hactive (h.ok.hello_recv (s := w.snapshot) hat (by simp)).1
  · exact hactive (h.ok.hello_send (s := w.snapshot) hat trivial).1

theorem readMessage_notes (w : ConnectionManager) (fd : Fd) (register deregister : Bool) :
    w.notes <+: (w.readMessage fd register deregister).notes := by
  unfold readMessage readFailed
  split
  · exact List.prefix_rfl
  · split
    · exact List.prefix_rfl
    · unfold closeFD
      dsimp only
      split
      · exact List.prefix_rfl
      · rename_i conn v heq
        obtain ⟨_, -, hpair⟩ := Option.map_eq_some_iff.mp heq
        obtain ⟨-, rfl⟩ := Prod.mk.inj hpair
        exact List.prefix_append _ _

theorem destroy_eq {token : CancellationToken} {ok : Bool}
    (hstep : w.step (.destroy token ok) = some w') :
    w' = { w with io := w.io.destroy token ok } := by
  simp only [ConnectionManager.step] at hstep
  split at hstep
  · simp at hstep
  · split at hstep
    · exact (Option.some.inj hstep).symm
    · simp at hstep

namespace ExchangeStep

variable {step : ExchangeStep} {peer : PeerId}

theorem Opens.not_exchanging (h : step.Opens fd sock peer) (hsound : step.after.Sound) :
    ¬ step.after.Exchanging fd := by
  obtain ⟨w, register, deregister, hafter, hactive, -⟩ := h.handed
  have hactive' : w.activeConns fd = some (peer, .incoming) := by rw [hactive, PartialMap.set_self]
  rw [hafter] at hsound ⊢
  unfold readMessage at hsound ⊢
  split
  · rename_i io hstart
    rw [hstart] at hsound
    exact hsound.not_exchanging (by simp [hactive'])
  · unfold readFailed
    simp only [hactive']
    refine Free.not_exchanging fun dir => ?_
    obtain ⟨hslots, -⟩ := EpollLoop.deregisterFd_tables w.io.loop fd deregister
    have hfree : (w.io.loop.deregisterFd fd deregister).fdToCallback ⟨fd, dir⟩ = none := by
      rw [hslots]
      cases dir <;> simp [PartialMap.erase_apply]
    simp only [closeFD, eraseActive, hactive', Option.map_some]
    exact hfree

theorem Opens.not_closes (h : step.Opens fd sock peer) : ¬ step.Closes fd sock := by
  intro hcloses
  obtain ⟨w, register, deregister, hafter, -, hnotes, -⟩ := h.handed
  have hlength := (readMessage_notes w fd register deregister).length_le
  rw [← hafter, hcloses.notes, hnotes, List.length_append, List.length_singleton] at hlength
  omega

end ExchangeStep

/-- An exchange that waits has taken silent steps only, and if it has heard of a peer, it is this
peer that it answers. -/
structure Waiting (w₀ : ConnectionManager) (fd : Fd) (steps : List ExchangeStep)
  (w : ConnectionManager) : Prop where
  kept : w.Kept
  sock : w.io.fds fd = some w₀.io.nextSock
  silent : ∀ step ∈ steps, step.Silent
  phase : (∃ op, w.io.recvAt fd = some (op, .incomingHello)) ∨
    ∃ op peer, w.io.sendAt fd = some (op, .helloAnswer peer) ∧ ∃ step ∈ steps, step.Hears fd peer

theorem Waiting.vacant (h : Waiting w₀ fd steps w) : w.activeConns fd = none := by
  by_contra hactive
  refine h.kept.sound.not_exchanging hactive ?_
  exact h.phase.imp id fun ⟨op, peer, hat, _⟩ => ⟨op, peer, hat⟩

variable {steps : List ExchangeStep}

theorem Waiting.own (h : Waiting w₀ fd steps w) (hown : event.Concerns fd)
    (hstep : w.step event = some w') :
    Waiting w₀ fd (steps ++ [⟨w, event, w'⟩]) w' ∨ ¬ w'.Exchanging fd ∧
      ((∃ peer, (⟨w, event, w'⟩ : ExchangeStep).Opens fd w₀.io.nextSock peer ∧ ∃ step ∈ steps,
        step.Hears fd peer) ∨ (⟨w, event, w'⟩ : ExchangeStep).Closes fd w₀.io.nextSock) := by
  have hkept := h.kept.step hstep
  have hgoesOn : Untold w w' fd w₀.io.nextSock →
      ((∃ op, w'.io.recvAt fd = some (op, .incomingHello)) ∨
        ∃ op peer, w'.io.sendAt fd = some (op, .helloAnswer peer) ∧
          ∃ step ∈ steps ++ [⟨w, event, w'⟩], ExchangeStep.Hears step fd peer) →
      Waiting w₀ fd (steps ++ [⟨w, event, w'⟩]) w' := fun huntold hphase =>
    ⟨hkept, huntold.sock,
      List.forall_mem_append.mpr ⟨h.silent, by simpa using huntold.silent event⟩, hphase⟩
  cases event with
  | accept fd' register =>
      obtain rfl : fd' = fd := hown
      simp [ConnectionManager.step, Unused, h.sock] at hstep
  | readable fd' res ret answers =>
      obtain rfl : fd' = fd := hown
      rcases h.phase with ⟨op, hat⟩ | ⟨op, peer, hat, -⟩
      · rcases h.kept.sound.exchange_recv h.kept.sockets h.sock hat hstep with
          ⟨huntold, hphase | ⟨op', peer, hsending, hhears⟩⟩ | hcloses
        · exact .inl (hgoesOn huntold (.inl hphase))
        · exact .inl (hgoesOn huntold (.inr ⟨op', peer, hsending, _, by simp, hhears⟩))
        · exact .inr ⟨hcloses.free.not_exchanging, .inr hcloses⟩
      · have hquiet : w.io.recvAt fd' = none :=
          (h.kept.sound.ok.hello_send (s := w.snapshot) hat trivial).2
        simp [ConnectionManager.step, Io.recvEvent_none h.kept.sound.io hquiet] at hstep
  | writable fd' res ret answers =>
      obtain rfl : fd' = fd := hown
      rcases h.phase with ⟨op, hat⟩ | ⟨op, peer, hat, hheard⟩
      · have hquiet : w.io.sendAt fd' = none :=
          (h.kept.sound.ok.hello_recv (s := w.snapshot) hat (by simp)).2
        simp [ConnectionManager.step, Io.sendEvent_none h.kept.sound.io hquiet] at hstep
      · rcases h.kept.sound.exchange_send h.kept.sockets h.sock hat
            hstep with ⟨huntold, op', hsending⟩ | hopens | hcloses
        · obtain ⟨step, hmem, hhears⟩ := hheard
          exact .inl (hgoesOn huntold
            (.inr ⟨op', peer, hsending, step, List.mem_append_left _ hmem, hhears⟩))
        · exact .inr ⟨hopens.not_exchanging hkept.sound, .inl ⟨peer, hopens, hheard⟩⟩
        · exact .inr ⟨hcloses.free.not_exchanging, .inr hcloses⟩
  | openSession | closeSession | sendMessage | destroy =>
      exact absurd hown (by simp [Event.Concerns])

/-- The events of others leave an exchange where it is, unless an object is destroyed whose token
leads to it. -/
theorem Waiting.other (h : Waiting w₀ fd steps w) (hother : ¬ event.Concerns fd)
    (hstep : w.step event = some w') (hspared : ¬ (⟨w, event, w'⟩ : ExchangeStep).Strikes fd) :
    Waiting w₀ fd steps w' := by
  have hapart : Snapshot.Apart fd w.snapshot w'.snapshot := by
    by_cases hdestroy : ∃ token ok, event = .destroy token ok
    · obtain ⟨token, ok, rfl⟩ := hdestroy
      obtain rfl := destroy_eq hstep
      have hspares : ∀ dir, w.io.loop.cancelMap token ≠ some ⟨fd, dir⟩ := fun dir htoken =>
        hspared ⟨token, ok, dir, rfl, htoken⟩
      obtain ⟨hrecv, hsend⟩ := Io.destroy_spares hspares ok
      exact ⟨congrFun (Io.destroy_fewer h.kept.sound.io token ok).fds fd, hrecv, hsend⟩
    · obtain ⟨-, hmove⟩ := h.kept.sound.step hstep
      have hopen : w.snapshot.fds fd ≠ none := by
        show w.io.fds fd ≠ none
        rw [h.sock]
        simp
      exact h.kept.sound.ok.apart_move h.kept.backed h.vacant hopen hother
        (fun token ok heq => hdestroy ⟨token, ok, heq⟩) hmove
  refine ⟨h.kept.step hstep, hapart.fds.trans h.sock, h.silent, ?_⟩
  exact h.phase.imp (fun ⟨op, hat⟩ => ⟨op, hapart.recvAt.trans hat⟩)
    fun ⟨op, peer, hat, hheard⟩ => ⟨op, peer, hapart.sendAt.trans hat, hheard⟩

theorem Waiting.exchanging (h : Waiting w₀ fd steps w) : w.Exchanging fd :=
  h.phase.imp id fun ⟨op, peer, hat, _⟩ => ⟨op, peer, hat⟩

/-- An exchange that still waits when an object has been destroyed is where it was. -/
theorem Waiting.destroyed (h : Waiting w₀ fd steps w) {token : CancellationToken} {ok : Bool}
    (hstep : w.step (.destroy token ok) = some w') (hwaits : w'.Exchanging fd) :
    Waiting w₀ fd steps w' := by
  have hkept := h.kept.step hstep
  obtain rfl := destroy_eq hstep
  have hfewer := Io.destroy_fewer h.kept.sound.io token ok
  refine ⟨hkept, (congrFun hfewer.fds fd).trans h.sock, h.silent, ?_⟩
  rcases hwaits with ⟨op, hat⟩ | ⟨op, peer, hat⟩
  · exact .inl ⟨op, hat⟩
  · -- what is sent is what was sent before
    have hsame : w.io.sendAt fd = some (op, .helloAnswer peer) := by
      rcases hfewer.sendAt fd with heq | hnone
      · exact heq.symm.trans hat
      · exact absurd (hnone.symm.trans hat) (by simp)
    rcases h.phase with ⟨op', hat'⟩ | ⟨op', peer', hat', hheard⟩
    · have hquiet : w.io.sendAt fd = none :=
        (h.kept.sound.ok.hello_recv (s := w.snapshot) hat' (by simp)).2
      exact absurd (hquiet.symm.trans hsame) (by simp)
    · obtain ⟨-, hpeer⟩ := Prod.mk.inj (Option.some.inj (hat'.symm.trans hsame))
      obtain rfl := OnSent.helloAnswer.inj hpeer
      exact .inr ⟨op, peer', hat, hheard⟩

theorem Waits.waiting (h : Waits w₀ fd steps w) (hkept : w₀.Kept) : Waiting w₀ fd steps w := by
  induction h with
  | @accepted register w hstep hwaits =>
      rcases hkept.sound.exchange_accept hkept.sockets hstep with ⟨huntold, hat⟩ | hcloses
      · exact ⟨hkept.step hstep, huntold.sock, by simpa using huntold.silent _, .inl ⟨_, hat⟩⟩
      · exact absurd hwaits hcloses.free.not_exchanging
  | own h hown hstep hwaits ih =>
      exact (ih.own hown hstep).resolve_right fun hended => hended.1 hwaits
  | @other steps event w w' h hother hstep hwaits ih =>
      by_cases hstrikes : (⟨w, event, w'⟩ : ExchangeStep).Strikes fd
      · obtain ⟨token, ok, dir, rfl, -⟩ := hstrikes
        exact ih.destroyed hstep hwaits
      · exact ih.other hother hstep hstrikes

theorem ExchangeStep.Strikes.not_oneEnd {last : ExchangeStep} (h : last.Strikes fd)
    (hstep : last.before.step last.event = some last.after) : ¬ OneEnd w₀ fd steps last := by
  obtain ⟨token, ok, dir, hevent, -⟩ := h
  rw [hevent] at hstep
  have hnotes : last.after.notes = last.before.notes := by rw [destroy_eq hstep]
  have hcloses' : last.after.io.closes = last.before.io.closes := by
    rw [destroy_eq hstep]
    show (last.before.io.destroy token ok).closes = _
    unfold Io.destroy
    dsimp only
    split <;> rfl
  rintro ⟨-, ⟨peer, hopens, -⟩ | hcloses, -⟩
  · obtain ⟨w, register, deregister, hread, -, hopened, -⟩ := hopens.handed
    have hlength := (readMessage_notes w fd register deregister).length_le
    rw [← hread, hnotes, hopened, List.length_append, List.length_singleton] at hlength
    omega
  · have hlength := congrArg List.length hcloses.closes
    rw [hcloses', List.length_append, List.length_singleton] at hlength
    omega

/-- An exchange that ends has given away nothing before its last step, and that step opens a session
with the peer that was heard of, or closes the descriptor, and not both; unless it is the
destruction of an object whose token leads to the descriptor. -/
theorem ends_once_iff {self : PeerId} {order : ByteOrder}
    (hreach : machine.Reach (fun _ _ => True) (init self order) w₀) {last : ExchangeStep}
    (hends : Ends w₀ fd steps last) : OneEnd w₀ fd steps last ↔ ¬ last.Strikes fd := by
  have hkept : w₀.Kept :=
    hreach.invariant (init_kept self order) fun _ _ _ h _ hstep => h.step hstep
  cases hends with
  | atOnce hstep hended =>
      refine ⟨fun h hstrikes => hstrikes.not_oneEnd hstep h, fun _ => ?_⟩
      rcases hkept.sound.exchange_accept hkept.sockets hstep with ⟨-, hat⟩ | hcloses
      · exact absurd (.inl ⟨_, hat⟩) hended
      · exact ⟨by simp, .inr hcloses, fun _ hboth => hboth.1.not_closes hboth.2⟩
  | later hwaits hown hstep hended =>
      refine ⟨fun h hstrikes => hstrikes.not_oneEnd hstep h, fun _ => ?_⟩
      have hwaiting := hwaits.waiting hkept
      rcases hwaiting.own hown hstep with hgoesOn | ⟨-, hlast⟩
      · exact absurd hgoesOn.exchanging hended
      · refine ⟨hwaiting.silent,
          hlast.imp_left fun ⟨peer, hopens, step, hmem, msg, hello, hhears⟩ => ?_,
          fun _ hboth => hboth.1.not_closes hboth.2⟩
        exact ⟨peer, hopens, step, hmem, msg, hello, hhears⟩
  | byOther hwaits hother hstep hended =>
      refine ⟨fun h hstrikes => hstrikes.not_oneEnd hstep h, fun hspared => ?_⟩
      exact absurd ((hwaits.waiting hkept).other hother hstep hspared).exchanging hended

private theorem reader_not_exchanging (hread : (w.io.recvAt fd).map Prod.snd = some .readMessage)
    (hquiet : w.io.sendAt fd = none) : ¬ w.Exchanging fd := by
  rintro (⟨op, hat⟩ | ⟨op, peer, hat⟩)
  · simp [hat] at hread
  · simp [hat] at hquiet

/-- An exchange that opens a session. -/
theorem ends_once_iff_of_handshake :
    ∃ steps last, (OneEnd (init ⟨[2, 2, 2, 2, 2, 2], rfl⟩ .little) 5 steps last ↔
        ¬ last.Strikes 5) ∧ ¬ last.Strikes 5 ∧
      last.after.notes = [.sessionOpened ⟨[1, 1, 1, 1, 1, 1], rfl⟩ .incoming] := by
  let self : PeerId := ⟨[2, 2, 2, 2, 2, 2], rfl⟩
  let peer : PeerId := ⟨[1, 1, 1, 1, 1, 1], rfl⟩
  have haccepted : Waits (init self .little) 5 [⟨_, .accept 5 true, _⟩] _ :=
    .accepted rfl (.inl ⟨_, rfl⟩)
  have hlength :
      Waits (init self .little) 5
        (_ ++ [⟨_, .readable 5 (.ok ()) (.moved [13, 0, 0, 0]) .granted, _⟩]) _ :=
    haccepted.own rfl rfl (.inl ⟨_, rfl⟩)
  have hheard :
      Waits (init self .little) 5
        (_ ++ [⟨_, .readable 5 (.ok ()) (.moved (HelloMsg.make peer helloNotify).serialize)
          .granted, _⟩]) _ :=
    hlength.own rfl rfl (.inr ⟨_, _, rfl⟩)
  have hsent : Waits (init self .little) 5
      (_ ++ [⟨_, .writable 5 (.ok ()) (.moved 4) .granted, _⟩]) _ :=
    hheard.own rfl rfl (.inr ⟨_, _, rfl⟩)
  have hends : Ends (init self .little) 5 _ ⟨_, .writable 5 (.ok ()) (.moved 13) .granted, _⟩ :=
    .later hsent rfl rfl (reader_not_exchanging (by decide +kernel) (by decide +kernel))
  refine ⟨_, _, ends_once_iff .refl hends, ?_, by decide +kernel⟩
  rintro ⟨token, ok, dir, hevent, -⟩
  exact absurd hevent (by simp)

/-- The session of a peer is closed, and its reader is destroyed when another connection has the
descriptor: the exchange is gone, and the descriptor is open and no connection. -/
theorem closed_reader_ends_exchange :
    ∃ (w₀ : ConnectionManager) (steps : List ExchangeStep) (last : ExchangeStep),
      machine.Reach (fun _ _ => True) (init ⟨[2, 2, 2, 2, 2, 2], rfl⟩ .little) w₀ ∧
      Ends w₀ 5 steps last ∧ ¬ OneEnd w₀ 5 steps last ∧
      last.after.io.fds 5 = some w₀.io.nextSock ∧ last.after.activeConns 5 = none ∧
      ∀ dir, last.after.io.loop.fdToCallback ⟨5, dir⟩ = none := by
  let self : PeerId := ⟨[2, 2, 2, 2, 2, 2], rfl⟩
  let ann : PeerId := ⟨[1, 1, 1, 1, 1, 1], rfl⟩
  -- the token of ann's reader is 3
  have hrun : ((machine.exec (init self .little)
      (incomingHandshake 5 ann ++ [.closeSession ann .all true])).bind fun w₀ =>
        (w₀.step (.accept 5 true)).bind fun w₁ => (w₁.step (.destroy 3 true)).map fun w₂ =>
          decide ((w₁.io.recvAt 5).map Prod.snd = some .incomingHello ∧
            w₁.io.loop.cancelMap 3 = some ⟨5, .input⟩ ∧
            (w₂.io.loop.fdToCallback ⟨5, .input⟩).isNone ∧
            (w₂.io.loop.fdToCallback ⟨5, .output⟩).isNone ∧
            w₂.io.fds 5 = some w₀.io.nextSock ∧ w₂.activeConns 5 = none)) = some true := by
    decide +kernel
  obtain ⟨w₀, hclosed, hrun⟩ := Option.bind_eq_some_iff.mp hrun
  obtain ⟨w₁, haccepts, hrun⟩ := Option.bind_eq_some_iff.mp hrun
  obtain ⟨w₂, hstep, hrun⟩ := Option.map_eq_some_iff.mp hrun
  obtain ⟨hrecv, htoken, hin, hout, hopen, hactive⟩ := of_decide_eq_true hrun
  obtain ⟨⟨op, _⟩, hat, rfl⟩ := Option.map_eq_some_iff.mp hrecv
  have hwaits : Waits w₀ 5 [⟨w₀, .accept 5 true, w₁⟩] w₁ := .accepted haccepts (.inl ⟨op, hat⟩)
  have hfree : ExchangeStep.Free w₂ 5 := by
    intro dir
    cases dir with
    | input => exact Option.isNone_iff_eq_none.mp hin
    | output => exact Option.isNone_iff_eq_none.mp hout
  have hends : Ends w₀ 5 [⟨w₀, .accept 5 true, w₁⟩] ⟨w₁, .destroy 3 true, w₂⟩ :=
    .byOther hwaits (by simp [Event.Concerns]) hstep hfree.not_exchanging
  have hstrikes : ExchangeStep.Strikes ⟨w₁, .destroy 3 true, w₂⟩ 5 :=
    ⟨3, true, .input, rfl, htoken⟩
  exact ⟨w₀, _, _, Machine.reach_of_exec hclosed, hends, hstrikes.not_oneEnd hstep, hopen, hactive,
    hfree⟩

end ConnectionManager

end Diplom
