import Diplom.Proof.Life
import Diplom.Proof.Tables
import Diplom.Spec.Hangup

/-!
# Frames that arrived before a hangup

`Run` looks for a hangup or an error before it looks for input, and runs the callbacks with an
error. The reader then ends its connection without another `recv`, so whatever lies unread is lost.
-/

namespace Diplom

theorem RecvOp.event_err (order : ByteOrder) (op : RecvOp) (e : IoError) (ret : RecvReturn) :
    op.event order (.err e) ret = .resolved (.err e) := by
  cases op <;> rfl

namespace ConnectionManager

variable {w : ConnectionManager} {fd : Fd} {recv : RecvReturn} {send : SendReturn}
  {answers : Answers}

theorem step_readable_none (h : w.Sound) (hat : w.io.recvAt fd = none) (res : EpollResult) :
    w.step (.readable fd res recv answers) = none := by
  simp only [step, Io.recvEvent_none h.io hat]
  split <;> rfl

theorem step_writable_none (h : w.Sound) (hat : w.io.sendAt fd = none) (res : EpollResult) :
    w.step (.writable fd res send answers) = none := by
  simp only [step, Io.sendEvent_none h.io hat]
  split <;> rfl

theorem Sound.read_error (h : w.Sound) (halive : w.alive = true) {conn : Conn}
    (hactive : w.activeConns fd = some conn) (hat : w.io.recvAt fd ≠ none) (e : IoError)
    (recv : RecvReturn) (answers : Answers) :
    ∃ w', w.step (.readable fd (.err e) recv answers) = some w' ∧ w'.Sound ∧
      w'.activeConns fd = none ∧ w'.io.sendAt fd = none ∧
      w'.notes = w.notes ++ [.sessionLost conn.1 conn.2] := by
  obtain ⟨⟨op, resolve⟩, hop⟩ := Option.ne_none_iff_exists'.mp hat
  have hresolve : resolve = .readMessage :=
    ((h.ok.stage fd).reads op resolve hop).mpr (by simp [snapshot, hactive])
  subst hresolve
  have hevent := RecvOp.event_err w.io.order op e recv
  obtain ⟨w', hstep⟩ : ∃ w', w.step (.readable fd (.err e) recv answers) = some w' := by
    rcases Io.recvEvent_cases h.io hop (.err e) recv answers.deregister with
      ⟨_, _, hgoes, -⟩ | ⟨_, io, -, heq, -⟩ | ⟨haborts, -⟩
    · simp [hevent] at hgoes
    · simp only [ConnectionManager.step, halive, heq]
      exact ⟨_, rfl⟩
    · simp [hevent] at haborts
  obtain ⟨hsound, hmove⟩ := h.step hstep
  refine ⟨w', hstep, hsound, ?_⟩
  have hat' : w.snapshot.recvAt fd = some (op, .readMessage) := hop
  suffices hclosed : w'.snapshot = (w.snapshot.endRecv fd (recv.bytes (.err e))).closeFD fd by
    have hactives := congrArg Snapshot.activeConns hclosed
    have hsends := congrArg Snapshot.sendAt hclosed
    have hnotes := congrArg Snapshot.notes hclosed
    rw [Snapshot.closeFD_activeConns] at hactives
    rw [Snapshot.closeFD_sendAt] at hsends
    refine ⟨(congrFun hactives fd).trans (PartialMap.erase_self _ _),
      (congrFun hsends fd).trans (PartialMap.erase_self _ _), ?_⟩
    have hconn : (w.snapshot.endRecv fd (recv.bytes (.err e))).activeConns fd = some conn := hactive
    refine hnotes.trans ?_
    simp only [Snapshot.closeFD, hconn]
    rfl
  generalize w'.snapshot = s' at hmove ⊢
  cases hmove with
  | recvGoesOn hop' hgoes =>
      obtain ⟨rfl, -⟩ := Prod.mk.inj (Option.some.inj (hat'.symm.trans hop'))
      simp [RecvOp.event_err] at hgoes
  | recvAborts hop' haborts => simp [RecvOp.event_err] at haborts
  | helloDropped hop' hhello =>
      obtain ⟨-, rfl⟩ := Prod.mk.inj (Option.some.inj (hat'.symm.trans hop'))
      exact absurd rfl hhello
  | helloAnswered hop' => exact absurd (hat'.symm.trans hop') (by simp)
  | sessionOut hop' => exact absurd (hat'.symm.trans hop') (by simp)
  | messageRead hop' _ hread => simp [RecvOp.event_err] at hread
  | readFailed hop' => rfl

theorem Sound.writable_active (h : w.Sound) {res : EpollResult} {w' : ConnectionManager}
    (hactive : w.activeConns fd ≠ none) (hstep : w.step (.writable fd res send answers) = some w') :
    w'.activeConns fd ≠ none := by
  obtain ⟨-, hmove⟩ := h.step hstep
  have hbusy : ∀ op resolve, w.snapshot.sendAt fd = some (op, resolve) → ¬ resolve.IsHello :=
    fun op resolve hat hhello =>
    hactive (((h.ok.stage fd).sends op resolve hat).mp hhello)
  show w'.snapshot.activeConns fd ≠ none
  generalize w'.snapshot = s' at hmove ⊢
  cases hmove with
  | sendGoesOn hat => exact hactive
  | sendAborts hat => exact hactive
  | answerUnsent hat => exact absurd trivial (hbusy _ _ hat)
  | sessionIn hat => exact absurd trivial (hbusy _ _ hat)
  | notifyUnsent hat => exact absurd trivial (hbusy _ _ hat)
  | notifySent hat => exact absurd trivial (hbusy _ _ hat)
  | notifyUnanswered hat => exact absurd trivial (hbusy _ _ hat)
  | queueAdvances hat hqueue hevent hrun =>
      obtain ⟨_, _, _, heq⟩ := hrun.eq
      rw [heq]
      exact hactive

theorem Sound.step_order (h : w.Sound) {event : Event} {w' : ConnectionManager}
    (hstep : w.step event = some w') : w'.io.order = w.io.order :=
  (h.ok.move_life (h.step hstep).2).order

/-! ### One event of a socket -/

theorem Sound.runCallback (h : w.Sound) (recv : RecvReturn) (send : SendReturn) (answers : Answers)
    (d : Dispatch) :
    (w.runCallback recv send answers d).Sound ∧
      (w.runCallback recv send answers d).io.order = w.io.order := by
  have hcase : ∀ event, ((w.step event).getD w).Sound ∧
      ((w.step event).getD w).io.order = w.io.order := by
    intro event
    cases hstep : w.step event with
    | none => exact ⟨h, rfl⟩
    | some w' => exact ⟨(h.step hstep).1, h.step_order hstep⟩
  unfold ConnectionManager.runCallback
  split
  · exact hcase _
  · exact hcase _

theorem Sound.handle (h : w.Sound) (fd : Fd) (events : EpollEvents) (recv : RecvReturn)
    (send : SendReturn) (answers : Answers) :
    (w.handle fd events recv send answers).Sound ∧
      (w.handle fd events recv send answers).io.order = w.io.order := by
  unfold ConnectionManager.handle
  generalize dispatches fd events ((w.io.fds fd).getD 0) = calls
  induction calls generalizing w with
  | nil => exact ⟨h, rfl⟩
  | cons d calls ih =>
      obtain ⟨hsound, horder⟩ := h.runCallback recv send answers d
      obtain ⟨hrest, hsame⟩ := ih hsound
      exact ⟨hrest, hsame.trans horder⟩

theorem handle_hangup {events : EpollEvents} (h : InputAndHangup events) :
    w.handle fd events recv send answers
      = (((w.step (.readable fd (.err .error) recv answers)).getD w).step
        (.writable fd (.err .error) send answers)).getD
      ((w.step (.readable fd (.err .error) recv answers)).getD w) := by
  rw [ConnectionManager.handle, dispatches, if_pos h.2]
  rfl

theorem Sound.hangup_read (h : w.Sound) (halive : w.alive = true) {conn : Conn}
    (hactive : w.activeConns fd = some conn) (hat : w.io.recvAt fd ≠ none) {events : EpollEvents}
    (hevents : InputAndHangup events) :
    (w.handle fd events recv send answers).activeConns fd = none ∧
      (w.handle fd events recv send answers).notes = w.notes ++ [.sessionLost conn.1 conn.2] := by
  obtain ⟨w', hstep, hsound, hended, hidle, hnotes⟩ :=
      h.read_error halive hactive hat .error recv answers
  rw [handle_hangup hevents, hstep, Option.getD_some, step_writable_none hsound hidle]
  exact ⟨hended, hnotes⟩

/-- Without a reader, or in a process that is dead, the connection stays. -/
theorem Sound.hangup_unread (h : w.Sound) (hactive : w.activeConns fd ≠ none)
    (hno : w.alive = false ∨ w.io.recvAt fd = none) {events : EpollEvents}
    (hevents : InputAndHangup events) :
    (w.handle fd events recv send answers).activeConns fd ≠ none := by
  have hread : w.step (.readable fd (.err .error) recv answers) = none := by
    rcases hno with hdead | hat
    · simp [ConnectionManager.step, hdead]
    · exact step_readable_none h hat _
  rw [handle_hangup hevents, hread, Option.getD_none]
  cases hstep : w.step (.writable fd (.err .error) send answers) with
  | none => exact hactive
  | some w' => exact h.writable_active hactive hstep

end ConnectionManager

namespace Receiving

variable {s s' : Receiving}

/-! ### Runs -/

theorem sound_step (h : s.manager.Sound) {event : Event} (hstep : s.step event = some s') :
    s'.manager.Sound ∧ s'.manager.io.order = s.manager.io.order := by
  have hmanager : ∀ event, (s.manager.step event).map (fun w => { s with manager := w }) = some s' →
      s'.manager.Sound ∧ s'.manager.io.order = s.manager.io.order := by
    intro event hstep
    obtain ⟨w, hw, rfl⟩ := Option.map_eq_some_iff.mp hstep
    exact ⟨(h.step hw).1, h.step_order hw⟩
  cases event with
  | arrives sock bytes =>
      obtain rfl := Option.some.inj hstep
      exact ⟨h, rfl⟩
  | other event =>
      cases event with
      | readable => exact absurd hstep (by simp [step])
      | writable => exact absurd hstep (by simp [step])
      | accept => exact hmanager _ hstep
      | openSession => exact hmanager _ hstep
      | closeSession => exact hmanager _ hstep
      | sendMessage => exact hmanager _ hstep
      | destroy => exact hmanager _ hstep
  | io fd events recv send answers =>
      simp only [step] at hstep
      split at hstep
      · obtain rfl := Option.some.inj hstep
        exact h.handle fd events recv send answers
      · exact absurd hstep (by simp)

theorem hangups_step {event : Event} (hstep : s.step event = some s') :
    (s'.hangups = s.hangups ∧ s.NothingWaits event) ∨ ∃ fd events recv send answers,
      event = .io fd events recv send answers ∧
      s'.hangups = s.hangups
        ++ s.hangup fd events (s.manager.handle fd events recv send answers) := by
  have hmanager : ∀ event, (s.manager.step event).map (fun w => { s with manager := w }) = some s' →
      s'.hangups = s.hangups := by
    intro event hstep
    obtain ⟨w, -, rfl⟩ := Option.map_eq_some_iff.mp hstep
    rfl
  cases event with
  | arrives sock bytes =>
      obtain rfl := Option.some.inj hstep
      exact .inl ⟨rfl, trivial⟩
  | other event =>
      cases event with
      | readable => exact absurd hstep (by simp [step])
      | writable => exact absurd hstep (by simp [step])
      | accept => exact .inl ⟨hmanager _ hstep, trivial⟩
      | openSession => exact .inl ⟨hmanager _ hstep, trivial⟩
      | closeSession => exact .inl ⟨hmanager _ hstep, trivial⟩
      | sendMessage => exact .inl ⟨hmanager _ hstep, trivial⟩
      | destroy => exact .inl ⟨hmanager _ hstep, trivial⟩
  | io fd events recv send answers =>
      simp only [step] at hstep
      split at hstep
      · obtain rfl := Option.some.inj hstep
        exact .inr ⟨fd, events, recv, send, answers, rfl, rfl⟩
      · exact absurd hstep (by simp)

/-- Nothing has been passed on: all is well exactly if nothing lay there in whole. -/
theorem nothing_passed_iff (order : ByteOrder) (pending : List Byte) :
    (∀ ms : List Message, (uint32 order).Fits ms → (uint32 order).frames ms <+: pending → ms <+: [])
      ↔ ∀ m : Message, m.length < 2 ^ 32 → ¬ frame order m <+: pending := by
  constructor
  · intro h m hm hpre
    have hfits : (uint32 order).Fits [m] := by
      intro m' hm'
      rw [List.mem_singleton.mp hm', uint32_bound]
      exact hm
    have hnil := h [m] hfits (by simpa [LengthCode.frames] using hpre)
    exact absurd (List.prefix_nil.mp hnil) (by simp)
  · intro h ms hfits hpre
    cases ms with
    | nil => exact List.prefix_rfl
    | cons m rest =>
        have hm : m.length < 2 ^ 32 := uint32_bound order ▸ hfits m List.mem_cons_self
        rw [LengthCode.frames_cons] at hpre
        exact absurd ((List.prefix_append _ _).trans hpre) (h m hm)

/-- An event of a socket is recorded with nothing passed on, if it ends the connection of a reader,
and not at all otherwise. -/
theorem hangup_cases (h : s.manager.Sound) (fd : Fd) (events : EpollEvents) (recv : RecvReturn)
    (send : SendReturn) (answers : ConnectionManager.Answers) :
    (s.manager.alive = true ∧ InputAndHangup events ∧ s.Reads fd ∧
      s.hangup fd events (s.manager.handle fd events recv send answers) = [⟨s.pending fd, []⟩]) ∨
      (¬ (s.manager.alive = true ∧ InputAndHangup events ∧ s.Reads fd) ∧
        s.hangup fd events (s.manager.handle fd events recv send answers) = []) := by
  by_cases hread : s.manager.alive = true ∧ InputAndHangup events ∧ s.Reads fd
  · obtain ⟨halive, hevents, hactive, hat⟩ := hread
    obtain ⟨conn, hconn⟩ := Option.ne_none_iff_exists'.mp hactive
    obtain ⟨hended, hnotes⟩ : (s.manager.handle fd events recv send answers).activeConns fd = none ∧
        (s.manager.handle fd events recv send answers).notes = s.manager.notes
          ++ [.sessionLost conn.1 conn.2] :=
      h.hangup_read halive hconn hat hevents
    refine .inl ⟨halive, hevents, ⟨hactive, hat⟩, ?_⟩
    rw [hangup, if_pos ⟨hevents, hactive, hended⟩, hnotes, List.drop_left]
    rfl
  · refine .inr ⟨hread, if_neg ?_⟩
    rintro ⟨hevents, hactive, hended⟩
    refine h.hangup_unread hactive ?_ hevents hended
    by_contra hno
    rw [not_or] at hno
    exact hread ⟨by simpa using hno.1, hevents, hactive, hno.2⟩

theorem allPassed_step_iff (h : s.manager.Sound) (hpassed : s.AllPassed) {event : Event}
    (hstep : s.step event = some s') : s'.AllPassed ↔ s.NothingWaits event := by
  obtain ⟨-, horder⟩ := sound_step h hstep
  rcases hangups_step hstep with ⟨hsame, hwaits⟩ | ⟨fd, events, recv, send, answers, rfl, hadded⟩
  · refine iff_of_true ?_ hwaits
    rw [AllPassed, hsame, horder]
    exact hpassed
  · rcases hangup_cases h fd events recv send
        answers with ⟨halive, hevents, hreads, hrecord⟩ | ⟨hno, hrecord⟩
    · have hnew : s'.AllPassed ↔ ∀ ms : List Message, (uint32 s.manager.io.order).Fits ms →
          (uint32 s.manager.io.order).frames ms <+: s.pending fd → ms <+: [] := by
        rw [AllPassed, hadded, hrecord, horder]
        constructor
        · intro hall
          exact hall _ (List.mem_append_right _ (List.mem_singleton.mpr rfl))
        · intro hlast r hr
          rcases List.mem_append.mp hr with hold | hlast'
          · exact hpassed r hold
          · rw [List.mem_singleton.mp hlast']
            exact hlast
      rw [hnew, nothing_passed_iff]
      exact ⟨fun hnone _ _ _ => hnone, fun hwaits => hwaits halive hevents hreads⟩
    · refine iff_of_true ?_ fun halive hevents hreads => absurd ⟨halive, hevents, hreads⟩ hno
      rw [AllPassed, hadded, hrecord, List.append_nil, horder]
      exact hpassed

/-- In a run no connection ends in a hangup over a whole frame exactly if no event with a hangup
finds one unread. -/
theorem allPassed_iff_nothingWaits (self : PeerId) (order : ByteOrder) (events : List Event) :
    machine.Always AllPassed (init self order) events ↔
      machine.EachStep NothingWaits (init self order) events :=
  Machine.always_iff_eachStep (fun _ _ _ h hstep => (sound_step h hstep).1)
    (fun _ _ _ h hpassed hstep => allPassed_step_iff h hpassed hstep) events
    (ConnectionManager.init_sound self order) fun _ hr => absurd hr List.not_mem_nil

/-- A message of one byte and the end of the stream come together. -/
theorem message_before_hangup_is_lost :
    ¬ ∀ (self : PeerId) (order : ByteOrder) (events : List Event) (s : Receiving),
      machine.exec (init self order) events = some s → s.AllPassed := by
  intro h
  let peer : PeerId := ⟨[1, 1, 1, 1, 1, 1], rfl⟩
  let hello := (HelloMsg.make peer helloNotify).serialize
  have hrun : (machine.exec (init ⟨[2, 2, 2, 2, 2, 2], rfl⟩ .little)
      [.other (.accept 5 true), .arrives 0 ([13, 0, 0, 0] ++ hello),
        .io 5 epollIn (.moved [13, 0, 0, 0]) (.failed .other) .granted,
        .io 5 epollIn (.moved hello) (.failed .other) .granted,
        .io 5 epollOut (.failed .other) (.moved 4) .granted,
        .io 5 epollOut (.failed .other) (.moved 13) .granted, .arrives 0 [1, 0, 0, 0, 42],
        .io 5 (epollIn ||| epollHup) (.failed .other) (.failed .other) .granted]).map
      (fun s => (s.manager.io.order, s.hangups.map fun r => (r.pending, r.passed)))
      = some (.little, [([1, 0, 0, 0, 42], [])]) := by
    decide +kernel
  obtain ⟨s, hexec, hs⟩ := Option.map_eq_some_iff.mp hrun
  obtain ⟨horder, hrecords⟩ := Prod.mk.inj hs
  obtain ⟨r, hr, hrecord⟩ := List.mem_map.mp (hrecords ▸ List.mem_singleton.mpr rfl :
    ([1, 0, 0, 0, 42], []) ∈ s.hangups.map fun r => (r.pending, r.passed))
  obtain ⟨hpending, hnone⟩ := Prod.mk.inj hrecord
  have hlost := h _ _ _ s hexec r hr [[42]]
  rw [horder, hpending, hnone] at hlost
  have hfits : (uint32 .little).Fits [([42] : Message)] := by
    intro m hm
    rw [List.mem_singleton.mp hm]
    decide
  exact absurd (List.prefix_nil.mp (hlost hfits (by decide))) (by simp)

end Receiving

end Diplom
