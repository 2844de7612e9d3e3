import Diplom.Lib.Outbox
import Diplom.Proof.Senders

/-!
# Messages in order

A queue of a descriptor is served by one hand, wherever that is: in a section of one of the threads,
in a registered action, or in a running callback. So what has been given to `AsyncFd::SendMessage`
for a socket and what is waiting in its queue are together what was put there, in order, and the
queue is not left alone while it has messages.
-/

namespace Diplom

open Outbox

def parcelsOf (log : List (Sock × Parcel)) (sock : Sock) : List Parcel :=
  log.filterMap fun entry => if entry.1 = sock then some entry.2 else none

theorem parcelsOf_append_self (log : List (Sock × Parcel)) (sock : Sock) (parcel : Parcel) :
    parcelsOf (log ++ [(sock, parcel)]) sock = parcelsOf log sock ++ [parcel] := by
  simp [parcelsOf]

theorem parcelsOf_append_of_ne (log : List (Sock × Parcel)) {sock sock' : Sock} (h : sock' ≠ sock)
    (parcel : Parcel) : parcelsOf (log ++ [(sock, parcel)]) sock' = parcelsOf log sock' := by
  simp [parcelsOf, h.symm]

/-- The queue that a section serves, and how far it has come. -/
def Section.hand : Section → Option (Fd × Phase Parcel)
  | .takeFront h => some (h.fd, .ahead)
  | .sendMessage h data (.queued parcel) => some (h.fd, .holding { parcel with body := data })
  | .sent h (.queued parcel) _ => some (h.fd, .away parcel)
  | .popFront h => some (h.fd, .done)
  | _ => none

def Closure.phase : Closure OnMessage OnSent → Option (Phase Parcel)
  | .send _ (.queued parcel) => some (.away parcel)
  | _ => none

theorem Section.part_of_hand {sec : Section} {fd : Fd} {phase : Phase Parcel}
    (h : sec.hand = some (fd, phase)) : sec.part = some (.sending, fd) := by
  cases sec with
  | takeFront hd | popFront hd => rw [Section.part, (Prod.mk.inj (Option.some.inj h)).1]
  | sendMessage hd data resolve =>
      cases resolve with
      | queued parcel => rw [Section.part, (Prod.mk.inj (Option.some.inj h)).1, OnSent.role]
      | _ => exact absurd h (by simp [Section.hand])
  | sent hd resolve res =>
      cases resolve with
      | queued parcel => rw [Section.part, (Prod.mk.inj (Option.some.inj h)).1, OnSent.role]
      | _ => exact absurd h (by simp [Section.hand])
  | _ => exact absurd h (by simp [Section.hand])

theorem Closure.role_of_phase {closure : Closure OnMessage OnSent} {phase : Phase Parcel}
    (h : closure.phase = some phase) : closure.role = .sending := by
  cases closure with
  | recv op resolve => exact absurd h (by simp [Closure.phase])
  | send op resolve => cases resolve <;> first | rfl | exact absurd h (by simp [Closure.phase])

theorem Closure.Alike.phase {closure closure' : Closure OnMessage OnSent}
    (h : closure.Alike closure') : closure.phase = closure'.phase := by
  cases h with
  | recv op op' resolve => rfl
  | send op op' resolve => cases resolve <;> rfl

theorem Section.hand_of_handle_none {sec : Section} (h : sec.handle = none) : sec.hand = none := by
  cases hhand : sec.hand with
  | none => rfl
  | some hand =>
      exact absurd ((Section.part_of_hand hhand).symm.trans (Section.part_of_handle_none h))
        (by simp)

namespace Shared

variable {s : Shared} {sec : Section} {next : List Section}

/-- Where a section leaves everything as it is, a hand goes on, or is told that its message has
arrived. -/
theorem Leads.hand (hleads : s.Leads sec next) {sec' : Section} (hmem : sec' ∈ next) {fd : Fd}
    {phase : Phase Parcel} (hhand : sec'.hand = some (fd, phase)) :
    ∃ phase', sec.hand = some (fd, phase') ∧ ∀ queue waiting,
      phase'.Fits Parcel.movedOut queue waiting → phase.Fits Parcel.movedOut queue waiting := by
  have hpart := hleads.part hmem (Section.part_of_hand hhand)
  cases hleads with
  | @queuedSent hd parcel res conn _ =>
      obtain rfl := List.mem_singleton.mp hmem
      obtain ⟨rfl, rfl⟩ := Prod.mk.inj (Option.some.inj hhand)
      exact ⟨.away parcel, rfl, fun _ _ => Phase.Fits.arrive⟩
  | nothingWaits _ => exact absurd hmem (by simp)
  | queueGone _ => exact absurd hmem (by simp)
  | senderInactive _ => exact absurd hmem (by simp)
  | _ => exact absurd hpart (by simp [Section.part, OnMessage.role, OnSent.role])

end Shared

namespace Process

variable {p p' : Process} {input : Input} {latest : Fd → Option Sock}

/-- A hand is at work on the queue of a descriptor. -/
inductive Hand (p : Process) (fd : Fd) (phase : Phase Parcel) : Prop
  | work {t : ThreadId} {sec : Section} (hmem : sec ∈ p.work t)
      (hhand : sec.hand = some (fd, phase))
  | action {dir : IoDirection} {closure : Closure OnMessage OnSent}
      (hat : p.shared.manager.io.actionAt ⟨fd, dir⟩ = some closure)
      (hphase : closure.phase = some phase)
  | running {r : Running} (hrunning : p.running = some r) (hfd : r.handle.fd = fd)
      (hphase : r.closure.phase = some phase)

theorem Hand.tally_pos {fd : Fd} {phase : Phase Parcel} (halike : p.Alike) (h : p.Hand fd phase) :
    1 ≤ p.tally .sending fd := by
  cases h with
  | work hmem hhand =>
      have hcast := cast_le_tally hmem .sending fd
      rw [cast_pos (Section.part_of_hand hhand)] at hcast
      omega
  | action hat hphase => exact tally_pos_of_action hat (Closure.role_of_phase hphase)
  | @running r hrunning hfd hphase =>
      subst hfd
      rw [← Closure.role_of_phase hphase]
      exact halike.tally_pos hrunning

/-- The state before a section, without the section. -/
theorem Hand.went {t : ThreadId} {sec : Section} {rest next : List Section} {shared : Shared}
    {fd : Fd} {phase : Phase Parcel} (hwork : p.work t = sec :: rest)
    (h : (p.went t next rest shared).Hand fd phase)
    (hactions : ∀ dir closure, shared.manager.io.actionAt ⟨fd, dir⟩ = some closure →
      closure.phase = some phase → p.shared.manager.io.actionAt ⟨fd, dir⟩ = some closure) :
    (p.setWork t rest).Hand fd phase ∨ ∃ sec' ∈ next, sec'.hand = some (fd, phase) := by
  cases h with
  | @work t' sec' hmem hhand =>
      have hmem : sec' ∈ (p.setWork t (next ++ rest)).work t' := hmem
      by_cases ht : t' = t
      · subst ht
        rw [setWork_self] at hmem
        rcases List.mem_append.mp hmem with hnext | hrest
        · exact .inr ⟨sec', hnext, hhand⟩
        · exact .inl (.work (t := t') ((p.setWork_self t' rest).symm ▸ hrest) hhand)
      · rw [setWork_of_ne p ht] at hmem
        exact .inl (.work (t := t') ((setWork_of_ne p ht rest).symm ▸ hmem) hhand)
  | @action dir closure hat hphase => exact .inl (.action (hactions dir closure hat hphase) hphase)
  | running hrunning hfd hphase => exact .inl (.running hrunning hfd hphase)

/-- What is left without a section was there with it. -/
theorem Hand.of_rest {t : ThreadId} {sec : Section} {rest : List Section} {fd : Fd}
    {phase : Phase Parcel} (hwork : p.work t = sec :: rest) (h : (p.setWork t rest).Hand fd phase) :
    p.Hand fd phase := by
  cases h with
  | @work t' sec' hmem hhand =>
      exact .work ((p.of_mem_setWork hwork
        (show sec' ∈ (p.setWork t ([] ++ rest)).work t' from hmem)).resolve_left List.not_mem_nil)
        hhand
  | action hat hphase => exact .action hat hphase
  | running hrunning hfd hphase => exact .running hrunning hfd hphase

/-- While a section is the hand, there is no other. -/
theorem Parts.no_other (h : p.Parts) {t : ThreadId} {sec : Section} {rest : List Section} {fd : Fd}
  {phase : Phase Parcel} (hwork : p.work t = sec :: rest) (hpart : sec.part = some (.sending, fd)) :
  ¬ (p.setWork t rest).Hand fd phase := by
  intro hother
  have hpos := hother.tally_pos (show (p.setWork t rest).Alike from h.alike)
  have htally := p.tally_setWork hwork [] .sending fd
  rw [List.nil_append, cast_nil, cast_pos hpart] at htally
  have hsingle := (h.at_fd fd).single
  omega

/-! ### What is waiting -/

/-- On a socket that has its number last: what has been put in the queue has been given away, or is
waiting. -/
structure FlowAt (p : Process) (fd : Fd) (sock : Sock) (waiting : List Parcel) : Prop where
  order : parcelsOf p.shared.placed sock = parcelsOf p.shared.handed sock ++ waiting
  left : ∀ queue, p.shared.manager.sendQueues fd = some queue → Left Parcel.movedOut queue waiting
  hands : ∀ phase, p.Hand fd phase →
    phase.Fits Parcel.movedOut (p.shared.manager.sendQueues fd) waiting
  early : 1 ≤ p.early fd → parcelsOf p.shared.placed sock = []

structure Flow (latest : Fd → Option Sock) (p : Process) : Prop where
  at_fd : ∀ fd sock, latest fd = some sock → ∃ waiting, p.FlowAt fd sock waiting
  fresh : ∀ sock, p.shared.manager.io.nextSock ≤ sock →
    parcelsOf p.shared.placed sock = [] ∧ parcelsOf p.shared.handed sock = []
  order : ∀ sock, parcelsOf p.shared.handed sock <+: parcelsOf p.shared.placed sock

theorem init_flow (self : PeerId) (order : ByteOrder) : (init self order).Flow fun _ => none :=
  ⟨fun _ _ h => absurd h (by simp), fun _ _ => ⟨rfl, rfl⟩, fun _ => List.prefix_rfl⟩

/-- Every hand was there before, as far as it has to do with the queue. -/
def HandsFrom (p p' : Process) (fd : Fd) : Prop :=
  ∀ phase, p'.Hand fd phase → ∃ phase', p.Hand fd phase' ∧ ∀ queue waiting,
    phase'.Fits Parcel.movedOut queue waiting → phase.Fits Parcel.movedOut queue waiting

theorem handsFrom_of_imp {fd : Fd} (h : ∀ phase, p'.Hand fd phase → p.Hand fd phase) :
    HandsFrom p p' fd :=
  fun phase hhand => ⟨phase, h phase hhand, fun _ _ => id⟩

theorem FlowAt.of_fewer {fd : Fd} {sock : Sock} {waiting : List Parcel}
    (h : p.FlowAt fd sock waiting)
    (hplaced : parcelsOf p'.shared.placed sock = parcelsOf p.shared.placed sock)
    (hhanded : parcelsOf p'.shared.handed sock = parcelsOf p.shared.handed sock)
    (hqueue : ∀ queue, p'.shared.manager.sendQueues fd = some queue →
      p.shared.manager.sendQueues fd = some queue) (hearly : p'.early fd ≤ p.early fd)
    (hhands : HandsFrom p p' fd) : p'.FlowAt fd sock waiting := by
  refine ⟨?_, fun queue heq => h.left queue (hqueue queue heq), fun phase hhand => ?_,
    fun hpos => ?_⟩
  · rw [hplaced, hhanded]
    exact h.order
  · obtain ⟨phase', hold, himp⟩ := hhands phase hhand
    exact (himp _ _ (h.hands phase' hold)).mono hqueue
  · rw [hplaced]
    exact h.early (Nat.le_trans hpos hearly)

/-- A step that gives no number to a socket, and neither puts anything in a queue nor gives anything
away. -/
theorem Flow.of_fewer (h : p.Flow latest) (hplaced : p'.shared.placed = p.shared.placed)
    (hhanded : p'.shared.handed = p.shared.handed)
    (hnext : p'.shared.manager.io.nextSock = p.shared.manager.io.nextSock)
    (hqueue : ∀ fd queue, p'.shared.manager.sendQueues fd = some queue →
      p.shared.manager.sendQueues fd = some queue) (hearly : ∀ fd, p'.early fd ≤ p.early fd)
    (hhands : ∀ fd, HandsFrom p p' fd) : p'.Flow latest := by
  refine ⟨fun fd sock hlatest => ?_, ?_, ?_⟩
  · obtain ⟨waiting, hat⟩ := h.at_fd fd sock hlatest
    exact ⟨waiting,
      hat.of_fewer (by rw [hplaced]) (by rw [hhanded]) (hqueue fd) (hearly fd) (hhands fd)⟩
  · rw [hplaced, hhanded, hnext]
    exact h.fresh
  · rw [hplaced, hhanded]
    exact h.order

theorem Flow.of_one (howned : p.Owned latest) (h : p.Flow latest) {fd : Fd} {sock : Sock}
    (hlatest : latest fd = some sock) (hself : ∃ waiting, p'.FlowAt fd sock waiting)
    (hplaced : ∀ sock', sock' ≠ sock →
      parcelsOf p'.shared.placed sock' = parcelsOf p.shared.placed sock')
    (hhanded : ∀ sock', sock' ≠ sock →
      parcelsOf p'.shared.handed sock' = parcelsOf p.shared.handed sock')
    (hnext : p'.shared.manager.io.nextSock = p.shared.manager.io.nextSock)
    (hqueue : ∀ fd', fd' ≠ fd → p'.shared.manager.sendQueues fd' = p.shared.manager.sendQueues fd')
    (hearly : ∀ fd', p'.early fd' ≤ p.early fd') (hhands : ∀ fd', fd' ≠ fd → HandsFrom p p' fd') :
    p'.Flow latest := by
  refine ⟨fun fd' sock' hlatest' => ?_, fun sock' hle => ?_, fun sock' => ?_⟩
  · by_cases hfd : fd' = fd
    · subst hfd
      obtain rfl := Option.some.inj (hlatest'.symm.trans hlatest)
      exact hself
    · have hsock : sock' ≠ sock := fun heq => hfd (howned.one fd' fd sock (heq ▸ hlatest') hlatest)
      obtain ⟨waiting, hat⟩ := h.at_fd fd' sock' hlatest'
      exact ⟨waiting,
        hat.of_fewer (hplaced sock' hsock) (hhanded sock' hsock)
          (fun queue heq => hqueue fd' hfd ▸ heq) (hearly fd') (hhands fd' hfd)⟩
  · have hsock : sock' ≠ sock := by
      rintro rfl
      exact absurd (howned.fresh fd sock' hlatest) (Nat.not_lt.mpr (hnext ▸ hle))
    rw [hplaced sock' hsock, hhanded sock' hsock]
    exact h.fresh sock' (hnext ▸ hle)
  · by_cases hsock : sock' = sock
    · subst hsock
      obtain ⟨waiting, hat⟩ := hself
      exact ⟨waiting, hat.order.symm⟩
    · rw [hplaced sock' hsock, hhanded sock' hsock]
      exact h.order sock'

/-! ### Sections -/

theorem handsFrom_went {t : ThreadId} {sec : Section} {rest next : List Section} {shared : Shared}
    {fd : Fd} (hwork : p.work t = sec :: rest)
    (hactions : ∀ dir closure, shared.manager.io.actionAt ⟨fd, dir⟩ = some closure →
      closure.phase ≠ none → p.shared.manager.io.actionAt ⟨fd, dir⟩ = some closure)
    (hnext : ∀ sec' ∈ next, ∀ phase, sec'.hand = some (fd, phase) →
      ∃ phase', sec.hand = some (fd, phase') ∧ ∀ queue waiting,
      phase'.Fits Parcel.movedOut queue waiting → phase.Fits Parcel.movedOut queue waiting) :
    HandsFrom p (p.went t next rest shared) fd := by
  intro phase hhand
  rcases hhand.went hwork fun dir closure hat hphase =>
      hactions dir closure hat (by simp [hphase]) with hold | ⟨sec', hmem, hsec'⟩
  · exact ⟨phase, hold.of_rest hwork, fun _ _ => id⟩
  · obtain ⟨phase', hsec, himp⟩ := hnext sec' hmem phase hsec'
    exact ⟨phase', .work (t := t) (by simp [hwork]) hsec, himp⟩

theorem Flow.pushed (hparts : p.Parts) (howned : p.Owned latest) (h : p.Flow latest) {t : ThreadId}
    {hd : Handle} {parcel : Parcel} {rest : List Section} {queue : List Parcel}
    (hwork : p.work t = .pushBack hd parcel :: rest)
    (hqueue : p.shared.manager.sendQueues hd.fd = some queue)
    (hearly : ∀ fd,
      (p.went t (if queue = [] then [.takeFront hd] else []) rest
        (p.shared.pushed hd queue parcel)).early fd ≤ p.early fd) :
    (p.went t (if queue = [] then [.takeFront hd] else []) rest
      (p.shared.pushed hd queue parcel)).Flow latest := by
  have hlatest := (howned.rest hwork).1 hd rfl
  have howner : p.shared.queueOf hd.fd = hd.sock :=
    Option.some.inj ((howned.shared.queues _ _ hqueue).symm.trans hlatest)
  have hlog : (p.shared.pushed hd queue parcel).placed = p.shared.placed
      ++ [(hd.sock, parcel)] := by
    rw [← howner]
    rfl
  have hsplit : ∀ {fd phase},
      (p.went t (if queue = [] then [.takeFront hd] else []) rest
        (p.shared.pushed hd queue parcel)).Hand fd phase →
      p.Hand fd phase ∨ queue = [] ∧ fd = hd.fd ∧ phase = .ahead := by
    intro fd phase hhand
    rcases hhand.went hwork fun _ _ hat _ => hat with hold | ⟨sec', hmem, hsec'⟩
    · exact .inl (hold.of_rest hwork)
    · split at hmem
      · rename_i hempty
        obtain rfl := List.mem_singleton.mp hmem
        obtain ⟨rfl, rfl⟩ := Prod.mk.inj (Option.some.inj hsec')
        exact .inr ⟨hempty, rfl, rfl⟩
      · exact absurd hmem List.not_mem_nil
  obtain ⟨waiting, hat⟩ := h.at_fd hd.fd hd.sock hlatest
  refine h.of_one howned hlatest
    ⟨waiting ++ [parcel], ?_, fun queue' heq => ?_, fun phase hhand => ?_, fun hpos => ?_⟩
    (fun sock' hne => ?_) (fun _ _ => rfl) rfl (fun fd' hne => PartialMap.set_of_ne _ hne _) hearly
    fun fd' hne => ?_
  · show parcelsOf (p.shared.pushed hd queue parcel).placed hd.sock = _
    rw [hlog, parcelsOf_append_self, hat.order, List.append_assoc]
    rfl
  · obtain rfl := Option.some.inj ((PartialMap.set_self _ _ _).symm.trans heq)
    exact (hat.left queue hqueue).push parcel
  · have hset :
        (p.went t (if queue = [] then [.takeFront hd] else []) rest
          (p.shared.pushed hd queue parcel)).shared.manager.sendQueues hd.fd
        = some (queue ++ [parcel]) :=
      PartialMap.set_self _ _ _
    rw [hset]
    rcases hsplit hhand with hold | ⟨rfl, -, rfl⟩
    · have hfits := hat.hands phase hold
      rw [hqueue] at hfits
      exact hfits.push parcel
    · -- an empty queue has nothing waiting
      rw [(hat.left [] hqueue).nil]
      rintro _ ⟨⟩
      rfl
  · have happart := ((hparts.at_fd hd.fd).apart (Nat.le_trans hpos (hearly hd.fd))).2.2
    exact absurd (hqueue.symm.trans happart) (by simp)
  · show parcelsOf (p.shared.pushed hd queue parcel).placed sock' = _
    rw [hlog, parcelsOf_append_of_ne _ hne]
  · refine handsFrom_of_imp fun phase hhand => ?_
    rcases hsplit hhand with hold | ⟨-, hfd, -⟩
    · exact hold
    · exact absurd hfd hne

/-- The hand goes on with the queue of its own descriptor, and nothing is given away. -/
theorem Flow.turned (hparts : p.Parts) (howned : p.Owned latest) (h : p.Flow latest) {t : ThreadId}
    {sec : Section} {hd : Handle} {rest next : List Section} {queue : List Parcel}
    (hwork : p.work t = sec :: rest) (hhandle : sec.handle = some hd)
    (hpart : sec.part = some (.sending, hd.fd))
    (hearly : ∀ fd, (p.went t next rest (p.shared.setQueue hd queue)).early fd ≤ p.early fd)
    (hleft : ∀ waiting, p.FlowAt hd.fd hd.sock waiting → Left Parcel.movedOut queue waiting)
    (hnext : ∀ sec' ∈ next, ∀ fd phase, sec'.hand = some (fd, phase) → fd = hd.fd ∧ ∀ waiting,
      p.FlowAt hd.fd hd.sock waiting → phase.Fits Parcel.movedOut (some queue) waiting) :
    (p.went t next rest (p.shared.setQueue hd queue)).Flow latest := by
  have hlatest := (howned.rest hwork).1 hd hhandle
  obtain ⟨waiting, hat⟩ := h.at_fd hd.fd hd.sock hlatest
  have hset : (p.went t next rest (p.shared.setQueue hd queue)).shared.manager.sendQueues hd.fd
      = some queue :=
    PartialMap.set_self _ _ _
  refine h.of_one howned hlatest ⟨waiting, hat.order, fun queue' heq => ?_, fun phase hhand => ?_,
    fun hpos => ?_⟩ (fun _ _ => rfl) (fun _ _ => rfl) rfl
    (fun fd' hne => PartialMap.set_of_ne _ hne _) hearly fun fd' hne => ?_
  · obtain rfl := Option.some.inj (hset.symm.trans heq)
    exact hleft waiting hat
  · rw [hset]
    rcases hhand.went hwork fun _ _ hat _ => hat with hold | ⟨sec', hmem, hsec'⟩
    · exact absurd hold (hparts.no_other hwork hpart)
    · exact (hnext sec' hmem hd.fd phase hsec').2 waiting hat
  · exact hat.early (Nat.le_trans hpos (hearly hd.fd))
  · refine handsFrom_went hwork (fun _ _ hat _ => hat) fun sec' hmem phase hsec' => ?_
    exact absurd (hnext sec' hmem fd' phase hsec').1 hne

theorem Flow.gave (hparts : p.Parts) (howned : p.Owned latest) (h : p.Flow latest) {t : ThreadId}
    {hd : Handle} {data : Message} {parcel : Parcel} {rest next : List Section} {shared : Shared}
    (hwork : p.work t = .sendMessage hd data (.queued parcel) :: rest)
    (hplaced : shared.placed = p.shared.placed)
    (hhanded : shared.handed = p.shared.handed ++ [(hd.sock, { parcel with body := data })])
    (hnext : shared.manager.io.nextSock = p.shared.manager.io.nextSock)
    (hqueues : shared.manager.sendQueues = p.shared.manager.sendQueues)
    (hearly : ∀ fd, (p.went t next rest shared).early fd ≤ p.early fd)
    (hsplit : ∀ fd phase, (p.went t next rest shared).Hand fd phase →
      (p.setWork t rest).Hand fd phase ∨ fd = hd.fd ∧ phase = .away parcel) :
    (p.went t next rest shared).Flow latest := by
  have hlatest := (howned.rest hwork).1 hd rfl
  obtain ⟨waiting, hat⟩ := h.at_fd hd.fd hd.sock hlatest
  have hhand : p.Hand hd.fd (.holding { parcel with body := data }) :=
    .work (t := t) (by rw [hwork]; exact List.mem_cons_self) rfl
  obtain ⟨left, rfl, haway, hleft⟩ := (hat.hands _ hhand).give rfl
  have hlog : ∀ sock, parcelsOf (p.went t next rest shared).shared.placed sock
      = parcelsOf p.shared.placed sock :=
    fun sock => by
    show parcelsOf shared.placed sock = _
    rw [hplaced]
  refine h.of_one howned hlatest
    ⟨left, ?_, fun queue heq => ?_, fun phase hhand => ?_, fun hpos => ?_⟩
    (fun sock' _ => hlog sock') (fun sock' hne => ?_) hnext (fun fd' _ => congrFun hqueues fd')
    hearly fun fd' hne => handsFrom_of_imp fun phase hhand => ?_
  · rw [hlog, hat.order]
    show _ = parcelsOf shared.handed hd.sock ++ left
    rw [hhanded, parcelsOf_append_self, List.append_assoc]
    rfl
  · exact hleft queue (hqueues ▸ heq)
  · rcases hsplit hd.fd phase hhand with hold | ⟨-, rfl⟩
    · exact absurd hold (hparts.no_other hwork rfl)
    · show (Phase.away parcel).Fits Parcel.movedOut (shared.manager.sendQueues hd.fd) left
      rw [hqueues]
      exact haway
  · rw [hlog]
    exact hat.early (Nat.le_trans hpos (hearly hd.fd))
  · show parcelsOf shared.handed sock' = _
    rw [hhanded, parcelsOf_append_of_ne _ hne]
  · rcases hsplit fd' phase hhand with hold | ⟨hfd, -⟩
    · exact hold.of_rest hwork
    · exact absurd hfd hne

theorem Flow.inserted (hparts : p.Parts) (howned : p.Owned latest) (h : p.Flow latest)
    {t : ThreadId} {hd : Handle} {conn : Conn} {rest : List Section}
    (hwork : p.work t = .insertQueue hd conn :: rest)
    (hearly : ∀ fd,
      (p.went t (Shared.opened hd conn) rest (p.shared.insertQueue hd)).early fd ≤ p.early fd) :
    (p.went t (Shared.opened hd conn) rest (p.shared.insertQueue hd)).Flow latest := by
  have hlatest := (howned.rest hwork).1 hd rfl
  obtain ⟨waiting, hat⟩ := h.at_fd hd.fd hd.sock hlatest
  have hpos : 1 ≤ p.early hd.fd := by
    have hcast :=
      cast_le_tally (t := t) (show Section.insertQueue hd conn ∈ p.work t by simp [hwork])
        .filling hd.fd
    rw [cast_pos rfl] at hcast
    unfold early
    omega
  obtain ⟨-, hsending, hnone⟩ := (hparts.at_fd hd.fd).apart hpos
  have hempty := hat.early hpos
  have hset : (p.went t (Shared.opened hd conn) rest
      (p.shared.insertQueue hd)).shared.manager.sendQueues hd.fd = some [] := by
    show (p.shared.manager.sendQueues.insert hd.fd []) hd.fd = some []
    rw [PartialMap.insert_of_none _ hnone, PartialMap.set_self]
  have hhands : ∀ fd phase,
      (p.went t (Shared.opened hd conn) rest (p.shared.insertQueue hd)).Hand fd phase →
      p.Hand fd phase := by
    intro fd phase hhand
    rcases hhand.went hwork fun _ _ hat _ => hat with hold | ⟨sec', hmem, hsec'⟩
    · exact hold.of_rest hwork
    · unfold Shared.opened at hmem
      split at hmem
      all_goals
        simp only [List.mem_cons, List.not_mem_nil, or_false] at hmem
        rcases hmem with rfl | rfl
        all_goals exact absurd hsec' (by simp [Section.hand])
  refine h.of_one howned hlatest
    ⟨waiting, hat.order, fun queue heq => ?_, fun phase hhand => ?_, fun _ => hempty⟩
    (fun _ _ => rfl) (fun _ _ => rfl) rfl (fun fd' hne => PartialMap.insert_of_ne _ hne _) hearly
    fun fd' _ => handsFrom_of_imp (hhands fd')
  · obtain rfl := Option.some.inj (hset.symm.trans heq)
    have horder := hat.order
    rw [hempty] at horder
    rw [(List.append_eq_nil_iff.mp horder.symm).2]
    exact .whole []
  · have hbusy := (hhands hd.fd phase hhand).tally_pos hparts.alike
    omega

theorem action_of_registered {io : Io OnMessage OnSent} {fd fd' : Fd} {dir : IoDirection}
    {closure closure' : Closure OnMessage OnSent}
    (hreg : Io.Registered p.shared.manager.io io fd closure) (hphase : closure.phase = none)
    (hat : io.actionAt ⟨fd', dir⟩ = some closure') (hphase' : closure'.phase ≠ none) :
    p.shared.manager.io.actionAt ⟨fd', dir⟩ = some closure' := by
  rw [hreg.actionAt] at hat
  by_cases hkey : (⟨fd', dir⟩ : FdDirection) = ⟨fd, closure.dir⟩
  · rw [hkey, PartialMap.set_self] at hat
    obtain rfl := Option.some.inj hat
    exact absurd hphase hphase'
  · rwa [PartialMap.set_of_ne _ hkey] at hat

theorem Flow.took (hparts : p.Parts) (howned : p.Owned latest) (h : p.Flow latest) {t : ThreadId}
    {hd : Handle} {parcel : Parcel} {queue : List Parcel} {rest : List Section}
    (hwork : p.work t = .takeFront hd :: rest)
    (hqueue : p.shared.manager.sendQueues hd.fd = some (parcel :: queue))
    (hearly : ∀ fd, (p.went t [.sendMessage hd parcel.body (.queued parcel)] rest
      (p.shared.setQueue hd (parcel.movedOut :: queue))).early fd ≤ p.early fd) :
    (p.went t [.sendMessage hd parcel.body (.queued parcel)] rest
      (p.shared.setQueue hd (parcel.movedOut :: queue))).Flow latest := by
  have htake : ∀ {waiting}, p.FlowAt hd.fd hd.sock waiting → waiting = parcel :: queue ∧
      (Phase.holding parcel).Fits Parcel.movedOut (some (parcel.movedOut :: queue)) waiting := by
    intro waiting hat
    have hfits := hat.hands .ahead (.work (t := t) (by rw [hwork]; exact List.mem_cons_self) rfl)
    rw [hqueue] at hfits
    exact hfits.take
  refine h.turned hparts howned hwork rfl rfl hearly (fun waiting hat => ?_)
    fun sec' hmem fd phase hsec' => ?_
  · rw [(htake hat).1]
    exact .taken parcel queue
  · obtain rfl := List.mem_singleton.mp hmem
    obtain ⟨rfl, rfl⟩ := Prod.mk.inj (Option.some.inj hsec')
    exact ⟨rfl, fun waiting hat => (htake hat).2⟩

theorem Flow.popped (hparts : p.Parts) (howned : p.Owned latest) (h : p.Flow latest) {t : ThreadId}
    {hd : Handle} {front : Parcel} {queue : List Parcel} {rest : List Section}
    (hwork : p.work t = .popFront hd :: rest)
    (hqueue : p.shared.manager.sendQueues hd.fd = some (front :: queue))
    (hearly : ∀ fd, (p.went t (if queue = [] then [] else [.takeFront hd]) rest
      (p.shared.setQueue hd queue)).early fd ≤ p.early fd) :
    (p.went t (if queue = [] then [] else [.takeFront hd]) rest
      (p.shared.setQueue hd queue)).Flow latest := by
  have hpop : ∀ {waiting}, p.FlowAt hd.fd hd.sock waiting → waiting = queue := by
    intro waiting hat
    have hfits := hat.hands .done (.work (t := t) (by rw [hwork]; exact List.mem_cons_self) rfl)
    rw [hqueue] at hfits
    exact hfits.pop
  refine h.turned hparts howned hwork rfl rfl hearly (fun waiting hat => ?_)
    fun sec' hmem fd phase hsec' => ?_
  · rw [hpop hat]
    exact .whole queue
  · split at hmem
    · exact absurd hmem List.not_mem_nil
    · obtain rfl := List.mem_singleton.mp hmem
      obtain ⟨rfl, rfl⟩ := Prod.mk.inj (Option.some.inj hsec')
      refine ⟨rfl, fun waiting hat => ?_⟩
      rintro _ ⟨⟩
      exact (hpop hat).symm

/-- The only new hand is the operation that has been registered. -/
theorem hand_of_sent {t : ThreadId} {hd : Handle} {data : Message} {parcel : Parcel}
    {sec : Section} {rest : List Section} {shared : Shared} (hwork : p.work t = sec :: rest)
    (hactions : shared.manager.io.actionAt = p.shared.manager.io.actionAt.set ⟨hd.fd, .output⟩
      (.send (.start p.shared.manager.io.order data) (.queued parcel)))
    {fd : Fd} {phase : Phase Parcel} (hhand : (p.went t [] rest shared).Hand fd phase) :
    (p.setWork t rest).Hand fd phase ∨ fd = hd.fd ∧ phase = .away parcel := by
  by_cases hnew : fd = hd.fd ∧ phase = .away parcel
  · exact .inr hnew
  · refine .inl ((hhand.went hwork fun dir closure hat hphase => ?_).resolve_right (by simp))
    rw [hactions] at hat
    by_cases hkey : (⟨fd, dir⟩ : FdDirection) = ⟨hd.fd, .output⟩
    · rw [hkey] at hat
      obtain rfl := Option.some.inj ((PartialMap.set_self _ _ _).symm.trans hat)
      exact absurd ⟨congrArg FdDirection.fd hkey, (Option.some.inj hphase).symm⟩ hnew
    · exact (PartialMap.set_of_ne _ hkey _).symm.trans hat

theorem Flow.run (hwf : p.Wf) (hparts : p.Parts) (howned : p.Owned latest) (h : p.Flow latest)
    {t : ThreadId} {sec : Section} {rest next : List Section} {shared : Shared}
    (hwork : p.work t = sec :: rest) (hruns : p.shared.Runs sec shared next)
    (hsec : ∀ peer, sec ≠ .dial peer)
    (hearly : ∀ fd, (p.went t next rest shared).early fd ≤ p.early fd) :
    (p.went t next rest shared).Flow latest := by
  -- sections that serve no queue
  have hquiet : shared.placed = p.shared.placed → shared.handed = p.shared.handed →
      (∀ fd queue, shared.manager.sendQueues fd = some queue →
        p.shared.manager.sendQueues fd = some queue) →
      (∀ key closure, shared.manager.io.actionAt key = some closure → closure.phase ≠ none →
        p.shared.manager.io.actionAt key = some closure) → (∀ sec' ∈ next, sec'.hand = none) →
      (p.went t next rest shared).Flow latest := by
    intro hplaced hhanded hqueue hactions hnext
    refine h.of_fewer hplaced hhanded (hruns.nextSock hwf.io hsec) hqueue hearly fun fd => ?_
    refine handsFrom_went hwork (fun dir => hactions ⟨fd, dir⟩) fun sec' hmem phase hsec' => ?_
    exact absurd ((hnext sec' hmem).symm.trans hsec') (by simp)
  cases hruns with
  | leads hleads =>
      refine h.of_fewer rfl rfl rfl (fun _ _ => id) hearly fun fd => ?_
      exact handsFrom_went hwork (fun _ _ hat _ => hat) fun sec' hmem phase hsec' =>
        hleads.hand hmem hsec'
  | notify =>
      exact hquiet rfl rfl (fun _ _ => id) (fun _ _ hat _ => hat)
        fun sec' hmem => Section.hand_of_handle_none (Call.handle_none_of_mem hmem)
  | opens _ _ => exact absurd rfl (hsec _)
  | @deregisterFd hd ok =>
      exact hquiet rfl rfl (fun _ _ => id)
        (fun key _ hat _ => PartialMap.eq_some_of_kept
          (p.shared.manager.io.deregisterFd_taken hd.fd ok key) hat) (by simp [Section.hand])
  | closeFd => exact hquiet rfl rfl (fun _ _ => id) (fun _ _ hat _ => hat) (by simp [Section.hand])
  | closeHello => exact hquiet rfl rfl (fun _ _ => id) (fun _ _ hat _ => hat) (by simp)
  | eraseActive _ =>
      exact hquiet rfl rfl (fun _ _ => id) (fun _ _ hat _ => hat) (by simp [Section.hand])
  | eraseConnToFd =>
      exact hquiet rfl rfl (fun _ _ => id) (fun _ _ hat _ => hat) (by simp [Section.hand])
  | eraseQueue =>
      exact hquiet rfl rfl (fun _ _ heq => ((PartialMap.erase_eq_some _).mp heq).2)
        (fun _ _ hat _ => hat) (by simp [Section.hand])
  | pushBack hqueue => exact h.pushed hparts howned hwork hqueue hearly
  | takeFront hqueue => exact h.took hparts howned hwork hqueue hearly
  | popFront hqueue => exact h.popped hparts howned hwork hqueue hearly
  | popEmpty _ => exact hquiet rfl rfl (fun _ _ => id) (fun _ _ hat _ => hat) (by simp)
  | recvStarted hstart =>
      have hreg := Io.registered_of_recvMessage hwf.io hstart
      exact hquiet rfl rfl (fun _ _ => id) (fun _ _ => action_of_registered hreg rfl) (by simp)
  | recvRefused =>
      exact hquiet rfl rfl (fun _ _ => id) (fun _ _ hat _ => hat) (by simp [Section.hand])
  | @sendStarted hd data resolve ok io hstart =>
      have hreg := Io.registered_of_sendMessage hwf.io hstart
      cases resolve with
      | queued parcel =>
          exact h.gave hparts howned hwork rfl rfl hreg.nextSock rfl hearly fun fd phase hhand =>
            hand_of_sent hwork hreg.actionAt hhand
      | helloAnswer peer =>
          exact hquiet rfl (List.append_nil _) (fun _ _ => id)
            (fun _ _ => action_of_registered hreg rfl) (by simp)
      | helloNotify peer =>
          exact hquiet rfl (List.append_nil _) (fun _ _ => id)
            (fun _ _ => action_of_registered hreg rfl) (by simp)
  | @sendRefused hd data resolve =>
      cases resolve with
      | queued parcel =>
          refine h.gave hparts howned hwork rfl rfl rfl rfl hearly fun fd phase hhand => ?_
          rcases hhand.went hwork fun _ _ hat _ => hat with hold | ⟨sec', hmem, hsec'⟩
          · exact .inl hold
          · obtain rfl := List.mem_singleton.mp hmem
            obtain ⟨rfl, rfl⟩ := Prod.mk.inj (Option.some.inj hsec')
            exact .inr ⟨rfl, rfl⟩
      | helloAnswer peer =>
          exact hquiet rfl (List.append_nil _) (fun _ _ => id) (fun _ _ hat _ => hat)
            (by simp [Section.hand])
      | helloNotify peer =>
          exact hquiet rfl (List.append_nil _) (fun _ _ => id) (fun _ _ hat _ => hat)
            (by simp [Section.hand])
  | @sendAborted hd data resolve _ _ =>
      cases resolve with
      | queued parcel =>
          refine h.gave hparts howned hwork rfl rfl rfl rfl hearly fun fd phase hhand => ?_
          exact .inl ((hhand.went hwork fun _ _ hat _ => hat).resolve_right (by simp))
      | helloAnswer peer =>
          exact hquiet rfl (List.append_nil _) (fun _ _ => id) (fun _ _ hat _ => hat) (by simp)
      | helloNotify peer =>
          exact hquiet rfl (List.append_nil _) (fun _ _ => id) (fun _ _ hat _ => hat) (by simp)
  | insertActive =>
      exact hquiet rfl rfl (fun _ _ => id) (fun _ _ hat _ => hat) (by simp [Section.hand])
  | insertConnToFd =>
      exact hquiet rfl rfl (fun _ _ => id) (fun _ _ hat _ => hat) (by simp [Section.hand])
  | insertQueue => exact h.inserted hparts howned hwork hearly

/-! ### Steps -/

theorem Flow.opened (h : p.Flow latest) {fd : Fd} (hfd : ¬ p.Named fd)
    (hshared : p'.shared = p.shared.setIo (p.shared.manager.io.openFd fd))
    (hearly : ∀ fd', fd' ≠ fd → p'.early fd' ≤ p.early fd')
    (hhands : ∀ fd phase, p'.Hand fd phase → p.Hand fd phase) :
    p'.Flow fun fd' => if fd' = fd then some p.shared.manager.io.nextSock else latest fd' := by
  have hlogs : p'.shared.placed = p.shared.placed ∧ p'.shared.handed = p.shared.handed := by
    rw [hshared]
    exact ⟨rfl, rfl⟩
  have hqueues : p'.shared.manager.sendQueues = p.shared.manager.sendQueues := by
    rw [hshared]
    rfl
  refine ⟨fun fd' sock hlatest => ?_, fun sock hle => ?_, fun sock => ?_⟩
  · split at hlatest
    · rename_i heq
      subst heq
      obtain rfl := Option.some.inj hlatest
      obtain ⟨hplaced, hhanded⟩ := h.fresh _ (Nat.le_refl _)
      refine ⟨[], ⟨?_, fun queue hqueue => ?_, fun phase hhand => ?_, fun _ => ?_⟩⟩
      · rw [hlogs.1, hlogs.2, hplaced, hhanded]
        rfl
      · rw [hqueues] at hqueue
        exact absurd (.queue hqueue) hfd
      · cases hhands fd' phase hhand with
        | work hmem hhand =>
            obtain ⟨hd, hhandle, rfl⟩ := Section.handle_of_part (Section.part_of_hand hhand)
            exact absurd (.work hmem hhandle) hfd
        | action hat _ => exact absurd (.action hat) hfd
        | running hrunning heq _ => exact absurd (heq ▸ .running hrunning) hfd
      · rw [hlogs.1, hplaced]
    · rename_i hne
      obtain ⟨waiting, hat⟩ := h.at_fd fd' sock hlatest
      exact ⟨waiting,
        hat.of_fewer (by rw [hlogs.1]) (by rw [hlogs.2]) (fun queue heq => hqueues ▸ heq)
          (hearly fd' hne) (handsFrom_of_imp (hhands fd'))⟩
  · rw [hlogs.1, hlogs.2]
    refine h.fresh sock (Nat.le_of_succ_le ?_)
    rw [hshared] at hle
    exact hle
  · rw [hlogs.1, hlogs.2]
    exact h.order sock

theorem Flow.dial (h : p.Flow latest) {t : ThreadId} {answer : Answer} {peer : PeerId}
    {rest next : List Section} {shared : Shared} (hok : p.OpensUnnamed (.run t answer))
    (hwork : p.work t = .dial peer :: rest)
    (hrun : p.shared.run answer (.dial peer) = some (shared, next))
    (hearly : ∀ fd, p.opens (.run t answer) ≠ some fd →
      (p.went t next rest shared).early fd ≤ p.early fd) :
    (p.went t next rest shared).Flow (p.latestAfter (.run t answer) latest) := by
  have hsplit : shared.manager.io.actionAt = p.shared.manager.io.actionAt →
      (∀ sec' ∈ next, sec'.hand = none) → ∀ fd phase, (p.went t next rest shared).Hand fd phase →
      p.Hand fd phase := by
    intro hactions hnext fd phase hhand
    rcases hhand.went hwork fun dir closure hat _ => hactions ▸ hat with hold | ⟨sec', hmem, hsec'⟩
    · exact hold.of_rest hwork
    · exact absurd ((hnext sec' hmem).symm.trans hsec') (by simp)
  rcases dial_cases hwork hrun with ⟨hopens, rfl, hnone⟩ | ⟨fd, told, hopens, rfl, htold, rfl⟩
  · rw [latestAfter_of_none hopens]
    refine h.of_fewer rfl rfl rfl (fun _ _ => id) (fun fd => hearly fd (by simp [hopens])) fun fd =>
      handsFrom_of_imp ?_
    exact hsplit rfl (fun sec' hmem => Section.hand_of_handle_none (hnone sec' hmem)) fd
  · rw [latestAfter_of_some hopens]
    refine h.opened (hok fd hopens) rfl (fun fd' hne => hearly fd' ?_)
      (hsplit rfl fun sec' hmem => ?_)
    · rw [hopens]
      exact fun heq => hne (Option.some.inj heq).symm
    · rcases List.mem_append.mp hmem with hmem | hmem
      · exact Section.hand_of_handle_none (htold sec' hmem)
      · rw [List.mem_singleton.mp hmem]
        rfl

theorem Hand.of_put {fd : Fd} {phase : Phase Parcel} (h : p'.Hand fd phase) {r : Running}
    (hrunning : p.running = some r) (hrunning' : p'.running = none) (hwork : p'.work = p.work)
    {next : Closure OnMessage OnSent} (hnext : next.Alike r.closure)
    (hactions : p'.shared.manager.io.actionAt = p.shared.manager.io.actionAt.set r.key next) :
    p.Hand fd phase := by
  cases h with
  | work hmem hhand => exact .work (hwork ▸ hmem) hhand
  | @action dir closure hat hphase =>
      rw [hactions] at hat
      by_cases hkey : (⟨fd, dir⟩ : FdDirection) = r.key
      · rw [hkey, PartialMap.set_self] at hat
        obtain rfl := Option.some.inj hat
        exact .running hrunning (congrArg FdDirection.fd hkey).symm (hnext.phase ▸ hphase)
      · exact .action ((PartialMap.set_of_ne _ hkey _).symm.trans hat) hphase
  | running hr _ _ => exact absurd (hrunning'.symm.trans hr) (by simp)

theorem Hand.of_fewer {fd : Fd} {phase : Phase Parcel} (h : p'.Hand fd phase)
    (hwork : ∀ t, ∀ sec ∈ p'.work t, sec ∈ p.work t ∨ sec.hand = none)
    (hactions : ∀ key closure, p'.shared.manager.io.actionAt key = some closure →
      p.shared.manager.io.actionAt key = some closure)
    (hrunning : ∀ r, p'.running = some r →
      ∃ outcome, p.running = some { r with outcome := outcome }) : p.Hand fd phase := by
  cases h with
  | @work t sec hmem hhand =>
      rcases hwork t sec hmem with hold | hnone
      · exact .work hold hhand
      · exact absurd (hnone.symm.trans hhand) (by simp)
  | action hat hphase => exact .action (hactions _ _ hat) hphase
  | @running r hr hfd hphase =>
      obtain ⟨outcome, hold⟩ := hrunning r hr
      exact .running hold hfd hphase

theorem resolves_hand {r : Running} {next : Section} (h : r.Resolves next) {fd : Fd}
    {phase : Phase Parcel} (hhand : next.hand = some (fd, phase)) :
    r.handle.fd = fd ∧ r.closure.phase = some phase := by
  unfold Running.Resolves at h
  cases hc : r.closure with
  | recv op resolve =>
      rw [hc] at h
      obtain ⟨_, rfl⟩ := h
      exact absurd hhand (by simp [Section.hand])
  | send op resolve =>
      rw [hc] at h
      obtain ⟨_, rfl⟩ := h
      cases resolve with
      | queued parcel =>
          obtain ⟨rfl, rfl⟩ := Prod.mk.inj (Option.some.inj hhand)
          exact ⟨rfl, rfl⟩
      | _ => exact absurd hhand (by simp [Section.hand])

theorem Flow.step (hwf : p.Wf) (hparts : p.Parts) (howned : p.Owned latest) (h : p.Flow latest)
    (hok : p.OpensUnnamed input) (hstep : Step p input p') :
    p'.Flow (p.latestAfter input latest) := by
  have hearly := (hparts.passes hwf hok hstep).2
  -- steps that put nothing in a queue and give nothing away
  have hquiet : p.opens input = none → p'.shared.placed = p.shared.placed →
      p'.shared.handed = p.shared.handed →
      p'.shared.manager.io.nextSock = p.shared.manager.io.nextSock →
      p'.shared.manager.sendQueues = p.shared.manager.sendQueues →
      (∀ fd phase, p'.Hand fd phase → p.Hand fd phase) → p'.Flow (p.latestAfter input latest) := by
    intro hopens hplaced hhanded hnext hqueues hhands
    rw [latestAfter_of_none hopens]
    exact h.of_fewer hplaced hhanded hnext (fun fd queue heq => hqueues ▸ heq)
      (fun fd => hearly fd (by simp [hopens])) fun fd => handsFrom_of_imp (hhands fd)
  have hran : ∀ r, p.running = some r → ∃ outcome, p.running = some { r with outcome := outcome } :=
    fun r hr => ⟨r.outcome, hr⟩
  have hsame : ∀ t, ∀ sec ∈ p.work t, sec ∈ p.work t ∨ sec.hand = none := fun _ _ => .inl
  have hpassed : ∀ {t sec rest}, p.work t = sec :: rest →
      ∀ t', ∀ sec' ∈ (p.setWork t ([] ++ rest)).work t', sec' ∈ p.work t' ∨ sec'.hand = none :=
    fun hwork t' sec' hmem => .inl ((p.of_mem_setWork hwork hmem).resolve_left List.not_mem_nil)
  cases hstep with
  | lock hwork _ =>
      exact hquiet (opens_of_not_dial hwork (by simp)) rfl rfl rfl rfl fun _ _ hhand =>
        hhand.of_fewer (hpassed hwork) (fun _ _ => id) hran
  | unlock hwork =>
      exact hquiet (opens_of_not_dial hwork (by simp)) rfl rfl rfl rfl fun _ _ hhand =>
        hhand.of_fewer (hpassed hwork) (fun _ _ => id) hran
  | @run t answer sec rest next shared hwork hrun =>
      by_cases hdial : ∃ peer, sec = .dial peer
      · obtain ⟨peer, rfl⟩ := hdial
        exact h.dial hok hwork hrun hearly
      · have hnot : ∀ peer, sec ≠ .dial peer := fun peer heq => hdial ⟨peer, heq⟩
        have hopens : p.opens (.run t answer) = none := opens_of_not_dial hwork hnot
        rw [latestAfter_of_none hopens]
        exact h.run hwf hparts howned hwork (Shared.run_cases hrun) hnot fun fd =>
          hearly fd (by simp [hopens])
  | @call t call hidle =>
      refine hquiet rfl rfl rfl rfl rfl fun _ _ hhand =>
        hhand.of_fewer (fun t' sec hmem => ?_) (fun _ _ => id) hran
      rcases p.of_mem_setWork_new hmem with hnew | hold
      · exact .inr (Section.hand_of_handle_none (Call.handle_none hnew))
      · exact .inl hold
  | @accept fd hidle hfd =>
      rw [latestAfter_of_some rfl]
      refine h.opened (hok fd rfl) rfl
        (fun fd' hne => hearly fd' fun heq => hne (Option.some.inj heq).symm) fun _ _ hhand =>
        hhand.of_fewer (fun t sec hmem => ?_) (fun _ _ => id) hran
      rcases (p.setIo (p.shared.manager.io.openFd fd)).of_mem_setWork_new hmem with hnew | hold
      · obtain rfl := List.mem_singleton.mp hnew
        exact .inr rfl
      · exact .inl hold
  | @openOther fd _ =>
      rw [latestAfter_of_some rfl]
      refine h.opened (hok fd rfl) rfl
        (fun fd' hne => hearly fd' fun heq => hne (Option.some.inj heq).symm) fun _ _ hhand =>
        hhand.of_fewer hsame (fun _ _ => id) hran
  | closeOther _ =>
      exact hquiet rfl rfl rfl rfl rfl fun _ _ hhand => hhand.of_fewer hsame (fun _ _ => id) hran
  | @fetch fd dir closure a hidle hat hobj =>
      refine hquiet rfl rfl rfl rfl rfl fun fd' phase hhand => ?_
      cases hhand with
      | work hmem hhand => exact .work hmem hhand
      | action hat hphase => exact .action hat hphase
      | running hr hfd hphase =>
          obtain rfl := Option.some.inj hr
          exact hfd ▸ .action hat hphase
  | @transfer res recv send r hrunning _ =>
      obtain ⟨hloop, -, hsockets⟩ := p.shared.transfer_io r res recv send
      obtain ⟨hplaced, hhanded⟩ := p.shared.transfer_logs r res recv send
      have htables := p.shared.transfer_tables r res recv send
      refine hquiet rfl hplaced hhanded hsockets.nextSock (by rw [htables]) fun _ _ hhand =>
        hhand.of_fewer hsame (fun key closure hat => ?_) fun r' hr' => ?_
      · exact Io.actionAt_of_loop hloop ▸ hat
      · obtain rfl := Option.some.inj hr'
        exact ⟨r.outcome, hrunning⟩
  | @kept ok r next hrunning houtcome hholds =>
      have hr := hwf.running r hrunning
      have hfits : next.Alike r.closure := hr.fits _ houtcome
      obtain ⟨-, hactions, -⟩ := Io.keep_kept hwf.io hr.fd hfits hholds
      exact hquiet rfl rfl rfl rfl rfl fun _ _ hhand => hhand.of_put hrunning rfl rfl hfits hactions
  | dropped _ _ _ =>
      exact hquiet rfl rfl rfl rfl rfl fun _ _ hhand =>
        hhand.of_fewer hsame (fun _ _ => id) fun r hr => absurd hr (by simp)
  | @replaced ok r next loop hrunning houtcome hreplace =>
      have hr := hwf.running r hrunning
      have hfits : next.Alike r.closure := hr.fits _ houtcome
      obtain ⟨-, -, hactions, -⟩ := Io.replaceAction_replaced hwf.io hr.token hfits hreplace
      exact hquiet rfl rfl rfl rfl rfl fun _ _ hhand => hhand.of_put hrunning rfl rfl hfits hactions
  | @unreplaced ok r next hrunning _ _ =>
      refine hquiet rfl rfl rfl rfl rfl fun _ _ hhand =>
        hhand.of_fewer hsame (fun _ _ => id) fun r' hr' => ?_
      obtain rfl := Option.some.inj hr'
      exact ⟨r.outcome, hrunning⟩
  | @resolved ok r next hrunning houtcome =>
      have hr := hwf.running r hrunning
      obtain ⟨-, hactions, hsockets⟩ := Io.handBack_handed hwf.io hr.token ok
      refine hquiet rfl rfl rfl hsockets.nextSock rfl fun fd phase hhand => ?_
      cases hhand with
      | @work t sec hmem hhand =>
          rcases (p.setIo (p.shared.manager.io.handBack r.afd ok)).of_mem_setWork_new
              hmem with hnew | hold
          · -- the lambda goes on with what its operation has had in hand
            obtain rfl := List.mem_singleton.mp hnew
            obtain ⟨hfd, hphase⟩ := resolves_hand (hr.fits _ houtcome) hhand
            exact .running hrunning hfd hphase
          · exact .work hold hhand
      | @action dir closure hat hphase =>
          have hat : (p.shared.manager.io.handBack r.afd ok).actionAt ⟨fd, dir⟩ = some closure :=
            hat
          rw [hactions] at hat
          exact .action ((PartialMap.erase_eq_some _).mp hat).2 hphase
      | running hr' _ _ => exact absurd hr' (by simp)
  | aborted _ _ =>
      exact hquiet rfl rfl rfl rfl rfl fun _ _ hhand => hhand.of_fewer hsame (fun _ _ => id) hran
  | @destroy token ok hidle hmem =>
      have hfewer := Io.destroy_fewer hwf.io token ok
      exact hquiet rfl rfl rfl hfewer.nextSock rfl fun _ _ hhand =>
        hhand.of_fewer hsame
          (fun key _ => PartialMap.eq_some_of_kept (p.shared.manager.io.destroy_taken token ok key))
          hran

/-! ### Runs -/

/-- On every descriptor at most one send is in flight or about to start. While it is up, its queue
has messages exactly while a hand is at work on them. What is being given away, or has been and is
in flight, is the front. What has been given to `AsyncFd::SendMessage` for a socket is what was put
in its queue, in order and as it was; the rest is still in the queue. -/
structure SendsInOrder (p : Process) : Prop where
  one : ∀ fd, p.tally .hello fd + p.tally .sending fd ≤ 1
  busy : p.shared.manager.alive = true → ∀ fd queue, p.Up fd →
    p.shared.manager.sendQueues fd = some queue → (queue ≠ [] ↔ p.tally .sending fd = 1)
  front : ∀ fd queue parcel, p.shared.manager.sendQueues fd = some queue →
    p.Hand fd (.holding parcel) ∨ p.Hand fd (.away parcel) → ∃ rest, queue = parcel.movedOut :: rest
  order : ∀ sock, parcelsOf p.shared.handed sock <+: parcelsOf p.shared.placed sock
  left : ∀ fd queue, p.shared.manager.sendQueues fd = some queue →
    ∃ waiting, Left Parcel.movedOut queue waiting ∧
      parcelsOf p.shared.placed (p.shared.queueOf fd)
        = parcelsOf p.shared.handed (p.shared.queueOf fd) ++ waiting

theorem sendsInOrder_of_flow (howned : p.Owned latest) (hparts : p.Parts) (hbusy : p.Busy)
    (h : p.Flow latest) : p.SendsInOrder := by
  refine ⟨fun fd => ?_, fun halive fd queue hup hqueue => ⟨fun hne => ?_, ?_⟩,
    fun fd queue parcel hqueue hhand => ?_, h.order, fun fd queue hqueue => ?_⟩
  · have hat := hparts.at_fd fd
    have hone := hat.one
    have hsingle := hat.single
    have happart := hat.apart
    by_cases hpos : 1 ≤ p.tally .hello fd + p.tally .filling fd
    · have hidle := (happart hpos).2.1
      omega
    · omega
  · have hpos := hbusy halive fd queue hup hqueue hne
    have hsingle := (hparts.at_fd fd).single
    omega
  · rintro hone rfl
    have hidle := (hparts.at_fd fd).idle hqueue
    omega
  · obtain ⟨waiting, hat⟩ := h.at_fd fd _ (howned.shared.queues fd queue hqueue)
    rcases hhand with hholding | haway
    · obtain ⟨rest, -, hfront⟩ := hat.hands _ hholding
      exact ⟨rest, hfront queue hqueue⟩
    · exact ⟨waiting, hat.hands _ haway queue hqueue⟩
  · obtain ⟨waiting, hat⟩ := h.at_fd fd _ (howned.shared.queues fd queue hqueue)
    exact ⟨waiting, hat.left queue hqueue, hat.order⟩

/-- If a number is given to a new socket only when nothing names it, messages are sent in order,
each once, one at a time. -/
theorem sends_in_order (self : PeerId) (order : ByteOrder) (inputs : List Input)
    (h : machine.EachStep OpensUnnamed (init self order) inputs) :
    machine.Always SendsInOrder (init self order) inputs := by
  refine Machine.always_of_eachStep
    (I := fun p => p.Wf ∧ (∃ latest, p.Owned latest ∧ p.Flow latest) ∧ p.Parts ∧ p.Upkept ∧ p.Busy)
    (fun p hp => ?_) (fun p input p' hp hok hstep => ?_) inputs
    ⟨init_wf self order, ⟨_, init_owned self order, init_flow self order⟩, init_parts self order,
      init_upkept self order, init_busy self order⟩ h
  · obtain ⟨-, ⟨latest, howned, hflow⟩, hparts, -, hbusy⟩ := hp
    exact sendsInOrder_of_flow howned hparts hbusy hflow
  · obtain ⟨hwf, ⟨latest, howned, hflow⟩, hparts, hupkept, hbusy⟩ := hp
    have hcases := step_cases hstep
    exact ⟨hwf.step hcases,
      ⟨_, howned.step hwf hok hcases, hflow.step hwf hparts howned hok hcases⟩,
      hparts.step hwf hok hcases, hupkept.step hwf hok hcases,
      hbusy.step hwf hparts hupkept hok hcases⟩

/-- Two messages; the second one is put in the queue while the first one is being sent. -/
theorem sends_in_order_of_two_messages :
    machine.Always SendsInOrder (init bob .little)
      (acceptsFrom 5 ann ++ [.call .manager (.sendMessage ann [7])] ++ managerRuns 6
        ++ [.call .manager (.sendMessage ann [8])] ++ managerRuns 4 ++ writes 5 4 ++ writes 5 1
        ++ loopRuns 4 ++ writes 5 4 ++ writes 5 1 ++ loopRuns 2) :=
  sends_in_order bob .little _ (eachStep_of_accept bob .little 5 _ (by decide))

/-- `SendMessageFd` has taken a message for `ann` from the queue when her connection is closed and
`carl` gets the number; her message is in flight on his connection, and his queue is empty. -/
theorem send_in_flight_of_empty_queue :
    ¬ ∀ (self : PeerId) (order : ByteOrder) (inputs : List Input) (p : Process),
      machine.exec (init self order) inputs = some p → p.SendsInOrder := by
  intro h
  have hrun : (machine.exec (init bob .little)
      (acceptsFrom 5 ann ++ [.call .manager (.sendMessage ann [7])] ++ managerRuns 4 ++ reads 5 []
        ++ loopRuns 7 ++ acceptsFrom 5 carl ++ managerRuns 1)).map
      (fun p => (p.shared.manager.sendQueues 5,
        (p.shared.manager.io.actionAt ⟨5, .output⟩).map Closure.phase))
      = some (some [], some (some (.away ⟨ann, [7]⟩))) := by
    decide +kernel
  obtain ⟨p, hexec, hstate⟩ := Option.map_eq_some_iff.mp hrun
  obtain ⟨hqueue, hsend⟩ := Prod.mk.inj hstate
  obtain ⟨closure, hat, hphase⟩ := Option.map_eq_some_iff.mp hsend
  obtain ⟨rest, hfront⟩ := (h _ _ _ p hexec).front 5 [] _ hqueue (.inr (.action hat hphase))
  exact absurd hfront (by simp)

end Process

end Diplom
