import Diplom.Proof.Upkeep

/-!
# The hand that sends

While a descriptor is up and its queue has messages, a hand is at work on the queue: it starts a
send, or has one in flight, or takes the front away. `pushBack` on an empty queue brings the hand,
`popFront` of the last message dismisses it, and on a descriptor that is up nothing else loses it.
-/

namespace Diplom

theorem Closure.dir_of_sending {closure : Closure OnMessage OnSent} (h : closure.role = .sending) :
    closure.dir = .output := by
  cases closure with
  | recv op resolve => cases resolve <;> exact absurd h (by simp [Closure.role, OnMessage.role])
  | send op resolve => rfl

theorem cast_of_role_ne {sec : Section} {role : Role} (h : ∀ fd, sec.part ≠ some (role, fd))
    (fd : Fd) : cast role fd [sec] = 0 := by
  rw [cast_singleton, if_neg (h fd)]

namespace Shared

variable {s s' : Shared} {sec : Section} {next : List Section}

/-- Where a section leaves everything as it is, a hand that sends stops only with an empty queue,
without a queue, or without a connection. -/
theorem Leads.sending (hleads : s.Leads sec next) (fd : Fd) :
    cast .sending fd [sec] ≤ cast .sending fd next ∨
      (∀ queue, s.manager.sendQueues fd = some queue → queue = []) ∨
      s.manager.activeConns fd = none := by
  have hother : (∀ fd, sec.part ≠ some (.sending, fd)) →
      cast .sending fd [sec] ≤ cast .sending fd next :=
    fun hpart =>
    (cast_of_role_ne hpart fd).symm ▸ Nat.zero_le _
  by_cases hfd : sec.part = some (.sending, fd)
  · cases hleads with
    | @nothingWaits hd hqueue =>
        obtain ⟨-, rfl⟩ := Prod.mk.inj (Option.some.inj hfd)
        exact .inr (.inl hqueue)
    | @queueGone hd hqueue =>
        obtain ⟨-, rfl⟩ := Prod.mk.inj (Option.some.inj hfd)
        exact .inr (.inl fun queue hsome => absurd (hqueue.symm.trans hsome) (by simp))
    | @senderInactive hd parcel res hactive =>
        obtain ⟨-, rfl⟩ := Prod.mk.inj (Option.some.inj hfd)
        exact .inr (.inr hactive)
    | queuedSent _ => exact .inl (Nat.le_refl _)
    | _ => exact absurd hfd (by simp [Section.part, OnMessage.role, OnSent.role])
  · refine .inl ?_
    rw [cast_singleton, if_neg hfd]
    exact Nat.zero_le _

theorem Runs.alive (hruns : s.Runs sec s' next) (h : s'.manager.alive = true) :
    s.manager.alive = true := by
  cases hruns with
  | popEmpty _ => exact absurd h (by simp [Shared.setManager, ConnectionManager.abort])
  | sendAborted _ => exact absurd h (by simp [Shared.setManager, ConnectionManager.abort])
  | _ => exact h

end Shared

namespace Process

variable {p p' : Process} {input : Input}

theorem Wf.dir_of_closureAt (h : p.Wf) {key : FdDirection} {closure : Closure OnMessage OnSent}
    (hat : p.closureAt key = some closure) : closure.dir = key.direction := by
  rw [closureAt, Option.or_eq_some_iff] at hat
  rcases hat with hreg | ⟨-, hrun⟩
  · exact h.io.dir_of_actionAt hreg
  · obtain ⟨r, hfilter, rfl⟩ := Option.map_eq_some_iff.mp hrun
    have hkey : r.key = key := of_decide_eq_true (Option.filter_eq_some_iff.mp hfilter).2
    exact congrArg FdDirection.direction hkey

theorem Wf.onStage_input (h : p.Wf) (fd : Fd) : p.onStage .sending ⟨fd, .input⟩ = 0 := by
  unfold onStage
  rw [if_neg fun hrole => ?_]
  obtain ⟨closure, hat, hsending⟩ := Option.map_eq_some_iff.mp hrole
  have hdir := h.dir_of_closureAt hat
  rw [Closure.dir_of_sending hsending] at hdir
  exact absurd hdir (by simp)

theorem onStage_went (p : Process) {t : ThreadId} {next rest : List Section} {shared : Shared}
    {key : FdDirection} (hat : shared.manager.io.actionAt key = p.shared.manager.io.actionAt key)
    (role : Role) : (p.went t next rest shared).onStage role key = p.onStage role key := by
  apply onStage_congr
  have hclosure :
      (p.went t next rest shared).closureAt key
        = (shared.manager.io.actionAt key).or (p.runningAt key) :=
    rfl
  rw [hclosure, hat, closureAt]

/-- While a descriptor is up and its queue has messages, a hand is at work on the queue. -/
def Busy (p : Process) : Prop :=
  p.shared.manager.alive = true → ∀ fd queue, p.Up fd →
    p.shared.manager.sendQueues fd = some queue → queue ≠ [] → 1 ≤ p.tally .sending fd

theorem init_busy (self : PeerId) (order : ByteOrder) : (init self order).Busy :=
  fun _ _ _ hup => absurd rfl hup.opened

theorem Busy.of_kept (h : p.Busy)
    (halive : p'.shared.manager.alive = true → p.shared.manager.alive = true)
    (hqueues : p'.shared.manager.sendQueues = p.shared.manager.sendQueues)
    (hup : ∀ fd queue, p'.Up fd → p.shared.manager.sendQueues fd = some queue → p.Up fd)
    (htally : ∀ fd, p'.Up fd → p.tally .sending fd ≤ p'.tally .sending fd) : p'.Busy := by
  intro halive' fd queue hup' hqueue hne
  rw [hqueues] at hqueue
  exact Nat.le_trans (h (halive halive') fd queue (hup fd queue hup' hqueue) hqueue hne)
    (htally fd hup')

section Hands

variable {t : ThreadId} {sec : Section} {rest next : List Section} {shared : Shared} {fd : Fd}

theorem hand_of_stages (hwork : p.work t = sec :: rest)
    (hin : p.onStage .sending ⟨fd, .input⟩ ≤
      (p.went t next rest shared).onStage .sending ⟨fd, .input⟩)
    (hout : p.onStage .sending ⟨fd, .output⟩ ≤
      (p.went t next rest shared).onStage .sending ⟨fd, .output⟩)
    (hpos : 1 ≤ p.tally .sending fd) (hle : cast .sending fd [sec] ≤ cast .sending fd next) :
    1 ≤ (p.went t next rest shared).tally .sending fd := by
  have htally := p.tally_went hwork next shared .sending fd
  omega

theorem hand_of_same (hwork : p.work t = sec :: rest)
    (hactions : ∀ dir, shared.manager.io.actionAt ⟨fd, dir⟩ =
      p.shared.manager.io.actionAt ⟨fd, dir⟩)
    (hpos : 1 ≤ p.tally .sending fd) (hle : cast .sending fd [sec] ≤ cast .sending fd next) :
    1 ≤ (p.went t next rest shared).tally .sending fd :=
  hand_of_stages hwork (Nat.le_of_eq (p.onStage_went (hactions _) .sending).symm)
    (Nat.le_of_eq (p.onStage_went (hactions _) .sending).symm) hpos hle

theorem hand_of_pushBack {hd : Handle} {parcel : Parcel} {queue : List Parcel}
    (hwork : p.work t = .pushBack hd parcel :: rest)
    (hpos : queue ≠ [] → 1 ≤ p.tally .sending hd.fd) :
    1 ≤ (p.went t (if queue = [] then [.takeFront hd] else []) rest
      (p.shared.pushed hd queue parcel)).tally .sending hd.fd := by
  by_cases hempty : queue = []
  · have htally := p.tally_went_of_same hwork (if queue = [] then [.takeFront hd] else [])
      (p.shared.pushed hd queue parcel) rfl .sending hd.fd
    rw [cast_of_part_none (.pushBack hd parcel) rfl, if_pos hempty,
      cast_at (.takeFront hd) rfl, if_pos rfl] at htally
    rw [if_pos hempty]
    omega
  · refine hand_of_same hwork (fun _ => rfl) (hpos hempty) ?_
    rw [cast_of_part_none (.pushBack hd parcel) rfl]
    exact Nat.zero_le _

theorem hand_of_sendStarted (hwf : p.Wf) (hparts : p.Parts) {hd : Handle} {data : Message}
    {resolve : OnSent} {ok : Bool} {io : Io OnMessage OnSent}
    (hwork : p.work t = .sendMessage hd data resolve :: rest)
    (hstart : p.shared.manager.io.sendMessage hd.fd data resolve ok = .pending io)
    (hio : shared.manager.io.actionAt = io.actionAt) (hpos : 1 ≤ p.tally .sending fd) :
    1 ≤ (p.went t [] rest shared).tally .sending fd := by
  have hactions := (Io.registered_of_sendMessage hwf.io hstart).actionAt
  by_cases hfd : fd = hd.fd
  · subst hfd
    -- no message waits while a hello is on its way
    have hexchange : (Section.sendMessage hd data resolve).part ≠ some (.hello, hd.fd) := by
      intro hpart
      have hmem : Section.sendMessage hd data resolve ∈ p.work t := by simp [hwork]
      have hcast := cast_le_tally hmem .hello hd.fd
      rw [cast_pos hpart] at hcast
      have hidle := ((hparts.at_fd hd.fd).apart (by omega)).2.1
      omega
    cases resolve with
    | queued parcel =>
        have hreg : shared.manager.io.actionAt ⟨hd.fd, .output⟩
            = some (.send (.start p.shared.manager.io.order data) (.queued parcel)) := by
          rw [hio, hactions]
          exact PartialMap.set_self _ _ _
        exact tally_pos_of_action hreg rfl
    | helloAnswer peer => exact absurd rfl hexchange
    | helloNotify peer => exact absurd rfl hexchange
  · refine hand_of_same hwork (fun dir => ?_) hpos ?_
    · rw [hio, hactions, PartialMap.set_of_ne _ fun heq => hfd (congrArg FdDirection.fd heq)]
    · rw [cast_elsewhere (.sendMessage hd data resolve) rfl hfd]
      exact Nat.zero_le _

end Hands

private theorem queue_of_insert {queues : PartialMap Fd (List Parcel)} {fd fd' : Fd}
    {queue : List Parcel} (hinsert : (queues.insert fd' []) fd = some queue) (hne : queue ≠ []) :
    queues fd = some queue := by
  by_cases hfd : fd = fd'
  · subst hfd
    cases hnone : queues fd with
    | none =>
        rw [PartialMap.insert_of_none _ hnone, PartialMap.set_self] at hinsert
        exact absurd (Option.some.inj hinsert).symm hne
    | some old =>
        rw [PartialMap.insert_of_some _ hnone] at hinsert
        exact hnone.symm.trans hinsert
  · exact (PartialMap.insert_of_ne _ hfd []).symm.trans hinsert

theorem Busy.run (hwf : p.Wf) (hparts : p.Parts) (hupkept : p.Upkept) (h : p.Busy) {t : ThreadId}
    {sec : Section} {rest next : List Section} {shared : Shared} (hwork : p.work t = sec :: rest)
    (hruns : p.shared.Runs sec shared next) (hsec : ∀ peer, sec ≠ .dial peer) :
    (p.went t next rest shared).Busy := by
  intro halive fd queue hup' hqueue hne
  have hup := Up.of_run hwf hwork hruns hsec hup'
  have hold : ∀ queue, p.shared.manager.sendQueues fd = some queue → queue ≠ [] →
      1 ≤ p.tally .sending fd :=
    fun queue => h (hruns.alive halive) fd queue hup
  have hqueue : shared.manager.sendQueues fd = some queue := hqueue
  have hsame : (∀ dir, shared.manager.io.actionAt ⟨fd, dir⟩ =
      p.shared.manager.io.actionAt ⟨fd, dir⟩) → 1 ≤ p.tally .sending fd →
      cast .sending fd [sec] ≤ cast .sending fd next →
      1 ≤ (p.went t next rest shared).tally .sending fd :=
    fun hactions => hand_of_same hwork hactions
  have hquiet : (∀ fd, sec.part ≠ some (.sending, fd)) →
      cast .sending fd [sec] ≤ cast .sending fd next :=
    fun hpart => (cast_of_role_ne hpart fd).symm ▸ Nat.zero_le _
  -- a queue that has changed at its own descriptor only
  have hset : ∀ {fd' : Fd} {new : List Parcel}, fd ≠ fd' →
      (p.shared.manager.sendQueues.set fd' new) fd = some queue →
      p.shared.manager.sendQueues fd = some queue :=
    fun hfd heq => (PartialMap.set_of_ne _ hfd _).symm.trans heq
  have hrfl : ∀ dir, p.shared.manager.io.actionAt ⟨fd, dir⟩ =
      p.shared.manager.io.actionAt ⟨fd, dir⟩ := fun _ => rfl
  cases hruns with
  | leads hleads =>
      rcases hleads.sending fd with hle | hempty | hnone
      · exact hsame hrfl (hold queue hqueue hne) hle
      · exact absurd (hempty queue hqueue) hne
      · exact absurd hnone (hupkept.active fd hup (by simp [hqueue]))
  | notify => exact hsame hrfl (hold queue hqueue hne) (hquiet (by simp [Section.part]))
  | opens _ _ => exact absurd rfl (hsec _)
  | @deregisterFd hd ok =>
      have hfd : fd ≠ hd.fd := by
        rintro rfl
        exact not_up_of_closeFd p (List.mem_singleton.mpr rfl) hup'
      refine hsame (fun dir => ?_) (hold queue hqueue hne) (hquiet (by simp [Section.part]))
      exact (congrFun (Io.deregisterFd_actions p.shared.manager.io hd.fd ok).1 _).trans
        ((PartialMap.erase_of_ne _ fun heq => hfd (congrArg FdDirection.fd heq)).trans
          (PartialMap.erase_of_ne _ fun heq => hfd (congrArg FdDirection.fd heq)))
  | closeFd => exact hsame hrfl (hold queue hqueue hne) (hquiet (by simp [Section.part]))
  | closeHello => exact hsame hrfl (hold queue hqueue hne) (hquiet (by simp [Section.part]))
  | eraseActive _ => exact hsame hrfl (hold queue hqueue hne) (hquiet (by simp [Section.part]))
  | eraseConnToFd => exact hsame hrfl (hold queue hqueue hne) (hquiet (by simp [Section.part]))
  | eraseQueue =>
      exact hsame hrfl (hold queue ((PartialMap.erase_eq_some _).mp hqueue).2 hne)
        (hquiet (by simp [Section.part]))
  | @pushBack hd parcel queue' hqueue' =>
      by_cases hfd : fd = hd.fd
      · subst hfd
        exact hand_of_pushBack hwork (hold queue' hqueue')
      · exact hsame hrfl (hold queue (hset hfd hqueue) hne) (hquiet (by simp [Section.part]))
  | @takeFront hd parcel rest' hqueue' =>
      by_cases hfd : fd = hd.fd
      · subst hfd
        exact hsame hrfl (hold _ hqueue' (by simp)) (cast_le_of_part (.inr rfl) _ _)
      · refine hsame hrfl (hold queue (hset hfd hqueue) hne) ?_
        rw [cast_elsewhere (.takeFront hd) rfl hfd]
        exact Nat.zero_le _
  | @popFront hd front rest' hqueue' =>
      by_cases hfd : fd = hd.fd
      · subst hfd
        have hleft : rest' = queue :=
          Option.some.inj ((PartialMap.set_self _ _ _).symm.trans hqueue)
        refine hsame hrfl (hold _ hqueue' (by simp)) ?_
        rw [if_neg (hleft ▸ hne)]
        exact cast_le_of_part (.inr rfl) _ _
      · refine hsame hrfl (hold queue (hset hfd hqueue) hne) ?_
        rw [cast_elsewhere (.popFront hd) rfl hfd]
        exact Nat.zero_le _
  | popEmpty _ => exact absurd halive (by simp [went, Shared.setManager, ConnectionManager.abort])
  | @recvStarted hd resolve ok io hstart =>
      have hactions := (Io.registered_of_recvMessage hwf.io hstart).actionAt
      have hout : io.actionAt ⟨fd, .output⟩ = p.shared.manager.io.actionAt ⟨fd, .output⟩ := by
        rw [hactions, PartialMap.set_of_ne _ fun heq => ?_]
        exact absurd (congrArg FdDirection.direction heq) (by simp [Closure.dir])
      refine hand_of_stages hwork ?_ (Nat.le_of_eq (p.onStage_went hout .sending).symm)
        (hold queue hqueue hne) (hquiet fun fd' => ?_)
      · rw [hwf.onStage_input]
        exact Nat.zero_le _
      · cases resolve <;> simp [Section.part, OnMessage.role]
  | recvRefused => exact hsame hrfl (hold queue hqueue hne) (Nat.le_refl _)
  | sendStarted hstart =>
      exact hand_of_sendStarted hwf hparts hwork hstart rfl (hold queue hqueue hne)
  | sendRefused => exact hsame hrfl (hold queue hqueue hne) (Nat.le_refl _)
  | sendAborted _ =>
      exact absurd halive (by simp [went, Shared.setManager, ConnectionManager.abort])
  | insertActive => exact hsame hrfl (hold queue hqueue hne) (hquiet (by simp [Section.part]))
  | insertConnToFd => exact hsame hrfl (hold queue hqueue hne) (hquiet (by simp [Section.part]))
  | insertQueue =>
      exact hsame hrfl (hold queue (queue_of_insert hqueue hne) hne)
        (hquiet (by simp [Section.part]))

theorem Busy.opened (h : p.Busy) {fd : Fd} (hfd : ¬ p.Named fd)
    (hshared : p'.shared = p.shared.setIo (p.shared.manager.io.openFd fd))
    (hkept : ∀ t hd, .closeFd hd ∈ p.work t → .closeFd hd ∈ p'.work t)
    (htally : ∀ fd, p.tally .sending fd ≤ p'.tally .sending fd) : p'.Busy := by
  refine h.of_kept (fun halive => ?_) (by rw [hshared]; rfl) (fun fd' queue hup' hqueue => ?_)
    fun fd' _ => htally fd'
  · rw [hshared] at halive
    exact halive
  · have hne : fd' ≠ fd := fun heq => hfd (heq ▸ .queue hqueue)
    have hfds : p'.shared.manager.io.fds fd' = p.shared.manager.io.fds fd' := by
      rw [hshared]
      exact PartialMap.set_of_ne _ hne _
    exact ⟨hfds ▸ hup'.opened, fun t hd hmem => hup'.kept t hd (hkept t hd hmem)⟩

theorem Busy.of_same (h : p.Busy)
    (halive : p'.shared.manager.alive = true → p.shared.manager.alive = true)
    (hqueues : p'.shared.manager.sendQueues = p.shared.manager.sendQueues)
    (hfds : p'.shared.manager.io.fds = p.shared.manager.io.fds)
    (hkept : ∀ t hd, .closeFd hd ∈ p.work t → .closeFd hd ∈ p'.work t)
    (htally : ∀ fd, p.Up fd → p.tally .sending fd ≤ p'.tally .sending fd) : p'.Busy := by
  have hup : ∀ fd, p'.Up fd → p.Up fd := fun fd hup' =>
    ⟨hfds ▸ hup'.opened, fun t hd hmem => hup'.kept t hd (hkept t hd hmem)⟩
  exact h.of_kept halive hqueues (fun fd _ hup' _ => hup fd hup') fun fd hup' =>
    htally fd (hup fd hup')

theorem tally_of_stages {role : Role} {fd : Fd} (hwork : p'.work = p.work)
    (hstage : ∀ dir, p'.onStage role ⟨fd, dir⟩ = p.onStage role ⟨fd, dir⟩) :
    p'.tally role fd = p.tally role fd := by
  rw [tally, tally, hwork, hstage, hstage]

theorem Busy.dial (h : p.Busy) {t : ThreadId} {answer : Answer} {peer : PeerId}
    {rest next : List Section} {shared : Shared} (hok : p.OpensUnnamed (.run t answer))
    (hwork : p.work t = .dial peer :: rest)
    (hrun : p.shared.run answer (.dial peer) = some (shared, next)) :
    (p.went t next rest shared).Busy := by
  have hkept : ∀ t' hd, .closeFd hd ∈ p.work t' →
      .closeFd hd ∈ (p.went t next rest shared).work t' :=
    fun t' hd hmem =>
    (p.mem_setWork hwork next hmem).resolve_left (by simp)
  have htally : shared.manager.io.actionAt = p.shared.manager.io.actionAt →
      ∀ fd, p.tally .sending fd ≤ (p.went t next rest shared).tally .sending fd := by
    intro hactions fd
    have hwent := p.tally_went_of_same hwork next shared hactions .sending fd
    rw [cast_of_part_none (.dial peer) rfl] at hwent
    omega
  rcases dial_cases hwork hrun with ⟨-, rfl, -⟩ | ⟨fd, told, hopens, rfl, -, rfl⟩
  · exact h.of_same id rfl rfl hkept fun fd _ => htally rfl fd
  · exact h.opened (hok fd hopens) rfl hkept (htally rfl)

theorem Busy.step (hwf : p.Wf) (hparts : p.Parts) (hupkept : p.Upkept) (h : p.Busy)
    (hok : p.OpensUnnamed input) (hstep : Step p input p') : p'.Busy := by
  have halike := hparts.alike
  -- a part of a callback that leaves its hand where it is
  have hstaged : p'.work = p.work →
      (p'.shared.manager.alive = true → p.shared.manager.alive = true) →
      p'.shared.manager.sendQueues = p.shared.manager.sendQueues →
      p'.shared.manager.io.fds = p.shared.manager.io.fds →
      (∀ fd, p.Up fd → ∀ dir, p'.onStage .sending ⟨fd, dir⟩ = p.onStage .sending ⟨fd, dir⟩) →
      p'.Busy := by
    intro hwork halive hqueues hfds hstage
    refine h.of_same halive hqueues hfds (fun t hd hmem => hwork ▸ hmem) fun fd hup => ?_
    exact Nat.le_of_eq (tally_of_stages hwork (hstage fd hup)).symm
  cases hstep with
  | lock hwork _ =>
      refine h.of_same id rfl rfl
        (fun t hd hmem => (p.mem_setWork hwork [] hmem).resolve_left (by simp)) fun fd _ => ?_
      exact Nat.le_of_eq (p.tally_of_part_none hwork rfl .sending fd).symm
  | unlock hwork =>
      refine h.of_same id rfl rfl
        (fun t hd hmem => (p.mem_setWork hwork [] hmem).resolve_left (by simp)) fun fd _ => ?_
      exact Nat.le_of_eq (p.tally_of_part_none hwork rfl .sending fd).symm
  | @run t answer sec rest next shared hwork hrun =>
      by_cases hdial : ∃ peer, sec = .dial peer
      · obtain ⟨peer, rfl⟩ := hdial
        exact h.dial hok hwork hrun
      · exact h.run hwf hparts hupkept hwork (Shared.run_cases hrun) fun peer heq =>
          hdial ⟨peer, heq⟩
  | @call t call hidle =>
      refine h.of_same id rfl rfl (fun t' hd hmem => p.mem_setWork_of_idle hidle.1 _ hmem)
        fun fd _ => ?_
      rw [p.tally_setWork_of_idle hidle.1]
      exact Nat.le_add_right _ _
  | @accept fd hidle hfd =>
      refine h.opened (hok fd rfl) rfl
        (fun t hd hmem => (p.setIo _).mem_setWork_of_idle hidle.1 _ hmem) fun fd' => ?_
      rw [(p.setIo (p.shared.manager.io.openFd fd)).tally_setWork_of_idle (t := .eventLoop) hidle.1]
      exact Nat.le_add_right _ _
  | @openOther fd _ =>
      exact h.opened (hok fd rfl) rfl (fun _ _ => id) fun _ => Nat.le_refl _
  | @closeOther fd _ =>
      refine h.of_kept id rfl (fun fd' _ hup' _ => hup'.mono (fun hnone => ?_) fun _ _ => .inl)
        fun _ _ => Nat.le_refl _
      exact (PartialMap.erase_apply _ _ _).trans (by rw [hnone, ite_self])
  | @fetch fd dir closure a hidle hat hobj =>
      refine hstaged rfl id rfl rfl fun fd' _ dir' => onStage_congr ?_ .sending
      exact congrArg _ (closureAt_fetched hwf hidle hat _)
  | @transfer res recv send r hrunning _ =>
      obtain ⟨hloop, -, hsockets⟩ := p.shared.transfer_io r res recv send
      have htables := p.shared.transfer_tables r res recv send
      refine hstaged rfl (fun halive => ?_) (by rw [htables]) hsockets.fds fun fd' _ dir' =>
        onStage_congr ?_ .sending
      · rw [htables] at halive
        exact halive
      · rw [closureAt, closureAt, Io.actionAt_of_loop hloop, runningAt_outcome hrunning rfl]
  | @kept ok r next hrunning houtcome hholds =>
      have hr := hwf.running r hrunning
      have hfits : next.Alike r.closure := hr.fits _ houtcome
      obtain ⟨-, hactions, -⟩ := Io.keep_kept hwf.io hr.fd hfits hholds
      exact hstaged rfl id rfl rfl fun fd _ dir =>
        halike.onStage_put hrunning rfl hactions hfits .sending _
  | @dropped ok r next hrunning _ hholds =>
      refine hstaged rfl id rfl rfl fun fd hup dir => onStage_congr ?_ .sending
      -- the place of a callback is still its own while its descriptor is up
      have hne : (⟨fd, dir⟩ : FdDirection) ≠ r.key := by
        intro heq
        have hfd : fd = r.handle.fd := congrArg FdDirection.fd heq
        exact hholds (hupkept.registered r hrunning (hfd ▸ hup))
      rw [closureAt, closureAt, runningAt_none rfl, runningAt_of_ne hrunning hne]
  | @replaced ok r next loop hrunning houtcome hreplace =>
      have hr := hwf.running r hrunning
      have hfits : next.Alike r.closure := hr.fits _ houtcome
      obtain ⟨-, -, hactions, -⟩ := Io.replaceAction_replaced hwf.io hr.token hfits hreplace
      exact hstaged rfl id rfl rfl fun fd _ dir =>
        halike.onStage_put hrunning rfl hactions hfits .sending _
  | @unreplaced ok r next hrunning _ _ =>
      refine hstaged rfl id rfl rfl fun fd _ dir => onStage_congr ?_ .sending
      rw [closureAt, closureAt, runningAt_outcome hrunning rfl]
  | @resolved ok r next hrunning houtcome =>
      have hidle : p.work .eventLoop = [] := hwf.alone (by simp [hrunning])
      obtain ⟨-, -, hsockets⟩ := Io.handBack_handed hwf.io (hwf.running r hrunning).token ok
      refine h.of_same id rfl hsockets.fds
        (fun t hd hmem => p.mem_setWork_of_idle hidle [next] hmem) fun fd _ => ?_
      exact Nat.le_of_eq (halike.tally_resolved hwf hrunning houtcome ok .sending fd).symm
  | aborted _ _ =>
      exact fun halive => absurd halive (by simp [Shared.setManager, ConnectionManager.abort])
  | @destroy token ok hidle hmem =>
      have hfewer := Io.destroy_fewer hwf.io token ok
      refine hstaged rfl id rfl hfewer.fds fun fd hup dir => onStage_congr ?_ .sending
      have hat : (p.shared.manager.io.destroy token ok).actionAt ⟨fd, dir⟩
          = p.shared.manager.io.actionAt ⟨fd, dir⟩ := by
        cases htoken : p.shared.manager.io.loop.cancelMap token with
        | none => rw [Io.destroy_actions_of_unknown _ htoken]
        | some key =>
            -- a token that is left over leads to no descriptor that is up
            have hne : (⟨fd, dir⟩ : FdDirection) ≠ key := fun heq =>
              hupkept.fresh fd hup ⟨token, hmem, key, htoken, (congrArg FdDirection.fd heq).symm⟩
            rw [Io.destroy_actions _ htoken, PartialMap.erase_of_ne _ hne]
      have hclosure : (p.setIo (p.shared.manager.io.destroy token ok)).closureAt ⟨fd, dir⟩
          = ((p.shared.manager.io.destroy token ok).actionAt ⟨fd, dir⟩).or
            (p.runningAt ⟨fd, dir⟩) :=
        rfl
      rw [hclosure, hat, closureAt]

end Process

end Diplom
