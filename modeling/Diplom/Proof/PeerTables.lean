import Diplom.Transport.Broadcast

/-!
# The five tables of peers

A peer that is tracked has its timer in both timer tables and its address in both address tables,
and whatever peer an interface names is tracked. A hello writes all five tables; a lost peer is
taken out of four, and a change of the interfaces out of the fifth. So the tables stay consistent as
long as no second peer is heard of under an address that is taken, and no peer is lost while an
interface names it.
-/

namespace Diplom

namespace BroadcastManager

variable {w w' : BroadcastManager}

/-! ### What each operation does -/

/-- Whether the peer has a timer. A zero in `peerToFd_` is no timer. -/
def HasTimer (w : BroadcastManager) (p : PeerId) : Prop := (w.peerToFd p).getD 0 ≠ 0

instance (p : PeerId) : Decidable (w.HasTimer p) := by
  unfold HasTimer
  infer_instance

/-- The hello of another node without a timer, for which a timer is created and registered. -/
structure StartsTracking (w : BroadcastManager) (id : PeerId) (answers : TimerAnswers)
    (token : CancellationToken) (loop : EpollLoop Fd Unit) (ifname : String) : Prop where
  other : id ≠ w.self
  untimed : ¬ w.HasTimer id
  created : answers.timer ≠ -1
  registered : w.loop.registerAction answers.timer .input answers.timer none answers.register
    = some (token, loop)
  interface : answers.ifname = some ifname

/-- The tables after a hello that leaves the peer as it was. -/
structure Unchanged (w w' : BroadcastManager) : Prop where
  fdToPeer : w'.fdToPeer = w.fdToPeer
  peerToFd : ∀ p, (w'.peerToFd p).getD 0 = (w.peerToFd p).getD 0
  peerToAddr : w'.peerToAddr = w.peerToAddr
  addrToPeer : w'.addrToPeer = w.addrToPeer
  ifToPeer : w'.ifToPeer = w.ifToPeer

private theorem insert_zero (m : PartialMap PeerId Fd) (id p : PeerId) :
    ((m.insert id 0) p).getD 0 = (m p).getD 0 := by
  by_cases hp : p = id
  · subst hp
    cases hm : m p with
    | none => rw [PartialMap.insert_of_none m hm, PartialMap.set_self]; rfl
    | some fd => rw [PartialMap.insert_of_some m hm, hm]
  · rw [PartialMap.insert_of_ne m hp]

/-- Before the tables get the peer: its entry is there, and a timer was created, and registered in
the loop. -/
def timerRegistered (w : BroadcastManager) (id : PeerId) (timer : Fd) (loop : EpollLoop Fd Unit) :
    BroadcastManager :=
  { w with
    loop := loop
    peerToFd := w.peerToFd.insert id 0
    timers := timer :: w.timers }

theorem timerRegistered_unchanged (w : BroadcastManager) (id : PeerId) (timer : Fd)
    (loop : EpollLoop Fd Unit) : Unchanged w (w.timerRegistered id timer loop) :=
  ⟨rfl, insert_zero w.peerToFd id, rfl, rfl, rfl⟩

theorem processHello_cases {sender : InAddr} {id : PeerId} {needNotify : Bool}
    {answers : TimerAnswers} (h : w.processHello sender id needNotify answers = some w') :
    (Unchanged w w' ∧ (∀ token loop ifname, ¬ w.StartsTracking id answers token loop ifname) ∧
      (w'.timers = w.timers ∨ w'.timers = answers.timer :: w.timers) ∧ w'.deeds = w.deeds) ∨
      ∃ token loop ifname, w.StartsTracking id answers token loop ifname ∧
      w' = ((w.timerRegistered id answers.timer loop).track id sender answers.timer token
        ifname).record (foundDeeds id needNotify) := by
  unfold processHello at h
  split at h
  · rename_i hself
    obtain rfl := Option.some.inj h
    exact .inl ⟨⟨rfl, fun _ => rfl, rfl, rfl, rfl⟩, fun _ _ _ hstart => hstart.other hself,
      .inl rfl, rfl⟩
  · rename_i hother
    dsimp only at h
    split at h
    · rename_i htimed
      obtain rfl := Option.some.inj h
      exact .inl ⟨⟨rfl, insert_zero w.peerToFd id, rfl, rfl, rfl⟩,
        fun _ _ _ hstart => hstart.untimed htimed, .inl rfl, rfl⟩
    · rename_i htimed
      split at h
      · rename_i hfailed
        obtain rfl := Option.some.inj h
        exact .inl ⟨⟨rfl, insert_zero w.peerToFd id, rfl, rfl, rfl⟩,
          fun _ _ _ hstart => hstart.created hfailed, .inl rfl, rfl⟩
      · rename_i hcreated
        split at h
        · rename_i hrefused
          obtain rfl := Option.some.inj h
          refine .inl ⟨⟨rfl, insert_zero w.peerToFd id, rfl, rfl, rfl⟩,
            fun token loop _ hstart => ?_, .inr rfl, rfl⟩
          exact absurd (hrefused.symm.trans hstart.registered) (by simp)
        · rename_i token loop hregistered
          cases hifname : answers.ifname with
          | none => simp [hifname] at h
          | some ifname =>
              simp only [hifname] at h
              obtain rfl := Option.some.inj h
              exact .inr ⟨token, loop, ifname,
                ⟨hother, htimed, hcreated, hregistered, hifname⟩, rfl⟩

/-! ### Consistency -/

/-- The two tables of timers are each other's inverse. -/
def TimersAgree (w : BroadcastManager) : Prop :=
  ∀ p fd, w.peerToFd p = some fd ∧ fd ≠ 0 ↔ ∃ token, w.fdToPeer fd = some (p, token)

/-- The five tables say the same about every peer. -/
structure Consistent (w : BroadcastManager) : Prop where
  timers : w.TimersAgree
  sameKeys : ∀ p, w.peerToAddr p ≠ none ↔ w.HasTimer p
  addresses : PartialMap.Inverse w.addrToPeer w.peerToAddr
  interfaces : ∀ name p, (name, p) ∈ w.ifToPeer → w.peerToAddr p ≠ none

/-- A hello that starts to track a peer comes from an address that no tracked peer has, and the
timer's descriptor is not zero; a peer is lost only when no interface names it. -/
def KeepsTables (w : BroadcastManager) : Event → Prop
  | .hello sender id _ answers =>
      ∀ token loop ifname, w.StartsTracking id answers token loop ifname →
        answers.timer ≠ 0 ∧ w.addrToPeer sender = none
  | .peerLost fd _ => ∀ p token, w.fdToPeer fd = some (p, token) → ∀ name, (name, p) ∉ w.ifToPeer
  | .networkUpdate _ => True

def TimersCreated (w : BroadcastManager) : Prop := ∀ fd, w.fdToPeer fd ≠ none → fd ∈ w.timers

theorem init_timersAgree (self : PeerId) : (init self).TimersAgree := by
  simp [TimersAgree, init]

theorem init_consistent (self : PeerId) : (init self).Consistent where
  timers := init_timersAgree self
  sameKeys := by simp [init, HasTimer]
  addresses := PartialMap.inverse_empty
  interfaces := by simp [init]

/-! ### One step -/

theorem Unchanged.hasTimer (h : Unchanged w w') (p : PeerId) : w'.HasTimer p ↔ w.HasTimer p := by
  simp only [HasTimer, h.peerToFd]

private theorem timer_iff {w : BroadcastManager} {p : PeerId} {fd : Fd} :
    w.peerToFd p = some fd ∧ fd ≠ 0 ↔ (w.peerToFd p).getD 0 = fd ∧ fd ≠ 0 := by
  cases hp : w.peerToFd p with
  | none => simpa using fun h => h.symm
  | some fd' => simp

theorem Unchanged.timersAgree (h : Unchanged w w') (hagree : w.TimersAgree) : w'.TimersAgree := by
  intro p fd
  rw [timer_iff, h.peerToFd, ← timer_iff, h.fdToPeer]
  exact hagree p fd

theorem Unchanged.consistent (h : Unchanged w w') (hcons : w.Consistent) : w'.Consistent where
  timers := h.timersAgree hcons.timers
  sameKeys := by
    intro p
    rw [h.peerToAddr, h.hasTimer]
    exact hcons.sameKeys p
  addresses := by
    rw [h.addrToPeer, h.peerToAddr]
    exact hcons.addresses
  interfaces := by
    rw [h.ifToPeer, h.peerToAddr]
    exact hcons.interfaces

theorem consistent_record {deeds : List Deed} : (w.record deeds).Consistent ↔ w.Consistent :=
  ⟨fun h => ⟨h.timers, h.sameKeys, h.addresses, h.interfaces⟩,
    fun h => ⟨h.timers, h.sameKeys, h.addresses, h.interfaces⟩⟩

/-- A peer with an entry of its timer has a timer, and one without has no entry. -/
theorem TimersAgree.hasTimer_iff (h : w.TimersAgree) (p : PeerId) :
    w.HasTimer p ↔ ∃ fd token, w.fdToPeer fd = some (p, token) := by
  constructor
  · intro htimer
    exact ⟨_, (h p _).mp (timer_iff.mpr ⟨rfl, htimer⟩)⟩
  · rintro ⟨fd, hfd⟩
    obtain ⟨hpeer, hzero⟩ := (h p fd).mpr hfd
    simpa [HasTimer, hpeer] using hzero

theorem Consistent.untimed (h : w.Consistent) {p : PeerId} (hp : ¬ w.HasTimer p) :
    w.peerToAddr p = none := by
  by_contra hne
  exact hp ((h.sameKeys p).mp hne)

section Started

variable {id : PeerId} {sender : InAddr} {timer : Fd} {token : CancellationToken} {ifname : String}

theorem TimersAgree.track (h : w.TimersAgree) (huntimed : ¬ w.HasTimer id)
    (hfresh : w.fdToPeer timer = none) (htimer : timer ≠ 0) :
    (w.track id sender timer token ifname).TimersAgree := by
  intro p fd
  simp only [BroadcastManager.track, PartialMap.insert_of_none _ hfresh, PartialMap.set_apply]
  by_cases hp : p = id
  · subst hp
    by_cases hfd : fd = timer
    · simp [hfd, htimer]
    · have hnone : ¬ ∃ token, w.fdToPeer fd = some (p, token) := by
        rintro ⟨token, hsome⟩
        exact huntimed ((h.hasTimer_iff p).mpr ⟨fd, token, hsome⟩)
      have hne : ¬ timer = fd := fun heq => hfd heq.symm
      simpa [hfd, hne] using hnone
  · by_cases hfd : fd = timer
    · subst hfd
      have hnone : ¬ (w.peerToFd p = some fd ∧ fd ≠ 0) := by
        rw [h p fd, hfresh]
        simp
      have hne : ¬ id = p := fun heq => hp heq.symm
      simpa [hp, hne] using hnone
    · simpa [hp, hfd] using h p fd

theorem Consistent.track (h : w.Consistent) (huntimed : ¬ w.HasTimer id)
    (hfresh : w.fdToPeer timer = none) (htimer : timer ≠ 0) (hsender : w.addrToPeer sender = none) :
    (w.track id sender timer token ifname).Consistent where
  timers := h.timers.track huntimed hfresh htimer
  sameKeys := by
    intro p
    simp only [BroadcastManager.track, HasTimer, PartialMap.set_apply]
    by_cases hp : p = id
    · simp [hp, htimer]
    · simpa [hp, HasTimer] using h.sameKeys p
  addresses := h.addresses.set hsender (h.untimed huntimed)
  interfaces := by
    intro name p hentry
    simp only [BroadcastManager.track, PartialMap.set_apply]
    rcases KeyedList.mem_of_mem_setOrdered hentry with heq | hold
    · simp [(Prod.mk.inj heq).2]
    · split
      · simp
      · exact h.interfaces name p hold

theorem Consistent.of_track (h : w.Consistent) (huntimed : ¬ w.HasTimer id)
    (hfresh : w.fdToPeer timer = none) (ht : (w.track id sender timer token ifname).Consistent) :
    timer ≠ 0 ∧ w.addrToPeer sender = none := by
  refine ⟨?_, Option.eq_none_iff_forall_ne_some.mpr fun q hq => ?_⟩
  · have hentry : (w.track id sender timer token ifname).fdToPeer timer = some (id, token) := by
      simp [BroadcastManager.track, PartialMap.insert_of_none _ hfresh]
    exact ((ht.timers id timer).mpr ⟨token, hentry⟩).2
  · have hqid : q ≠ id := by
      rintro rfl
      exact absurd ((h.addresses sender q).mp hq) (by simp [h.untimed huntimed])
    have hold : (w.track id sender timer token ifname).peerToAddr q = some sender := by
      simp only [BroadcastManager.track, PartialMap.set_of_ne _ hqid]
      exact (h.addresses sender q).mp hq
    have hnew := (ht.addresses sender q).mpr hold
    simp only [BroadcastManager.track, PartialMap.set_self, Option.some.injEq] at hnew
    exact hqid hnew.symm

end Started

/-- What `ProcessPeerLost` leaves of the four tables, when the timer has a peer. -/
theorem processPeerLost_some {fd : Fd} {p : PeerId} {token : CancellationToken}
    (hfd : w.fdToPeer fd = some (p, token)) (ok : Bool) : w.processPeerLost fd ok = { w with
      loop := (w.loop.deregisterAction token ok).2
      peerToFd := w.peerToFd.erase p
      fdToPeer := w.fdToPeer.erase fd
      peerToAddr := w.peerToAddr.erase p
      addrToPeer := w.addrToPeer.erase ((w.peerToAddr p).getD 0) }.record [.neighborLost p] := by
  simp only [processPeerLost, hfd]

theorem TimersAgree.peerLost (h : w.TimersAgree) {fd : Fd} {p : PeerId} {token : CancellationToken}
    (hfd : w.fdToPeer fd = some (p, token)) (ok : Bool) :
    (w.processPeerLost fd ok).TimersAgree := by
  obtain ⟨hpeer, -⟩ := (h p fd).mpr ⟨token, hfd⟩
  rw [processPeerLost_some hfd]
  intro q fd'
  simp only [record, PartialMap.erase_eq_some]
  rw [and_assoc, h q fd']
  constructor
  · rintro ⟨hq, token', hfd'⟩
    refine ⟨token', fun heq => hq ?_, hfd'⟩
    subst heq
    exact (Prod.mk.inj (Option.some.inj (hfd'.symm.trans hfd))).1
  · rintro ⟨token', hne, hfd'⟩
    refine ⟨fun heq => hne ?_, token', hfd'⟩
    subst heq
    exact Option.some.inj (((h q fd').mpr ⟨token', hfd'⟩).1.symm.trans hpeer)

theorem Consistent.peerLost_iff (h : w.Consistent) {fd : Fd} {p : PeerId}
    {token : CancellationToken} (hfd : w.fdToPeer fd = some (p, token)) (ok : Bool) :
    (w.processPeerLost fd ok).Consistent ↔ ∀ name, (name, p) ∉ w.ifToPeer := by
  have htimer : w.HasTimer p := (h.timers.hasTimer_iff p).mpr ⟨fd, token, hfd⟩
  obtain ⟨addr, haddr⟩ := Option.ne_none_iff_exists'.mp ((h.sameKeys p).mpr htimer)
  have htimers := h.timers.peerLost hfd ok
  rw [processPeerLost_some hfd, haddr] at htimers ⊢
  constructor
  · intro ht name hentry
    exact ht.interfaces name p hentry (PartialMap.erase_self w.peerToAddr p)
  · intro hnames
    refine ⟨htimers, fun q => ?_, h.addresses.erase ((h.addresses addr p).mpr haddr),
      fun name q hentry => ?_⟩
    · simp only [record, HasTimer, PartialMap.erase_apply]
      by_cases hq : q = p
      · simp [hq]
      · simpa [hq, HasTimer] using h.sameKeys q
    · have hqp : q ≠ p := fun heq => hnames name (heq ▸ hentry)
      simp only [record, PartialMap.erase_of_ne _ hqp]
      exact h.interfaces name q hentry

theorem Consistent.networkUpdate (h : w.Consistent) (ifs : List String) :
    (w.processNetworkUpdate ifs).Consistent where
  timers := h.timers
  sameKeys := h.sameKeys
  addresses := h.addresses
  interfaces := fun name p hentry => h.interfaces name p (List.mem_of_mem_filter hentry)

theorem TimersCreated.step (h : w.TimersCreated) {event : Event} (hstep : w.step event = some w') :
    w'.TimersCreated := by
  cases event with
  | hello sender id needNotify answers =>
      simp only [BroadcastManager.step] at hstep
      split at hstep
      · rcases processHello_cases hstep with ⟨hsame, -, htimers, -⟩ | ⟨token, loop, ifname, -, rfl⟩
        · intro fd hfd
          have hold : fd ∈ w.timers := h fd (by rwa [hsame.fdToPeer] at hfd)
          rcases htimers with heq | heq <;> simp [heq, hold]
        · intro fd hfd
          simp only [timerRegistered, record, track] at hfd ⊢
          by_cases heq : fd = answers.timer
          · simp [heq]
          · rw [PartialMap.insert_of_ne _ heq] at hfd
            exact List.mem_cons_of_mem _ (h fd hfd)
      · exact absurd hstep (by simp)
  | peerLost fd ok =>
      obtain rfl := Option.some.inj hstep
      intro fd' hfd'
      unfold processPeerLost at hfd' ⊢
      split at hfd'
      · exact h fd' hfd'
      · refine h fd' fun hnone => hfd' ?_
        by_cases heq : fd' = fd
        · simp [record, heq]
        · simpa [record, PartialMap.erase_of_ne _ heq] using hnone
  | networkUpdate ifs =>
      obtain rfl := Option.some.inj hstep
      exact h

theorem StartsTracking.fresh {id : PeerId} {answers : TimerAnswers} {token : CancellationToken}
    {loop : EpollLoop Fd Unit} {ifname : String}
    (hstart : w.StartsTracking id answers token loop ifname) (hunused : w.Unused answers.timer)
    (h : w.TimersCreated) : w.fdToPeer answers.timer = none := by
  by_contra hne
  rcases hunused with hfailed | ⟨-, hnew⟩
  · exact hstart.created hfailed
  · exact hnew (h _ hne)

/-- From consistent tables a step leads to consistent tables exactly if it meets the condition. -/
theorem Consistent.step_iff (h : w.Consistent) (htimers : w.TimersCreated) {event : Event}
    (hstep : w.step event = some w') : w'.Consistent ↔ w.KeepsTables event := by
  cases event with
  | hello sender id needNotify answers =>
      simp only [BroadcastManager.step] at hstep
      split at hstep
      · rename_i hunused
        rcases processHello_cases
            hstep with ⟨hsame, hnot, -, -⟩ | ⟨token, loop, ifname, hstart, rfl⟩
        · exact iff_of_true (hsame.consistent h) fun token loop ifname hstart =>
            absurd hstart (hnot token loop ifname)
        · have hfresh := hstart.fresh hunused htimers
          have hprepared := (timerRegistered_unchanged w id answers.timer loop).consistent h
          have huntimed :=
            mt ((timerRegistered_unchanged w id answers.timer loop).hasTimer id).mp hstart.untimed
          rw [consistent_record]
          constructor
          · intro ht _ _ _ _
            exact hprepared.of_track huntimed hfresh ht
          · intro hkeep
            obtain ⟨htimer, hsender⟩ := hkeep token loop ifname hstart
            exact hprepared.track huntimed hfresh htimer hsender
      · exact absurd hstep (by simp)
  | peerLost fd ok =>
      obtain rfl := Option.some.inj hstep
      cases hfd : w.fdToPeer fd with
      | none =>
          have hsame : w.processPeerLost fd ok = w := by simp only [processPeerLost, hfd]
          rw [hsame]
          exact iff_of_true h fun p token hsome => absurd (hfd.symm.trans hsome) (by simp)
      | some entry =>
          obtain ⟨p, token⟩ := entry
          rw [h.peerLost_iff hfd ok]
          constructor
          · intro hnames p' token' hsome
            obtain ⟨rfl, -⟩ := Prod.mk.inj (Option.some.inj (hfd.symm.trans hsome))
            exact hnames
          · exact fun hkeep => hkeep p token hfd
  | networkUpdate ifs =>
      obtain rfl := Option.some.inj hstep
      exact iff_of_true (h.networkUpdate ifs) trivial

/-- The tables are consistent after every operation of a run exactly if no hello starts to track a
peer under an address that is taken or with descriptor zero, and no peer is lost while an interface
names it. -/
theorem consistent_iff_keepsTables (self : PeerId) (events : List Event) :
    machine.Always Consistent (init self) events ↔
      machine.EachStep KeepsTables (init self) events := by
  refine Machine.always_iff_eachStep (I := TimersCreated) (fun _ _ _ h hstep => h.step hstep) ?_
    events (fun fd hfd => absurd rfl hfd) (init_consistent self)
  intro w event w' htimers h hstep
  exact h.step_iff htimers hstep

/-- A peer that is lost stays behind an interface. -/
theorem lost_peer_stays_behind_interface :
    ¬ ∀ (self : PeerId) (events : List Event) (w : BroadcastManager),
      machine.exec (init self) events = some w → w.Consistent := by
  intro h
  let peer : PeerId := ⟨[1, 1, 1, 1, 1, 1], rfl⟩
  have hrun : (machine.exec (init ⟨[2, 2, 2, 2, 2, 2], rfl⟩)
      [.hello 0x0100A8C0 peer true ⟨5, true, some "eth0"⟩, .peerLost 5 true]).map
        (fun w => (w.ifToPeer, w.peerToAddr peer)) = some ([("eth0", peer)], none) := by
    decide +kernel
  obtain ⟨w, hexec, hw⟩ := Option.map_eq_some_iff.mp hrun
  obtain ⟨hif, haddr⟩ := Prod.mk.inj hw
  exact (h _ _ w hexec).interfaces "eth0" peer (by rw [hif]; exact List.mem_singleton.mpr rfl) haddr

end BroadcastManager

end Diplom
