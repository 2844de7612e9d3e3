import Diplom.Proof.PeerTables

/-!
# What one hello leaves behind

The hello of a tracked peer sets its timer again and changes no table. The hello of another peer
enters a zero in `peerToFd_`, acquires a timer and an action, and only then fills the five tables;
when it stops on the way, what it has acquired so far stays.
-/

namespace Diplom

namespace BroadcastManager

variable {w w' : BroadcastManager} {sender : InAddr} {id : PeerId} {needNotify : Bool}
  {answers : TimerAnswers}

/-! ### The ways through `ProcessHello` -/

theorem HasTimer.entry (h : w.HasTimer id) : ∃ fd, w.peerToFd id = some fd := by
  rw [← Option.ne_none_iff_exists']
  intro hnone
  simp [HasTimer, hnone] at h

theorem processHello_timed (hother : id ≠ w.self) (h : w.HasTimer id) :
    w.processHello sender id needNotify answers = some w := by
  obtain ⟨fd, hfd⟩ := h.entry
  have hentry : (w.peerToFd id).getD 0 ≠ 0 := h
  simp only [processHello, if_neg hother, readTimer, if_pos hentry, PartialMap.insert_of_some _ hfd]

theorem processHello_noTimer (hother : id ≠ w.self) (h : ¬ w.HasTimer id)
    (hfailed : answers.timer = -1) :
    w.processHello sender id needNotify answers
      = some { w with peerToFd := w.peerToFd.insert id 0 } := by
  have hentry : ¬ (w.peerToFd id).getD 0 ≠ 0 := h
  simp only [processHello, if_neg hother, readTimer, if_neg hentry, if_pos hfailed]

theorem processHello_unregistered (hother : id ≠ w.self) (h : ¬ w.HasTimer id)
    (hcreated : answers.timer ≠ -1)
    (hrefused : w.loop.registerAction answers.timer .input answers.timer none answers.register
      = none) :
    w.processHello sender id needNotify answers
      = some { w with peerToFd := w.peerToFd.insert id 0, timers :=
        answers.timer :: w.timers } := by
  have hentry : ¬ (w.peerToFd id).getD 0 ≠ 0 := h
  simp only [processHello, if_neg hother, readTimer, if_neg hentry, if_neg hcreated, hrefused]

theorem processHello_unattributed (hother : id ≠ w.self) (h : ¬ w.HasTimer id)
    (hcreated : answers.timer ≠ -1)
    (hregistered :
      w.loop.registerAction answers.timer .input answers.timer none answers.register ≠ none)
    (hnull : answers.ifname = none) : w.processHello sender id needNotify answers = none := by
  have hentry : ¬ (w.peerToFd id).getD 0 ≠ 0 := h
  obtain ⟨⟨token, loop⟩, hregister⟩ := Option.ne_none_iff_exists'.mp hregistered
  simp only [processHello, if_neg hother, readTimer, if_neg hentry, if_neg hcreated,
    hregister, hnull]

theorem StartsTracking.processHello {token : CancellationToken} {loop : EpollLoop Fd Unit}
    {ifname : String} (h : w.StartsTracking id answers token loop ifname) :
    w.processHello sender id needNotify answers
      = some (((w.timerRegistered id answers.timer loop).track id sender answers.timer token
        ifname).record (foundDeeds id needNotify)) := by
  have hentry : ¬ (w.peerToFd id).getD 0 ≠ 0 := h.untimed
  simp only [BroadcastManager.processHello, if_neg h.other, readTimer, if_neg hentry,
    if_neg h.created, h.registered, h.interface]
  rfl

/-- The ways on which a hello returns. -/
inductive Heard (w : BroadcastManager) (sender : InAddr) (id : PeerId) (needNotify : Bool)
    (answers : TimerAnswers) : BroadcastManager → Prop
  | own (h : id = w.self) : Heard w sender id needNotify answers w
  | timed (hother : id ≠ w.self) (h : w.HasTimer id) : Heard w sender id needNotify answers w
  | noTimer (hother : id ≠ w.self) (h : ¬ w.HasTimer id) (hfailed : answers.timer = -1) :
      Heard w sender id needNotify answers { w with peerToFd := w.peerToFd.insert id 0 }
  | unregistered (hother : id ≠ w.self) (h : ¬ w.HasTimer id) (hcreated : answers.timer ≠ -1)
      (hrefused : w.loop.registerAction answers.timer .input answers.timer none answers.register
        = none) : Heard w sender id needNotify answers
      { w with peerToFd := w.peerToFd.insert id 0, timers := answers.timer :: w.timers }
  | tracked {token : CancellationToken} {loop : EpollLoop Fd Unit} {ifname : String}
      (h : w.StartsTracking id answers token loop ifname) :
      Heard w sender id needNotify answers
        (((w.timerRegistered id answers.timer loop).track id sender answers.timer token
          ifname).record (foundDeeds id needNotify))

theorem processHello_heard (h : w.processHello sender id needNotify answers = some w') :
    Heard w sender id needNotify answers w' := by
  by_cases hself : id = w.self
  · simp only [processHello, if_pos hself] at h
    exact Option.some.inj h ▸ .own hself
  by_cases htimed : w.HasTimer id
  · rw [processHello_timed hself htimed] at h
    exact Option.some.inj h ▸ .timed hself htimed
  by_cases hcreated : answers.timer = -1
  · rw [processHello_noTimer hself htimed hcreated] at h
    exact Option.some.inj h ▸ .noTimer hself htimed hcreated
  cases hregister :
    w.loop.registerAction answers.timer .input answers.timer none answers.register with
  | none =>
      rw [processHello_unregistered hself htimed hcreated hregister] at h
      exact Option.some.inj h ▸ .unregistered hself htimed hcreated hregister
  | some registered =>
      obtain ⟨token, loop⟩ := registered
      cases hifname : answers.ifname with
      | none =>
          rw [processHello_unattributed hself htimed hcreated (by simp [hregister]) hifname] at h
          exact absurd h (by simp)
      | some ifname =>
          have hstart : w.StartsTracking id answers token loop ifname :=
            ⟨hself, htimed, hcreated, hregister, hifname⟩
          rw [hstart.processHello] at h
          exact Option.some.inj h ▸ .tracked hstart

/-! ### The address -/

/-- No call that `ProcessHello` makes fails. -/
def NoFailure (w : BroadcastManager) (id : PeerId) (answers : TimerAnswers) : Prop :=
  ¬ w.HasTimer id → answers.timer ≠ -1 ∧
    w.loop.registerAction answers.timer .input answers.timer none answers.register ≠ none

/-- The peer is found under the address, and no other peer is; the other addresses are as they were.
-/
structure Refreshed (w w' : BroadcastManager) (sender : InAddr) (id : PeerId) : Prop where
  address : w'.getAddress id = some sender
  peer : w'.getPeer sender = some id
  alone : ∀ p, p ≠ id → w'.getAddress p ≠ some sender
  others : ∀ p, p ≠ id → w.getAddress p ≠ some sender → w'.getAddress p = w.getAddress p

/-- A hello that completes without a failure found its peer tracked, or starts to track it. -/
theorem NoFailure.cases (h : w.NoFailure id answers) (hother : id ≠ w.self)
    (hdone : w.processHello sender id needNotify answers = some w') :
    w.HasTimer id ∧ w' = w ∨ ∃ token loop ifname, w.StartsTracking id answers token loop ifname ∧
      w' = ((w.timerRegistered id answers.timer loop).track id sender answers.timer token
        ifname).record (foundDeeds id needNotify) := by
  cases processHello_heard hdone with
  | own hself => exact absurd hself hother
  | timed _ htimed => exact .inl ⟨htimed, rfl⟩
  | noTimer _ huntimed hfailed => exact absurd hfailed (h huntimed).1
  | unregistered _ huntimed _ hrefused => exact absurd hrefused (h huntimed).2
  | tracked hstart => exact .inr ⟨_, _, _, hstart, rfl⟩

/-- A hello refreshes the address exactly if no other peer has it, and a peer that is tracked has it
already. -/
theorem refreshed_iff (hother : id ≠ w.self) (hok : w.NoFailure id answers)
    (hdone : w.processHello sender id needNotify answers = some w') :
    Refreshed w w' sender id ↔
      (∀ p, p ≠ id → w.getAddress p ≠ some sender) ∧
      (w.HasTimer id → w.getAddress id = some sender ∧ w.getPeer sender = some id) := by
  rcases hok.cases hother hdone with ⟨htimed, rfl⟩ | ⟨token, loop, ifname, hstart, rfl⟩
  · constructor
    · intro h
      exact ⟨h.alone, fun _ => ⟨h.address, h.peer⟩⟩
    · rintro ⟨halone, htracked⟩
      obtain ⟨haddress, hpeer⟩ := htracked htimed
      exact ⟨haddress, hpeer, halone, fun _ _ _ => rfl⟩
  · have hkept : ∀ p, p ≠ id →
        (((w.timerRegistered id answers.timer loop).track id sender answers.timer token
          ifname).record (foundDeeds id needNotify)).getAddress p = w.getAddress p :=
      fun p hp => PartialMap.set_of_ne _ hp _
    constructor
    · intro h
      refine ⟨fun p hp hsame => h.alone p hp ?_, fun htimed => absurd htimed hstart.untimed⟩
      rw [hkept p hp, hsame]
    · rintro ⟨halone, -⟩
      refine ⟨PartialMap.set_self _ _ _, PartialMap.set_self _ _ _, fun p hp => ?_,
        fun p hp _ => hkept p hp⟩
      rw [hkept p hp]
      exact halone p hp

/-- The first hello of a peer, and a second one when it is tracked. -/
theorem refreshed_iff_of_two_hellos :
    let peer : PeerId := ⟨[1, 1, 1, 1, 1, 1], rfl⟩
    ∃ w, Refreshed (init ⟨[2, 2, 2, 2, 2, 2], rfl⟩) w 0x0100A8C0 peer ∧ w.HasTimer peer ∧
      ∃ w', w.processHello 0x0100A8C0 peer true ⟨6, true, some "eth0"⟩ = some w' ∧
        Refreshed w w' 0x0100A8C0 peer := by
  intro peer
  have hself : peer ≠ ⟨[2, 2, 2, 2, 2, 2], rfl⟩ := by decide
  have hok : (init ⟨[2, 2, 2, 2, 2, 2], rfl⟩).NoFailure peer ⟨5, true, some "eth0"⟩ :=
    fun _ => ⟨by decide, Option.isSome_iff_ne_none.mp rfl⟩
  have hrun : ((init ⟨[2, 2, 2, 2, 2, 2], rfl⟩).processHello 0x0100A8C0 peer true
      ⟨5, true, some "eth0"⟩).map (fun w => (w.self, w.peerToFd peer))
      = some (⟨[2, 2, 2, 2, 2, 2], rfl⟩, some 5) := by
    decide +kernel
  obtain ⟨w, hdone, hw⟩ := Option.map_eq_some_iff.mp hrun
  obtain ⟨hsame, hfd⟩ := Prod.mk.inj hw
  have hfirst : Refreshed (init ⟨[2, 2, 2, 2, 2, 2], rfl⟩) w 0x0100A8C0 peer := by
    refine (refreshed_iff hself hok hdone).mpr ⟨fun p _ => ?_, fun htimed => ?_⟩
    · simp [getAddress, init]
    · simp [HasTimer, init] at htimed
  have htimed : w.HasTimer peer := by simp [HasTimer, hfd]
  have hother : peer ≠ w.self := by rwa [hsame]
  have hagain : w.processHello 0x0100A8C0 peer true ⟨6, true, some "eth0"⟩ = some w :=
    processHello_timed hother htimed
  exact ⟨w, hfirst, htimed, w, hagain,
    (refreshed_iff hother (fun huntimed => absurd htimed huntimed) hagain).mpr
      ⟨hfirst.alone, fun _ => ⟨hfirst.address, hfirst.peer⟩⟩⟩

/-- A peer that is heard of under a new address keeps the old one. -/
theorem tracked_peer_keeps_old_address :
    ¬ ∀ (self : PeerId) (events : List Event) (w w' : BroadcastManager) (sender : InAddr)
        (id : PeerId) (needNotify : Bool) (answers : TimerAnswers),
      machine.exec (init self) events = some w → id ≠ w.self → w.NoFailure id answers →
        w.processHello sender id needNotify answers = some w' → Refreshed w w' sender id := by
  intro h
  let peer : PeerId := ⟨[1, 1, 1, 1, 1, 1], rfl⟩
  have hrun : (machine.exec (init ⟨[2, 2, 2, 2, 2, 2], rfl⟩)
      [.hello 0x0100A8C0 peer true ⟨5, true, some "eth0"⟩]).map
      (fun w => (w.self, w.peerToFd peer, w.getAddress peer))
      = some (⟨[2, 2, 2, 2, 2, 2], rfl⟩, some 5, some 0x0100A8C0) := by
    decide +kernel
  obtain ⟨w, hexec, hw⟩ := Option.map_eq_some_iff.mp hrun
  obtain ⟨hself, hfd, haddr⟩ :
      w.self = _ ∧ w.peerToFd peer = some 5 ∧ w.getAddress peer = some 0x0100A8C0 := by
    simpa using hw
  have hother : peer ≠ w.self := by
    rw [hself]
    decide
  have htimed : w.HasTimer peer := by simp [HasTimer, hfd]
  have hnew :=
    (h _ _ w w 0x0200A8C0 peer true ⟨6, true, some "eth0"⟩ hexec hother
      (fun huntimed => absurd htimed huntimed) (processHello_timed hother htimed)).address
  rw [haddr] at hnew
  exact absurd hnew (by decide)

/-! ### All or nothing -/

/-- The peer is in all five tables. -/
def Entered (w : BroadcastManager) (id : PeerId) : Prop :=
  ∃ fd token addr name, w.peerToFd id = some fd ∧ w.fdToPeer fd = some (id, token) ∧
    w.peerToAddr id = some addr ∧ w.addrToPeer addr = some id ∧ (name, id) ∈ w.ifToPeer

/-- The tables, the registered actions and the open timers are as they were. -/
structure Untouched (w w' : BroadcastManager) : Prop where
  peerToFd : w'.peerToFd = w.peerToFd
  fdToPeer : w'.fdToPeer = w.fdToPeer
  peerToAddr : w'.peerToAddr = w.peerToAddr
  addrToPeer : w'.addrToPeer = w.addrToPeer
  ifToPeer : w'.ifToPeer = w.ifToPeer
  actions : w'.loop.fdToCallback = w.loop.fdToCallback
  tokens : w'.loop.cancelMap = w.loop.cancelMap
  timers : w'.timers = w.timers

/-- `create_timer` or `RegisterAction` fails, or no interface matches. -/
def Fails (w : BroadcastManager) (id : PeerId) (answers : TimerAnswers) : Prop :=
  ¬ w.HasTimer id ∧
    (answers.timer = -1 ∨
      w.loop.registerAction answers.timer .input answers.timer none answers.register = none ∨
      answers.ifname = none)

/-- The hello does not throw; it leaves everything as it was if something fails, and else its peer
is in all five tables. -/
def Atomic (w : BroadcastManager) (sender : InAddr) (id : PeerId) (needNotify : Bool)
    (answers : TimerAnswers) : Prop :=
  ∃ w', w.processHello sender id needNotify answers = some w' ∧
    (w.Fails id answers → Untouched w w') ∧ (¬ w.Fails id answers → w'.Entered id)

/-- A tracked peer is in all five tables; another one has its entry in `peerToFd_` from before if
there is no timer for it, and if there is one nothing else fails. -/
def Prepared (w : BroadcastManager) (id : PeerId) (answers : TimerAnswers) : Prop :=
  if w.HasTimer id then w.Entered id
  else if answers.timer = -1 then w.peerToFd id ≠ none
  else w.loop.registerAction answers.timer .input answers.timer none answers.register ≠ none ∧
    answers.ifname ≠ none

theorem track_entered {token : CancellationToken} {loop : EpollLoop Fd Unit} {ifname : String}
    (hfresh : w.fdToPeer answers.timer = none) :
    (((w.timerRegistered id answers.timer loop).track id sender answers.timer token ifname).record
      (foundDeeds id needNotify)).Entered id := by
  refine ⟨answers.timer, token, sender, ifname, PartialMap.set_self _ _ _, ?_,
    PartialMap.set_self _ _ _, PartialMap.set_self _ _ _, KeyedList.self_mem_setOrdered _ _ _⟩
  show (w.fdToPeer.insert answers.timer (id, token)) answers.timer = _
  rw [PartialMap.insert_of_none _ hfresh, PartialMap.set_self]

theorem timersCreated_of_reach {self : PeerId} (h : machine.Reach (fun _ _ => True) (init self) w) :
    w.TimersCreated :=
  h.invariant (fun _ hfd => absurd rfl hfd) fun _ _ _ hw _ hstep => hw.step hstep

/-- A hello is atomic exactly if it is prepared so that nothing can stop it half-way. -/
theorem atomic_iff {self : PeerId} (hw : machine.Reach (fun _ _ => True) (init self) w)
    (hother : id ≠ w.self) (hunused : w.Unused answers.timer) :
    w.Atomic sender id needNotify answers ↔ w.Prepared id answers := by
  unfold Atomic Prepared
  by_cases htimed : w.HasTimer id
  · have hok : ¬ w.Fails id answers := fun hfails => hfails.1 htimed
    rw [processHello_timed hother htimed, if_pos htimed]
    constructor
    · rintro ⟨w', hdone, -, hentered⟩
      rw [Option.some.inj hdone]
      exact hentered hok
    · intro hentered
      exact ⟨w, rfl, fun hfails => absurd hfails hok, fun _ => hentered⟩
  rw [if_neg htimed]
  by_cases hcreated : answers.timer = -1
  · have hfails : w.Fails id answers := ⟨htimed, .inl hcreated⟩
    rw [processHello_noTimer hother htimed hcreated, if_pos hcreated]
    constructor
    · rintro ⟨w', hdone, huntouched, -⟩ hnone
      obtain rfl := Option.some.inj hdone
      have hsame : (w.peerToFd.insert id 0) id = w.peerToFd id :=
        congrFun (huntouched hfails).peerToFd id
      rw [PartialMap.insert_of_none _ hnone, PartialMap.set_self, hnone] at hsame
      exact absurd hsame (by simp)
    · intro hentry
      obtain ⟨fd, hfd⟩ := Option.ne_none_iff_exists'.mp hentry
      refine ⟨_, rfl, fun _ => ⟨?_, rfl, rfl, rfl, rfl, rfl, rfl, rfl⟩,
        fun hok => absurd hfails hok⟩
      exact PartialMap.insert_of_some _ hfd _
  rw [if_neg hcreated]
  by_cases hregistered :
    w.loop.registerAction answers.timer .input answers.timer none answers.register = none
  · rw [processHello_unregistered hother htimed hcreated hregistered]
    refine iff_of_false ?_ fun h => h.1 hregistered
    rintro ⟨w', hdone, huntouched, -⟩
    obtain rfl := Option.some.inj hdone
    have hsame := congrArg List.length (huntouched ⟨htimed, .inr (.inl hregistered)⟩).timers
    simp at hsame
  cases hifname : answers.ifname with
  | none =>
      rw [processHello_unattributed hother htimed hcreated hregistered hifname]
      exact iff_of_false (fun ⟨_, hdone, _⟩ => absurd hdone (by simp)) fun h => h.2 rfl
  | some ifname =>
      obtain ⟨⟨token, loop⟩, hregister⟩ := Option.ne_none_iff_exists'.mp hregistered
      have hstart : w.StartsTracking id answers token loop ifname :=
        ⟨hother, htimed, hcreated, hregister, hifname⟩
      refine iff_of_true ⟨_, hstart.processHello, fun hfails => ?_, fun _ => ?_⟩
        ⟨hregistered, by simp⟩
      · rcases hfails.2 with h | h | h
        · exact absurd h hcreated
        · exact absurd h hregistered
        · exact absurd (hifname.symm.trans h) (by simp)
      · exact track_entered (hstart.fresh hunused (timersCreated_of_reach hw))

/-- A hello whose timer is registered, from an interface, and the next one of the same peer. -/
theorem atomic_iff_of_two_hellos :
    let peer : PeerId := ⟨[1, 1, 1, 1, 1, 1], rfl⟩
    (init ⟨[2, 2, 2, 2, 2, 2], rfl⟩).Atomic 0x0100A8C0 peer true ⟨5, true, some "eth0"⟩ ∧
      ∃ w, machine.exec (init ⟨[2, 2, 2, 2, 2, 2], rfl⟩)
          [.hello 0x0100A8C0 peer true ⟨5, true, some "eth0"⟩] = some w ∧
        w.HasTimer peer ∧ w.Atomic 0x0100A8C0 peer true ⟨6, true, some "eth0"⟩ := by
  intro peer
  constructor
  · refine (atomic_iff .refl (by decide) (.inr ⟨by decide, by decide⟩)).mpr ?_
    rw [Prepared, if_neg (by decide), if_neg (by decide)]
    exact ⟨Option.isSome_iff_ne_none.mp rfl, by simp⟩
  · have hrun : (machine.exec (init ⟨[2, 2, 2, 2, 2, 2], rfl⟩)
        [.hello 0x0100A8C0 peer true ⟨5, true, some "eth0"⟩]).map (fun w => (w.self, w.timers,
          w.peerToFd peer, w.fdToPeer 5, w.peerToAddr peer, w.addrToPeer 0x0100A8C0, w.ifToPeer))
        = some (⟨[2, 2, 2, 2, 2, 2], rfl⟩, [5], some 5, some (peer, 1), some 0x0100A8C0,
          some peer, [("eth0", peer)]) := rfl
    obtain ⟨w, hexec, hw⟩ := Option.map_eq_some_iff.mp hrun
    simp only [Prod.mk.injEq] at hw
    obtain ⟨hself, htimers, hfd, hpeer, haddress, hfrom, hname⟩ := hw
    have htimed : w.HasTimer peer := by simp [HasTimer, hfd]
    have hother : peer ≠ w.self := by
      rw [hself]
      decide
    have hunused : w.Unused 6 := .inr ⟨by decide, by simp [htimers]⟩
    refine ⟨w, hexec, htimed, (atomic_iff (Machine.reach_of_exec hexec) hother hunused).mpr ?_⟩
    rw [Prepared, if_pos htimed]
    exact ⟨5, 1, 0x0100A8C0, "eth0", hfd, hpeer, haddress, hfrom, by simp [hname]⟩

/-- Without a timer there is an entry all the same. -/
theorem failed_hello_leaves_entry :
    ¬ ∀ (self : PeerId) (w : BroadcastManager) (sender : InAddr) (id : PeerId)
        (needNotify : Bool) (answers : TimerAnswers),
      machine.Reach (fun _ _ => True) (init self) w → id ≠ w.self →
        w.Unused answers.timer → w.Atomic sender id needNotify answers := by
  intro h
  let self : PeerId := ⟨[2, 2, 2, 2, 2, 2], rfl⟩
  let peer : PeerId := ⟨[1, 1, 1, 1, 1, 1], rfl⟩
  obtain ⟨w', hdone, huntouched, -⟩ :=
      h self (init self) 0x0100A8C0 peer true ⟨-1, true, none⟩ .refl (by decide) (.inl rfl)
  rw [processHello_noTimer (by decide) (by decide) rfl] at hdone
  obtain rfl := Option.some.inj hdone
  have hsame := congrFun (huntouched ⟨by decide, .inl rfl⟩).peerToFd peer
  simp [init, PartialMap.insert, PartialMap.contains] at hsame

end BroadcastManager

end Diplom
