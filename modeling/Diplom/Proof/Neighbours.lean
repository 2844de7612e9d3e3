import Diplom.Lib.Brackets
import Diplom.Proof.PeerTables

/-!
# Reports of neighbours

A peer is found when it is first heard of in a broadcast, and lost when its timer expires. A peer
that is first heard of in an incoming connection is tracked as well, and nobody is told: the session
that follows tells of it. So the manager may be told of a loss without a find, and what takes turns
is being tracked, announced or not, and being lost.
-/

namespace Diplom

namespace BroadcastManager

variable {w w' : BroadcastManager} {p : PeerId}

/-- What an entry says about neighbours to a manager. -/
def Deed.notification : Deed → Option (PeerId × Bool)
  | .neighborFound p => some (p, true)
  | .neighborLost p => some (p, false)
  | _ => none

/-- The same, with the peers that are tracked quietly. -/
def Deed.tracking : Deed → Option (PeerId × Bool)
  | .neighborFound p => some (p, true)
  | .trackedQuietly p => some (p, true)
  | .neighborLost p => some (p, false)
  | _ => none

/-- The loss timer of the peer is among those that `ProcessPeerLost` knows. -/
def Tracked (w : BroadcastManager) (p : PeerId) : Prop :=
  ∃ fd token, w.fdToPeer fd = some (p, token)

/-- Every peer is in both tables of timers or in neither, and is there exactly if the last that was
said of it is not that it is lost. -/
structure FollowsTracking (w : BroadcastManager) : Prop where
  tells : Brackets.Tells Deed.tracking w.deeds w.Tracked
  tables : ∀ p, w.Tracked p ↔ w.HasTimer p

/-- An operation that reports no peer because of an interface, and gives no timer the descriptor
that stands for no timer. -/
def NoInterfaceLost (w : BroadcastManager) : Event → Prop
  | .hello _ _ _ answers => answers.timer ≠ 0
  | .peerLost _ _ => True
  | .networkUpdate ifs => w.removed ifs = []

instance (event : Event) : Decidable (w.NoInterfaceLost event) := by
  cases event <;> unfold NoInterfaceLost <;> infer_instance

/-- What every such operation keeps. -/
structure Watch (w : BroadcastManager) : Prop where
  timers : w.TimersAgree
  created : w.TimersCreated
  tells : Brackets.Tells Deed.tracking w.deeds w.Tracked

theorem Watch.followsTracking (h : w.Watch) : w.FollowsTracking :=
  ⟨h.tells, fun p => (h.timers.hasTimer_iff p).symm⟩

theorem init_watch (self : PeerId) : (init self).Watch where
  timers := init_timersAgree self
  created := fun _ hfd => absurd rfl hfd
  tells := Brackets.tells_nil (by simp [Tracked, init])

private theorem Unchanged.tracked (h : Unchanged w w') (q : PeerId) :
    w'.Tracked q ↔ w.Tracked q := by
  rw [Tracked, Tracked, h.fdToPeer]

private theorem Watch.track (h : w.Watch) {id : PeerId} {timer : Fd} (sender : InAddr)
    (token : CancellationToken) (loop : EpollLoop Fd Unit) (ifname : String) (needNotify : Bool)
    (huntimed : ¬ w.HasTimer id) (hfresh : w.fdToPeer timer = none) :
    Brackets.Tells Deed.tracking (w.deeds ++ foundDeeds id needNotify)
      ((w.timerRegistered id timer loop).track id sender timer token ifname).Tracked := by
  have huntracked : ¬ w.Tracked id := mt (h.timers.hasTimer_iff id).mpr huntimed
  have hfd : ∀ fd, ((w.timerRegistered id timer loop).track id sender timer token ifname).fdToPeer
      fd = if fd = timer then some (id, token) else w.fdToPeer fd := by
    intro fd
    simp only [BroadcastManager.track, timerRegistered, PartialMap.insert_of_none _ hfresh,
      PartialMap.set_apply]
  have hself : ((w.timerRegistered id timer loop).track id sender timer token ifname).Tracked id :=
    ⟨timer, token, by rw [hfd, if_pos rfl]⟩
  have hothers : ∀ q, q ≠ id →
      (((w.timerRegistered id timer loop).track id sender timer token ifname).Tracked q ↔
        w.Tracked q) := by
    intro q hq
    refine exists_congr fun fd => exists_congr fun token' => ?_
    rw [hfd]
    split
    · rename_i heq
      subst heq
      have hne : ¬ id = q := fun heq => hq heq.symm
      simp [hfresh, hne]
    · exact Iff.rfl
  cases needNotify with
  | true =>
      have hhello := h.tells.aside (show Deed.tracking .sendBroadcastHello = none from rfl)
      have hfound := hhello.own (show Deed.tracking (.neighborFound id) = some (id, true) from rfl)
        (iff_of_true rfl huntracked) (iff_of_true hself rfl) hothers
      rwa [List.append_assoc] at hfound
  | false =>
      exact h.tells.own (show Deed.tracking (.trackedQuietly id) = some (id, true) from rfl)
        (iff_of_true rfl huntracked) (iff_of_true hself rfl) hothers

private theorem Watch.peerLost (h : w.Watch) {fd : Fd} {q : PeerId} {token : CancellationToken}
    (hfd : w.fdToPeer fd = some (q, token)) (ok : Bool) :
    Brackets.Tells Deed.tracking (w.processPeerLost fd ok).deeds
      (w.processPeerLost fd ok).Tracked := by
  have hagree := h.timers.peerLost hfd ok
  have htracked : w.Tracked q := ⟨fd, token, hfd⟩
  have hgone : ¬ (w.processPeerLost fd ok).Tracked q := by
    refine mt (hagree.hasTimer_iff q).mpr ?_
    simp [processPeerLost_some hfd, HasTimer, record]
  have hothers : ∀ p, p ≠ q → ((w.processPeerLost fd ok).Tracked p ↔ w.Tracked p) := by
    intro p hp
    refine exists_congr fun fd' => exists_congr fun token' => ?_
    rw [processPeerLost_some hfd]
    simp only [record, PartialMap.erase_eq_some]
    refine ⟨fun hkept => hkept.2, fun hold => ⟨fun heq => hp ?_, hold⟩⟩
    subst heq
    exact (Prod.mk.inj (Option.some.inj (hold.symm.trans hfd))).1
  have hdeeds : (w.processPeerLost fd ok).deeds = w.deeds ++ [.neighborLost q] := by
    rw [processPeerLost_some hfd]
    rfl
  rw [hdeeds]
  exact h.tells.own (show Deed.tracking (.neighborLost q) = some (q, false) from rfl)
    (iff_of_false (by simp) (not_not.mpr htracked)) (iff_of_false hgone (by simp)) hothers

theorem Watch.step (h : w.Watch) {event : Event} (hok : w.NoInterfaceLost event)
    (hstep : w.step event = some w') : w'.Watch := by
  have hcreated := h.created.step hstep
  cases event with
  | hello sender id needNotify answers =>
      simp only [BroadcastManager.step] at hstep
      split at hstep
      · rename_i hunused
        rcases processHello_cases
            hstep with ⟨hsame, -, -, hdeeds⟩ | ⟨token, loop, ifname, hstart, rfl⟩
        · refine ⟨hsame.timersAgree h.timers, hcreated, ?_⟩
          rw [hdeeds]
          exact h.tells.congr hsame.tracked
        · have hfresh := hstart.fresh hunused h.created
          have hprepared := timerRegistered_unchanged w id answers.timer loop
          have htimers :
              ((w.timerRegistered id answers.timer loop).track id sender answers.timer token
                ifname).TimersAgree :=
            (hprepared.timersAgree h.timers).track
            (mt (hprepared.hasTimer id).mp hstart.untimed) hfresh hok
          exact ⟨htimers, hcreated,
            h.track sender token loop ifname needNotify hstart.untimed hfresh⟩
      · exact absurd hstep (by simp)
  | peerLost fd ok =>
      obtain rfl := Option.some.inj hstep
      cases hfd : w.fdToPeer fd with
      | none =>
          have hsame : w.processPeerLost fd ok = w := by simp only [processPeerLost, hfd]
          rwa [hsame]
      | some entry => exact ⟨h.timers.peerLost hfd ok, hcreated, h.peerLost hfd ok⟩
  | networkUpdate ifs =>
      obtain rfl := Option.some.inj hstep
      refine ⟨h.timers, hcreated, ?_⟩
      have hdeeds : (w.processNetworkUpdate ifs).deeds = w.deeds ++ [.sendBroadcastHello] := by
        simp [processNetworkUpdate, record, show w.removed ifs = [] from hok]
      rw [hdeeds]
      exact h.tells.aside rfl

/-- In every run without losses of interfaces, a peer is tracked exactly if the last that was said
of it is that it was found, or quietly entered; finds and quiet entries take turns with losses. -/
theorem neighbours_follow_tracking (self : PeerId) (events : List Event)
    (h : machine.EachStep NoInterfaceLost (init self) events) :
    machine.Always FollowsTracking (init self) events :=
  Machine.always_of_eachStep (I := Watch) (fun _ h => h.followsTracking)
    (fun _ _ _ h hok hstep => h.step hok hstep) events (init_watch self) h

/-- One peer is found and lost, another is heard of in a connection first and in a broadcast later,
and an interface comes up. -/
theorem neighbours_follow_tracking_of_two_peers :
    machine.Always FollowsTracking (init ⟨[3, 3, 3, 3, 3, 3], rfl⟩)
      [.hello 0x0100A8C0 ⟨[1, 1, 1, 1, 1, 1], rfl⟩ true ⟨5, true, some "eth0"⟩,
        .hello 0x0200A8C0 ⟨[2, 2, 2, 2, 2, 2], rfl⟩ false ⟨6, true, some "eth1"⟩,
        .hello 0x0200A8C0 ⟨[2, 2, 2, 2, 2, 2], rfl⟩ true ⟨7, true, some "eth1"⟩,
        .networkUpdate ["eth0", "eth1", "eth2"], .peerLost 5 true] :=
  neighbours_follow_tracking _ _ (by decide +kernel)

/-- A peer that is heard of in a connection first has a timer, and no notification has told of it.
-/
theorem quiet_hello_tracks_unannounced :
    ¬ ∀ (self : PeerId) (events : List Event) (w : BroadcastManager) (p : PeerId), p ≠ self →
      machine.exec (init self) events = some w →
      (w.Tracked p ↔ Brackets.IsOpen Deed.notification p w.deeds) := by
  intro h
  let peer : PeerId := ⟨[1, 1, 1, 1, 1, 1], rfl⟩
  have hrun : (machine.exec (init ⟨[2, 2, 2, 2, 2, 2], rfl⟩)
      [.hello 0x0100A8C0 peer false ⟨5, true, some "eth0"⟩]).map (fun w => (w.fdToPeer 5, w.deeds))
      = some (some (peer, 1), [.trackedQuietly peer]) := by
    decide +kernel
  obtain ⟨w, hexec, hw⟩ := Option.map_eq_some_iff.mp hrun
  obtain ⟨hfd, hdeeds⟩ := Prod.mk.inj hw
  have hopen := (h _ _ w peer (by decide) hexec).mp ⟨5, 1, hfd⟩
  rw [hdeeds] at hopen
  exact absurd hopen (by simp [Brackets.IsOpen, Brackets.marks, Deed.notification])

/-! ### What the notifications alone say -/

/-- A loss is reported of peers that have been found and not been lost since, and of each once. -/
def LosesFound (w : BroadcastManager) : Event → Prop
  | .hello _ _ _ _ => True
  | .peerLost fd _ =>
      ∀ entry ∈ w.fdToPeer fd, Brackets.IsOpen Deed.notification entry.1 w.deeds
  | .networkUpdate ifs =>
      ((w.removed ifs).map Prod.snd).Nodup ∧
        ∀ entry ∈ w.removed ifs, Brackets.IsOpen Deed.notification entry.2 w.deeds

instance (event : Event) : Decidable (w.LosesFound event) := by
  cases event <;> unfold LosesFound Brackets.IsOpen <;> infer_instance

/-- No peer is reported lost that has not been found since it was lost before. -/
def FoundFirst (w : BroadcastManager) : Prop :=
  ∀ p, Brackets.Paired Deed.notification p w.deeds

theorem paired_aside {deeds : List Deed} {deed : Deed}
    (h : ∀ p, Deed.notification deed ≠ some (p, false)) :
    (∀ p, Brackets.Paired Deed.notification p (deeds ++ [deed])) ↔
      ∀ p, Brackets.Paired Deed.notification p deeds :=
  forall_congr' fun p => Brackets.paired_concat.trans
    (and_iff_left fun hlost => absurd hlost (h p))

theorem paired_lost {deeds : List Deed} {q : PeerId} :
    (∀ p, Brackets.Paired Deed.notification p (deeds ++ [.neighborLost q])) ↔
      (∀ p, Brackets.Paired Deed.notification p deeds) ∧
        Brackets.IsOpen Deed.notification q deeds := by
  constructor
  · intro h
    exact ⟨fun p => (Brackets.paired_concat.mp (h p)).1, (Brackets.paired_concat.mp (h q)).2 rfl⟩
  · rintro ⟨h, hopen⟩ p
    refine Brackets.paired_concat.mpr ⟨h p, fun hmark => ?_⟩
    obtain rfl := (Prod.mk.inj (Option.some.inj hmark)).1
    exact hopen

/-- Several peers are reported lost, as `ProcessNetworkUpdate` does it. -/
theorem paired_losses {entries : List (String × PeerId)} {deeds : List Deed} :
    (∀ p, Brackets.Paired Deed.notification p (deeds ++ entries.flatMap lossDeeds)) ↔
      (∀ p, Brackets.Paired Deed.notification p deeds) ∧ (entries.map Prod.snd).Nodup ∧
        ∀ entry ∈ entries, Brackets.IsOpen Deed.notification entry.2 deeds := by
  induction entries generalizing deeds with
  | nil => simp
  | cons entry rest ih =>
      obtain ⟨ifname, q⟩ := entry
      have hsplit : deeds ++ List.flatMap lossDeeds ((ifname, q) :: rest) =
          ((deeds ++ [.closeSession q .all]) ++ [.neighborLost q]) ++ rest.flatMap lossDeeds := by
        simp [lossDeeds]
      have hclose : ∀ p,
          Brackets.IsOpen Deed.notification p (deeds ++ [.closeSession q .all]) ↔
            Brackets.IsOpen Deed.notification p deeds := fun p =>
        Brackets.isOpen_other (by simp [Deed.notification])
      have hlost : ∀ p, Brackets.IsOpen Deed.notification p
          ((deeds ++ [.closeSession q .all]) ++ [.neighborLost q]) ↔
            p ≠ q ∧ Brackets.IsOpen Deed.notification p deeds := by
        intro p
        by_cases hp : p = q
        · subst hp
          rw [Brackets.isOpen_own (show Deed.notification (.neighborLost p) = some (p, false) from
            rfl)]
          simp
        · rw [Brackets.isOpen_other (by simp [Deed.notification, Ne.symm hp]), hclose,
            and_iff_right hp]
      rw [hsplit, ih, paired_lost, paired_aside (by simp [Deed.notification]), hclose]
      simp only [hlost, List.map_cons, List.nodup_cons, List.forall_mem_cons, List.mem_map]
      constructor
      · rintro ⟨⟨hpaired, hq⟩, hrest, hopen⟩
        refine ⟨hpaired, ⟨?_, hrest⟩, hq, fun entry hentry => (hopen entry hentry).2⟩
        rintro ⟨entry, hentry, heq⟩
        exact (hopen entry hentry).1 heq
      · rintro ⟨hpaired, ⟨hnew, hrest⟩, hq, hopen⟩
        refine ⟨⟨hpaired, hq⟩, hrest, fun entry hentry => ⟨?_, hopen entry hentry⟩⟩
        intro heq
        exact hnew ⟨entry, hentry, heq⟩

theorem foundFirst_step (h : w.FoundFirst) {event : Event} (hstep : w.step event = some w') :
    w'.FoundFirst ↔ w.LosesFound event := by
  cases event with
  | hello sender id needNotify answers =>
      simp only [BroadcastManager.step] at hstep
      refine iff_of_true ?_ trivial
      split at hstep
      · rcases processHello_cases hstep with ⟨-, -, -, hdeeds⟩ | ⟨token, loop, ifname, -, rfl⟩
        · rw [FoundFirst, hdeeds]
          exact h
        · cases needNotify with
          | true =>
              have hhello : ∀ p, Brackets.Paired Deed.notification p
                  (w.deeds ++ [.sendBroadcastHello]) :=
                (paired_aside (by simp [Deed.notification])).mpr h
              have hfound : ∀ p, Brackets.Paired Deed.notification p
                  (w.deeds ++ [.sendBroadcastHello] ++ [.neighborFound id]) :=
                (paired_aside (by simp [Deed.notification])).mpr hhello
              rwa [List.append_assoc] at hfound
          | false => exact (paired_aside (by simp [Deed.notification])).mpr h
      · exact absurd hstep (by simp)
  | peerLost fd ok =>
      obtain rfl := Option.some.inj hstep
      cases hfd : w.fdToPeer fd with
      | none =>
          have hsame : w.processPeerLost fd ok = w := by simp only [processPeerLost, hfd]
          rw [hsame, LosesFound, hfd]
          exact iff_of_true h (by simp)
      | some entry =>
          have hdeeds : (w.processPeerLost fd ok).deeds = w.deeds ++ [.neighborLost entry.1] := by
            rw [processPeerLost_some hfd]
            rfl
          have hlast : w.LosesFound (.peerLost fd ok) ↔
              Brackets.IsOpen Deed.notification entry.1 w.deeds := by
            rw [LosesFound, hfd]
            simp
          rw [FoundFirst, hdeeds, paired_lost, hlast]
          exact and_iff_right h
  | networkUpdate ifs =>
      obtain rfl := Option.some.inj hstep
      have hdeeds : (w.processNetworkUpdate ifs).deeds =
          (w.deeds ++ (w.removed ifs).flatMap lossDeeds) ++ [.sendBroadcastHello] := by
        simp [processNetworkUpdate, record]
      rw [FoundFirst, hdeeds, paired_aside (by simp [Deed.notification]), paired_losses, LosesFound]
      exact and_iff_right h

/-- Losses come after finds in a run exactly if each step that reports one reports it of a peer that
has been found. -/
theorem always_foundFirst_iff (self : PeerId) (events : List Event) :
    machine.Always FoundFirst (init self) events ↔
      machine.EachStep LosesFound (init self) events :=
  Machine.always_iff_eachStep (I := fun _ => True) (fun _ _ _ _ _ => trivial)
    (fun _ _ _ _ h hstep => foundFirst_step h hstep) events trivial
    fun _ => Brackets.paired_nil

end BroadcastManager

end Diplom
