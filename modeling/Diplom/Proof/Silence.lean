import Diplom.Proof.PeerHello
import Diplom.Transport.BroadcastLoop

/-!
# Who is reported lost

A timer's event is taken from the kernel when `epoll_wait` returns, and `ProcessPeerLost` believes
it when its turn comes. Between the two the peer may be heard of: the hello sets the timer again,
the event stays in the array, and the peer is removed all the same. Where no hello comes in between,
a timer that is reported has expired since its peer was heard of last.
-/

namespace Diplom

namespace BroadcastLoop

variable {s s' : BroadcastLoop}

/-- What holds between the steps: the timers know their peers, every action of a timer is its own,
what is readable has expired in silence, and so has what waits in the array, unless its peer was
heard of after it got there. -/
structure Sound (s : BroadcastLoop) : Prop where
  agree : s.manager.TimersAgree
  created : s.manager.TimersCreated
  own : ∀ fd dir keeper, s.manager.loop.fdToCallback ⟨fd, dir⟩ = some keeper → keeper.callback = fd
  readable : ∀ fd, s.readable fd = true → s.silent fd = true
  batch : ∀ fd, .timer fd ∈ s.batch → s.silent fd = true ∨ s.heard fd = true
  losses : s.OnlySilentLost

theorem init_sound (self : PeerId) : (init self).Sound where
  agree := BroadcastManager.init_timersAgree self
  created fd hfd := absurd rfl hfd
  own fd dir keeper h := absurd h (by simp [init, BroadcastManager.init])
  readable fd h := absurd h (by simp [init])
  batch fd h := absurd h (by simp [init])
  losses loss h := absurd h (by simp [init])

/-! ### The manager's part -/

/-- The timers know their peers, and every action of a timer is its own. -/
structure Timed (w : BroadcastManager) : Prop where
  agree : w.TimersAgree
  created : w.TimersCreated
  own : ∀ fd dir keeper, w.loop.fdToCallback ⟨fd, dir⟩ = some keeper → keeper.callback = fd

variable {w w' : BroadcastManager}

theorem Timed.hello (h : Timed w) {sender : InAddr} {id : PeerId} {needNotify : Bool}
    {answers : BroadcastManager.TimerAnswers} (htimer : answers.timer ≠ 0)
    (hstep : w.step (.hello sender id needNotify answers) = some w') : Timed w' := by
  have hcreated := h.created.step hstep
  simp only [BroadcastManager.step] at hstep
  split at hstep
  · rename_i hunused
    cases BroadcastManager.processHello_heard hstep with
    | own => exact h
    | timed => exact h
    | noTimer =>
        have hsame := BroadcastManager.timerRegistered_unchanged w id answers.timer w.loop
        exact ⟨hsame.timersAgree h.agree, hcreated, h.own⟩
    | unregistered =>
        have hsame := BroadcastManager.timerRegistered_unchanged w id answers.timer w.loop
        exact ⟨hsame.timersAgree h.agree, hcreated, h.own⟩
    | @tracked token loop ifname hstart =>
        have hsame := BroadcastManager.timerRegistered_unchanged w id answers.timer loop
        have huntimed := mt (hsame.hasTimer id).mp hstart.untimed
        have hfresh := hstart.fresh hunused h.created
        have hagree :
            ((w.timerRegistered id answers.timer loop).track id sender answers.timer token
              ifname).TimersAgree :=
          (hsame.timersAgree h.agree).track huntimed hfresh htimer
        refine ⟨hagree, hcreated, fun fd dir keeper hkeeper => ?_⟩
        replace hkeeper : loop.fdToCallback ⟨fd, dir⟩ = some keeper := hkeeper
        obtain ⟨-, -, hslots, -, -, -⟩ := EpollLoop.registerAction_eq_some hstart.registered
        rw [hslots, PartialMap.set_apply] at hkeeper
        split at hkeeper
        · rename_i hkey
          rw [← Option.some.inj hkeeper]
          exact (FdDirection.mk.inj hkey).1.symm
        · exact h.own fd dir keeper hkeeper
  · exact absurd hstep (by simp)

theorem Timed.peerLost (h : Timed w) (fd : Fd) (ok : Bool) : Timed (w.processPeerLost fd ok) := by
  have hstep : w.step (.peerLost fd ok) = some (w.processPeerLost fd ok) := rfl
  have hcreated := h.created.step hstep
  cases hfd : w.fdToPeer fd with
  | none =>
      have hsame : w.processPeerLost fd ok = w := by
        simp only [BroadcastManager.processPeerLost, hfd]
      rwa [hsame]
  | some entry =>
      obtain ⟨p, token⟩ := entry
      refine ⟨h.agree.peerLost hfd ok, hcreated, fun fd' dir keeper hkeeper => ?_⟩
      rw [BroadcastManager.processPeerLost_some hfd] at hkeeper
      replace hkeeper :
        (w.loop.deregisterAction token ok).2.fdToCallback ⟨fd', dir⟩ = some keeper := hkeeper
      refine h.own fd' dir keeper ?_
      rcases EpollLoop.deregisterAction_cases w.loop token
          ok with ⟨-, heq⟩ | ⟨_, -, -, heq⟩ | ⟨_, _, -, -, _, _, heq⟩
      · rwa [heq] at hkeeper
      · rwa [heq] at hkeeper
      · rw [heq] at hkeeper
        exact ((PartialMap.erase_eq_some _).mp hkeeper).2

theorem Timed.sets (h : Timed s.manager) {id : PeerId} {answers : BroadcastManager.TimerAnswers}
    {fd : Fd} (hheard : s.isHeard id answers fd = true) : s.setsTimer id answers fd = true := by
  simp only [isHeard, Bool.or_eq_true, Bool.and_eq_true, decide_eq_true_eq] at hheard
  rcases hheard with hsets | ⟨hother, hentry⟩
  · exact hsets
  · obtain ⟨⟨p, token⟩, hfd, rfl⟩ := Option.map_eq_some_iff.mp hentry
    obtain ⟨hpeer, hzero⟩ := (h.agree p fd).mpr ⟨token, hfd⟩
    simp [setsTimer, BroadcastManager.readTimer, hpeer, hzero, hother]

/-! ### One step -/

theorem Sound.timed (h : s.Sound) : Timed s.manager := ⟨h.agree, h.created, h.own⟩

theorem Sound.mk' (h : Timed s.manager)
    (hreadable : ∀ fd, s.readable fd = true → s.silent fd = true)
    (hbatch : ∀ fd, .timer fd ∈ s.batch → s.silent fd = true ∨ s.heard fd = true)
    (hlosses : s.OnlySilentLost) : s.Sound :=
  ⟨h.agree, h.created, h.own, hreadable, hbatch, hlosses⟩

/-- Nothing but the array and what was heard of since it was filled has changed. -/
theorem Sound.goesOn (h : s.Sound) {batch : List BatchEvent} {heard : Fd → Bool}
    (hbatch : ∀ fd, .timer fd ∈ batch → s.silent fd = true ∨ heard fd = true) :
    Sound { s with batch := batch, heard := heard } :=
  .mk' h.timed h.readable hbatch h.losses

theorem Sound.expire (h : s.Sound) (fd : Fd) :
    Sound { s with
      readable := fun fd' => s.readable fd' || fd' = fd
      silent := fun fd' => s.silent fd' || fd' = fd
      heard := fun fd' => s.heard fd' && fd' ≠ fd } := by
  refine .mk' h.timed (fun fd' hreadable => ?_) (fun fd' hmem => ?_) h.losses
  · simp only [Bool.or_eq_true] at hreadable ⊢
    exact hreadable.imp_left (h.readable fd')
  · by_cases hfd : fd' = fd
    · exact .inl (by simp [hfd])
    · exact (h.batch fd' hmem).imp (by simp +contextual) (by simp +contextual [hfd])

theorem Sound.polled (h : s.Sound) {events : List BatchEvent}
  (hreports : ∀ e ∈ events, s.Reports e) :
  Sound { s with batch := events, heard := fun _ => false } :=
  h.goesOn fun fd hmem => .inl (h.readable fd (hreports (.timer fd) hmem).2)

theorem Sound.hello (h : s.Sound) {sender : InAddr} {id : PeerId} {needNotify : Bool}
    {answers : BroadcastManager.TimerAnswers} {manager : BroadcastManager}
    (htimer : answers.timer ≠ 0)
    (hstep : s.manager.step (.hello sender id needNotify answers) = some manager) : Sound { s with
      manager := manager
      readable := fun fd => s.readable fd && !s.setsTimer id answers fd
      silent := fun fd => s.silent fd && !s.isHeard id answers fd
      heard := fun fd => s.heard fd || s.isHeard id answers fd } := by
  refine .mk' (h.timed.hello htimer hstep) (fun fd hreadable => ?_) (fun fd hmem => ?_) h.losses
  · simp only [Bool.and_eq_true, Bool.not_eq_true'] at hreadable ⊢
    obtain ⟨hold, hunset⟩ := hreadable
    refine ⟨h.readable fd hold, ?_⟩
    -- the timer of whoever is heard of is set, and so it is not readable any more
    by_contra hheard
    rw [h.timed.sets (by simpa using hheard)] at hunset
    exact absurd hunset (by simp)
  · by_cases hheard : s.isHeard id answers fd = true
    · exact .inr (by simp [hheard])
    · exact (h.batch fd hmem).imp (by simp [hheard]) (by simp +contextual)

theorem Sound.networkUpdated (h : s.Sound) (ifs : List String) :
    Sound { s with manager := s.manager.processNetworkUpdate ifs } :=
  ⟨h.agree, h.created, h.own, h.readable, h.batch, h.losses⟩

/-- A timer removes its peer: it was silent if its peer was not heard of since. -/
theorem Sound.processPeerLost (h : s.Sound) {fd : Fd} (ok : Bool)
    (hsilent : s.manager.fdToPeer fd ≠ none → s.silent fd = true) :
    (s.processPeerLost fd ok).Sound := by
  refine .mk' (h.timed.peerLost fd ok) (fun fd' hreadable => ?_) h.batch fun loss hloss => ?_
  · simp only [BroadcastLoop.processPeerLost, Bool.and_eq_true] at hreadable
    exact h.readable fd' hreadable.1
  · simp only [BroadcastLoop.processPeerLost, List.mem_append, Option.mem_toList,
      Option.map_eq_some_iff] at hloss
    rcases hloss with hloss | ⟨entry, hentry, rfl⟩
    · exact h.losses loss hloss
    · exact hsilent (by simp [hentry])

theorem Sound.step (h : s.Sound) {event : Event} (htimely : s.Timely event)
    (hstep : s.step event = some s') : s'.Sound := by
  cases event with
  | expire fd =>
      simp only [BroadcastLoop.step] at hstep
      split at hstep
      · rw [← Option.some.inj hstep]
        exact h.expire fd
      · exact absurd hstep (by simp)
  | poll events =>
      simp only [BroadcastLoop.step] at hstep
      split at hstep
      · rename_i hpoll
        rw [← Option.some.inj hstep]
        exact h.polled hpoll.2
      · exact absurd hstep (by simp)
  | hello sender id needNotify answers =>
      simp only [BroadcastLoop.step] at hstep
      split at hstep
      · obtain ⟨manager, hmanager, rfl⟩ := Option.map_eq_some_iff.mp hstep
        exact h.hello htimely hmanager
      · exact absurd hstep (by simp)
  | next ok ifs =>
      simp only [BroadcastLoop.step] at hstep
      split at hstep
      · exact absurd hstep (by simp)
      · rename_i rest hbatch
        rw [← Option.some.inj hstep]
        exact h.goesOn fun fd hmem => h.batch fd (by simp [hbatch, hmem])
      · rename_i rest hbatch
        rw [← Option.some.inj hstep]
        have hrest : Sound { s with batch := rest } :=
          h.goesOn fun fd hmem => h.batch fd (by simp [hbatch, hmem])
        exact hrest.networkUpdated ifs
      · rename_i fd rest hbatch
        have hrest : Sound { s with batch := rest } :=
          h.goesOn fun fd hmem => h.batch fd (by simp [hbatch, hmem])
        split at hstep
        · rw [← Option.some.inj hstep]
          exact hrest
        · rename_i tfd hcallback
          rw [← Option.some.inj hstep]
          obtain ⟨keeper, hkeeper, hfd⟩ := Option.map_eq_some_iff.mp hcallback
          rw [← hfd, h.own fd .input keeper hkeeper]
          refine hrest.processPeerLost ok fun hpeer => ?_
          have hunheard : s.heard fd = false := htimely (.timer fd) (by simp [hbatch]) hpeer
          refine (h.batch fd (by simp [hbatch])).resolve_right ?_
          simp [hunheard]

/-! ### Every run -/

/-- In a run in which no hello comes between a timer's report and its turn, a peer is removed only
when it has been silent. -/
theorem onlySilentLost_of_timely {self : PeerId} {events : List Event}
    (heach : machine.EachStep Timely (init self) events) :
    machine.Always OnlySilentLost (init self) events :=
  Machine.always_of_eachStep (fun _ h => h.losses)
    (fun _ _ _ h htimely hstep => h.step htimely hstep) events (init_sound self) heach

def heardBy : PeerId := ⟨[2, 2, 2, 2, 2, 2], rfl⟩
def heardOf : PeerId := ⟨[1, 1, 1, 1, 1, 1], rfl⟩

/-- A peer is heard of, and its timer expires and removes it. -/
def silence : List Event :=
  [.poll [.socket], .hello 10 heardOf true ⟨5, true, some "eth0"⟩, .next true [], .expire 5,
    .poll [.timer 5], .next true []]

/-- A peer is heard of, its timer expires, and it is heard of once more before it is the turn of the
timer. -/
def crossing : List Event :=
  [.poll [.socket], .hello 10 heardOf true ⟨5, true, some "eth0"⟩, .next true [], .expire 5,
    .poll [.socket, .timer 5], .hello 10 heardOf true ⟨6, true, some "eth0"⟩, .next true [],
    .next true []]

theorem onlySilentLost_of_silence : machine.Always OnlySilentLost (init heardBy) silence :=
  onlySilentLost_of_timely (by decide +kernel)

/-- A hello that comes before the turn of the timer sets the timer again, and does not save the
peer. -/
theorem peer_heard_in_time_is_lost : ¬ machine.Always OnlySilentLost (init heardBy) crossing := by
  intro h
  have hlast := (h.last rfl : OnlySilentLost _)
  exact absurd (hlast (heardOf, false) (by decide +kernel)) (by decide)

end BroadcastLoop

end Diplom
