import Diplom.Proof.AsyncLoop
import Diplom.Proof.PeerHello

/-!
# The timers of lost peers

A timer is created with its action and entered in `fdToPeer_`. When its peer is lost, the action and
the entry go and the descriptor stays open, with nothing left that knows it; and so does a timer
whose action could not be registered.
-/

namespace Diplom

namespace BroadcastManager

variable {w w' : BroadcastManager}

/-- The open timers are those of `fdToPeer_`, and each has one action, under the token that is
stored with its peer. -/
structure TimersOwned (w : BroadcastManager) : Prop where
  known : ∀ fd, fd ∈ w.timers ↔ w.fdToPeer fd ≠ none
  action : ∀ fd p token, w.fdToPeer fd = some (p, token) → w.loop.fdToCallback ⟨fd, .input⟩ ≠ none ∧
    ∀ token', w.loop.cancelMap token' = some ⟨fd, .input⟩ ↔ token' = token

/-- No new timer is refused by the loop, and no peer is lost. -/
def KeepsTimers (w : BroadcastManager) : Event → Prop
  | .hello _ id _ answers =>
      id = w.self ∨ w.HasTimer id ∨ answers.timer = -1 ∨
        w.loop.registerAction answers.timer .input answers.timer none answers.register ≠ none
  | .peerLost fd _ => w.fdToPeer fd = none
  | .networkUpdate _ => True

/-- The tokens in use lead to actions of timers. -/
structure TimerTokens (w : BroadcastManager) : Prop where
  loop : w.loop.Wf
  leads : ∀ token key, w.loop.cancelMap token = some key → key.fd ∈ w.timers

theorem init_timerTokens (self : PeerId) : (init self).TimerTokens :=
  ⟨EpollLoop.init_wf, fun _ _ h => absurd h (by simp [init])⟩

theorem init_timersOwned (self : PeerId) : (init self).TimersOwned :=
  ⟨fun _ => by simp [init], fun _ _ _ h => absurd h (by simp [init])⟩

section Started

variable {id : PeerId} {answers : TimerAnswers} {token : CancellationToken}
  {loop : EpollLoop Fd Unit} {ifname : String} {sender : InAddr} {needNotify : Bool}

theorem TimerTokens.tracked (h : w.TimerTokens)
    (hstart : w.StartsTracking id answers token loop ifname) :
    (((w.timerRegistered id answers.timer loop).track id sender answers.timer token ifname).record
      (foundDeeds id needNotify)).TimerTokens := by
  obtain ⟨-, -, -, hcancel, -, -⟩ := EpollLoop.registerAction_eq_some hstart.registered
  rw [PartialMap.insert_of_none _ h.loop.next_free] at hcancel
  refine ⟨h.loop.registerAction hstart.registered, fun token' key hkey => ?_⟩
  replace hkey : loop.cancelMap token' = some key := hkey
  rw [hcancel, PartialMap.set_apply] at hkey
  split at hkey
  · exact Option.some.inj hkey ▸ List.mem_cons_self
  · exact List.mem_cons_of_mem _ (h.leads token' key hkey)

theorem TimersOwned.tracked (h : w.TimersOwned) (htokens : w.TimerTokens)
    (hstart : w.StartsTracking id answers token loop ifname) (hunused : w.Unused answers.timer) :
    (((w.timerRegistered id answers.timer loop).track id sender answers.timer token ifname).record
      (foundDeeds id needNotify)).TimersOwned := by
  have hnew : answers.timer ∉ w.timers := (hunused.resolve_left hstart.created).2
  have hfresh : w.fdToPeer answers.timer = none := by
    by_contra hne
    exact hnew ((h.known _).mpr hne)
  obtain ⟨-, htoken, hslots, hcancel, -, -⟩ := EpollLoop.registerAction_eq_some hstart.registered
  rw [PartialMap.insert_of_none _ htokens.loop.next_free, ← htoken] at hcancel
  constructor
  · intro fd
    show fd ∈ answers.timer :: w.timers ↔ (w.fdToPeer.insert answers.timer (id, token)) fd ≠ none
    rw [PartialMap.insert_of_none _ hfresh, PartialMap.set_apply, List.mem_cons]
    by_cases hfd : fd = answers.timer
    · simp [hfd]
    · simpa [hfd] using h.known fd
  · intro fd p stored hentry
    replace hentry : (w.fdToPeer.insert answers.timer (id, token)) fd = some (p, stored) := hentry
    show loop.fdToCallback ⟨fd, .input⟩ ≠ none ∧ ∀ token',
        loop.cancelMap token' = some ⟨fd, .input⟩ ↔ token' = stored
    rw [PartialMap.insert_of_none _ hfresh, PartialMap.set_apply] at hentry
    rw [hslots, hcancel]
    by_cases hfd : fd = answers.timer
    · rw [if_pos hfd] at hentry
      obtain ⟨-, rfl⟩ := Prod.mk.inj (Option.some.inj hentry)
      refine ⟨by simp [hfd], fun token' => ?_⟩
      rw [PartialMap.set_apply]
      split
      · rename_i heq
        simp [hfd, heq]
      · rename_i hne
        refine iff_of_false (fun hold => hnew ?_) hne
        exact hfd ▸ htokens.leads token' _ hold
    · rw [if_neg hfd] at hentry
      obtain ⟨hslot, hown⟩ := h.action fd p stored hentry
      have hkey : (⟨fd, .input⟩ : FdDirection) ≠ ⟨answers.timer, .input⟩ :=
        fun heq => hfd (FdDirection.mk.inj heq).1
      refine ⟨by rwa [PartialMap.set_of_ne _ hkey], fun token' => ?_⟩
      rw [PartialMap.set_apply]
      split
      · rename_i heq
        refine iff_of_false (fun hsame => hkey (Option.some.inj hsame).symm) fun hstored => ?_
        have hissued := htokens.loop.issued _ _ ((hown stored).mpr rfl)
        rw [← hstored, heq, htoken] at hissued
        exact Nat.lt_irrefl _ hissued
      · exact hown token'

end Started

theorem TimersOwned.not_peerLost (h : w.TimersOwned) {fd : Fd} (hfd : w.fdToPeer fd ≠ none)
    (ok : Bool) : ¬ (w.processPeerLost fd ok).TimersOwned := by
  obtain ⟨⟨p, token⟩, hentry⟩ := Option.ne_none_iff_exists'.mp hfd
  rw [processPeerLost_some hentry]
  intro ht
  exact (ht.known fd).mp ((h.known fd).mpr hfd) (PartialMap.erase_self w.fdToPeer fd)

theorem processPeerLost_none {fd : Fd} (hfd : w.fdToPeer fd = none) (ok : Bool) :
    w.processPeerLost fd ok = w := by
  simp only [processPeerLost, hfd]

theorem TimerTokens.step (h : w.TimerTokens) {event : Event} (hstep : w.step event = some w') :
    w'.TimerTokens := by
  cases event with
  | hello sender id needNotify answers =>
      simp only [BroadcastManager.step] at hstep
      split at hstep
      · cases processHello_heard hstep with
        | own => exact h
        | timed => exact h
        | noTimer => exact ⟨h.loop, h.leads⟩
        | unregistered =>
            exact ⟨h.loop, fun token key hkey => List.mem_cons_of_mem _ (h.leads token key hkey)⟩
        | tracked hstart => exact h.tracked hstart
      · exact absurd hstep (by simp)
  | peerLost fd ok =>
      obtain rfl := Option.some.inj hstep
      cases hfd : w.fdToPeer fd with
      | none => rwa [processPeerLost_none hfd]
      | some entry =>
          obtain ⟨p, token⟩ := entry
          rw [processPeerLost_some hfd]
          refine ⟨h.loop.deregisterAction token ok, fun token' key hkey => ?_⟩
          replace hkey : (w.loop.deregisterAction token ok).2.cancelMap token' = some key := hkey
          refine h.leads token' key ?_
          rcases EpollLoop.deregisterAction_cases w.loop token
              ok with ⟨-, heq⟩ | ⟨_, -, -, heq⟩ | ⟨_, _, -, -, _, _, heq⟩
          · rwa [heq] at hkey
          · rw [heq] at hkey
            exact ((PartialMap.erase_eq_some _).mp hkey).2
          · rw [heq] at hkey
            exact ((PartialMap.erase_eq_some _).mp hkey).2
  | networkUpdate ifs =>
      obtain rfl := Option.some.inj hstep
      exact ⟨h.loop, h.leads⟩

/-- From owned timers a step leads to owned timers exactly if it meets the condition. -/
theorem TimersOwned.step_iff (h : w.TimersOwned) (htokens : w.TimerTokens) {event : Event}
    (hstep : w.step event = some w') : w'.TimersOwned ↔ w.KeepsTimers event := by
  cases event with
  | hello sender id needNotify answers =>
      simp only [BroadcastManager.step] at hstep
      split at hstep
      · rename_i hunused
        cases processHello_heard hstep with
        | own hself => exact iff_of_true h (.inl hself)
        | timed _ htimed => exact iff_of_true h (.inr (.inl htimed))
        | noTimer _ _ hfailed => exact iff_of_true ⟨h.known, h.action⟩ (.inr (.inr (.inl hfailed)))
        | unregistered hother huntimed hcreated hrefused =>
            refine iff_of_false (fun ht => ?_) ?_
            · have hnew : answers.timer ∉ w.timers := (hunused.resolve_left hcreated).2
              exact hnew ((h.known _).mpr ((ht.known answers.timer).mp List.mem_cons_self))
            · rintro (hself | htimed | hfailed | hregistered)
              · exact hother hself
              · exact huntimed htimed
              · exact hcreated hfailed
              · exact hregistered hrefused
        | tracked hstart =>
            refine iff_of_true (h.tracked htokens hstart hunused) (.inr (.inr (.inr ?_)))
            rw [hstart.registered]
            simp
      · exact absurd hstep (by simp)
  | peerLost fd ok =>
      obtain rfl := Option.some.inj hstep
      by_cases hfd : w.fdToPeer fd = none
      · rw [processPeerLost_none hfd]
        exact iff_of_true h hfd
      · exact iff_of_false (h.not_peerLost hfd ok) hfd
  | networkUpdate ifs =>
      obtain rfl := Option.some.inj hstep
      exact iff_of_true ⟨h.known, h.action⟩ trivial

/-- The open timers are those of the tracked peers throughout a run exactly if no peer is lost in it
and the loop refuses no new timer. -/
theorem timersOwned_iff_keepsTimers (self : PeerId) (events : List Event) :
    machine.Always TimersOwned (init self) events ↔
      machine.EachStep KeepsTimers (init self) events :=
  Machine.always_iff_eachStep (fun _ _ _ h hstep => h.step hstep)
    (fun _ _ _ htokens h hstep => h.step_iff htokens hstep) events (init_timerTokens self)
    (init_timersOwned self)

/-- A peer that is found and lost. -/
theorem lost_peer_leaves_timer_open :
    ¬ ∀ (self : PeerId) (events : List Event) (w : BroadcastManager),
      machine.exec (init self) events = some w → w.TimersOwned := by
  intro h
  let peer : PeerId := ⟨[1, 1, 1, 1, 1, 1], rfl⟩
  have hrun : (machine.exec (init ⟨[2, 2, 2, 2, 2, 2], rfl⟩)
      [.hello 0x0100A8C0 peer true ⟨5, true, some "eth0"⟩, .peerLost 5 true]).map
        (fun w => (w.timers, w.fdToPeer 5)) = some ([5], none) := by
    decide +kernel
  obtain ⟨w, hexec, hw⟩ := Option.map_eq_some_iff.mp hrun
  obtain ⟨htimers, hentry⟩ := Prod.mk.inj hw
  exact ((h _ _ w hexec).known 5).mp (by rw [htimers]; exact List.mem_singleton.mpr rfl) hentry

end BroadcastManager

end Diplom
