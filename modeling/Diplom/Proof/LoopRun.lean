import Diplom.Transport.LoopRun

/-!
# The steps of the loop's thread

`Steps` lists what each event does, once, with what it found; the invariants of the thread are
proved about it.
-/

namespace Diplom

namespace LoopRun

variable {Keep : Type}

inductive Steps (s : LoopRun Keep) : LoopEvent Keep → LoopRun Keep → Prop
  | pollFailed (hthread : s.thread = .polling) : Steps s (.poll none) { s with thread := .returned }
  | polled {events : List Reported} (hthread : s.thread = .polling)
      (hreports : ∀ r ∈ events, s.Reports r) :
      Steps s (.poll (some events)) { s with thread := .handling events }
  | batchDone (hthread : s.thread = .handling []) : Steps s .next { s with thread := .polling }
  | stopped {rest : List Reported} (hthread : s.thread = .handling (.stop :: rest)) :
      Steps s .next { s with thread := .returned }
  | removing {rest : List Reported} (hthread : s.thread = .handling (.remove :: rest)) :
      Steps s .next { s with thread := .draining rest }
  | event {fd : Fd} {events : EpollEvents} {sock : Sock} {rest : List Reported}
      (hthread : s.thread = .handling (.io fd events sock :: rest)) :
      Steps s .next { s with thread := .dispatching (dispatches fd events sock) rest }
  | eventDone {rest : List Reported} (hthread : s.thread = .dispatching [] rest) :
      Steps s .next { s with thread := .handling rest }
  | found {d : Dispatch} {calls : List Dispatch} {rest : List Reported}
      {keeper : CallbackKeeper CallbackId Keep}
      (hthread : s.thread = .dispatching (d :: calls) rest)
      (hslot : s.loop.fdToCallback d.key = some keeper) :
      Steps s .fetch { s with thread := .running keeper.callback calls rest }
  | notFound {d : Dispatch} {calls : List Dispatch} {rest : List Reported}
      (hthread : s.thread = .dispatching (d :: calls) rest)
      (hslot : s.loop.fdToCallback d.key = none) :
      Steps s .fetch { s with thread := .dispatching calls rest }
  | finished {callback : CallbackId} {calls : List Dispatch} {rest : List Reported}
      (hthread : s.thread = .running callback calls rest) :
      Steps s .finish { s with thread := .dispatching calls rest }
  | drained {rest : List Reported} (hthread : s.thread = .draining rest)
      (hqueue : s.loop.removeQueue = []) : Steps s .drain { s with thread := .handling rest }
  | takenOut {callback : CallbackId} {queue : List CallbackId} {rest : List Reported}
      (hthread : s.thread = .draining rest)
      (hqueue : s.loop.removeQueue = callback :: queue) :
      Steps s .drain { s with
        loop := { s.loop with removeQueue := queue }, thread := .destroying callback rest }
  | destroyed {callback : CallbackId} {rest : List Reported}
      (hthread : s.thread = .destroying callback rest) :
      Steps s .destroyed { s with destroyed := s.destroyed ++ [callback], thread := .draining rest }
  | call (call : LoopCall Unit Keep) : Steps s (.call call) (s.callStep call)
  | opened {fd : Fd} (hfree : s.fds fd = none) :
      Steps s (.openFd fd) { s with fds := s.fds.set fd s.nextSock, nextSock := s.nextSock + 1 }
  | closed (fd : Fd) :
      Steps s (.closeFd fd) { s with fds := s.fds.erase fd, loop :=
        { s.loop with interest := s.loop.interest.erase fd } }

variable {s t : LoopRun Keep}

theorem steps_next (h : s.step .next = some t) : s.Steps .next t := by
  simp only [step] at h
  split at h
  · rename_i hthread
    exact Option.some.inj h ▸ .batchDone hthread
  · rename_i rest hthread
    exact Option.some.inj h ▸ .stopped hthread
  · rename_i rest hthread
    exact Option.some.inj h ▸ .removing hthread
  · rename_i fd events sock rest hthread
    exact Option.some.inj h ▸ .event hthread
  · rename_i rest hthread
    exact Option.some.inj h ▸ .eventDone hthread
  · exact absurd h (by simp)

theorem steps_fetch (h : s.step .fetch = some t) : s.Steps .fetch t := by
  simp only [step] at h
  split at h
  · rename_i d calls rest hthread
    split at h
    · rename_i keeper hslot
      exact Option.some.inj h ▸ .found hthread hslot
    · rename_i hslot
      exact Option.some.inj h ▸ .notFound hthread hslot
  · exact absurd h (by simp)

theorem steps_drain (h : s.step .drain = some t) : s.Steps .drain t := by
  simp only [step] at h
  split at h
  · rename_i rest hthread
    split at h
    · rename_i hqueue
      exact Option.some.inj h ▸ .drained hthread hqueue
    · rename_i callback queue hqueue
      exact Option.some.inj h ▸ .takenOut hthread hqueue
  · exact absurd h (by simp)

theorem steps_poll {events : Option (List Reported)} (h : s.step (.poll events) = some t) :
    s.Steps (.poll events) t := by
  cases events with
  | none =>
      simp only [step] at h
      split at h
      · rename_i hthread
        exact Option.some.inj h ▸ .pollFailed hthread
      · exact absurd h (by simp)
  | some events =>
      simp only [step] at h
      split at h
      · rename_i hpolled
        exact Option.some.inj h ▸ .polled hpolled.1 hpolled.2.2
      · exact absurd h (by simp)

theorem step_cases {event : LoopEvent Keep} (h : s.step event = some t) : s.Steps event t := by
  cases event with
  | poll events => exact steps_poll h
  | next => exact steps_next h
  | fetch => exact steps_fetch h
  | finish =>
      simp only [step] at h
      split at h
      · rename_i callback calls rest hthread
        exact Option.some.inj h ▸ .finished hthread
      · exact absurd h (by simp)
  | drain => exact steps_drain h
  | destroyed =>
      simp only [step] at h
      split at h
      · rename_i callback rest hthread
        exact Option.some.inj h ▸ .destroyed hthread
      · exact absurd h (by simp)
  | call call => exact Option.some.inj h ▸ .call call
  | openFd fd =>
      simp only [step] at h
      split at h
      · rename_i hfree
        exact Option.some.inj h ▸ .opened hfree.2
      · exact absurd h (by simp)
  | closeFd fd => exact Option.some.inj h ▸ .closed fd

end LoopRun

end Diplom
