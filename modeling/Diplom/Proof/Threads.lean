import Diplom.Proof.Actions
import Diplom.Proof.Sections

/-!
# Steps of two threads

What a step of the process can be, said once: a section of one thread, a new call, or a part of a
callback. A running callback has left its closure in the table, and its token leads there until the
callback hands it back.
-/

namespace Diplom

/-! ### Closures of one operation -/

/-- Two closures of the same operation. -/
inductive Closure.Alike : Closure OnMessage OnSent → Closure OnMessage OnSent → Prop
  | recv (op op' : RecvOp) (resolve : OnMessage) : Alike (.recv op resolve) (.recv op' resolve)
  | send (op op' : SendOp) (resolve : OnSent) : Alike (.send op resolve) (.send op' resolve)

namespace Closure.Alike

variable {c c' : Closure OnMessage OnSent}

theorem refl (c : Closure OnMessage OnSent) : c.Alike c := by
  cases c with
  | recv op resolve => exact .recv op op resolve
  | send op resolve => exact .send op op resolve

theorem dir (h : c.Alike c') : c.dir = c'.dir := by
  cases h <;> rfl

end Closure.Alike

namespace Running

/-- The section that gives the result to the lambda. -/
def Resolves (r : Running) (next : Section) : Prop :=
  match r.closure with
  | .recv _ resolve => ∃ res, next = .received r.handle resolve res
  | .send _ resolve => ∃ res, next = .sent r.handle resolve res

def Fits (r : Running) : Outcome → Prop
  | .keep next => next.Alike r.closure
  | .replace next => next.Alike r.closure
  | .resolve next => r.Resolves next
  | .abort => True

theorem resolves_failed (r : Running) : r.Resolves r.failed := by
  unfold Resolves failed
  cases r.closure with
  | recv op resolve => exact ⟨_, rfl⟩
  | send op resolve => exact ⟨_, rfl⟩

/-- A running callback, its object and its token. -/
structure Wf (r : Running) (io : Io OnMessage OnSent) : Prop where
  fd : r.afd.fd = r.handle.fd
  token : io.loop.cancelMap r.afd.token = some r.key
  fits : ∀ outcome, r.outcome = some outcome → r.Fits outcome

end Running

namespace Io

variable {io : Io OnMessage OnSent}

theorem keep_kept (h : io.Wf) {r : Running} (hfd : r.afd.fd = r.handle.fd)
  {next : Closure OnMessage OnSent} (hnext : next.Alike r.closure) (hholds : io.Holds r.key r.afd) :
  ({ io with loop := r.afd.keep io.loop next } : Io OnMessage OnSent).Wf ∧
    ({ io with loop := r.afd.keep io.loop next } : Io OnMessage OnSent).actionAt
      = io.actionAt.set r.key next ∧ (r.afd.keep io.loop next).cancelMap = io.loop.cancelMap := by
  obtain ⟨hslot, hobj⟩ := hholds
  obtain ⟨keeper, hkeeper⟩ := Option.ne_none_iff_exists'.mp (PartialMap.contains_eq_true.mp hslot)
  obtain ⟨a, ha, -, hdir, harmed⟩ := h.armed _ _ hkeeper
  obtain rfl := Option.some.inj (ha.symm.trans hobj)
  have hkey : (⟨r.afd.fd, next.dir⟩ : FdDirection) = r.key := by rw [hfd, hnext.dir, Running.key]
  have hnextdir : next.dir = keeper.callback.dir := by rw [hdir, ← hkey]
  obtain ⟨hkept, hsame⟩ := harmed.keep next hnextdir
  have hkey' : (⟨r.afd.fd, keeper.callback.dir⟩ : FdDirection) = r.key := by rw [← hnextdir, hkey]
  rw [hkey'] at hsame
  refine ⟨h.of_same hsame hkept.wf (fun _ _ => rfl) fun keeper' hkeeper' => ?_, ?_, ?_⟩
  · have hslot' := hkept.slot
    rw [hkey] at hslot'
    obtain rfl := Option.some.inj (hkeeper'.symm.trans hslot')
    exact ⟨r.afd, hobj, by rw [← hkey], by rw [← hkey], hkept⟩
  · funext key
    by_cases hk : key = r.key
    · rw [hk, PartialMap.set_self, actionAt_apply, ← hkey, hkept.slot]
      rfl
    · rw [PartialMap.set_of_ne _ hk]
      exact actionAt_congr (hsame.slots key hk)
  · unfold AsyncFd.keep
    split <;> rfl

theorem replaceAction_replaced (h : io.Wf) {r : Running}
    (htoken : io.loop.cancelMap r.afd.token = some r.key) {next : Closure OnMessage OnSent}
    (hnext : next.Alike r.closure) {loop : AsyncLoop OnMessage OnSent}
    (hreplace : io.loop.replaceAction r.afd.token next = (true, loop)) :
    ({ io with loop := loop } : Io OnMessage OnSent).Wf ∧ io.actionAt r.key ≠ none ∧
      ({ io with loop := loop } : Io OnMessage OnSent).actionAt = io.actionAt.set r.key next ∧
      loop.cancelMap = io.loop.cancelMap := by
  rcases EpollLoop.replaceAction_cases io.loop r.afd.token
      next with ⟨hfalse, _⟩ | ⟨key, keeper, hkey, hkeeper, heq⟩
  · exact absurd (hreplace.symm.trans hfalse) (by simp)
  · obtain rfl := Option.some.inj (hkey.symm.trans htoken)
    obtain ⟨a, hobj, hfd, hdir, harmed⟩ := h.armed _ _ hkeeper
    have hkeep : keeper.keepLink = some () := by
      have hslot := harmed.slot
      rw [hfd, hdir] at hslot
      rw [Option.some.inj (hkeeper.symm.trans hslot)]
    obtain ⟨-, rfl⟩ := Prod.mk.inj (hreplace.symm.trans heq)
    have hsame : EpollLoop.SameElsewhere r.key io.loop
        { io.loop with
          removeQueue := io.loop.removeQueue ++ [keeper.callback]
          fdToCallback := io.loop.fdToCallback.set r.key { keeper with callback := next } } :=
      ⟨fun _ hne => PartialMap.set_of_ne _ hne _, fun _ _ _ ht => ht⟩
    refine ⟨h.of_same hsame ⟨h.loop.next_pos, h.loop.issued⟩ (fun _ _ => rfl)
      fun keeper' hkeeper' => ?_, ?_, ?_, rfl⟩
    · obtain rfl := Option.some.inj (hkeeper'.symm.trans (PartialMap.set_self _ _ _))
      have hnextkey : (⟨a.fd, next.dir⟩ : FdDirection) = r.key := by
        rw [hfd, hnext.dir, Running.key]
      refine ⟨a, hobj, hfd, hnext.dir, ⟨h.loop.next_pos, h.loop.issued⟩, harmed.token_ne, ?_, ?_⟩
      · have hown := harmed.token_own
        rw [hdir, hfd] at hown
        rw [hnextkey]
        exact hown
      · rw [hnextkey, ← hkeep]
        exact PartialMap.set_self _ _ _
    · rw [ne_eq, actionAt_eq_none, hkeeper]
      simp
    · funext key
      by_cases hk : key = r.key
      · rw [hk, PartialMap.set_self, actionAt_apply]
        simp
      · rw [PartialMap.set_of_ne _ hk]
        exact actionAt_congr (hsame.slots key hk)

theorem handBack_handed (h : io.Wf) {a : AsyncFd} {key : FdDirection}
    (htoken : io.loop.cancelMap a.token = some key) (ok : Bool) :
    (io.handBack a ok).Wf ∧ (io.handBack a ok).actionAt = io.actionAt.erase key ∧
      SameSockets io (io.handBack a ok) := by
  have hfewer := destroy_fewer h a.token ok
  exact ⟨⟨hfewer.wf.loop, hfewer.wf.armed⟩, destroy_actions io htoken ok,
    ⟨hfewer.order, hfewer.fds, hfewer.nextSock, hfewer.closes⟩⟩

end Io

/-! ### The steps -/

namespace Process

/-- Every way a step can go. -/
inductive Step (p : Process) : Input → Process → Prop
  | lock {t : ThreadId} {answer : Answer} {rest : List Section}
      (hwork : p.work t = .lockConn :: rest) (hfree : p.connMutex = none) :
      Step p (.run t answer) { p.setWork t rest with connMutex := some t }
  | unlock {t : ThreadId} {answer : Answer} {rest : List Section}
      (hwork : p.work t = .unlockConn :: rest) :
      Step p (.run t answer) { p.setWork t rest with connMutex := none }
  | run {t : ThreadId} {answer : Answer} {sec : Section} {rest next : List Section}
      {shared : Shared} (hwork : p.work t = sec :: rest)
      (hrun : p.shared.run answer sec = some (shared, next)) :
      Step p (.run t answer) { p.setWork t (next ++ rest) with shared := shared }
  | call {t : ThreadId} {call : Call} (hidle : p.Idle t) :
      Step p (.call t call) (p.setWork t call.sections)
  | accept {fd : Fd} (hidle : p.Idle .eventLoop) (hfd : p.shared.manager.Unused fd) :
      Step p (.accept fd)
        ((p.setIo (p.shared.manager.io.openFd fd)).setWork .eventLoop
          [.recvMessage (p.shared.newHandle fd) .incomingHello])
  | openOther {fd : Fd} (hfd : p.shared.manager.Unused fd) :
      Step p (.openOther fd)
        { p.setIo (p.shared.manager.io.openFd fd) with others := fd :: p.others }
  | closeOther {fd : Fd} (hmem : fd ∈ p.others) :
      Step p (.closeOther fd)
        { p.setIo (p.shared.manager.io.close fd) with others := p.others.erase fd }
  | fetch {fd : Fd} {dir : IoDirection} {closure : Closure OnMessage OnSent} {a : AsyncFd}
      (hidle : p.Idle .eventLoop) (hat : p.shared.manager.io.actionAt ⟨fd, dir⟩ = some closure)
      (hobj : p.shared.manager.io.objects ⟨fd, dir⟩ = some a) :
      Step p (.fetch fd dir)
        { p with running := some ⟨⟨fd, p.shared.actionOf ⟨fd, dir⟩⟩, a, closure, none⟩ }
  | transfer {res : EpollResult} {recv : RecvReturn} {send : SendReturn} {r : Running}
      (hrunning : p.running = some r) (hfresh : r.outcome = none) :
      Step p (.transfer res recv send) { p with
        shared := (p.shared.transfer r res recv send).1
        running := some { r with outcome := some (p.shared.transfer r res recv send).2 } }
  | kept {ok : Bool} {r : Running} {next : Closure OnMessage OnSent} (hrunning : p.running = some r)
      (houtcome : r.outcome = some (.keep next)) (hholds : p.shared.manager.io.Holds r.key r.afd) :
      Step p (.finish ok)
        { p.setIo { p.shared.manager.io with
            loop := r.afd.keep p.shared.manager.io.loop next } with running := none }
  | dropped {ok : Bool} {r : Running} {next : Closure OnMessage OnSent}
      (hrunning : p.running = some r) (houtcome : r.outcome = some (.keep next))
      (hholds : ¬ p.shared.manager.io.Holds r.key r.afd) :
      Step p (.finish ok) { p with running := none }
  | replaced {ok : Bool} {r : Running} {next : Closure OnMessage OnSent}
      {loop : AsyncLoop OnMessage OnSent} (hrunning : p.running = some r)
      (houtcome : r.outcome = some (.replace next))
      (hreplace : p.shared.manager.io.loop.replaceAction r.afd.token next = (true, loop)) :
      Step p (.finish ok) { p.setIo { p.shared.manager.io with loop := loop } with running := none }
  | unreplaced {ok : Bool} {r : Running} {next : Closure OnMessage OnSent}
      (hrunning : p.running = some r) (houtcome : r.outcome = some (.replace next))
      (hreplace : (p.shared.manager.io.loop.replaceAction r.afd.token next).1 = false) :
      Step p (.finish ok) { p with running := some { r with outcome := some (.resolve r.failed) } }
  | resolved {ok : Bool} {r : Running} {next : Section} (hrunning : p.running = some r)
      (houtcome : r.outcome = some (.resolve next)) :
      Step p (.finish ok)
        { (p.setIo (p.shared.manager.io.handBack r.afd ok)).setWork .eventLoop
          [next] with running := none }
  | aborted {ok : Bool} {r : Running} (hrunning : p.running = some r)
      (houtcome : r.outcome = some .abort) :
      Step p (.finish ok) { p with shared := p.shared.setManager p.shared.manager.abort }
  | destroy {token : CancellationToken} {ok : Bool} (hidle : p.Idle .eventLoop)
      (hmem : token ∈ p.shared.manager.io.orphans) :
      Step p (.destroy token ok) (p.setIo (p.shared.manager.io.destroy token ok))

variable {p p' : Process}

theorem step_run {t : ThreadId} {answer : Answer} (h : p.step (.run t answer) = some p') :
    Step p (.run t answer) p' := by
  simp only [step] at h
  split at h
  · exact absurd h (by simp)
  · split at h
    · exact absurd h (by simp)
    · split at h
      · obtain rfl := Option.some.inj h
        exact .lock ‹_› ‹_›
      · exact absurd h (by simp)
    · obtain rfl := Option.some.inj h
      exact .unlock ‹_›
    · obtain ⟨⟨shared, next⟩, hrun, rfl⟩ := Option.map_eq_some_iff.mp h
      exact .run ‹_› hrun

theorem step_finish {ok : Bool} (h : p.step (.finish ok) = some p') : Step p (.finish ok) p' := by
  simp only [step] at h
  split at h
  · exact absurd h (by simp)
  · split at h
    · rename_i hd a closure outcome hrunning
      obtain rfl := Option.some.inj h
      cases outcome with
      | keep next =>
          by_cases hholds : p.shared.manager.io.Holds
              (Running.key ⟨hd, a, closure, some (.keep next)⟩) a
          · simp only [finish, if_pos hholds]
            exact .kept hrunning rfl hholds
          · simp only [finish, if_neg hholds]
            exact .dropped hrunning rfl hholds
      | replace next =>
          simp only [finish]
          split
          · rename_i loop hreplace
            exact .replaced hrunning rfl hreplace
          · rename_i hreplace
            exact .unreplaced hrunning rfl (congrArg Prod.fst hreplace)
      | resolve next => exact .resolved hrunning rfl
      | abort => exact .aborted hrunning rfl
    · exact absurd h (by simp)

theorem step_cases {input : Input} (h : p.step input = some p') : Step p input p' := by
  cases input with
  | run t answer => exact step_run h
  | finish ok => exact step_finish h
  | call t call =>
      simp only [step] at h
      split at h
      · exact absurd h (by simp)
      · split at h
        · obtain rfl := Option.some.inj h
          exact .call ‹_›
        · exact absurd h (by simp)
  | accept fd =>
      simp only [step] at h
      split at h
      · exact absurd h (by simp)
      · split at h
        · rename_i hcan
          obtain rfl := Option.some.inj h
          exact .accept hcan.1 hcan.2
        · exact absurd h (by simp)
  | openOther fd =>
      simp only [step] at h
      split at h
      · exact absurd h (by simp)
      · split at h
        · obtain rfl := Option.some.inj h
          exact .openOther ‹_›
        · exact absurd h (by simp)
  | closeOther fd =>
      simp only [step] at h
      split at h
      · exact absurd h (by simp)
      · split at h
        · obtain rfl := Option.some.inj h
          exact .closeOther ‹_›
        · exact absurd h (by simp)
  | fetch fd dir =>
      simp only [step] at h
      split at h
      · exact absurd h (by simp)
      · split at h
        · split at h
          · obtain rfl := Option.some.inj h
            exact .fetch ‹_› ‹_› ‹_›
          · exact absurd h (by simp)
        · exact absurd h (by simp)
  | transfer res recv send =>
      simp only [step] at h
      split at h
      · exact absurd h (by simp)
      · split at h
        · rename_i hrunning
          obtain rfl := Option.some.inj h
          exact .transfer hrunning rfl
        · exact absurd h (by simp)
  | destroy token ok =>
      simp only [step] at h
      split at h
      · exact absurd h (by simp)
      · split at h
        · rename_i hcan
          obtain rfl := Option.some.inj h
          exact .destroy hcan.1 hcan.2
        · exact absurd h (by simp)

/-! ### What every step keeps -/

end Process

namespace Shared

variable {s s' : Shared} {sec : Section} {next : List Section}

theorem Runs.io (h : s.Runs sec s' next) (hwf : s.manager.io.Wf) :
    s'.manager.io.Wf ∧ ∀ token key, s.manager.io.loop.cancelMap token = some key →
      s'.manager.io.loop.cancelMap token = some key := by
  cases h with
  | opens _ _ => exact ⟨Io.openFd_wf hwf _, fun _ _ ht => ht⟩
  | deregisterFd =>
      refine ⟨Io.deregisterFd_wf hwf _ _, fun token key ht => ?_⟩
      exact (congrFun (Io.deregisterFd_actions s.manager.io _ _).2 token).trans ht
  | closeFd => exact ⟨Io.close_wf hwf _, fun _ _ ht => ht⟩
  | closeHello => exact ⟨Io.close_wf hwf _, fun _ _ ht => ht⟩
  | recvStarted hstart =>
      have hreg := Io.registered_of_recvMessage hwf hstart
      exact ⟨hreg.wf, hreg.tokens⟩
  | sendStarted hstart =>
      have hreg := Io.registered_of_sendMessage hwf hstart
      exact ⟨hreg.wf, hreg.tokens⟩
  | _ => exact ⟨hwf, fun _ _ ht => ht⟩

theorem transfer_io (s : Shared) (r : Running) (res : EpollResult) (recv : RecvReturn)
    (send : SendReturn) :
    (s.transfer r res recv send).1.manager.io.loop = s.manager.io.loop ∧
      (s.transfer r res recv send).1.manager.io.objects = s.manager.io.objects ∧
      Io.SameSockets s.manager.io (s.transfer r res recv send).1.manager.io := by
  unfold transfer
  cases r.closure with
  | recv op resolve => exact ⟨rfl, rfl, rfl, rfl, rfl, rfl⟩
  | send op resolve => exact ⟨rfl, rfl, rfl, rfl, rfl, rfl⟩

theorem transfer_orphans (s : Shared) (r : Running) (res : EpollResult) (recv : RecvReturn)
    (send : SendReturn) :
    (s.transfer r res recv send).1.manager.io.orphans = s.manager.io.orphans := by
  unfold transfer
  cases r.closure <;> rfl

theorem transfer_logs (s : Shared) (r : Running) (res : EpollResult) (recv : RecvReturn)
    (send : SendReturn) :
    (s.transfer r res recv send).1.placed = s.placed ∧
      (s.transfer r res recv send).1.handed = s.handed := by
  unfold transfer
  cases r.closure <;> exact ⟨rfl, rfl⟩

theorem transfer_tables (s : Shared) (r : Running) (res : EpollResult) (recv : RecvReturn)
    (send : SendReturn) :
    (s.transfer r res recv send).1.manager
      = { s.manager with io := (s.transfer r res recv send).1.manager.io } := by
  unfold transfer
  cases r.closure <;> rfl

theorem transfer_fits (s : Shared) (r : Running) (res : EpollResult) (recv : RecvReturn)
    (send : SendReturn) : r.Fits (s.transfer r res recv send).2 := by
  unfold transfer
  cases hc : r.closure with
  | recv op resolve =>
      simp only [Running.recvOutcome]
      cases op.event s.manager.io.order res recv with
      | waiting op' => simpa [Running.Fits, hc] using Closure.Alike.recv op' op resolve
      | next op' => simpa [Running.Fits, hc] using Closure.Alike.recv op' op resolve
      | resolved result => simp [Running.Fits, Running.Resolves, hc]
      | aborted => trivial
  | send op resolve =>
      simp only [Running.sendOutcome]
      cases op.event res send with
      | waiting op' => simpa [Running.Fits, hc] using Closure.Alike.send op' op resolve
      | next op' => simpa [Running.Fits, hc] using Closure.Alike.send op' op resolve
      | resolved result => simp [Running.Fits, Running.Resolves, hc]
      | aborted => trivial

end Shared

namespace Process

variable {p p' : Process} {input : Input}

/-- The table is well formed, and so is what runs; the event loop does nothing else meanwhile. -/
structure Wf (p : Process) : Prop where
  io : p.shared.manager.io.Wf
  running : ∀ r, p.running = some r → r.Wf p.shared.manager.io
  alone : p.running ≠ none → p.work .eventLoop = []

theorem init_wf (self : PeerId) (order : ByteOrder) : (init self order).Wf :=
  ⟨Io.init_wf order, fun _ h => absurd h (by simp [init]), fun _ => rfl⟩

/-- While a callback runs, only the other thread has sections to run. -/
theorem Wf.thread (h : p.Wf) {t : ThreadId} {sec : Section} {rest : List Section}
    (hwork : p.work t = sec :: rest) (hrunning : p.running ≠ none) : t = .manager := by
  cases t with
  | manager => rfl
  | eventLoop => exact absurd (hwork.symm.trans (h.alone hrunning)) (by simp)

theorem setWork_of_ne (p : Process) {t t' : ThreadId} (h : t' ≠ t) (work : List Section) :
    (p.setWork t work).work t' = p.work t' :=
  if_neg h

theorem setWork_self (p : Process) (t : ThreadId) (work : List Section) :
    (p.setWork t work).work t = work := if_pos rfl

theorem mem_setWork (p : Process) {t : ThreadId} {sec : Section} {rest : List Section}
    (hwork : p.work t = sec :: rest) (next : List Section) {sec' : Section} {t' : ThreadId}
    (hmem : sec' ∈ p.work t') : sec' = sec ∨ sec' ∈ (p.setWork t (next ++ rest)).work t' := by
  by_cases ht : t' = t
  · subst ht
    rw [hwork] at hmem
    rcases List.mem_cons.mp hmem with rfl | hrest
    · exact .inl rfl
    · rw [setWork_self]
      exact .inr (List.mem_append_right _ hrest)
  · rw [setWork_of_ne p ht]
    exact .inr hmem

theorem of_mem_setWork (p : Process) {t : ThreadId} {sec : Section} {rest : List Section}
    (hwork : p.work t = sec :: rest) {next : List Section} {sec' : Section} {t' : ThreadId}
    (hmem : sec' ∈ (p.setWork t (next ++ rest)).work t') : sec' ∈ next ∨ sec' ∈ p.work t' := by
  by_cases ht : t' = t
  · subst ht
    rw [setWork_self] at hmem
    rcases List.mem_append.mp hmem with hnext | hrest
    · exact .inl hnext
    · rw [hwork]
      exact .inr (List.mem_cons_of_mem _ hrest)
  · rw [setWork_of_ne p ht] at hmem
    exact .inr hmem

theorem mem_setWork_of_idle (p : Process) {t : ThreadId} (hidle : p.work t = [])
    (next : List Section) {sec' : Section} {t' : ThreadId} (hmem : sec' ∈ p.work t') :
    sec' ∈ (p.setWork t next).work t' := by
  have ht : t' ≠ t := by
    rintro rfl
    rw [hidle] at hmem
    exact absurd hmem (by simp)
  rw [setWork_of_ne p ht]
  exact hmem

theorem of_mem_setWork_new (p : Process) {t : ThreadId} {next : List Section} {sec' : Section}
    {t' : ThreadId} (hmem : sec' ∈ (p.setWork t next).work t') :
    sec' ∈ next ∨ sec' ∈ p.work t' := by
  by_cases ht : t' = t
  · subst ht
    rw [setWork_self] at hmem
    exact .inl hmem
  · rw [setWork_of_ne p ht] at hmem
    exact .inr hmem

/-- A section of a thread leaves the event loop alone, if that is running a callback. -/
theorem Wf.setWork_alone (h : p.Wf) {t : ThreadId} {sec : Section} {rest : List Section}
    (hwork : p.work t = sec :: rest) (work : List Section) (hrunning : p.running ≠ none) :
    (p.setWork t work).work .eventLoop = [] := by
  rw [h.thread hwork hrunning, setWork_of_ne p (by decide)]
  exact h.alone hrunning

theorem Wf.step (h : p.Wf) (hstep : Step p input p') : p'.Wf := by
  cases hstep with
  | lock hwork _ => exact ⟨h.io, h.running, h.setWork_alone hwork _⟩
  | unlock hwork => exact ⟨h.io, h.running, h.setWork_alone hwork _⟩
  | run hwork hrun =>
      obtain ⟨hio, htokens⟩ := (Shared.run_cases hrun).io h.io
      refine ⟨hio, fun r hr => ?_, h.setWork_alone hwork _⟩
      obtain ⟨hfd, htoken, hfits⟩ := h.running r hr
      exact ⟨hfd, htokens _ _ htoken, hfits⟩
  | @call t _ hidle =>
      refine ⟨h.io, h.running, fun hrunning => ?_⟩
      cases t with
      | manager => exact h.alone hrunning
      | eventLoop => exact absurd (hidle.2 rfl) hrunning
  | accept hidle _ =>
      have hnone := hidle.2 rfl
      exact ⟨Io.openFd_wf h.io _, fun r hr => absurd (hnone.symm.trans hr) (by simp),
        fun hr => absurd hnone hr⟩
  | openOther _ =>
      refine ⟨Io.openFd_wf h.io _, fun r hr => ?_, h.alone⟩
      obtain ⟨hfd, htoken, hfits⟩ := h.running r hr
      exact ⟨hfd, htoken, hfits⟩
  | closeOther _ =>
      refine ⟨Io.close_wf h.io _, fun r hr => ?_, h.alone⟩
      obtain ⟨hfd, htoken, hfits⟩ := h.running r hr
      exact ⟨hfd, htoken, hfits⟩
  | fetch hidle hat hobj =>
      refine ⟨h.io, fun r hr => ?_, fun _ => hidle.1⟩
      obtain rfl := Option.some.inj hr
      obtain ⟨keeper, hslot, rfl⟩ := Option.map_eq_some_iff.mp hat
      obtain ⟨a', hobj', hfd, hdir, harmed⟩ := h.io.armed _ _ hslot
      obtain rfl := Option.some.inj (hobj.symm.trans hobj')
      have hown := harmed.token_own
      rw [hfd, hdir] at hown
      refine ⟨hfd, ?_, fun _ hnone => absurd hnone (by simp)⟩
      rw [Running.key, hdir]
      exact hown
  | @transfer res recv send r hrunning _ =>
      obtain ⟨hloop, hobjects, _⟩ := p.shared.transfer_io r res recv send
      obtain ⟨hfd, htoken, hfits⟩ := h.running r hrunning
      refine ⟨⟨hloop ▸ h.io.loop, ?_⟩, fun r' hr' => ?_, fun _ => h.alone (by simp [hrunning])⟩
      · rw [hloop, hobjects]
        exact h.io.armed
      · obtain rfl := Option.some.inj hr'
        refine ⟨hfd, ?_, fun outcome houtcome => ?_⟩
        · rw [hloop]
          exact htoken
        · obtain rfl := Option.some.inj houtcome
          exact p.shared.transfer_fits r res recv send
  | @kept ok r next hrunning houtcome hholds =>
      have hr := h.running r hrunning
      have hkept := Io.keep_kept h.io hr.fd (hr.fits _ houtcome) hholds
      exact ⟨hkept.1, fun _ hnone => absurd hnone (by simp), fun hnone => absurd rfl hnone⟩
  | dropped _ _ _ =>
      exact ⟨h.io, fun _ hnone => absurd hnone (by simp), fun hnone => absurd rfl hnone⟩
  | @replaced ok r next loop hrunning houtcome hreplace =>
      have hr := h.running r hrunning
      have hreplaced := Io.replaceAction_replaced h.io hr.token (hr.fits _ houtcome) hreplace
      exact ⟨hreplaced.1, fun _ hnone => absurd hnone (by simp), fun hnone => absurd rfl hnone⟩
  | @unreplaced ok r next hrunning houtcome _ =>
      obtain ⟨hfd, htoken, _⟩ := h.running r hrunning
      refine ⟨h.io, fun r' hr' => ?_, fun _ => h.alone (by simp [hrunning])⟩
      obtain rfl := Option.some.inj hr'
      refine ⟨hfd, htoken, fun outcome heq => ?_⟩
      obtain rfl := Option.some.inj heq
      exact r.resolves_failed
  | @resolved ok r next hrunning houtcome =>
      have hr := h.running r hrunning
      have hhanded := Io.handBack_handed h.io hr.token ok
      exact ⟨hhanded.1, fun _ hnone => absurd hnone (by simp), fun hnone => absurd rfl hnone⟩
  | aborted _ _ => exact ⟨h.io, h.running, h.alone⟩
  | @destroy token ok hidle _ =>
      have hnone := hidle.2 rfl
      exact ⟨(Io.destroy_fewer h.io token ok).wf,
        fun r hr => absurd (hnone.symm.trans hr) (by simp), fun hr => absurd hnone hr⟩

end Process

end Diplom
