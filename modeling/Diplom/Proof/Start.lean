import Diplom.Proof.AsyncLoop
import Diplom.Transport.Start

/-!
# What a failed start leaves behind

Every error path of `BroadcastManager::Start` takes back what the calls before it acquired, except
the one after `create_netlink_socket`; and nothing takes back what it acquired when
`ConnectionManager::Start` fails after it.
-/

namespace Diplom

namespace EpollLoop

variable {Callback Keep : Type} {loop loop' loop'' : EpollLoop Callback Keep}

/-- The same actions are registered, under the same tokens. -/
structure SameTables (loop loop' : EpollLoop Callback Keep) : Prop where
  actions : loop'.fdToCallback = loop.fdToCallback
  tokens : loop'.cancelMap = loop.cancelMap

theorem SameTables.trans (h : SameTables loop loop') (h' : SameTables loop' loop'') :
    SameTables loop loop'' :=
  ⟨h'.actions.trans h.actions, h'.tokens.trans h.tokens⟩

/-- Taking an action back right after it was registered restores the tables, whatever happened to
the interest set and the queue. -/
theorem Wf.undo (h : loop.Wf) {fd : Fd} {dir : IoDirection} {callback : Callback}
    {afd : Option Keep} {ok : Bool} {token : CancellationToken}
    (hreg : loop.registerAction fd dir callback afd ok = some (token, loop'))
    (hsame : SameTables loop' loop'') (ok' : Bool) :
    SameTables loop (loop''.deregisterAction token ok').2 := by
  obtain ⟨hfree, rfl, hslots, hcancel, -, -⟩ := registerAction_eq_some hreg
  rw [PartialMap.insert_of_none _ h.next_free, ← hsame.tokens] at hcancel
  rw [← hsame.actions] at hslots
  have htoken : loop''.cancelMap loop.nextToken = some ⟨fd, dir⟩ := by
    rw [hcancel, PartialMap.set_self]
  rcases deregisterAction_cases loop'' loop.nextToken
      ok' with ⟨hnone, -⟩ | ⟨key, hkey, hslot, -⟩ | ⟨key, _, hkey, -, _, _, heq⟩
  · exact absurd htoken (by simp [hnone])
  · obtain rfl := Option.some.inj (hkey.symm.trans htoken)
    rw [hslots, PartialMap.set_self] at hslot
    exact absurd hslot (by simp)
  · obtain rfl := Option.some.inj (hkey.symm.trans htoken)
    rw [heq]
    constructor
    · show loop''.fdToCallback.erase ⟨fd, dir⟩ = _
      rw [hslots, PartialMap.erase_set, PartialMap.erase_of_none _ hfree]
    · show loop''.cancelMap.erase loop.nextToken = _
      rw [hcancel, PartialMap.erase_set, PartialMap.erase_of_none _ h.next_free]

theorem Wf.call (h : loop.Wf) (call : LoopCall Callback Keep) : (loop.call call).Wf := by
  cases call with
  | registerAction fd dir callback afd ok =>
      cases hreg : loop.registerAction fd dir callback afd ok with
      | none => simpa [EpollLoop.call, hreg] using h
      | some registered => simpa [EpollLoop.call, hreg] using h.registerAction hreg
  | replaceAction token callback =>
      rcases replaceAction_cases loop token callback with ⟨heq, -⟩ | ⟨_, _, -, -, heq⟩
      · simpa [EpollLoop.call, heq] using h
      · simp only [EpollLoop.call, heq]
        exact ⟨h.next_pos, h.issued⟩
  | deregisterAction token ok => exact h.deregisterAction token ok
  | deregisterFd fd ok =>
      obtain ⟨-, hcancel, hnext⟩ := deregisterFd_tables loop fd ok
      refine ⟨?_, fun token key hkey => ?_⟩
      · show 0 < (loop.deregisterFd fd ok).nextToken
        rw [hnext]
        exact h.next_pos
      · show token < (loop.deregisterFd fd ok).nextToken
        replace hkey : (loop.deregisterFd fd ok).cancelMap token = some key := hkey
        rw [hcancel] at hkey
        rw [hnext]
        exact h.issued token key hkey

end EpollLoop

variable {Callback Keep : Type} {lambdas : StartLambdas Callback}
  {loop loop₁ loop₂ loop₃ : EpollLoop Callback Keep} {s : Startup Callback Keep}
  {answers : BroadcastAnswers} {listen : ListenAnswers}

/-! ### The calls -/

namespace Startup

/-- Every descriptor that was opened has been closed once, and the actions are those from before. -/
structure Clean (loop : EpollLoop Callback Keep) (s : Startup Callback Keep) : Prop where
  descriptors : s.closed.Perm s.opened
  tables : loop.SameTables s.loop

theorem createDescriptor_ok (s : Startup Callback Keep) (fd : Fd) {setups : List Bool}
    (h : setups.all id = true) :
    s.createDescriptor (some fd) setups = (some fd, { s with opened := s.opened ++ [fd] }) := by
  simp only [createDescriptor, if_pos h]

theorem createDescriptor_failed (s : Startup Callback Keep) (fd : Fd) {setups : List Bool}
    (h : setups.all id = false) :
    s.createDescriptor (some fd) setups
      = (none, { s with opened := s.opened ++ [fd] }.close fd) := by
  simp [createDescriptor, h]

theorem registerAction_none {fd : Fd} {callback : Callback} {ok : Bool}
    (h : s.loop.registerAction fd .input callback none ok = none) :
    s.registerAction fd callback ok = none := by
  simp only [registerAction, h, Option.map_none]

theorem registerAction_some {fd : Fd} {callback : Callback} {ok : Bool} {token : CancellationToken}
    (h : s.loop.registerAction fd .input callback none ok = some (token, loop)) :
    s.registerAction fd callback ok = some (token, { s with loop := loop }) := by
  simp only [registerAction, h, Option.map_some]

end Startup

/-- Where the broadcast socket and the timer are created and their actions registered. -/
structure BroadcastAnswers.Timers (answers : BroadcastAnswers) (lambdas : StartLambdas Callback)
    (loop : EpollLoop Callback Keep) (broadcastFd timerFd : Fd) (brTok timerTok : CancellationToken)
    (loop₁ loop₂ : EpollLoop Callback Keep) : Prop where
  socket : answers.socket = some broadcastFd
  setup : answers.broadcast = true ∧ answers.bind = true
  registerSocket :
    loop.registerAction broadcastFd .input lambdas.receiveBroadcasts none answers.registerSocket
      = some (brTok, loop₁)
  timer : answers.timer = some timerFd
  registerTimer :
    loop₁.registerAction timerFd .input lambdas.broadcastTimer none answers.registerTimer
      = some (timerTok, loop₂)

/-- Where the netlink socket is created and its action registered as well. -/
structure BroadcastAnswers.Starts (answers : BroadcastAnswers) (lambdas : StartLambdas Callback)
    (loop loop₃ : EpollLoop Callback Keep) : Prop where
  starts : ∃ broadcastFd timerFd brTok timerTok loop₁ loop₂ netlinkFd netlinkTok,
    answers.Timers lambdas loop broadcastFd timerFd brTok timerTok loop₁ loop₂ ∧
    answers.netlink = some netlinkFd ∧ answers.netlinkBind = true ∧
    loop₂.registerAction netlinkFd .input lambdas.networkUpdate none answers.registerNetlink
      = some (netlinkTok, loop₃)

/-- Once there is a timer, there is a netlink socket. -/
def BroadcastAnswers.NetlinkCreated (answers : BroadcastAnswers) (lambdas : StartLambdas Callback)
    (loop : EpollLoop Callback Keep) : Prop :=
  ∀ broadcastFd timerFd brTok timerTok loop₁ loop₂,
    answers.Timers lambdas loop broadcastFd timerFd brTok timerTok loop₁ loop₂ →
    answers.netlink ≠ none ∧ answers.netlinkBind = true

/-- Where the listening socket is created and its action registered. -/
def ListenAnswers.Listens (listen : ListenAnswers) (lambdas : StartLambdas Callback)
    (loop : EpollLoop Callback Keep) : Prop :=
  ∃ fd, listen.socket = some fd ∧ listen.reuse = true ∧ listen.noDelay = true ∧
    listen.oobInline = true ∧ listen.bind = true ∧ listen.listen = true ∧
    loop.registerAction fd .input lambdas.acceptConn none listen.register ≠ none

theorem BroadcastAnswers.Timers.unique {b b' t t' : Fd}
    {brTok brTok' timerTok timerTok' : CancellationToken} {loop₁' loop₂' : EpollLoop Callback Keep}
    (h : answers.Timers lambdas loop b t brTok timerTok loop₁ loop₂)
    (h' : answers.Timers lambdas loop b' t' brTok' timerTok' loop₁' loop₂') :
    b = b' ∧ t = t' ∧ brTok = brTok' ∧ timerTok = timerTok' ∧ loop₁ = loop₁' ∧ loop₂ = loop₂' := by
  obtain rfl := Option.some.inj (h.socket.symm.trans h'.socket)
  obtain ⟨rfl, rfl⟩ := Prod.mk.inj (Option.some.inj (h.registerSocket.symm.trans h'.registerSocket))
  obtain rfl := Option.some.inj (h.timer.symm.trans h'.timer)
  obtain ⟨rfl, rfl⟩ := Prod.mk.inj (Option.some.inj (h.registerTimer.symm.trans h'.registerTimer))
  exact ⟨rfl, rfl, rfl, rfl, rfl, rfl⟩

/-! ### The ways through `BroadcastManager::Start` -/

/-- It has taken everything back; or the netlink socket failed, and it has not; or everything is
started. -/
inductive BroadcastAnswers.Course (answers : BroadcastAnswers) (lambdas : StartLambdas Callback)
    (loop : EpollLoop Callback Keep) : Bool × Startup Callback Keep → Prop
  | undone {s : Startup Callback Keep} (hclean : s.Clean loop)
      (hcreated : answers.NetlinkCreated lambdas loop)
      (hnot : ∀ loop₃, ¬ answers.Starts lambdas loop loop₃) : Course answers lambdas loop (false, s)
  | left {s : Startup Callback Keep} (hopen : s.closed.length < s.opened.length)
      (hfailed : ¬ answers.NetlinkCreated lambdas loop) : Course answers lambdas loop (false, s)
  | started {s : Startup Callback Keep} (hopen : s.closed.length < s.opened.length)
      (hstarts : answers.Starts lambdas loop s.loop)
      (hcreated : answers.NetlinkCreated lambdas loop) : Course answers lambdas loop (true, s)

/-- Without the timer neither of the two that come after it. -/
theorem BroadcastAnswers.Course.early (hclean : s.Clean loop)
    (hnot : ∀ b t brTok timerTok (loop₁ loop₂ : EpollLoop Callback Keep),
      ¬ answers.Timers lambdas loop b t brTok timerTok loop₁ loop₂) :
    answers.Course lambdas loop (false, s) := by
  refine .undone hclean
    (fun b t brTok timerTok loop₁ loop₂ h => absurd h (hnot b t brTok timerTok loop₁ loop₂)) ?_
  rintro loop₃ ⟨b, t, brTok, timerTok, loop₁, loop₂, _, _, htimers, -⟩
  exact hnot b t brTok timerTok loop₁ loop₂ htimers

theorem BroadcastAnswers.Timers.netlinkCreated_iff {b t : Fd} {brTok timerTok : CancellationToken}
    (h : answers.Timers lambdas loop b t brTok timerTok loop₁ loop₂) :
    answers.NetlinkCreated lambdas loop ↔ answers.netlink ≠ none ∧ answers.netlinkBind = true :=
  ⟨fun hcreated => hcreated _ _ _ _ _ _ h, fun hcreated _ _ _ _ _ _ _ => hcreated⟩

theorem BroadcastManager.start_course (lambdas : StartLambdas Callback) (hloop : loop.Wf)
    (answers : BroadcastAnswers) :
    answers.Course lambdas loop (BroadcastManager.start lambdas (.begin loop) answers) := by
  unfold BroadcastManager.start
  cases hsocket : answers.socket with
  | none =>
      refine .early ⟨.refl _, rfl, rfl⟩ fun b t brTok timerTok loop₁ loop₂ h => ?_
      exact absurd (hsocket.symm.trans h.socket) (by simp)
  | some b =>
  by_cases hsetup : answers.broadcast = true ∧ answers.bind = true
  swap
  · rw [Startup.createDescriptor_failed _ _
      (by simpa [Bool.and_eq_false_iff, not_and_or] using hsetup)]
    exact .early ⟨.refl _, rfl, rfl⟩ fun b t brTok timerTok loop₁ loop₂ h => hsetup h.setup
  rw [Startup.createDescriptor_ok _ _ (by simp [hsetup])]
  dsimp only
  cases hsocketReg :
    loop.registerAction b .input lambdas.receiveBroadcasts none answers.registerSocket with
  | none =>
      rw [Startup.registerAction_none hsocketReg]
      refine .early ⟨.refl _, rfl, rfl⟩ fun b' t brTok timerTok loop₁ loop₂ h => ?_
      obtain rfl := Option.some.inj (hsocket.symm.trans h.socket)
      exact absurd (hsocketReg.symm.trans h.registerSocket) (by simp)
  | some registered =>
  obtain ⟨brTok, loop₁⟩ := registered
  have hloop₁ := hloop.registerAction hsocketReg
  rw [Startup.registerAction_some hsocketReg]
  dsimp only
  cases htimer : answers.timer with
  | none =>
      have htables := hloop.undo hsocketReg ⟨rfl, rfl⟩ answers.deregisterSocket
      refine .early ⟨.refl _, htables.trans ⟨rfl, rfl⟩⟩ fun b' t _ timerTok loop₁' loop₂ h => ?_
      exact absurd (htimer.symm.trans h.timer) (by simp)
  | some t =>
  rw [Startup.createDescriptor_ok _ _ (by rfl)]
  dsimp only
  cases htimerReg :
    loop₁.registerAction t .input lambdas.broadcastTimer none answers.registerTimer with
  | none =>
      rw [Startup.registerAction_none htimerReg]
      have htables := hloop.undo hsocketReg ⟨rfl, rfl⟩ answers.deregisterSocket
      refine .early ⟨.refl _, htables.trans ⟨rfl, rfl⟩⟩ fun b' t' _ timerTok loop₁' loop₂ h => ?_
      obtain rfl := Option.some.inj (hsocket.symm.trans h.socket)
      obtain ⟨rfl, rfl⟩ := Prod.mk.inj (Option.some.inj (hsocketReg.symm.trans h.registerSocket))
      obtain rfl := Option.some.inj (htimer.symm.trans h.timer)
      exact absurd (htimerReg.symm.trans h.registerTimer) (by simp)
  | some registered =>
  obtain ⟨timerTok, loop₂⟩ := registered
  rw [Startup.registerAction_some htimerReg]
  dsimp only
  have htimers : answers.Timers lambdas loop b t brTok timerTok loop₁ loop₂ :=
    ⟨hsocket, hsetup, hsocketReg, htimer, htimerReg⟩
  cases hnetlink : answers.netlink with
  | none =>
      refine .left (by simp [Startup.begin]) ?_
      rw [htimers.netlinkCreated_iff, hnetlink]
      simp
  | some n =>
  by_cases hbind : answers.netlinkBind = true
  swap
  · rw [Startup.createDescriptor_failed _ _ (by simpa using hbind)]
    refine .left (by simp [Startup.close, Startup.begin]) ?_
    rw [htimers.netlinkCreated_iff]
    exact fun h => hbind h.2
  have hcreated : answers.NetlinkCreated lambdas loop :=
    htimers.netlinkCreated_iff.mpr ⟨by simp [hnetlink], hbind⟩
  rw [Startup.createDescriptor_ok _ _ (by simp [hbind])]
  dsimp only
  cases hnetlinkReg :
    loop₂.registerAction n .input lambdas.networkUpdate none answers.registerNetlink with
  | none =>
      rw [Startup.registerAction_none hnetlinkReg]
      have htables :=
        hloop.undo hsocketReg (hloop₁.undo htimerReg ⟨rfl, rfl⟩ answers.deregisterTimer)
          answers.deregisterSocket
      refine .undone ⟨?_, htables.trans ⟨rfl, rfl⟩⟩ hcreated ?_
      · show [n, t, b].Perm [b, t, n]
        exact List.reverse_perm [b, t, n]
      · rintro loop₃ ⟨_, _, _, _, _, _, n', _, htimers', hnetlink', -, hreg⟩
        obtain ⟨rfl, rfl, rfl, rfl, rfl, rfl⟩ := htimers.unique htimers'
        obtain rfl := Option.some.inj (hnetlink.symm.trans hnetlink')
        exact absurd (hnetlinkReg.symm.trans hreg) (by simp)
  | some registered =>
      obtain ⟨netlinkTok, loop₃⟩ := registered
      rw [Startup.registerAction_some hnetlinkReg]
      exact .started (by simp [Startup.sendBroadcastHello, Startup.begin])
        ⟨b, t, brTok, timerTok, loop₁, loop₂, n, netlinkTok, htimers, hnetlink, hbind, hnetlinkReg⟩
        hcreated

/-! ### The two managers -/

/-- It listens, or has taken back what is its own. -/
inductive ListenAnswers.Course (listen : ListenAnswers) (lambdas : StartLambdas Callback)
    (s : Startup Callback Keep) : Bool × Startup Callback Keep → Prop
  | undone {s' : Startup Callback Keep} (hnot : ¬ listen.Listens lambdas s.loop) (fds : List Fd)
      (hopened : s'.opened = s.opened ++ fds) (hclosed : s'.closed = s.closed ++ fds) :
      Course listen lambdas s (false, s')
  | listens {s' : Startup Callback Keep} (h : listen.Listens lambdas s.loop) :
      Course listen lambdas s (true, s')

theorem ConnectionManager.start_course (lambdas : StartLambdas Callback) (s : Startup Callback Keep)
    (listen : ListenAnswers) :
    listen.Course lambdas s (ConnectionManager.start lambdas s listen) := by
  unfold ConnectionManager.start
  cases hsocket : listen.socket with
  | none =>
      refine .undone (fun ⟨_, h, _⟩ => absurd (hsocket.symm.trans h) (by simp)) [] ?_ ?_
      · exact (List.append_nil _).symm
      · exact (List.append_nil _).symm
  | some fd =>
  by_cases hsetup : listen.reuse = true ∧ listen.noDelay = true ∧ listen.oobInline = true ∧
    listen.bind = true
  swap
  · have hfailed :
        [listen.reuse, listen.noDelay, listen.oobInline, listen.bind].all id = false := by
      rw [List.all_eq_false]
      by_contra hall
      exact hsetup (by simpa using hall)
    rw [Startup.createDescriptor_failed _ _ hfailed]
    exact .undone (fun ⟨_, _, hr, hn, ho, hb, _⟩ => hsetup ⟨hr, hn, ho, hb⟩) [fd] rfl rfl
  rw [Startup.createDescriptor_ok _ _ (by simp [hsetup])]
  dsimp only
  obtain ⟨hreuse, hnoDelay, hoobInline, hbind⟩ := hsetup
  by_cases hlisten : listen.listen = true
  swap
  · rw [if_pos (by simpa using hlisten)]
    exact .undone (fun ⟨_, _, _, _, _, _, h, _⟩ => hlisten h) [fd] rfl rfl
  rw [if_neg (by simpa using hlisten)]
  cases hregister : s.loop.registerAction fd .input lambdas.acceptConn none listen.register with
  | none =>
      have hrefused :
          Startup.registerAction { s with opened := s.opened ++ [fd] } fd lambdas.acceptConn
            listen.register = none :=
        Startup.registerAction_none hregister
      rw [hrefused]
      refine .undone (fun ⟨fd', hsocket', _, _, _, _, _, h⟩ => ?_) [fd] rfl rfl
      obtain rfl := Option.some.inj (hsocket.symm.trans hsocket')
      exact h hregister
  | some registered =>
      obtain ⟨token, loop'⟩ := registered
      have haccepted :=
        Startup.registerAction_some (s := { s with opened := s.opened ++ [fd] }) hregister
      rw [haccepted]
      exact .listens
        ⟨fd, hsocket, hreuse, hnoDelay, hoobInline, hbind, hlisten, by simp [hregister]⟩

theorem BroadcastAnswers.Starts.unique (h : answers.Starts lambdas loop loop₂)
    (h' : answers.Starts lambdas loop loop₃) : loop₂ = loop₃ := by
  obtain ⟨_, _, _, _, _, _, _, _, htimers, hnetlink, -, hreg⟩ := h
  obtain ⟨_, _, _, _, _, _, _, _, htimers', hnetlink', -, hreg'⟩ := h'
  obtain ⟨rfl, rfl, rfl, rfl, rfl, rfl⟩ := htimers.unique htimers'
  obtain rfl := Option.some.inj (hnetlink.symm.trans hnetlink')
  exact (Prod.mk.inj (Option.some.inj (hreg.symm.trans hreg'))).2

/-- A start that fails leaves nothing behind. -/
structure CleanFailure (lambdas : StartLambdas Callback) (loop : EpollLoop Callback Keep)
    (answers : BroadcastAnswers) (listen : ListenAnswers) : Prop where
  broadcast : (BroadcastManager.start lambdas (.begin loop) answers).1 = false →
    (BroadcastManager.start lambdas (.begin loop) answers).2.Clean loop
  managers : (IpTransport.startManagers lambdas (.begin loop) answers listen).1 = false →
    (IpTransport.startManagers lambdas (.begin loop) answers listen).2.Clean loop

private theorem startManagers_eq (lambdas : StartLambdas Callback) (s : Startup Callback Keep)
    (answers : BroadcastAnswers) (listen : ListenAnswers) :
    IpTransport.startManagers lambdas s answers listen =
      match BroadcastManager.start lambdas s answers with
      | (false, s) => (false, s)
      | (true, s) => ConnectionManager.start lambdas s listen :=
  rfl

/-- A start that fails leaves nothing behind exactly if the netlink socket is not what fails, and
`ConnectionManager::Start` does not fail after `BroadcastManager::Start` is through. -/
theorem cleanFailure_iff (lambdas : StartLambdas Callback) {loop : EpollLoop Callback Keep}
    (hloop : loop.Wf) (answers : BroadcastAnswers) (listen : ListenAnswers) :
    CleanFailure lambdas loop answers listen ↔ answers.NetlinkCreated lambdas loop ∧ ∀ loop₃,
      answers.Starts lambdas loop loop₃ → listen.Listens lambdas loop₃ := by
  have hcourse := BroadcastManager.start_course lambdas hloop answers
  have hmanagers := startManagers_eq lambdas (.begin loop) answers listen
  cases hresult : BroadcastManager.start lambdas (.begin loop) answers with
  | mk ok s =>
  rw [hresult] at hcourse hmanagers
  cases hcourse with
  | undone hclean hcreated hnot =>
      refine iff_of_true ⟨fun _ => ?_, fun _ => ?_⟩
        ⟨hcreated, fun loop₃ hstarts => absurd hstarts (hnot loop₃)⟩
      · rwa [hresult]
      · rwa [hmanagers]
  | left hopen hfailed =>
      refine iff_of_false (fun h => ?_) fun h => hfailed h.1
      have hclean := h.broadcast
      rw [hresult] at hclean
      exact Nat.ne_of_lt hopen (hclean rfl).descriptors.length_eq
  | started hopen hstarts hcreated =>
      have hlisten := ConnectionManager.start_course lambdas s listen
      cases hresult' : ConnectionManager.start lambdas s listen with
      | mk ok' s' =>
      simp only [hresult'] at hlisten hmanagers
      cases hlisten with
      | undone hnot fds hopened hclosed =>
          refine iff_of_false (fun h => ?_) fun h => hnot (h.2 _ hstarts)
          have hclean := h.managers
          rw [hmanagers] at hclean
          have hlength := (hclean rfl).descriptors.length_eq
          rw [hopened, hclosed, List.length_append, List.length_append] at hlength
          omega
      | listens hlistens =>
          refine iff_of_true ⟨fun h => ?_, fun h => ?_⟩ ⟨hcreated, fun loop₃ h => ?_⟩
          · rw [hresult] at h
            exact absurd h (by simp)
          · rw [hmanagers] at h
            exact absurd h (by simp)
          · rwa [← hstarts.unique h]

/-- No timer can be created. -/
theorem cleanFailure_iff_of_no_timer :
    CleanFailure ⟨(), (), (), ()⟩ (EpollLoop.init : EpollLoop Unit Unit)
      ⟨some 5, true, true, true, none, true, some 7, true, true, true, true⟩
      ⟨some 8, true, true, true, true, true, true⟩ := by
  refine (cleanFailure_iff _ EpollLoop.init_wf _ _).mpr ⟨fun _ _ _ _ _ _ h => ?_, ?_⟩
  · exact absurd h.timer (by simp)
  · rintro loop₃ ⟨_, _, _, _, _, _, _, _, h, -⟩
    exact absurd h.timer (by simp)

/-- No netlink socket can be created: the socket and the timer stay open. -/
theorem failed_netlink_leaves_descriptors :
    ¬ ∀ (lambdas : StartLambdas Unit) (loop : EpollLoop Unit Unit) (answers : BroadcastAnswers)
        (listen : ListenAnswers),
      loop.Wf → CleanFailure lambdas loop answers listen := by
  intro h
  have hclean :=
    (h ⟨(), (), (), ()⟩ .init ⟨some 5, true, true, true, some 6, true, none, true, true, true, true⟩
      ⟨some 8, true, true, true, true, true, true⟩ EpollLoop.init_wf).broadcast rfl
  exact absurd (show ([] : List Fd).length = [5, 6].length from hclean.descriptors.length_eq)
    (by decide)

end Diplom
