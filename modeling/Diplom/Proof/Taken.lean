import Diplom.Proof.Reliance

/-!
# Where a reader stands

As long as a number stands for one socket, one hand at a time reads from the socket, and it goes on
where the last one has stopped. So a socket has taken whole frames, and of the next frame what its
reader has of it. `EAGAIN` alone makes a reader lose its place.
-/

namespace Diplom

/-- Whole frames, and a rest. -/
def Taken (order : ByteOrder) (taken rest : List Byte) : Prop :=
  ∃ messages, (uint32 order).Fits messages ∧ taken = (uint32 order).frames messages ++ rest

namespace Taken

variable {order : ByteOrder} {taken : List Byte}

theorem nothing : Taken order [] [] := ⟨[], fun _ h => absurd h List.not_mem_nil, rfl⟩

theorem more {rest : List Byte} (h : Taken order taken rest) (bytes : List Byte) :
    Taken order (taken ++ bytes) (rest ++ bytes) := by
  obtain ⟨messages, hfits, rfl⟩ := h
  exact ⟨messages, hfits, List.append_assoc _ _ _⟩

theorem completes {m : Message} (hm : m.length < 2 ^ 32) (h : Taken order taken (frame order m)) :
    Taken order taken [] := by
  obtain ⟨messages, hfits, rfl⟩ := h
  refine ⟨messages ++ [m], fun m' hmem => ?_, ?_⟩
  · rcases List.mem_append.mp hmem with hold | hnew
    · exact hfits m' hold
    · rw [List.mem_singleton.mp hnew, uint32_bound]
      exact hm
  · rw [LengthCode.frames_append]
    simp [frame]

end Taken

/-- Where someone stands who goes on with a descriptor. -/
inductive Stand
  | between
  | within (op : RecvOp)

namespace Stand

def Wf : Stand → Prop
  | .between => True
  | .within op => op.Wf

/-- What has been taken of the next frame. -/
def rest (order : ByteOrder) : Stand → List Byte
  | .between => []
  | .within op => op.consumed order

end Stand

/-! ### Who relies on what -/

def Section.stand : Section → Option (Fd × Stand)
  | .recvMessage h _ | .received h _ (.ok _) => some (h.fd, .between)
  | .sendMessage _ _ (.queued _) | .sent _ (.queued _) _ => none
  | .sendMessage h _ _ | .sent h _ (.ok _) => some (h.fd, .between)
  | .insertActive h _ | .insertConnToFd h _ | .insertQueue h _ => some (h.fd, .between)
  | _ => none

def Closure.stand : Closure OnMessage OnSent → Option Stand
  | .recv op _ => some (.within op)
  | .send _ (.queued _) => none
  | .send _ _ => some .between

theorem Section.part_of_stand {sec : Section} {fd : Fd} {d : Stand}
    (h : sec.stand = some (fd, d)) : ∃ role, role ≠ .sending ∧ sec.part = some (role, fd) := by
  cases sec with
  | recvMessage hd resolve =>
      cases resolve <;> simp_all [Section.stand, Section.part, OnMessage.role]
  | received hd resolve res =>
      cases resolve <;> cases res <;> simp_all [Section.stand, Section.part, OnMessage.role]
  | sendMessage hd data resolve =>
      cases resolve <;> simp_all [Section.stand, Section.part, OnSent.role]
  | sent hd resolve res =>
      cases resolve <;> cases res <;> simp_all [Section.stand, Section.part, OnSent.role]
  | _ => simp_all [Section.stand, Section.part]

theorem Closure.role_of_stand {closure : Closure OnMessage OnSent} {d : Stand}
    (h : closure.stand = some d) : closure.role ≠ .sending := by
  cases closure with
  | recv op resolve => cases resolve <;> simp [Closure.role, OnMessage.role]
  | send op resolve => cases resolve <;> simp_all [Closure.stand, Closure.role, OnSent.role]

/-- Whoever only sends the messages does not rely on what is taken. -/
@[reducible] def reading : Reliance Stand where
  ofSection := Section.stand
  ofClosure := Closure.stand
  spared := .sending
  reads_or_sends := .inr rfl
  part_of_section := fun _ _ _ => Section.part_of_stand
  role_of_closure := fun _ _ => Closure.role_of_stand

namespace Shared

variable {s s' : Shared} {sec : Section} {next : List Section} {fd : Fd} {d : Stand}

theorem Runs.taken (hruns : s.Runs sec s' next) (hwf : s.manager.io.Wf) :
    s'.manager.io.taken = s.manager.io.taken ∧ s'.manager.io.order = s.manager.io.order := by
  cases hruns with
  | recvStarted hstart =>
      have hreg := Io.registered_of_recvMessage hwf hstart
      exact ⟨hreg.taken, hreg.order⟩
  | sendStarted hstart =>
      have hreg := Io.registered_of_sendMessage hwf hstart
      exact ⟨hreg.taken, hreg.order⟩
  | _ => exact ⟨rfl, rfl⟩

/-- A section that goes on between two frames follows one that does. -/
theorem Leads.stand (hleads : s.Leads sec next) {sec' : Section} (hmem : sec' ∈ next)
    (hstand : sec'.stand = some (fd, d)) : d = .between ∧ sec.stand = some (fd, .between) := by
  have hquiet : (∀ sec' ∈ next, sec'.stand = none) →
      d = .between ∧ sec.stand = some (fd, .between) :=
    fun hnone => absurd ((hnone sec' hmem).symm.trans hstand) (by simp)
  have hone : ∀ {sec'' : Section}, next = [sec''] → sec''.stand = sec.stand →
      (∀ d', sec.stand = some (fd, d') → d' = .between) →
      d = .between ∧ sec.stand = some (fd, .between) := by
    rintro sec'' rfl hsame hbetween
    obtain rfl := List.mem_singleton.mp hmem
    have hsec := hsame.symm.trans hstand
    obtain rfl := hbetween d hsec
    exact ⟨rfl, hsec⟩
  cases hleads with
  | helloTaken => exact hone rfl rfl (by simp [Section.stand])
  | answerTaken => exact hone rfl rfl (by simp [Section.stand])
  | answerSent => exact hone rfl rfl (by simp [Section.stand])
  | notifySent => exact hone rfl rfl (by simp [Section.stand])
  | messageRead _ =>
      rcases List.mem_cons.mp hmem with rfl | hmem
      · exact absurd hstand (by simp [Section.stand])
      · obtain rfl := List.mem_singleton.mp hmem
        obtain ⟨rfl, rfl⟩ := Prod.mk.inj (Option.some.inj hstand)
        exact ⟨rfl, rfl⟩
  | _ => exact hquiet (by simp [Section.stand])

theorem Runs.stand (hruns : s.Runs sec s' next) (hsec : ∀ peer, sec ≠ .dial peer) {sec' : Section}
    (hmem : sec' ∈ next) (hstand : sec'.stand = some (fd, d)) :
    d = .between ∧ sec.stand = some (fd, .between) := by
  have hquiet : (∀ sec' ∈ next, sec'.stand = none) →
      d = .between ∧ sec.stand = some (fd, .between) :=
    fun hnone => absurd ((hnone sec' hmem).symm.trans hstand) (by simp)
  cases hruns with
  | leads hleads => exact hleads.stand hmem hstand
  | notify =>
      exact hquiet fun _ hmem => reading.ofSection_of_handle_none (Call.handle_none_of_mem hmem)
  | opens _ _ => exact absurd rfl (hsec _)
  | pushBack _ =>
      refine hquiet ?_
      split <;> simp [Section.stand]
  | popFront _ =>
      refine hquiet ?_
      split <;> simp [Section.stand]
  | @sendRefused hd data resolve =>
      refine hquiet ?_
      cases resolve <;> simp [Section.stand]
  | insertActive =>
      obtain rfl := List.mem_singleton.mp hmem
      obtain ⟨rfl, rfl⟩ := Prod.mk.inj (Option.some.inj hstand)
      exact ⟨rfl, rfl⟩
  | insertConnToFd =>
      obtain rfl := List.mem_singleton.mp hmem
      obtain ⟨rfl, rfl⟩ := Prod.mk.inj (Option.some.inj hstand)
      exact ⟨rfl, rfl⟩
  | @insertQueue hd conn =>
      have hopened : sec' = .recvMessage hd .readMessage ∨
          sec' = .notify (.sessionOpened conn.1 conn.2) := by
        unfold opened at hmem
        split at hmem <;> simpa [or_comm] using hmem
      rcases hopened with rfl | rfl
      · obtain ⟨rfl, rfl⟩ := Prod.mk.inj (Option.some.inj hstand)
        exact ⟨rfl, rfl⟩
      · exact absurd hstand (by simp [Section.stand])
  | _ => exact hquiet (by simp [Section.stand])

end Shared

/-! ### Readers stand where they should -/

namespace Process

variable {p p' : Process} {input : Input} {latest : Fd → Option Sock} {fd : Fd} {d : Stand}

/-- Someone on a descriptor stands on its socket, if it is open, where they should. -/
def Finds (p : Process) (fd : Fd) (d : Stand) : Prop :=
  d.Wf ∧ ∀ sock, p.shared.manager.io.fds fd = some sock →
    Taken p.shared.manager.io.order (p.shared.manager.io.taken sock)
      (d.rest p.shared.manager.io.order)

structure Aligned (p : Process) : Prop where
  fresh : ∀ sock, p.shared.manager.io.nextSock ≤ sock → p.shared.manager.io.taken sock = []
  stands : ∀ fd d, p.Relies reading fd d → p.Finds fd d

/-- No reader loses its place. -/
def NotAgain (p : Process) : Input → Prop
  | .transfer res recv _ => ∀ r ∈ p.running, r.closure.dir = .input →
      (res, recv) ≠ (.ok (), .failed .eagain)
  | _ => True

instance (p : Process) (input : Input) : Decidable (p.NotAgain input) :=
  match input with
  | .transfer res recv _ => inferInstanceAs (Decidable (∀ r ∈ p.running, r.closure.dir = .input →
      (res, recv) ≠ (.ok (), .failed .eagain)))
  | .run _ _ | .call _ _ | .accept _ | .openOther _ | .closeOther _ | .fetch _ _ | .finish _
  | .destroy _ _ => .isTrue trivial

theorem init_aligned (self : PeerId) (order : ByteOrder) : (init self order).Aligned :=
  ⟨fun _ _ => rfl, fun fd _ h => absurd h.named (not_named_init self order fd)⟩

/-- A step that takes nothing. -/
theorem Aligned.onward (h : p.Aligned)
    (horder : p'.shared.manager.io.order = p.shared.manager.io.order)
    (htaken : p'.shared.manager.io.taken = p.shared.manager.io.taken)
    (hnext : p.shared.manager.io.nextSock ≤ p'.shared.manager.io.nextSock)
    (hfds : ∀ fd sock, p.Named fd → p'.shared.manager.io.fds fd = some sock →
      p.shared.manager.io.fds fd = some sock)
    (hrelies : ∀ fd d, p'.Relies reading fd d → p.Relies reading fd d ∨
      (d = .within .start ∧ p.Relies reading fd .between) ∨ p'.Finds fd d) : p'.Aligned := by
  have hold : ∀ {fd d}, p.Relies reading fd d → p'.Finds fd d := by
    intro fd d hrely
    obtain ⟨hwf, htaken'⟩ := h.stands fd d hrely
    refine ⟨hwf, fun sock hsock => ?_⟩
    rw [horder, htaken]
    exact htaken' sock (hfds fd sock hrely.named hsock)
  refine ⟨fun sock hle => ?_, fun fd d hrely => ?_⟩
  · rw [htaken]
    exact h.fresh sock (Nat.le_trans hnext hle)
  · rcases hrelies fd d hrely with hsame | ⟨rfl, hbetween⟩ | hfinds
    · exact hold hsame
    · -- a reader that begins has nothing of its frame
      refine ⟨RecvOp.start_wf, fun sock hsock => ?_⟩
      rw [Stand.rest, RecvOp.start_consumed]
      exact (hold hbetween).2 sock hsock
    · exact hfinds

theorem Aligned.run (hwf : p.Wf) (h : p.Aligned) {t : ThreadId} {sec : Section}
    {rest next : List Section} {shared : Shared} (hwork : p.work t = sec :: rest)
    (hruns : p.shared.Runs sec shared next) (hsec : ∀ peer, sec ≠ .dial peer) :
    (p.went t next rest shared).Aligned := by
  have hmem : sec ∈ p.work t := by simp [hwork]
  obtain ⟨htaken, horder⟩ := hruns.taken hwf.io
  refine h.onward horder htaken (Nat.le_of_eq (hruns.nextSock hwf.io hsec).symm)
    (fun fd sock _ => PartialMap.eq_some_of_kept (hruns.fds hwf.io hsec fd)) fun fd d hrely => ?_
  rcases hrely.went hwork with hold | ⟨sec', hmem', hstand⟩ | ⟨dir, closure, hat, hclosure, hne⟩
  · exact .inl hold
  · obtain ⟨rfl, hbetween⟩ := hruns.stand hsec hmem' hstand
    exact .inl (.work hmem hbetween)
  · rcases hruns.place hwf.io ⟨fd, dir⟩ with ⟨hsame, -⟩ | hnone | ⟨hd, resolve, rfl, hkey, hnew⟩
      | ⟨hd, data, resolve, rfl, hkey, hnew, -⟩
    · exact absurd hsame hne
    · exact absurd (hnone.symm.trans hat) (by simp)
    · obtain rfl := Option.some.inj (hnew.symm.trans hat)
      obtain rfl := Option.some.inj hclosure
      obtain rfl : fd = hd.fd := congrArg FdDirection.fd hkey
      exact .inr (.inl ⟨rfl, .work hmem rfl⟩)
    · obtain rfl := Option.some.inj (hnew.symm.trans hat)
      obtain rfl : fd = hd.fd := congrArg FdDirection.fd hkey
      cases resolve with
      | queued parcel => exact absurd hclosure (by simp [Closure.stand])
      | helloAnswer peer =>
          obtain rfl := Option.some.inj hclosure
          exact .inl (.work hmem rfl)
      | helloNotify peer =>
          obtain rfl := Option.some.inj hclosure
          exact .inl (.work hmem rfl)

theorem Aligned.opened (h : p.Aligned) {fd : Fd} (hfd : ¬ p.Named fd)
    (hshared : p'.shared = p.shared.setIo (p.shared.manager.io.openFd fd))
    (hrelies : ∀ fd' d, p'.Relies reading fd' d →
      p.Relies reading fd' d ∨ fd' = fd ∧ d = .between) : p'.Aligned := by
  refine h.onward ?_ ?_ ?_ (fun fd' sock hnamed hsock => ?_) fun fd' d hrely => ?_
  · rw [hshared]
    rfl
  · rw [hshared]
    rfl
  · rw [hshared]
    exact Nat.le_succ _
  · rw [hshared] at hsock
    have hne : fd' ≠ fd := fun heq => hfd (heq ▸ hnamed)
    exact (PartialMap.set_of_ne _ hne _).symm.trans hsock
  · rcases hrelies fd' d hrely with hold | ⟨rfl, rfl⟩
    · exact .inl hold
    · refine .inr (.inr ⟨trivial, fun sock hsock => ?_⟩)
      rw [hshared] at hsock ⊢
      have hsock : (p.shared.manager.io.fds.set fd' p.shared.manager.io.nextSock) fd' = some sock :=
        hsock
      rw [PartialMap.set_self] at hsock
      obtain rfl := Option.some.inj hsock
      have hnone : p.shared.manager.io.taken p.shared.manager.io.nextSock = [] :=
        h.fresh _ (Nat.le_refl _)
      show Taken _ (p.shared.manager.io.taken p.shared.manager.io.nextSock) []
      rw [hnone]
      exact Taken.nothing

theorem transfer_recv (p : Process) {r : Running} {op : RecvOp} {resolve : OnMessage}
    (hclosure : r.closure = .recv op resolve) (res : EpollResult) (recv : RecvReturn)
    (send : SendReturn) :
    (p.shared.transfer r res recv send).1.manager.io.taken
        = appendTo p.shared.manager.io.taken (p.shared.manager.io.fds r.handle.fd)
          (recv.bytes res) ∧
      (p.shared.transfer r res recv send).2
        = Running.recvOutcome r.handle resolve (op.event p.shared.manager.io.order res recv) := by
  unfold Shared.transfer
  rw [hclosure]
  exact ⟨rfl, rfl⟩

/-- After an event a reader stands where it should. -/
theorem stand_received {order : ByteOrder} {r : Running} {op : RecvOp} {resolve : OnMessage}
    {res : EpollResult} {recv : RecvReturn} (hwf : op.Wf)
    (hagain : (res, recv) ≠ (.ok (), .failed .eagain))
    (hstand : reading.ofRunning
      { r with outcome := some (Running.recvOutcome r.handle resolve (op.event order res recv)) }
      = some d) :
    d.Wf ∧ ∀ taken, Taken order taken (op.consumed order) →
      Taken order (taken ++ recv.bytes res) (d.rest order) := by
  cases hevent : op.event order res recv with
  | waiting op' =>
      rw [hevent] at hstand
      obtain rfl := Option.some.inj hstand
      obtain ⟨hwf', hconsumed⟩ := hwf.goes_on hagain (.inl hevent)
      refine ⟨hwf', fun taken htaken => ?_⟩
      rw [Stand.rest, hconsumed]
      exact htaken.more _
  | next op' =>
      rw [hevent] at hstand
      obtain rfl := Option.some.inj hstand
      obtain ⟨hwf', hconsumed⟩ := hwf.goes_on hagain (.inr hevent)
      refine ⟨hwf', fun taken htaken => ?_⟩
      rw [Stand.rest, hconsumed]
      exact htaken.more _
  | resolved result =>
      rw [hevent] at hstand
      cases result with
      | ok m =>
          obtain rfl := Option.some.inj hstand
          refine ⟨trivial, fun taken htaken => ?_⟩
          refine Taken.completes (hwf.fits hevent) ?_
          rw [hwf.completes hagain hevent]
          exact htaken.more _
      | err e =>
          exact absurd hstand (by simp [Reliance.ofRunning, Running.recvOutcome, Section.stand])
  | aborted =>
      rw [hevent] at hstand
      exact absurd hstand (by simp [Reliance.ofRunning, Running.recvOutcome])

/-- A callback that has been fetched stands within a frame. -/
theorem Aligned.finds (h : p.Aligned) {r : Running} (hrunning : p.running = some r)
    (hfresh : r.outcome = none) {op : RecvOp} {resolve : OnMessage}
    (hclosure : r.closure = .recv op resolve) : p.Finds r.handle.fd (.within op) := by
  refine h.stands r.handle.fd _ (.running hrunning rfl ?_)
  simp only [Reliance.ofRunning, hfresh, hclosure]
  rfl

theorem Aligned.receives (howned : p.Owned latest) (h : p.Aligned) {r : Running}
    (hrunning : p.running = some r) (hfresh : r.outcome = none) {op : RecvOp}
    {resolve : OnMessage} (hclosure : r.closure = .recv op resolve) {res : EpollResult}
    {recv : RecvReturn} {send : SendReturn} (hparts' : (p.transferred r res recv send).Parts)
    (hagain : (res, recv) ≠ (.ok (), .failed .eagain)) :
    (p.transferred r res recv send).Aligned := by
  obtain ⟨htaken, houtcome⟩ := p.transfer_recv hclosure res recv send
  obtain ⟨-, -, hsockets⟩ := p.shared.transfer_io r res recv send
  have hrole : r.closure.role ≠ reading.spared := by
    rw [hclosure]
    cases resolve <;> simp [Closure.role, OnMessage.role]
  have hlatest : ∀ fd sock, p.shared.manager.io.fds fd = some sock → latest fd = some sock :=
    howned.shared.sockets
  obtain ⟨hwf, hstands⟩ := h.finds hrunning hfresh hclosure
  have hother : ∀ sock, p.shared.manager.io.fds r.handle.fd ≠ some sock →
      (p.shared.transfer r res recv send).1.manager.io.taken sock
        = p.shared.manager.io.taken sock := by
    intro sock hne
    rw [htaken]
    exact appendTo_of_ne _ hne _
  refine ⟨fun sock hle => ?_, fun fd d hrely => ?_⟩
  · refine (hother sock fun hsock => ?_).trans (h.fresh sock (hsockets.nextSock ▸ hle))
    have hlt := howned.fresh r.handle.fd sock (hlatest _ _ hsock)
    exact absurd (hsockets.nextSock ▸ hle) (Nat.not_le.mpr hlt)
  · show d.Wf ∧ ∀ sock, (p.shared.transfer r res recv send).1.manager.io.fds fd = some sock →
      Taken (p.shared.transfer r res recv send).1.manager.io.order
        ((p.shared.transfer r res recv send).1.manager.io.taken sock)
        (d.rest (p.shared.transfer r res recv send).1.manager.io.order)
    rw [hsockets.fds, hsockets.order]
    by_cases hfd : fd = r.handle.fd
    · -- nobody but the callback stands where it has gone on
      subst hfd
      have hown := hparts'.alone rfl hrole hrely
      rw [houtcome] at hown
      obtain ⟨hwf', hgoes⟩ := stand_received hwf hagain hown
      refine ⟨hwf', fun sock hsock => ?_⟩
      rw [htaken, hsock, appendTo_self]
      exact hgoes _ (hstands sock hsock)
    · rcases hrely.of_transferred hrunning with hold | ⟨heq, -⟩
      · obtain ⟨hwf', hold'⟩ := h.stands fd d hold
        refine ⟨hwf', fun sock hsock => ?_⟩
        have hne : p.shared.manager.io.fds r.handle.fd ≠ some sock := fun heq =>
          hfd (howned.one fd r.handle.fd sock (hlatest _ _ hsock) (hlatest _ _ heq))
        rw [hother sock hne]
        exact hold' sock hsock
      · exact absurd heq.symm hfd

/-- An event for a sender of the exchange leaves the reader between two frames. -/
theorem stand_sent {r : Running} {resolve : OnSent} {progress : Progress SendOp Unit}
    (hstand : reading.ofRunning
      { r with outcome := some (Running.sendOutcome r.handle resolve progress) } = some d)
    (op : SendOp) : (Closure.send op resolve).stand = some d := by
  cases progress with
  | waiting op' => cases resolve <;> exact hstand
  | next op' => cases resolve <;> exact hstand
  | resolved result =>
      cases result <;> cases resolve <;>
        simp_all [Reliance.ofRunning, Running.sendOutcome, Section.stand, Closure.stand]
  | aborted => exact absurd hstand (by simp [Reliance.ofRunning, Running.sendOutcome])

theorem Aligned.sends (h : p.Aligned) {r : Running} (hrunning : p.running = some r)
    (hfresh : r.outcome = none) {op : SendOp} {resolve : OnSent}
    (hclosure : r.closure = .send op resolve) (res : EpollResult) (recv : RecvReturn)
    (send : SendReturn) : (p.transferred r res recv send).Aligned := by
  have hmoved : (p.shared.transfer r res recv send).1.manager.io.taken
        = p.shared.manager.io.taken ∧
      (p.shared.transfer r res recv send).2
        = Running.sendOutcome r.handle resolve (op.event res send) := by
    unfold Shared.transfer
    rw [hclosure]
    exact ⟨rfl, rfl⟩
  obtain ⟨htaken, houtcome⟩ := hmoved
  obtain ⟨-, -, hsockets⟩ := p.shared.transfer_io r res recv send
  refine h.onward hsockets.order htaken (Nat.le_of_eq hsockets.nextSock.symm)
    (fun fd sock _ hsock => hsockets.fds ▸ hsock) fun fd d hrely => .inl ?_
  rcases hrely.of_transferred hrunning with hold | ⟨hfd, hstand⟩
  · exact hold
  · refine .running hrunning hfd ?_
    rw [houtcome] at hstand
    simp only [Reliance.ofRunning, hfresh, hclosure]
    exact stand_sent hstand op

theorem Aligned.step (hwf : p.Wf) (hparts : p.Parts) (howned : p.Owned latest)
    (hunmoved : p.Unmoved) (h : p.Aligned) (hok : p.OpensUnnamed input) (hagain : p.NotAgain input)
    (hstep : Step p input p') : p'.Aligned := by
  have hparts' := hparts.step hwf hok hstep
  have hturn : Turn reading p input p' := hstep.turn hwf hunmoved
  cases hturn with
  | runs hwork hruns hsec => exact h.run hwf hwork hruns hsec
  | opens hopens hshared hrelies =>
      refine h.opened (hok _ hopens) hshared fun fd' d hrely => ?_
      rcases hrelies fd' d hrely with hold | ⟨sec, hgreeting, hsec⟩
      · exact .inl hold
      · cases hgreeting with
        | awaits =>
            obtain ⟨rfl, rfl⟩ := Prod.mk.inj (Option.some.inj hsec)
            exact .inr ⟨rfl, rfl⟩
        | tells =>
            obtain ⟨rfl, rfl⟩ := Prod.mk.inj (Option.some.inj hsec)
            exact .inr ⟨rfl, rfl⟩
  | @transfers res recv send r hrunning hfresh =>
      obtain ⟨hd, a, closure, outcome⟩ := r
      obtain rfl : outcome = none := hfresh
      cases closure with
      | recv op resolve =>
          exact h.receives howned hrunning rfl rfl hparts' (hagain _ hrunning rfl)
      | send op resolve => exact h.sends hrunning rfl rfl res recv send
  | unreplaced hrunning _ _ =>
      refine h.onward rfl rfl (Nat.le_refl _) (fun _ _ _ => id) fun fd d hrely => .inl ?_
      rcases hrely.of_unreplaced hrunning with hold | ⟨-, hfailed⟩
      · exact hold
      · refine absurd hfailed ?_
        unfold Running.failed
        split
        · simp [Section.stand]
        · rename_i op resolve _
          cases resolve <;> simp [Section.stand]
  | stays hstays hrelies =>
      exact h.onward hstays.order hstays.taken (Nat.le_of_eq hstays.nextSock.symm)
        (fun fd sock _ => hstays.fds fd sock) fun fd d hrely => .inl (hrelies fd d hrely)

end Process

end Diplom
