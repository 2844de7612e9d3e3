import Diplom.Proof.Parts

/-!
# Who relies on what

Whoever goes on with a descriptor relies on something that its socket has come to: a sender on what
it has written so far, a reader on what it has taken. A `Reliance` says what a section relies on,
and what an operation does. While a callback runs, it relies on what it will go on with, and the
action in its place does not count.

The messages are sent by one hand and read by another one, so one of these two roles takes no part.
Among the others there is one hand, and nobody else relies on what it changes.
-/

namespace Diplom

structure Reliance (D : Type) where
  ofSection : Section → Option (Fd × D)
  ofClosure : Closure OnMessage OnSent → Option D
  /-- The role that takes no part. -/
  spared : Role
  reads_or_sends : spared = .reading ∨ spared = .sending
  part_of_section : ∀ sec fd d, ofSection sec = some (fd, d) →
    ∃ role, role ≠ spared ∧ sec.part = some (role, fd)
  role_of_closure : ∀ closure d, ofClosure closure = some d → closure.role ≠ spared

namespace Reliance

variable {D : Type} (rel : Reliance D)

/-- After its system call a callback relies on what it will go on with. -/
def ofRunning (r : Running) : Option D :=
  match r.outcome with
  | none => rel.ofClosure r.closure
  | some (.keep next) => rel.ofClosure next
  | some (.replace next) => rel.ofClosure next
  | some (.resolve next) => (rel.ofSection next).map Prod.snd
  | some .abort => none

theorem ofSection_of_handle_none {sec : Section} (h : sec.handle = none) :
    rel.ofSection sec = none := by
  cases hsec : rel.ofSection sec with
  | none => rfl
  | some pair =>
      obtain ⟨role, -, hpart⟩ := rel.part_of_section sec pair.1 pair.2 hsec
      exact absurd (hpart.symm.trans (Section.part_of_handle_none h)) (by simp)

end Reliance

namespace Process

variable {D : Type} {rel : Reliance D} {p p' : Process} {fd : Fd} {d : D}

/-- Somebody relies on something. -/
inductive Relies (rel : Reliance D) (p : Process) (fd : Fd) (d : D) : Prop
  | work {t : ThreadId} {sec : Section} (hmem : sec ∈ p.work t)
      (hsec : rel.ofSection sec = some (fd, d))
  | waiting {dir : IoDirection} {closure : Closure OnMessage OnSent}
      (hat : p.shared.manager.io.actionAt ⟨fd, dir⟩ = some closure)
      (hidle : ∀ r, p.running = some r → r.key ≠ ⟨fd, dir⟩)
      (hclosure : rel.ofClosure closure = some d)
  | running {r : Running} (hrunning : p.running = some r) (hfd : r.handle.fd = fd)
      (hr : rel.ofRunning r = some d)

theorem Relies.named (h : p.Relies rel fd d) : p.Named fd := by
  cases h with
  | @work t sec hmem hsec =>
      obtain ⟨role, -, hpart⟩ := rel.part_of_section sec fd d hsec
      obtain ⟨hd, hhandle, rfl⟩ := Section.handle_of_part hpart
      exact .work hmem hhandle
  | waiting hat _ _ => exact .action hat
  | running hrunning hfd _ => exact hfd ▸ .running hrunning

/-! ### One that goes on -/

/-- Among the roles that take part there is one hand. -/
theorem Parts.sole (h : p.Parts) (rel : Reliance D) (fd : Fd) {role role' : Role}
    (hrole : role ≠ rel.spared) (hrole' : role' ≠ rel.spared) (hpos : 1 ≤ p.tally role fd)
    (hpos' : 1 ≤ p.tally role' fd) : role = role' ∧ p.tally role fd = 1 := by
  have hat := h.at_fd fd
  have hone := hat.one
  have hreader := hat.reader
  have hsingle := hat.single
  have hlate : 1 ≤ p.tally .hello fd + p.tally .filling fd →
      p.tally .reading fd = 0 ∧ p.tally .sending fd = 0 :=
    fun hearly => ⟨(hat.apart hearly).1, (hat.apart hearly).2.1⟩
  rcases rel.reads_or_sends with hspared | hspared <;> rw [hspared] at hrole hrole'
  all_goals
    cases role <;> cases role' <;>
      first
        | exact ⟨rfl, by omega⟩
        | exact absurd rfl hrole
        | exact absurd rfl hrole'
        | (exfalso; omega)

/-- While an operation runs that takes part, nobody else on its descriptor relies on anything. -/
theorem Parts.alone (h : p.Parts) {r : Running} (hrunning : p.running = some r)
    (hrole : r.closure.role ≠ rel.spared) (hrelies : p.Relies rel r.handle.fd d) :
    rel.ofRunning r = some d := by
  have hstage := h.alike.onStage hrunning r.closure.role
  rw [if_pos rfl] at hstage
  have hown := h.alike.tally_pos hrunning
  cases hrelies with
  | @work t sec hmem hsec =>
      obtain ⟨role, hne, hpart⟩ := rel.part_of_section sec _ d hsec
      have hcast := cast_le_tally hmem role r.handle.fd
      rw [cast_pos hpart] at hcast
      have hplace : p.onStage r.closure.role r.key
          ≤ p.onStage r.closure.role ⟨r.handle.fd, .input⟩
            + p.onStage r.closure.role ⟨r.handle.fd, .output⟩ :=
        p.onStage_le r.closure.role r.key
      obtain ⟨heq, hone⟩ := h.sole rel r.handle.fd hne hrole (by omega) hown
      subst heq
      omega
  | @waiting dir closure hat hidle hclosure =>
      have hne := rel.role_of_closure closure d hclosure
      have hplayed : p.onStage closure.role ⟨r.handle.fd, dir⟩ = 1 := by
        rw [onStage_of_closureAt (by rw [closureAt, hat, Option.some_or]), if_pos rfl]
      obtain ⟨heq, hone⟩ :=
        h.sole rel r.handle.fd hne hrole (tally_pos_of_action hat rfl) hown
      have hboth : p.onStage closure.role ⟨r.handle.fd, .input⟩
          + p.onStage closure.role ⟨r.handle.fd, .output⟩ ≤ 1 := by
        rw [← hone]
        unfold tally
        omega
      rw [← heq] at hstage
      have hother := hidle r hrunning
      -- the two directions count apart
      exfalso
      unfold Running.key at hstage hother
      cases hd : r.closure.dir <;> cases dir <;> simp_all
  | @running r' hrunning' _ hr =>
      obtain rfl := Option.some.inj (hrunning.symm.trans hrunning')
      exact hr

end Process

/-! ### What runs stays in its place -/

/-- A place of the loop stays as it is, is emptied, or gets a new operation of a section. -/
theorem Shared.Runs.place {s s' : Shared} {sec : Section} {next : List Section}
    (hruns : s.Runs sec s' next) (hwf : s.manager.io.Wf) (key : FdDirection) :
    (s'.manager.io.actionAt key = s.manager.io.actionAt key ∧
      s'.manager.io.objects key = s.manager.io.objects key) ∨
    s'.manager.io.actionAt key = none ∨
    (∃ hd resolve, sec = .recvMessage hd resolve ∧ key = ⟨hd.fd, .input⟩ ∧
      s'.manager.io.actionAt key = some (.recv .start resolve)) ∨
    ∃ hd data resolve, sec = .sendMessage hd data resolve ∧ key = ⟨hd.fd, .output⟩ ∧
      s'.manager.io.actionAt key = some (.send (.start s.manager.io.order data) resolve) ∧
      data ≠ [] ∧ s'.handed = (s.hand hd data resolve).handed := by
  cases hruns with
  | @deregisterFd hd ok =>
      have hactions := (Io.deregisterFd_actions s.manager.io hd.fd ok).1
      have hobjects : (s.manager.io.deregisterFd hd.fd ok).objects
          = (s.manager.io.objects.erase ⟨hd.fd, .input⟩).erase ⟨hd.fd, .output⟩ := rfl
      by_cases hfd : key.fd = hd.fd
      · refine .inr (.inl ?_)
        refine (congrFun hactions key).trans ?_
        obtain ⟨fd, dir⟩ := key
        obtain rfl : fd = hd.fd := hfd
        cases dir with
        | input => rw [PartialMap.erase_of_ne _ (by simp), PartialMap.erase_self]
        | output => exact PartialMap.erase_self _ _
      · have hin : key ≠ ⟨hd.fd, .input⟩ := fun heq => hfd (congrArg FdDirection.fd heq)
        have hout : key ≠ ⟨hd.fd, .output⟩ := fun heq => hfd (congrArg FdDirection.fd heq)
        refine .inl ⟨(congrFun hactions key).trans ?_, (congrFun hobjects key).trans ?_⟩
        · rw [PartialMap.erase_of_ne _ hout, PartialMap.erase_of_ne _ hin]
        · rw [PartialMap.erase_of_ne _ hout, PartialMap.erase_of_ne _ hin]
  | @recvStarted hd resolve ok io hstart =>
      have hreg := Io.registered_of_recvMessage hwf hstart
      by_cases hkey : key = ⟨hd.fd, .input⟩
      · refine .inr (.inr (.inl ⟨hd, resolve, rfl, hkey, ?_⟩))
        subst hkey
        exact (congrFun hreg.actionAt _).trans (PartialMap.set_self _ _ _)
      · refine .inl ⟨?_, hreg.objects key hkey⟩
        exact (congrFun hreg.actionAt key).trans (PartialMap.set_of_ne _ hkey _)
  | @sendStarted hd data resolve ok io hstart =>
      have hreg := Io.registered_of_sendMessage hwf hstart
      by_cases hkey : key = ⟨hd.fd, .output⟩
      · refine .inr (.inr (.inr ⟨hd, data, resolve, rfl, hkey, ?_, ?_, rfl⟩))
        · subst hkey
          exact (congrFun hreg.actionAt _).trans (PartialMap.set_self _ _ _)
        · rintro rfl
          exact Io.sendMessage_pending hstart rfl
      · refine .inl ⟨?_, hreg.objects key hkey⟩
        exact (congrFun hreg.actionAt key).trans (PartialMap.set_of_ne _ hkey _)
  | _ => exact .inl ⟨rfl, rfl⟩

namespace Process

variable {D : Type} {rel : Reliance D} {p p' : Process} {input : Input} {fd : Fd} {d : D}

/-- Where a callback runs, its operation is still in its place, or nothing is. -/
def Unmoved (p : Process) : Prop :=
  ∀ r closure, p.running = some r → p.shared.manager.io.actionAt r.key = some closure →
    closure = r.closure ∧ p.shared.manager.io.objects r.key = some r.afd

theorem Unmoved.of_same (h : p.Unmoved)
    (hrunning : ∀ r, p'.running = some r →
      ∃ outcome, p.running = some { r with outcome := outcome })
    (hactions : p'.shared.manager.io.actionAt = p.shared.manager.io.actionAt)
    (hobjects : p'.shared.manager.io.objects = p.shared.manager.io.objects) : p'.Unmoved := by
  intro r closure hr hat
  obtain ⟨outcome, hold⟩ := hrunning r hr
  rw [hactions] at hat
  rw [hobjects]
  exact h { r with outcome := outcome } closure hold hat

theorem unmoved_of_idle (hrunning : p.running = none) : p.Unmoved :=
  fun _ _ hr => absurd (hrunning.symm.trans hr) (by simp)

theorem Unmoved.run (hwf : p.Wf) (hparts : p.Parts) (h : p.Unmoved) {t : ThreadId} {sec : Section}
    {rest next : List Section} {shared : Shared} (hwork : p.work t = sec :: rest)
    (hruns : p.shared.Runs sec shared next) : (p.went t next rest shared).Unmoved := by
  intro r closure hrunning hat
  have hrunning : p.running = some r := hrunning
  have hmem : sec ∈ p.work t := by simp [hwork]
  have hstage := hparts.alike.onStage hrunning r.closure.role
  rw [if_pos rfl] at hstage
  have hbusy : ∀ closure' : Closure OnMessage OnSent,
      sec.part = some (closure'.role, r.key.fd) → closure'.dir ≠ r.closure.dir := by
    intro closure' hpart hdir
    obtain ⟨hhello, hhello', hne⟩ := hparts.both hmem hpart hstage
    exact hne (Closure.role_of_dir hdir hhello hhello')
  rcases hruns.place hwf.io r.key with ⟨hsame, hobjects⟩ | hnone | ⟨hd, resolve, rfl, hkey, hnew⟩
    | ⟨hd, data, resolve, rfl, hkey, hnew, -⟩
  · obtain ⟨hown, hobj⟩ := h r closure hrunning (hsame ▸ hat)
    exact ⟨hown, hobjects.trans hobj⟩
  · exact absurd (hnone.symm.trans hat) (by simp)
  · refine absurd (congrArg FdDirection.direction hkey).symm
      (hbusy (.recv .start resolve) ?_)
    rw [hkey]
    rfl
  · refine absurd (congrArg FdDirection.direction hkey).symm
      (hbusy (.send (.start p.shared.manager.io.order data) resolve) ?_)
    rw [hkey]
    rfl

theorem Unmoved.step (hwf : p.Wf) (hparts : p.Parts) (h : p.Unmoved) (hstep : Step p input p') :
    p'.Unmoved := by
  have hsame : ∀ r, p.running = some r →
      ∃ outcome, p.running = some { r with outcome := outcome } :=
    fun r hr => ⟨r.outcome, hr⟩
  cases hstep with
  | lock _ _ => exact h.of_same hsame rfl rfl
  | unlock _ => exact h.of_same hsame rfl rfl
  | run hwork hrun => exact h.run hwf hparts hwork (Shared.run_cases hrun)
  | call _ => exact h.of_same hsame rfl rfl
  | accept _ _ => exact h.of_same hsame rfl rfl
  | openOther _ => exact h.of_same hsame rfl rfl
  | closeOther _ => exact h.of_same hsame rfl rfl
  | @fetch fd dir closure a hidle hat hobj =>
      intro r closure' hr hat'
      obtain rfl := Option.some.inj hr
      have hkey : Running.key ⟨⟨fd, p.shared.actionOf ⟨fd, dir⟩⟩, a, closure, none⟩
          = ⟨fd, dir⟩ := by
        rw [Running.key, hwf.io.dir_of_actionAt hat]
      rw [hkey] at hat' ⊢
      exact ⟨Option.some.inj (hat'.symm.trans hat), hobj⟩
  | @transfer res recv send r hrunning _ =>
      obtain ⟨hloop, hobjects, -⟩ := p.shared.transfer_io r res recv send
      refine h.of_same (fun r' hr' => ?_) (Io.actionAt_of_loop hloop) hobjects
      obtain rfl := Option.some.inj hr'
      exact ⟨r.outcome, hrunning⟩
  | kept _ _ _ => exact unmoved_of_idle rfl
  | dropped _ _ _ => exact unmoved_of_idle rfl
  | replaced _ _ _ => exact unmoved_of_idle rfl
  | @unreplaced ok r next hrunning _ _ =>
      refine h.of_same (fun r' hr' => ?_) rfl rfl
      obtain rfl := Option.some.inj hr'
      exact ⟨r.outcome, hrunning⟩
  | resolved _ _ => exact unmoved_of_idle rfl
  | aborted _ _ => exact h.of_same hsame rfl rfl
  | destroy hidle _ => exact unmoved_of_idle (hidle.2 rfl)

/-! ### What a step changes -/

/-- After a section something is relied on that was relied on before, or by what follows, or by a
new operation. -/
theorem Relies.went {t : ThreadId} {sec : Section} {rest next : List Section} {shared : Shared}
    (hwork : p.work t = sec :: rest) (h : (p.went t next rest shared).Relies rel fd d) :
    p.Relies rel fd d ∨ (∃ sec' ∈ next, rel.ofSection sec' = some (fd, d)) ∨
      ∃ dir closure, shared.manager.io.actionAt ⟨fd, dir⟩ = some closure ∧
        rel.ofClosure closure = some d ∧
        shared.manager.io.actionAt ⟨fd, dir⟩ ≠ p.shared.manager.io.actionAt ⟨fd, dir⟩ := by
  cases h with
  | @work t' sec' hmem hsec =>
      rcases p.of_mem_setWork hwork hmem with hnew | hold
      · exact .inr (.inl ⟨sec', hnew, hsec⟩)
      · exact .inl (.work hold hsec)
  | @waiting dir closure hat hidle hclosure =>
      have hat : shared.manager.io.actionAt ⟨fd, dir⟩ = some closure := hat
      by_cases hsame : shared.manager.io.actionAt ⟨fd, dir⟩
          = p.shared.manager.io.actionAt ⟨fd, dir⟩
      · exact .inl (.waiting (hsame ▸ hat) hidle hclosure)
      · exact .inr (.inr ⟨dir, closure, hat, hclosure, hsame⟩)
  | running hrunning hfd hr => exact .inl (.running hrunning hfd hr)

theorem Relies.went_of_same {t : ThreadId} {sec : Section} {rest next : List Section}
    {shared : Shared} (hwork : p.work t = sec :: rest)
    (hactions : shared.manager.io.actionAt = p.shared.manager.io.actionAt)
    (h : (p.went t next rest shared).Relies rel fd d) :
    p.Relies rel fd d ∨ ∃ sec' ∈ next, rel.ofSection sec' = some (fd, d) := by
  rcases h.went hwork with hold | hnext | ⟨dir, closure, -, -, hne⟩
  · exact .inl hold
  · exact .inr hnext
  · exact absurd (congrFun hactions _) hne

theorem Relies.of_fewer (h : p'.Relies rel fd d)
    (hwork : ∀ t, ∀ sec ∈ p'.work t, sec ∈ p.work t ∨ rel.ofSection sec = none)
    (hactions : ∀ key closure, p'.shared.manager.io.actionAt key = some closure →
      p.shared.manager.io.actionAt key = some closure)
    (hrunning : p'.running = p.running) : p.Relies rel fd d := by
  cases h with
  | @work t sec hmem hsec =>
      rcases hwork t sec hmem with hold | hnone
      · exact .work hold hsec
      · exact absurd (hnone.symm.trans hsec) (by simp)
  | waiting hat hidle hclosure =>
      exact .waiting (hactions _ _ hat) (hrunning ▸ hidle) hclosure
  | running hr hfd hown => exact .running (hrunning ▸ hr) hfd hown

theorem Relies.of_put (h : p'.Relies rel fd d) {r : Running} (hrunning : p.running = some r)
    (hrunning' : p'.running = none) (hwork : p'.work = p.work) {next : Closure OnMessage OnSent}
    (hnext : rel.ofRunning r = rel.ofClosure next)
    (hactions : p'.shared.manager.io.actionAt = p.shared.manager.io.actionAt.set r.key next) :
    p.Relies rel fd d := by
  cases h with
  | work hmem hsec => exact .work (hwork ▸ hmem) hsec
  | @waiting dir closure hat _ hclosure =>
      rw [hactions] at hat
      by_cases hkey : (⟨fd, dir⟩ : FdDirection) = r.key
      · rw [hkey, PartialMap.set_self] at hat
        obtain rfl := Option.some.inj hat
        exact .running hrunning (congrArg FdDirection.fd hkey).symm (hnext.trans hclosure)
      · refine .waiting ((PartialMap.set_of_ne _ hkey _).symm.trans hat) (fun r' hr' => ?_)
          hclosure
        obtain rfl := Option.some.inj (hrunning.symm.trans hr')
        exact fun heq => hkey heq.symm
  | running hr _ _ => exact absurd (hrunning'.symm.trans hr) (by simp)

/-- What a callback was about has been taken from its place, and nothing has come there. -/
theorem Relies.of_dropped (h : ({ p with running := none } : Process).Relies rel fd d)
    (hunmoved : p.Unmoved) {r : Running} (hrunning : p.running = some r)
    (hholds : ¬ p.shared.manager.io.Holds r.key r.afd) : p.Relies rel fd d := by
  cases h with
  | work hmem hsec => exact .work hmem hsec
  | @waiting dir closure hat _ hclosure =>
      refine .waiting hat (fun r' hr' hkey => ?_) hclosure
      obtain rfl := Option.some.inj (hrunning.symm.trans hr')
      have hat : p.shared.manager.io.actionAt ⟨fd, dir⟩ = some closure := hat
      rw [← hkey] at hat
      obtain ⟨-, hobject⟩ := hunmoved r closure hrunning hat
      refine hholds ⟨PartialMap.contains_eq_true.mpr ?_, hobject⟩
      rw [ne_eq, ← Io.actionAt_eq_none, hat]
      simp
  | running hr _ _ => exact absurd hr (by simp)

theorem Relies.of_resolved (hwf : p.Wf) {r : Running} {next : Section} {ok : Bool}
    (h : ({ (p.setIo (p.shared.manager.io.handBack r.afd ok)).setWork .eventLoop
      [next] with running := none } : Process).Relies rel fd d)
    (hrunning : p.running = some r) (houtcome : r.outcome = some (.resolve next)) :
    p.Relies rel fd d := by
  have hr := hwf.running r hrunning
  obtain ⟨-, hactions, -⟩ := Io.handBack_handed hwf.io hr.token ok
  cases h with
  | @work t sec hmem hsec =>
      rcases (p.setIo
          (p.shared.manager.io.handBack r.afd ok)).of_mem_setWork_new hmem with hnew | hold
      · obtain rfl := List.mem_singleton.mp hnew
        obtain ⟨role, -, hpart⟩ := rel.part_of_section sec fd d hsec
        have hfd : r.handle.fd = fd :=
          (Prod.mk.inj (Option.some.inj
            ((resolves_part (hr.fits _ houtcome)).symm.trans hpart))).2
        refine .running hrunning hfd ?_
        simp only [Reliance.ofRunning, houtcome]
        rw [hsec]
        rfl
      · exact .work hold hsec
  | @waiting dir closure hat _ hclosure =>
      have hat : (p.shared.manager.io.handBack r.afd ok).actionAt ⟨fd, dir⟩ = some closure := hat
      rw [hactions] at hat
      obtain ⟨hne, hold⟩ := (PartialMap.erase_eq_some _).mp hat
      refine .waiting hold (fun r' hr' => ?_) hclosure
      obtain rfl := Option.some.inj (hrunning.symm.trans hr')
      exact fun heq => hne heq.symm
  | running hr' _ _ => exact absurd hr' (by simp)

def transferred (p : Process) (r : Running) (res : EpollResult) (recv : RecvReturn)
    (send : SendReturn) : Process :=
  { p with
    shared := (p.shared.transfer r res recv send).1
    running := some { r with outcome := some (p.shared.transfer r res recv send).2 } }

theorem Relies.of_transferred {r : Running} {res : EpollResult} {recv : RecvReturn}
    {send : SendReturn} (h : (p.transferred r res recv send).Relies rel fd d)
    (hrunning : p.running = some r) :
    p.Relies rel fd d ∨ r.handle.fd = fd ∧ rel.ofRunning
      { r with outcome := some (p.shared.transfer r res recv send).2 } = some d := by
  cases h with
  | work hmem hsec => exact .inl (.work hmem hsec)
  | @waiting dir closure hat hidle hclosure =>
      have hloop := (p.shared.transfer_io r res recv send).1
      have hat : (p.shared.transfer r res recv send).1.manager.io.actionAt ⟨fd, dir⟩
          = some closure :=
        hat
      rw [Io.actionAt_of_loop hloop] at hat
      refine .inl (.waiting hat (fun r' hr' => ?_) hclosure)
      obtain rfl := Option.some.inj (hrunning.symm.trans hr')
      exact hidle { r with outcome := some (p.shared.transfer r res recv send).2 } rfl
  | running hr' hfd hr =>
      obtain rfl := Option.some.inj hr'
      exact .inr ⟨hfd, hr⟩

/-- A callback that cannot register what it goes on with. -/
def unreplaced (p : Process) (r : Running) : Process :=
  { p with running := some { r with outcome := some (.resolve r.failed) } }

theorem Relies.of_unreplaced {r : Running} (h : (p.unreplaced r).Relies rel fd d)
    (hrunning : p.running = some r) :
    p.Relies rel fd d ∨ r.handle.fd = fd ∧ (rel.ofSection r.failed).map Prod.snd = some d := by
  cases h with
  | work hmem hsec => exact .inl (.work hmem hsec)
  | waiting hat hidle hclosure =>
      refine .inl (.waiting hat (fun r' hr' => ?_) hclosure)
      obtain rfl := Option.some.inj (hrunning.symm.trans hr')
      exact hidle { r with outcome := some (.resolve r.failed) } rfl
  | running hr' hfd hr =>
      obtain rfl := Option.some.inj hr'
      exact .inr ⟨hfd, hr⟩

/-- Nothing passes through a socket or through a queue, and no number is given out. -/
structure Stays (p p' : Process) : Prop where
  self : p'.shared.manager.self = p.shared.manager.self
  order : p'.shared.manager.io.order = p.shared.manager.io.order
  written : p'.shared.manager.io.written = p.shared.manager.io.written
  taken : p'.shared.manager.io.taken = p.shared.manager.io.taken
  nextSock : p'.shared.manager.io.nextSock = p.shared.manager.io.nextSock
  fds : ∀ fd sock, p'.shared.manager.io.fds fd = some sock → p.shared.manager.io.fds fd = some sock
  queues : p'.shared.manager.sendQueues = p.shared.manager.sendQueues
  handed : p'.shared.handed = p.shared.handed

/-- What begins on a new socket of the manager. -/
inductive Greeting (p : Process) (fd : Fd) : Section → Prop
  | awaits : Greeting p fd (.recvMessage (p.shared.newHandle fd) .incomingHello)
  | tells {peer : PeerId} :
      Greeting p fd (.sendMessage (p.shared.newHandle fd)
        (HelloMsg.make p.shared.manager.self helloNotify).serialize (.helloNotify peer))

/-- The steps on which somebody may rely on something new, and the others. -/
inductive Turn (rel : Reliance D) (p : Process) : Input → Process → Prop
  | runs {t : ThreadId} {answer : Answer} {sec : Section} {rest next : List Section}
      {shared : Shared} (hwork : p.work t = sec :: rest) (hruns : p.shared.Runs sec shared next)
      (hsec : ∀ peer, sec ≠ .dial peer) : Turn rel p (.run t answer) (p.went t next rest shared)
  | opens {input : Input} {p' : Process} {fd : Fd} (hopens : p.opens input = some fd)
      (hshared : p'.shared = p.shared.setIo (p.shared.manager.io.openFd fd))
      (hrelies : ∀ fd' d, p'.Relies rel fd' d →
        p.Relies rel fd' d ∨ ∃ sec, p.Greeting fd sec ∧ rel.ofSection sec = some (fd', d)) :
      Turn rel p input p'
  | transfers {res : EpollResult} {recv : RecvReturn} {send : SendReturn} {r : Running}
      (hrunning : p.running = some r) (hfresh : r.outcome = none) :
      Turn rel p (.transfer res recv send) (p.transferred r res recv send)
  | unreplaced {ok : Bool} {r : Running} {next : Closure OnMessage OnSent}
      (hrunning : p.running = some r) (houtcome : r.outcome = some (.replace next))
      (hreplace : (p.shared.manager.io.loop.replaceAction r.afd.token next).1 = false) :
      Turn rel p (.finish ok) (p.unreplaced r)
  | stays {input : Input} {p' : Process} (hstays : Stays p p')
      (hrelies : ∀ fd d, p'.Relies rel fd d → p.Relies rel fd d) : Turn rel p input p'

theorem turn_of_run {t : ThreadId} {answer : Answer} {sec : Section} {rest next : List Section}
    {shared : Shared} (hwork : p.work t = sec :: rest)
    (hrun : p.shared.run answer sec = some (shared, next)) :
    Turn rel p (.run t answer) (p.went t next rest shared) := by
  by_cases hdial : ∃ peer, sec = .dial peer
  · obtain ⟨peer, rfl⟩ := hdial
    rcases dial_cases hwork hrun with ⟨-, rfl, hnone⟩ | ⟨fd, told, hopens, rfl, htold, rfl⟩
    · refine .stays ⟨rfl, rfl, rfl, rfl, rfl, fun _ _ => id, rfl, rfl⟩ fun fd d h => ?_
      rcases h.went_of_same hwork rfl with hold | ⟨sec', hmem, hsec⟩
      · exact hold
      · exact absurd ((rel.ofSection_of_handle_none (hnone sec' hmem)).symm.trans hsec) (by simp)
    · refine .opens hopens rfl fun fd' d h => ?_
      have hactions : (p.shared.setIo (p.shared.manager.io.openFd fd)).manager.io.actionAt
          = p.shared.manager.io.actionAt :=
        rfl
      rcases h.went_of_same hwork hactions with hold | ⟨sec', hmem, hsec⟩
      · exact .inl hold
      · rcases List.mem_append.mp hmem with hmem | hmem
        · exact absurd ((rel.ofSection_of_handle_none (htold sec' hmem)).symm.trans hsec) (by simp)
        · obtain rfl := List.mem_singleton.mp hmem
          exact .inr ⟨_, .tells, hsec⟩
  · exact .runs hwork (Shared.run_cases hrun) fun peer heq => hdial ⟨peer, heq⟩

theorem Step.turn (hwf : p.Wf) (hunmoved : p.Unmoved) (hstep : Step p input p') :
    Turn rel p input p' := by
  have hpassed : ∀ {t sec rest}, p.work t = sec :: rest →
      ∀ t', ∀ sec' ∈ (p.setWork t ([] ++ rest)).work t',
        sec' ∈ p.work t' ∨ rel.ofSection sec' = none :=
    fun hwork t' sec' hmem => .inl ((p.of_mem_setWork hwork hmem).resolve_left List.not_mem_nil)
  have hstay : ∀ t, ∀ sec ∈ p.work t, sec ∈ p.work t ∨ rel.ofSection sec = none :=
    fun _ _ => .inl
  cases hstep with
  | lock hwork _ =>
      exact .stays ⟨rfl, rfl, rfl, rfl, rfl, fun _ _ => id, rfl, rfl⟩ fun _ _ h =>
        h.of_fewer (hpassed hwork) (fun _ _ => id) rfl
  | unlock hwork =>
      exact .stays ⟨rfl, rfl, rfl, rfl, rfl, fun _ _ => id, rfl, rfl⟩ fun _ _ h =>
        h.of_fewer (hpassed hwork) (fun _ _ => id) rfl
  | run hwork hrun => exact turn_of_run hwork hrun
  | @call t call hidle =>
      refine .stays ⟨rfl, rfl, rfl, rfl, rfl, fun _ _ => id, rfl, rfl⟩ fun _ _ h =>
        h.of_fewer (fun t' sec hmem => ?_) (fun _ _ => id) rfl
      rcases p.of_mem_setWork_new hmem with hnew | hold
      · exact .inr (rel.ofSection_of_handle_none (Call.handle_none hnew))
      · exact .inl hold
  | @accept fd _ _ =>
      refine .opens rfl rfl fun fd' d h => ?_
      cases h with
      | work hmem hsec =>
          rcases (p.setIo (p.shared.manager.io.openFd fd)).of_mem_setWork_new hmem with hnew | hold
          · obtain rfl := List.mem_singleton.mp hnew
            exact .inr ⟨_, .awaits, hsec⟩
          · exact .inl (.work hold hsec)
      | waiting hat hidle hclosure => exact .inl (.waiting hat hidle hclosure)
      | running hrunning hfd hr => exact .inl (.running hrunning hfd hr)
  | openOther _ =>
      exact .opens rfl rfl fun _ _ h => .inl (h.of_fewer hstay (fun _ _ => id) rfl)
  | closeOther _ =>
      exact .stays ⟨rfl, rfl, rfl, rfl, rfl,
        fun fd sock hsock => ((PartialMap.erase_eq_some _).mp hsock).2, rfl, rfl⟩ fun _ _ h =>
        h.of_fewer hstay (fun _ _ => id) rfl
  | @fetch fd dir closure a hidle hat hobj =>
      have hnone := hidle.2 rfl
      have hfree : ∀ {key : FdDirection}, ∀ r, p.running = some r → r.key ≠ key :=
        fun r hr => absurd (hnone.symm.trans hr) (by simp)
      refine .stays ⟨rfl, rfl, rfl, rfl, rfl, fun _ _ => id, rfl, rfl⟩ fun fd' d h => ?_
      cases h with
      | work hmem hsec => exact .work hmem hsec
      | waiting hat' _ hclosure => exact .waiting hat' hfree hclosure
      | running hr hfd hown =>
          obtain rfl := Option.some.inj hr
          exact hfd ▸ .waiting hat hfree hown
  | transfer hrunning hfresh => exact .transfers hrunning hfresh
  | @kept ok r next hrunning houtcome hholds =>
      have hr := hwf.running r hrunning
      have hfits : next.Alike r.closure := hr.fits _ houtcome
      obtain ⟨-, hactions, -⟩ := Io.keep_kept hwf.io hr.fd hfits hholds
      have hnext : rel.ofRunning r = rel.ofClosure next := by
        simp only [Reliance.ofRunning, houtcome]
      exact .stays ⟨rfl, rfl, rfl, rfl, rfl, fun _ _ => id, rfl, rfl⟩ fun _ _ h =>
        h.of_put hrunning rfl rfl hnext hactions
  | dropped hrunning _ hholds =>
      exact .stays ⟨rfl, rfl, rfl, rfl, rfl, fun _ _ => id, rfl, rfl⟩ fun _ _ h =>
        h.of_dropped hunmoved hrunning hholds
  | @replaced ok r next loop hrunning houtcome hreplace =>
      have hr := hwf.running r hrunning
      have hfits : next.Alike r.closure := hr.fits _ houtcome
      obtain ⟨-, -, hactions, -⟩ := Io.replaceAction_replaced hwf.io hr.token hfits hreplace
      have hnext : rel.ofRunning r = rel.ofClosure next := by
        simp only [Reliance.ofRunning, houtcome]
      exact .stays ⟨rfl, rfl, rfl, rfl, rfl, fun _ _ => id, rfl, rfl⟩ fun _ _ h =>
        h.of_put hrunning rfl rfl hnext hactions
  | unreplaced hrunning houtcome hreplace => exact .unreplaced hrunning houtcome hreplace
  | @resolved ok r next hrunning houtcome =>
      have hr := hwf.running r hrunning
      obtain ⟨-, -, hsockets⟩ := Io.handBack_handed hwf.io hr.token ok
      have hfewer := Io.destroy_fewer hwf.io r.afd.token ok
      exact .stays ⟨rfl, hsockets.order, hfewer.written, hfewer.taken, hsockets.nextSock,
        fun fd sock hsock => hsockets.fds ▸ hsock, rfl, rfl⟩ fun _ _ h =>
        h.of_resolved hwf hrunning houtcome
  | aborted _ _ =>
      exact .stays ⟨rfl, rfl, rfl, rfl, rfl, fun _ _ => id, rfl, rfl⟩ fun _ _ h =>
        h.of_fewer hstay (fun _ _ => id) rfl
  | @destroy token ok _ _ =>
      have hfewer := Io.destroy_fewer hwf.io token ok
      exact .stays ⟨rfl, hfewer.order, hfewer.written, hfewer.taken, hfewer.nextSock,
        fun fd sock hsock => hfewer.fds ▸ hsock, rfl, rfl⟩ fun _ _ h =>
        h.of_fewer hstay
          (fun key _ => PartialMap.eq_some_of_kept (p.shared.manager.io.destroy_taken token ok key))
          rfl

end Process

end Diplom
