import Diplom.Proof.Dues

/-!
# Whole frames on a socket, with two threads

As long as a number stands for one socket, one hand at a time writes to the socket, and it finds
there what it relies on. After a message has failed with a part of its frame written nobody finds
that any more, and the socket carries the beginning of whole frames as long as it accepts nothing
else. `ProcData` tells `EAGAIN` from other errors when it receives, and does not when it sends; the
next message of the queue follows where the rest of the frame should have been.
-/

namespace Diplom

namespace Process

variable (p : Process)

def socketRunning : Option Sock := p.running.bind fun r => p.shared.manager.io.fds r.handle.fd

def bytesPut : Input → List Byte
  | .transfer res _ send =>
      match p.running with
      | some ⟨_, _, .send op _, _⟩ => op.put res send
      | _ => []
  | _ => []

/-- The step makes a queued message fail with a part of its frame written: `send` fails, or the
place of the action has been taken away when the next part is to be registered. -/
def tears : Input → Bool
  | .transfer res _ send =>
      match p.running with
      | some ⟨_, _, .send op (.queued parcel), _⟩ =>
          match op.event res send with
          | .resolved (.err _) => op.remaining ≠ frame p.shared.manager.io.order parcel.body
          | _ => false
      | _ => false
  | .finish _ =>
      match p.running with
      | some ⟨_, a, .send _ (.queued _), some (.replace next)⟩ =>
          !(p.shared.manager.io.loop.replaceAction a.token next).1
      | _ => false
  | _ => false

/-- The sockets that carry a part of a frame that has failed, after a step. -/
def tornAfter (input : Input) (torn : Sock → Bool) (sock : Sock) : Bool :=
  torn sock || (p.socketRunning = some sock && p.tears input)

end Process

/-- The process, and the sockets on which a message has failed with a part of its frame written. -/
structure Writing where
  process : Process
  torn : Sock → Bool

namespace Writing

variable (w : Writing)

def init (self : PeerId) (order : ByteOrder) : Writing := ⟨.init self order, fun _ => false⟩

def step (input : Process.Input) : Option Writing :=
  (w.process.step input).map fun process => ⟨process, w.process.tornAfter input w.torn⟩

def machine : Machine Writing Process.Input := ⟨step⟩

/-- A socket that carries a part of a frame that has failed accepts no more bytes. -/
def Spares (input : Process.Input) : Prop :=
  ∀ sock ∈ w.process.socketRunning, w.torn sock = true → w.process.bytesPut input = []

instance (input : Process.Input) : Decidable (w.Spares input) := by
  unfold Spares
  infer_instance

/-- Whoever gets a number finds nothing of its last owner, and a part of a frame stays the last
thing on its socket. -/
def Careful (input : Process.Input) : Prop := w.process.OpensUnnamed input ∧ w.Spares input

/-- Every socket carries a beginning of whole frames, in the order of its queue. -/
def FramesIntact : Prop :=
  ∀ sock, Unbroken w.process.shared.manager.self w.process.shared.manager.io.order
    (w.process.shared.manager.io.written sock) (parcelsOf w.process.shared.placed sock)

end Writing

/-! ### What is relied on is there -/

namespace Process

variable {p p' : Process} {input : Input} {latest : Fd → Option Sock} {torn torn' : Sock → Bool}
  {fd : Fd} {d : Due}

/-- What is due on a descriptor is on its socket, unless that carries a part of a frame. -/
def Backs (p : Process) (torn : Sock → Bool) (fd : Fd) (d : Due) : Prop :=
  ∀ sock, p.shared.manager.io.fds fd = some sock → torn sock = false →
    d.Holds p.shared.manager.self p.shared.manager.io.order (p.shared.manager.io.written sock)
      (parcelsOf p.shared.handed sock)

/-- Every socket carries a beginning of whole frames, and goes on where it is expected to. -/
structure Framed (torn : Sock → Bool) (p : Process) : Prop where
  fresh : ∀ sock, p.shared.manager.io.nextSock ≤ sock → p.shared.manager.io.written sock = []
  unbroken : ∀ sock, Unbroken p.shared.manager.self p.shared.manager.io.order
    (p.shared.manager.io.written sock) (parcelsOf p.shared.handed sock)
  dues : ∀ fd d, p.Relies writing fd d → p.Backs torn fd d
  idle : ∀ fd, p.shared.manager.sendQueues fd = some [] → p.Backs torn fd .settled

theorem init_framed (self : PeerId) (order : ByteOrder) : (init self order).Framed torn := by
  refine ⟨fun _ _ => rfl, fun sock => ?_, fun fd d hdue => ?_, fun fd hempty => ?_⟩
  · exact ⟨_, List.mem_cons_self, [], List.nil_sublist _, List.nil_prefix⟩
  · exact absurd hdue.named (not_named_init self order fd)
  · exact absurd (Named.queue hempty) (not_named_init self order fd)

theorem Framed.of_torn (h : p.Framed torn) (himp : ∀ sock, torn' sock = false → torn sock = false) :
    p.Framed torn' :=
  ⟨h.fresh, h.unbroken,
    fun fd d hdue sock hsock htorn => h.dues fd d hdue sock hsock (himp sock htorn),
    fun fd hempty sock hsock htorn => h.idle fd hempty sock hsock (himp sock htorn)⟩

/-- A step that writes nothing. -/
structure Onward (p p' : Process) : Prop where
  self : p'.shared.manager.self = p.shared.manager.self
  order : p'.shared.manager.io.order = p.shared.manager.io.order
  written : p'.shared.manager.io.written = p.shared.manager.io.written
  handed : ∀ sock, ∃ more, parcelsOf p'.shared.handed sock = parcelsOf p.shared.handed sock ++ more
  nextSock : p.shared.manager.io.nextSock ≤ p'.shared.manager.io.nextSock
  fds : ∀ fd sock, p.Named fd → p'.shared.manager.io.fds fd = some sock →
    p.shared.manager.io.fds fd = some sock

theorem Backs.onward (h : p.Backs torn fd d) (hon : Onward p p') (hnamed : p.Named fd) :
    p'.Backs torn fd d := by
  intro sock hsock htorn
  obtain ⟨more, hmore⟩ := hon.handed sock
  rw [hon.self, hon.order, hon.written, hmore]
  exact (h sock (hon.fds fd sock hnamed hsock) htorn).mono more

theorem Framed.onward (h : p.Framed torn) (hon : Onward p p')
    (hdues : ∀ fd d, p'.Relies writing fd d → p.Relies writing fd d ∨ p'.Backs torn fd d)
    (hidle : ∀ fd, p'.shared.manager.sendQueues fd = some [] →
      p.shared.manager.sendQueues fd = some [] ∨ p'.Backs torn fd .settled) : p'.Framed torn := by
  refine ⟨fun sock hle => ?_, fun sock => ?_, fun fd d hdue => ?_, fun fd hempty => ?_⟩
  · rw [hon.written]
    exact h.fresh sock (Nat.le_trans hon.nextSock hle)
  · obtain ⟨more, hmore⟩ := hon.handed sock
    rw [hon.self, hon.order, hon.written, hmore]
    exact (h.unbroken sock).pushed more
  · rcases hdues fd d hdue with hold | hnew
    · exact (h.dues fd d hold).onward hon hold.named
    · exact hnew
  · rcases hidle fd hempty with hold | hnew
    · exact (h.idle fd hold).onward hon (.queue hold)
    · exact hnew

/-! ### Sections -/

theorem Framed.starts (hwf : p.Wf) (howned : p.Owned latest) (h : p.Framed torn) {t : ThreadId}
    {sec : Section} {rest next : List Section} {shared : Shared} (hwork : p.work t = sec :: rest)
    (hruns : p.shared.Runs sec shared next) (hon : Onward p (p.went t next rest shared))
    {dir : IoDirection} {closure : Closure OnMessage OnSent}
    (hat : shared.manager.io.actionAt ⟨fd, dir⟩ = some closure) (hdue : closure.due = some d)
    (hne : shared.manager.io.actionAt ⟨fd, dir⟩ ≠ p.shared.manager.io.actionAt ⟨fd, dir⟩) :
    (p.went t next rest shared).Backs torn fd d := by
  have hmem : sec ∈ p.work t := by simp [hwork]
  rcases hruns.place hwf.io ⟨fd, dir⟩ with ⟨hsame, -⟩ | hnone | ⟨hd, resolve, rfl, hkey, hnew⟩
    | ⟨hd, data, resolve, rfl, hkey, hnew, hdata, hlog⟩
  · exact absurd hsame hne
  · exact absurd (hnone.symm.trans hat) (by simp)
  · obtain rfl := Option.some.inj (hnew.symm.trans hat)
    obtain rfl : fd = hd.fd := congrArg FdDirection.fd hkey
    have hsec : (Section.recvMessage hd resolve).due = some (hd.fd, d) := by
      rw [Section.due, show resolve.due = some d from hdue]
      rfl
    exact (h.dues _ _ (.work hmem hsec)).onward hon (.work hmem rfl)
  · obtain rfl := Option.some.inj (hnew.symm.trans hat)
    obtain rfl : fd = hd.fd := congrArg FdDirection.fd hkey
    intro sock hsock htorn
    have hsock := hon.fds hd.fd sock (.work hmem rfl) hsock
    have hself : hd.sock = sock :=
      Option.some.inj (((howned.rest hwork).1 hd rfl).symm.trans
        (howned.shared.sockets hd.fd sock hsock))
    have hbacked : ∀ d', (Section.sendMessage hd data resolve).due = some (hd.fd, d') →
        d'.Holds p.shared.manager.self p.shared.manager.io.order
          (p.shared.manager.io.written sock) (parcelsOf p.shared.handed sock) :=
      fun _ hsec => h.dues _ _ (.work hmem hsec) sock hsock htorn
    rw [hon.self, hon.order, hon.written]
    show d.Holds _ _ _ (parcelsOf shared.handed sock)
    rw [hlog]
    cases resolve with
    | queued parcel =>
        obtain rfl := Option.some.inj hdue
        have hlogged : parcelsOf (p.shared.hand hd data (.queued parcel)).handed sock
            = parcelsOf p.shared.handed sock ++ [{ parcel with body := data }] := by
          rw [← hself]
          exact parcelsOf_append_self _ _ _
        rw [hlogged]
        exact (hbacked (.giving data parcel) rfl).gives hdata
    | helloAnswer peer =>
        obtain rfl := Option.some.inj hdue
        have hlogged : (p.shared.hand hd data (.helloAnswer peer)).handed = p.shared.handed :=
          List.append_nil _
        rw [hlogged]
        exact (hbacked (.saying data) rfl).said
    | helloNotify peer =>
        obtain rfl := Option.some.inj hdue
        have hlogged : (p.shared.hand hd data (.helloNotify peer)).handed = p.shared.handed :=
          List.append_nil _
        rw [hlogged]
        exact (hbacked (.saying data) rfl).said

theorem Framed.run (hwf : p.Wf) (howned : p.Owned latest) (h : p.Framed torn) {t : ThreadId}
    {sec : Section} {rest next : List Section} {shared : Shared} (hwork : p.work t = sec :: rest)
    (hruns : p.shared.Runs sec shared next) (hsec : ∀ peer, sec ≠ .dial peer) :
    (p.went t next rest shared).Framed torn := by
  have hmem : sec ∈ p.work t := by simp [hwork]
  obtain ⟨hwritten, horder, hself⟩ := hruns.written hwf.io
  have hfds : ∀ fd sock, shared.manager.io.fds fd = some sock →
      p.shared.manager.io.fds fd = some sock :=
    fun fd sock => PartialMap.eq_some_of_kept (hruns.fds hwf.io hsec fd)
  have hon : Onward p (p.went t next rest shared) :=
    ⟨hself, horder, hwritten, hruns.handed, Nat.le_of_eq (hruns.nextSock hwf.io hsec).symm,
      fun fd sock _ => hfds fd sock⟩
  refine h.onward hon (fun fd d hdue => ?_) fun fd hempty => ?_
  · rcases hdue.went hwork with hold | ⟨sec', hmem', hdue'⟩ | ⟨dir, closure, hat, hdue', hne⟩
    · exact .inl hold
    · refine .inr fun sock hsock htorn => ?_
      have hsock := hfds fd sock hsock
      have hholds : d.Holds p.shared.manager.self p.shared.manager.io.order
          (p.shared.manager.io.written sock) (parcelsOf p.shared.handed sock) :=
        hruns.due hsec hmem' hdue'
          (fun d' hd' => h.dues fd d' (.work hmem hd') sock hsock htorn)
          fun hempty => h.idle fd hempty sock hsock htorn
      obtain ⟨more, hmore⟩ := hon.handed sock
      rw [hon.self, hon.order, hon.written, hmore]
      exact hholds.mono more
    · exact .inr (h.starts hwf howned hwork hruns hon hat hdue' hne)
  · rcases hruns.idle hempty with hold | hdue
    · exact .inl hold
    · have hold : p.Relies writing fd .settled := .work hmem hdue
      exact .inr ((h.dues fd .settled hold).onward hon hold.named)

theorem Framed.opened (h : p.Framed torn) {fd : Fd} (hfd : ¬ p.Named fd)
    (hshared : p'.shared = p.shared.setIo (p.shared.manager.io.openFd fd))
    (hdues : ∀ fd' d, p'.Relies writing fd' d → p.Relies writing fd' d ∨ fd' = fd ∧ ∀ handed,
      d.Holds p.shared.manager.self p.shared.manager.io.order [] handed) : p'.Framed torn := by
  have hon : Onward p p' := by
    constructor
    all_goals rw [hshared]
    · rfl
    · rfl
    · rfl
    · exact fun sock => ⟨[], (List.append_nil _).symm⟩
    · exact Nat.le_succ _
    · intro fd' sock hnamed hsock
      have hne : fd' ≠ fd := fun heq => hfd (heq ▸ hnamed)
      exact (PartialMap.set_of_ne _ hne _).symm.trans hsock
  refine h.onward hon (fun fd' d hdue => ?_) fun fd' hempty => ?_
  · rcases hdues fd' d hdue with hold | ⟨rfl, hholds⟩
    · exact .inl hold
    · refine .inr fun sock hsock _ => ?_
      have hsock : (p.shared.manager.io.fds.set fd' p.shared.manager.io.nextSock) fd'
          = some sock := by
        rw [hshared] at hsock
        exact hsock
      rw [PartialMap.set_self] at hsock
      obtain rfl := Option.some.inj hsock
      rw [hon.self, hon.order, hon.written, h.fresh _ (Nat.le_refl _)]
      exact hholds _
  · rw [hshared] at hempty
    exact .inl hempty

/-! ### Callbacks -/

/-- A callback that cannot register what it goes on with relies on nothing new, unless it is about a
queued message. -/
theorem due_failed {r : Running} {next : Closure OnMessage OnSent}
    (houtcome : r.outcome = some (.replace next)) (hnext : next.Alike r.closure)
    (hdue : r.failed.due.map Prod.snd = some d) :
    writing.ofRunning r = some d ∨ ∃ op parcel, r.closure = .send op (.queued parcel) := by
  cases hc : r.closure with
  | recv op resolve =>
      rw [hc] at hnext
      cases hnext with
      | recv op' _ _ =>
          refine .inl ?_
          simp only [Reliance.ofRunning, houtcome]
          show resolve.due = some d
          simpa [Running.failed, hc, Section.due, Option.map_map, Function.comp_def] using hdue
  | send op resolve =>
      cases resolve with
      | queued parcel => exact .inr ⟨op, parcel, rfl⟩
      | _ => exact absurd hdue (by simp [Running.failed, hc, Section.due])

theorem transfer_send (p : Process) {r : Running} {op : SendOp} {resolve : OnSent}
    (hclosure : r.closure = .send op resolve) (res : EpollResult) (recv : RecvReturn)
    (send : SendReturn) :
    (p.shared.transfer r res recv send).1.manager.io.written
        = appendTo p.shared.manager.io.written (p.shared.manager.io.fds r.handle.fd)
          (op.put res send) ∧
      (p.shared.transfer r res recv send).2
        = Running.sendOutcome r.handle resolve (op.event res send) := by
  unfold Shared.transfer
  rw [hclosure]
  exact ⟨rfl, rfl⟩

theorem due_received {r : Running} {resolve : OnMessage} {progress : Progress RecvOp Message}
    (hdue : writing.ofRunning
      { r with outcome := some (Running.recvOutcome r.handle resolve progress) } = some d) :
    resolve.due = some d := by
  cases progress with
  | waiting op => exact hdue
  | next op => exact hdue
  | resolved res =>
      simpa [Reliance.ofRunning, Running.recvOutcome, Section.due, Option.map_map,
        Function.comp_def] using hdue
  | aborted => exact absurd hdue (by simp [Reliance.ofRunning, Running.recvOutcome])

/-- What is due after an event is there, unless a message has failed with a part of its frame
written. -/
theorem holds_sent {node : PeerId} {order : ByteOrder} {written : List Byte}
    {handed : List Parcel} {r : Running} {op : SendOp} {resolve : OnSent} {res : EpollResult}
    {send : SendReturn}
    (hflight : ∀ d, (Closure.send op resolve).due = some d → d.Holds node order written handed)
    (hfresh : ∀ parcel e, resolve = .queued parcel → op.event res send = .resolved (.err e) →
      op.remaining = frame order parcel.body)
    (hdue : writing.ofRunning
      { r with outcome := some (Running.sendOutcome r.handle resolve (op.event res send)) }
      = some d) :
    d.Holds node order (written ++ op.put res send) handed := by
  cases hevent : op.event res send with
  | waiting op' =>
      rw [hevent] at hdue
      cases resolve <;>
        · obtain rfl := Option.some.inj hdue
          exact (hflight _ rfl).goes_on (.inl hevent)
  | next op' =>
      rw [hevent] at hdue
      cases resolve <;>
        · obtain rfl := Option.some.inj hdue
          exact (hflight _ rfl).goes_on (.inr hevent)
  | resolved result =>
      rw [hevent] at hdue
      cases result with
      | ok u =>
          cases resolve <;>
            · obtain rfl := Option.some.inj hdue
              exact (hflight _ rfl).arrives hevent
      | err e =>
          cases resolve with
          | queued parcel =>
              obtain rfl := Option.some.inj hdue
              have hholds := hflight _ rfl
              have hput : op.put res send = [] := by
                rcases hholds.1.ends hevent with ⟨hok, -⟩ | ⟨-, hput⟩
                · exact absurd hok (by simp)
                · exact hput
              rw [hput, List.append_nil]
              exact hholds.fails (hfresh parcel e rfl hevent)
          | helloAnswer peer =>
              exact absurd hdue (by simp [Reliance.ofRunning, Running.sendOutcome, Section.due])
          | helloNotify peer =>
              exact absurd hdue (by simp [Reliance.ofRunning, Running.sendOutcome, Section.due])
  | aborted =>
      rw [hevent] at hdue
      exact absurd hdue (by simp [Reliance.ofRunning, Running.sendOutcome])

theorem Framed.receives (h : p.Framed torn) {r : Running} (hrunning : p.running = some r)
    (hfresh : r.outcome = none) {op : RecvOp} {resolve : OnMessage}
    (hclosure : r.closure = .recv op resolve) (res : EpollResult) (recv : RecvReturn)
    (send : SendReturn) : (p.transferred r res recv send).Framed torn := by
  have hmoved : p.shared.transfer r res recv send
      = (p.shared.setIo { p.shared.manager.io with
          taken := appendTo p.shared.manager.io.taken (p.shared.manager.io.fds r.handle.fd)
            (recv.bytes res) },
        Running.recvOutcome r.handle resolve (op.event p.shared.manager.io.order res recv)) := by
    unfold Shared.transfer
    rw [hclosure]
  have hon : Onward p (p.transferred r res recv send) := by
    unfold transferred
    rw [hmoved]
    exact ⟨rfl, rfl, rfl, fun _ => ⟨[], (List.append_nil _).symm⟩, Nat.le_refl _, fun _ _ _ => id⟩
  refine h.onward hon (fun fd d hdue => .inl ?_) fun fd hempty => .inl ?_
  · rcases hdue.of_transferred hrunning with hold | ⟨hfd, hdue⟩
    · exact hold
    · refine .running hrunning hfd ?_
      rw [hmoved] at hdue
      simp only [Reliance.ofRunning, hfresh, hclosure]
      exact due_received hdue
  · unfold transferred at hempty
    rw [hmoved] at hempty
    exact hempty

theorem Framed.sends (hparts : p.Parts) (howned : p.Owned latest) (h : p.Framed torn)
    {r : Running} (hrunning : p.running = some r) (hfresh : r.outcome = none) {op : SendOp}
    {resolve : OnSent} (hclosure : r.closure = .send op resolve) {res : EpollResult}
    {recv : RecvReturn} {send : SendReturn} (hparts' : (p.transferred r res recv send).Parts)
    (htorn : ∀ sock, torn' sock = false → torn sock = false)
    (hspares : ∀ sock, p.shared.manager.io.fds r.handle.fd = some sock → torn sock = true →
      op.put res send = [])
    (htears : ∀ sock, p.shared.manager.io.fds r.handle.fd = some sock → torn' sock = false →
      ∀ parcel e, resolve = .queued parcel → op.event res send = .resolved (.err e) →
        op.remaining = frame p.shared.manager.io.order parcel.body) :
    (p.transferred r res recv send).Framed torn' := by
  obtain ⟨hwritten, houtcome⟩ := p.transfer_send hclosure res recv send
  obtain ⟨hloop, -, hsockets⟩ := p.shared.transfer_io r res recv send
  obtain ⟨-, hhanded⟩ := p.shared.transfer_logs r res recv send
  have htables := p.shared.transfer_tables r res recv send
  have hrole : r.closure.role ≠ .reading := by
    rw [hclosure]
    cases resolve <;> simp [Closure.role, OnSent.role]
  have hself : (p.shared.transfer r res recv send).1.manager.self = p.shared.manager.self := by
    rw [htables]
  have hlatest : ∀ fd sock, p.shared.manager.io.fds fd = some sock → latest fd = some sock :=
    howned.shared.sockets
  have hflight : ∀ sock, p.shared.manager.io.fds r.handle.fd = some sock → torn sock = false →
      ∀ d, (Closure.send op resolve).due = some d →
        d.Holds p.shared.manager.self p.shared.manager.io.order
          (p.shared.manager.io.written sock) (parcelsOf p.shared.handed sock) := by
    intro sock hsock hwhole d hdue
    refine h.dues r.handle.fd d (.running hrunning rfl ?_) sock hsock hwhole
    simp only [Reliance.ofRunning, hfresh, hclosure]
    exact hdue
  have hother : ∀ sock, p.shared.manager.io.fds r.handle.fd ≠ some sock →
      (p.shared.transfer r res recv send).1.manager.io.written sock
        = p.shared.manager.io.written sock := by
    intro sock hne
    rw [hwritten]
    exact appendTo_of_ne _ hne _
  refine ⟨fun sock hle => ?_, fun sock => ?_, fun fd d hdue sock hsock hwhole => ?_,
    fun fd hempty sock hsock hwhole => ?_⟩
  · refine (hother sock fun hsock => ?_).trans (h.fresh sock (hsockets.nextSock ▸ hle))
    have hlt := howned.fresh r.handle.fd sock (hlatest _ _ hsock)
    exact absurd (hsockets.nextSock ▸ hle) (Nat.not_le.mpr hlt)
  · show Unbroken (p.shared.transfer r res recv send).1.manager.self
      (p.shared.transfer r res recv send).1.manager.io.order
      ((p.shared.transfer r res recv send).1.manager.io.written sock)
      (parcelsOf (p.shared.transfer r res recv send).1.handed sock)
    rw [hself, hsockets.order, hhanded]
    by_cases hsock : p.shared.manager.io.fds r.handle.fd = some sock
    · rw [hwritten, hsock, appendTo_self]
      cases hwhole : torn sock with
      | true =>
          rw [hspares sock hsock hwhole, List.append_nil]
          exact h.unbroken sock
      | false =>
          have hholds := hflight sock hsock hwhole
          cases resolve <;> exact (hholds _ rfl).put res send
    · rw [hother sock hsock]
      exact h.unbroken sock
  · show d.Holds (p.shared.transfer r res recv send).1.manager.self
      (p.shared.transfer r res recv send).1.manager.io.order
      ((p.shared.transfer r res recv send).1.manager.io.written sock)
      (parcelsOf (p.shared.transfer r res recv send).1.handed sock)
    have hsock : (p.shared.transfer r res recv send).1.manager.io.fds fd = some sock := hsock
    rw [hsockets.fds] at hsock
    rw [hself, hsockets.order, hhanded]
    by_cases hfd : fd = r.handle.fd
    · -- nobody but the callback relies on what it has changed
      subst hfd
      have hown := hparts'.alone rfl hrole hdue
      rw [houtcome] at hown
      rw [hwritten, hsock, appendTo_self]
      exact holds_sent (hflight sock hsock (htorn sock hwhole)) (htears sock hsock hwhole) hown
    · have hne : p.shared.manager.io.fds r.handle.fd ≠ some sock := fun heq =>
        hfd (howned.one fd r.handle.fd sock (hlatest _ _ hsock) (hlatest _ _ heq))
      rw [hother sock hne]
      rcases hdue.of_transferred hrunning with hold | ⟨heq, -⟩
      · exact h.dues fd d hold sock hsock (htorn sock hwhole)
      · exact absurd heq.symm hfd
  · show Due.settled.Holds (p.shared.transfer r res recv send).1.manager.self
      (p.shared.transfer r res recv send).1.manager.io.order
      ((p.shared.transfer r res recv send).1.manager.io.written sock)
      (parcelsOf (p.shared.transfer r res recv send).1.handed sock)
    have hsock : (p.shared.transfer r res recv send).1.manager.io.fds fd = some sock := hsock
    have hempty : (p.shared.transfer r res recv send).1.manager.sendQueues fd = some [] := hempty
    rw [hsockets.fds] at hsock
    rw [htables] at hempty
    rw [hself, hsockets.order, hhanded]
    have hne : p.shared.manager.io.fds r.handle.fd ≠ some sock := by
      intro heq
      obtain rfl := howned.one fd r.handle.fd sock (hlatest _ _ hsock) (hlatest _ _ heq)
      exact hparts.queue_of_running hrunning hrole hempty
    rw [hother sock hne]
    exact h.idle fd hempty sock hsock (htorn sock hwhole)

/-! ### Steps -/

theorem torn_of_tornAfter {sock : Sock} (h : p.tornAfter input torn sock = false) :
    torn sock = false :=
  (Bool.or_eq_false_iff.mp h).1

theorem tears_of_tornAfter {sock : Sock} (h : p.tornAfter input torn sock = false)
    (hsock : p.socketRunning = some sock) : p.tears input = false := by
  have hnew := (Bool.or_eq_false_iff.mp h).2
  simpa [hsock] using hnew

theorem socketRunning_of_running {r : Running} (hrunning : p.running = some r) :
    p.socketRunning = p.shared.manager.io.fds r.handle.fd := by
  rw [socketRunning, hrunning, Option.bind_some]

theorem Framed.transfer (hparts : p.Parts) (howned : p.Owned latest) (h : p.Framed torn)
    {r : Running} (hrunning : p.running = some r) (hfresh : r.outcome = none) {res : EpollResult}
    {recv : RecvReturn} {send : SendReturn} (hparts' : (p.transferred r res recv send).Parts)
    (hspares : ∀ sock ∈ p.socketRunning, torn sock = true →
      p.bytesPut (.transfer res recv send) = []) :
    (p.transferred r res recv send).Framed (p.tornAfter (.transfer res recv send) torn) := by
  have hsocket := socketRunning_of_running hrunning
  obtain ⟨hd, a, closure, outcome⟩ := r
  cases closure with
  | recv op resolve =>
      exact (h.receives hrunning hfresh rfl res recv send).of_torn fun _ => torn_of_tornAfter
  | send op resolve =>
      refine h.sends hparts howned hrunning hfresh rfl hparts' (fun _ => torn_of_tornAfter)
        (fun sock hsock hwhole => ?_) fun sock hsock hwhole parcel e hresolve hevent => ?_
      · have hnone := hspares sock (hsocket.trans hsock) hwhole
        simpa only [bytesPut, hrunning] using hnone
      · have hnone := tears_of_tornAfter hwhole (hsocket.trans hsock)
        subst hresolve
        simpa [tears, hrunning, hevent] using hnone

theorem Framed.unreplaced (hwf : p.Wf) (h : p.Framed torn) {ok : Bool} {r : Running}
    {next : Closure OnMessage OnSent} (hrunning : p.running = some r)
    (houtcome : r.outcome = some (.replace next))
    (hreplace : (p.shared.manager.io.loop.replaceAction r.afd.token next).1 = false) :
    (p.unreplaced r).Framed (p.tornAfter (.finish ok) torn) := by
  have hfits : next.Alike r.closure := (hwf.running r hrunning).fits _ houtcome
  have hon : Onward p (p.unreplaced r) :=
    ⟨rfl, rfl, rfl, fun _ => ⟨[], (List.append_nil _).symm⟩, Nat.le_refl _, fun _ _ _ => id⟩
  refine (h.of_torn fun _ => torn_of_tornAfter).onward hon (fun fd d hdue => ?_) fun _ => .inl
  rcases hdue.of_unreplaced hrunning with hold | ⟨hfd, hfailed⟩
  · exact .inl hold
  rcases due_failed houtcome hfits hfailed with hold | ⟨op, parcel, hclosure⟩
  · exact .inl (.running hrunning hfd hold)
  · -- a part of a message is on the socket
    refine .inr fun sock hsock hwhole => ?_
    have hsocket : p.socketRunning = some sock := by
      rw [socketRunning_of_running hrunning]
      exact hfd ▸ hsock
    have hnone := tears_of_tornAfter hwhole hsocket
    obtain ⟨hd, a, closure, outcome⟩ := r
    obtain rfl : closure = .send op (.queued parcel) := hclosure
    obtain rfl : outcome = some (.replace next) := houtcome
    simp [tears, hrunning, hreplace] at hnone

theorem Framed.step (hwf : p.Wf) (hparts : p.Parts) (howned : p.Owned latest)
    (hunmoved : p.Unmoved) (h : p.Framed torn) (hok : p.OpensUnnamed input)
    (hspares : ∀ sock ∈ p.socketRunning, torn sock = true → p.bytesPut input = [])
    (hstep : Step p input p') : p'.Framed (p.tornAfter input torn) := by
  have hparts' := hparts.step hwf hok hstep
  have hkept : p'.Framed torn → p'.Framed (p.tornAfter input torn) :=
    fun hframed => hframed.of_torn fun _ => torn_of_tornAfter
  have hturn : Turn writing p input p' := hstep.turn hwf hunmoved
  cases hturn with
  | runs hwork hruns hsec => exact hkept (h.run hwf howned hwork hruns hsec)
  | opens hopens hshared hrelies =>
      refine hkept (h.opened (hok _ hopens) hshared fun fd' d hdue => ?_)
      rcases hrelies fd' d hdue with hold | ⟨sec, hgreeting, hsec⟩
      · exact .inl hold
      · cases hgreeting with
        | awaits =>
            obtain ⟨rfl, rfl⟩ := Prod.mk.inj (Option.some.inj hsec)
            exact .inr ⟨rfl, fun _ => rfl⟩
        | tells =>
            obtain ⟨rfl, rfl⟩ := Prod.mk.inj (Option.some.inj hsec)
            exact .inr ⟨rfl, fun _ => ⟨rfl, List.mem_cons_self⟩⟩
  | transfers hrunning hfresh =>
      exact h.transfer hparts howned hrunning hfresh hparts' hspares
  | unreplaced hrunning houtcome hreplace => exact h.unreplaced hwf hrunning houtcome hreplace
  | stays hstays hrelies =>
      have hon : Onward p p' :=
        ⟨hstays.self, hstays.order, hstays.written,
          fun sock => ⟨[], by rw [hstays.handed, List.append_nil]⟩,
          Nat.le_of_eq hstays.nextSock.symm, fun fd sock _ => hstays.fds fd sock⟩
      exact hkept (h.onward hon (fun fd d hdue => .inl (hrelies fd d hdue))
        fun fd hempty => .inl (hstays.queues ▸ hempty))

end Process

/-! ### Runs -/

namespace Writing

open Process

theorem intact_of_flow {w : Writing} {latest : Fd → Option Sock} (hflow : w.process.Flow latest)
    (h : w.process.Framed w.torn) : w.FramesIntact := by
  intro sock
  obtain ⟨waiting, hplaced⟩ := hflow.order sock
  rw [← hplaced]
  exact (h.unbroken sock).pushed waiting

/-- As long as a number is given to a new socket only when nothing names it, and a socket that has
been left with a part of a frame accepts nothing more, every socket carries the beginning of whole
frames, in the order of its queue. -/
theorem frames_intact (self : PeerId) (order : ByteOrder) (inputs : List Input)
    (h : machine.EachStep Careful (init self order) inputs) :
    machine.Always FramesIntact (init self order) inputs := by
  refine Machine.always_of_eachStep
    (I := fun w => w.process.Wf ∧ w.process.Parts ∧ w.process.Unmoved ∧ w.process.Framed w.torn ∧
      ∃ latest, w.process.Owned latest ∧ w.process.Flow latest)
    (fun w hw => ?_) (fun w input w' hw hok hstep => ?_) inputs
    ⟨init_wf self order, init_parts self order, unmoved_of_idle rfl, init_framed self order,
      _, init_owned self order, init_flow self order⟩ h
  · obtain ⟨-, -, -, hframed, latest, -, hflow⟩ := hw
    exact intact_of_flow hflow hframed
  · obtain ⟨hwf, hparts, hunmoved, hframed, latest, howned, hflow⟩ := hw
    obtain ⟨hopens, hspares⟩ := hok
    obtain ⟨p, hp, rfl⟩ := Option.map_eq_some_iff.mp hstep
    have hcases := step_cases hp
    exact ⟨hwf.step hcases, hparts.step hwf hopens hcases, hunmoved.step hwf hparts hcases,
      hframed.step hwf hparts howned hunmoved hopens hspares hcases,
      _, howned.step hwf hopens hcases, hflow.step hwf hparts howned hopens hcases⟩

theorem process_step (w : Writing) (input : Input) (w' : Writing)
    (h : machine.step w input = some w') :
    Process.machine.step w.process input = some w'.process := by
  obtain ⟨p, hp, rfl⟩ := Option.map_eq_some_iff.mp h
  exact hp

/-- A `send` on a descriptor that fails. -/
def unsent (fd : Fd) : List Input :=
  [.fetch fd .output, .transfer (.ok ()) (.moved []) (.failed .eagain), .finish true]

/-- Two messages; the first one fails after a part of its body, and the socket accepts nothing of
the second one. -/
theorem frames_intact_of_two_messages :
    machine.Always FramesIntact (init bob .little)
      (acceptsFrom 5 ann ++ [.call .manager (.sendMessage ann [1, 2])] ++ managerRuns 6
        ++ [.call .manager (.sendMessage ann [3])] ++ managerRuns 4 ++ writes 5 4 ++ writes 5 1
        ++ unsent 5 ++ loopRuns 4 ++ unsent 5 ++ loopRuns 2) :=
  frames_intact bob .little _
    (Machine.EachStep.and
      (Machine.EachStep.inside process_step
        (eachStep_of_accept bob .little 5 _ (by decide)))
      (by decide +kernel))

/-- `send` takes half of a length and then says `EAGAIN`: the frame of the next message follows. -/
theorem frame_follows_half_a_length :
    ¬ ∀ (self : PeerId) (order : ByteOrder) (inputs : List Input) (w : Writing),
      machine.exec (init self order) inputs = some w → w.FramesIntact := by
  intro h
  have hrun : (machine.exec (init bob .little)
      (acceptsFrom 5 ann ++ [.call .manager (.sendMessage ann [1, 2])] ++ managerRuns 6
        ++ [.call .manager (.sendMessage ann [3])] ++ managerRuns 4 ++ writes 5 2 ++ unsent 5
        ++ loopRuns 4 ++ writes 5 4)).map
        (fun w => decide
          (Unbroken w.process.shared.manager.self w.process.shared.manager.io.order
            (w.process.shared.manager.io.written 0) (parcelsOf w.process.shared.placed 0)))
      = some false := by
    decide +kernel
  obtain ⟨w, hexec, hw⟩ := Option.map_eq_some_iff.mp hrun
  exact of_decide_eq_false hw (h _ _ _ w hexec 0)

end Writing

end Diplom
