import Diplom.Proof.Frames
import Diplom.Proof.Queues
import Diplom.Proof.Reliance

/-!
# What is due on a socket

Whoever goes on with a descriptor relies on what its socket carries so far: nothing in a hello
exchange that has not sent anything, whole frames where a message is to be started, and all but the
rest of its frame where one is being sent. What is due is said of every section, of every registered
action and of the running callback; a section passes it on to those that follow it.
-/

namespace Diplom

/-- Whole frames: a hello, and some of the messages that were given to `AsyncFd::SendMessage`, in
their order. -/
def Settled (node : PeerId) (order : ByteOrder) (written : List Byte) (handed : List Parcel) :
    Prop :=
  ∃ hello ∈ hellos node, ∃ done, done.Sublist (handed.map Parcel.body) ∧
    written = (uint32 order).frames (hello :: done)

/-- What is relied on by someone who goes on with a descriptor. -/
inductive Due
  /- the hello is to come, or to be sent -/
  | blank
  | saying (data : Message)
  /- the next message is to be fetched, or to be started -/
  | settled
  | giving (data : Message) (parcel : Parcel)
  /- a hello or a message is being sent -/
  | flight (op : SendOp) (parcel : Option Parcel)

namespace Due

variable {node : PeerId} {order : ByteOrder} {written : List Byte} {handed : List Parcel}

def Holds (node : PeerId) (order : ByteOrder) (written : List Byte) (handed : List Parcel) :
    Due → Prop
  | .blank => written = []
  | .saying data => written = [] ∧ data ∈ hellos node
  | .settled => Settled node order written handed
  | .giving data parcel => Settled node order written handed ∧ data = parcel.body
  | .flight op none => op.Wf ∧ ∃ hello ∈ hellos node, written ++ op.remaining = frame order hello
  | .flight op (some parcel) =>
      op.Wf ∧ ∃ hello ∈ hellos node, ∃ done,
        (done ++ [parcel.body]).Sublist (handed.map Parcel.body) ∧
          written ++ op.remaining = (uint32 order).frames (hello :: (done ++ [parcel.body]))

end Due

theorem Settled.mono {node : PeerId} {order : ByteOrder} {written : List Byte}
    {handed : List Parcel} (h : Settled node order written handed) (more : List Parcel) :
    Settled node order written (handed ++ more) := by
  obtain ⟨hello, hmem, done, hsub, heq⟩ := h
  refine ⟨hello, hmem, done, hsub.trans ?_, heq⟩
  rw [List.map_append]
  exact List.sublist_append_left _ _

namespace Due

variable {node : PeerId} {order : ByteOrder} {written : List Byte} {handed : List Parcel}

theorem Holds.mono {d : Due} (h : d.Holds node order written handed) (more : List Parcel) :
    d.Holds node order written (handed ++ more) := by
  cases d with
  | blank => exact h
  | saying data => exact h
  | settled => exact Settled.mono h more
  | giving data parcel => exact ⟨h.1.mono more, h.2⟩
  | flight op parcel =>
      cases parcel with
      | none => exact h
      | some parcel =>
          obtain ⟨hwf, hello, hmem, done, hsub, heq⟩ := h
          refine ⟨hwf, hello, hmem, done, hsub.trans ?_, heq⟩
          rw [List.map_append]
          exact List.sublist_append_left _ _

theorem Holds.said {data : Message} (h : (saying data).Holds node order written handed) :
    (flight (.start order data) none).Holds node order written handed := by
  obtain ⟨rfl, hmem⟩ := h
  refine ⟨SendOp.start_wf order ?_, data, hmem, by simp⟩
  rcases List.mem_cons.mp hmem with rfl | hmem
  · exact Life.hello_ne_nil _ _
  · rw [List.mem_singleton.mp hmem]
    exact Life.hello_ne_nil _ _

theorem Holds.gives {data : Message} {parcel : Parcel}
    (h : (giving data parcel).Holds node order written handed) (hne : data ≠ []) :
    (flight (.start order data) (some parcel)).Holds node order written
      (handed ++ [{ parcel with body := data }]) := by
  obtain ⟨⟨hello, hmem, done, hsub, rfl⟩, rfl⟩ := h
  refine ⟨SendOp.start_wf order hne, hello, hmem, done, ?_, ?_⟩
  · rw [List.map_append]
    exact hsub.append_right _
  · rw [SendOp.start_remaining, ← List.cons_append, LengthCode.frames_append]
    simp [frame]

theorem Holds.goes_on {op op' : SendOp} {parcel : Option Parcel}
    (h : (flight op parcel).Holds node order written handed) {res : EpollResult} {ret : SendReturn}
    (hevent : op.event res ret = .waiting op' ∨ op.event res ret = .next op') :
    (flight op' parcel).Holds node order (written ++ op.put res ret) handed := by
  cases parcel with
  | none =>
      obtain ⟨hwf, hello, hmem, heq⟩ := h
      obtain ⟨hwf', hrest⟩ := hwf.goes_on hevent
      exact ⟨hwf', hello, hmem, by rw [List.append_assoc, hrest, heq]⟩
  | some parcel =>
      obtain ⟨hwf, hello, hmem, done, hsub, heq⟩ := h
      obtain ⟨hwf', hrest⟩ := hwf.goes_on hevent
      exact ⟨hwf', hello, hmem, done, hsub, by rw [List.append_assoc, hrest, heq]⟩

theorem Holds.arrives {op : SendOp} {parcel : Option Parcel}
    (h : (flight op parcel).Holds node order written handed) {res : EpollResult} {ret : SendReturn}
    (hevent : op.event res ret = .resolved (.ok ())) :
    Settled node order (written ++ op.put res ret) handed := by
  cases parcel with
  | none =>
      obtain ⟨hwf, hello, hmem, heq⟩ := h
      obtain ⟨-, hput⟩ := (hwf.ends hevent).resolve_right (by simp)
      exact ⟨hello, hmem, [], List.nil_sublist _, by rw [hput, heq]; simp [frame]⟩
  | some parcel =>
      obtain ⟨hwf, hello, hmem, done, hsub, heq⟩ := h
      obtain ⟨-, hput⟩ := (hwf.ends hevent).resolve_right (by simp)
      exact ⟨hello, hmem, _, hsub, by rw [hput, heq]⟩

theorem Holds.fails {op : SendOp} {parcel : Parcel}
    (h : (flight op (some parcel)).Holds node order written handed)
    (hfresh : op.remaining = frame order parcel.body) : Settled node order written handed := by
  obtain ⟨-, hello, hmem, done, hsub, heq⟩ := h
  refine ⟨hello, hmem, done, (List.sublist_append_left done _).trans hsub, ?_⟩
  refine List.append_cancel_right
    (show written ++ frame order parcel.body = _ ++ frame order parcel.body from ?_)
  rw [← hfresh, heq, ← List.cons_append, LengthCode.frames_append, hfresh]
  simp [frame]

theorem Holds.put {op : SendOp} {parcel : Option Parcel}
    (h : (flight op parcel).Holds node order written handed) (res : EpollResult)
    (ret : SendReturn) : Unbroken node order (written ++ op.put res ret) handed := by
  have hpiece : written ++ op.put res ret <+: written ++ op.remaining :=
    (List.prefix_append_right_inj _).mpr (op.put_prefix res ret)
  cases parcel with
  | none =>
      obtain ⟨-, hello, hmem, heq⟩ := h
      refine ⟨hello, hmem, [], List.nil_sublist _, ?_⟩
      rw [heq] at hpiece
      simpa [frame] using hpiece
  | some parcel =>
      obtain ⟨-, hello, hmem, done, hsub, heq⟩ := h
      exact ⟨hello, hmem, _, hsub, heq ▸ hpiece⟩

end Due

/-! ### Who relies on what -/

/-- The lambda that waits for a message relies on what was written before. -/
def OnMessage.due : OnMessage → Option Due
  | .incomingHello => some .blank
  | .outgoingAnswer _ => some .settled
  | .readMessage => none

def Section.due : Section → Option (Fd × Due)
  | .recvMessage h resolve | .received h resolve _ => resolve.due.map fun d => (h.fd, d)
  | .sendMessage h data (.queued parcel) => some (h.fd, .giving data parcel)
  | .sendMessage h data _ => some (h.fd, .saying data)
  | .sent h (.queued _) _ => some (h.fd, .settled)
  | .sent h _ (.ok _) => some (h.fd, .settled)
  | .takeFront h | .popFront h => some (h.fd, .settled)
  | .insertActive h _ | .insertConnToFd h _ | .insertQueue h _ => some (h.fd, .settled)
  | _ => none

def Closure.due : Closure OnMessage OnSent → Option Due
  | .recv _ resolve => resolve.due
  | .send op (.queued parcel) => some (.flight op (some parcel))
  | .send op _ => some (.flight op none)

theorem Section.part_of_due {sec : Section} {fd : Fd} {d : Due} (h : sec.due = some (fd, d)) :
    ∃ role, role ≠ .reading ∧ sec.part = some (role, fd) := by
  cases sec with
  | recvMessage hd resolve =>
      cases resolve <;> simp_all [Section.due, Section.part, OnMessage.due, OnMessage.role]
  | received hd resolve res =>
      cases resolve <;> simp_all [Section.due, Section.part, OnMessage.due, OnMessage.role]
  | sendMessage hd data resolve =>
      cases resolve <;> simp_all [Section.due, Section.part, OnSent.role]
  | sent hd resolve res =>
      cases resolve <;> cases res <;> simp_all [Section.due, Section.part, OnSent.role]
  | _ => simp_all [Section.due, Section.part]

theorem Closure.role_of_due {closure : Closure OnMessage OnSent} {d : Due}
    (h : closure.due = some d) : closure.role ≠ .reading := by
  cases closure with
  | recv op resolve =>
      cases resolve <;> simp_all [Closure.due, Closure.role, OnMessage.due, OnMessage.role]
  | send op resolve => cases resolve <;> simp [Closure.role, OnSent.role]

/-- Whoever only reads the messages does not rely on what is written. -/
@[reducible] def writing : Reliance Due where
  ofSection := Section.due
  ofClosure := Closure.due
  spared := .reading
  reads_or_sends := .inl rfl
  part_of_section := fun _ _ _ => Section.part_of_due
  role_of_closure := fun _ _ => Closure.role_of_due

namespace Shared

variable {s s' : Shared} {sec : Section} {next : List Section}

theorem Runs.written (hruns : s.Runs sec s' next) (hwf : s.manager.io.Wf) :
    s'.manager.io.written = s.manager.io.written ∧ s'.manager.io.order = s.manager.io.order ∧
      s'.manager.self = s.manager.self := by
  cases hruns with
  | recvStarted hstart =>
      have hreg := Io.registered_of_recvMessage hwf hstart
      exact ⟨hreg.written, hreg.order, rfl⟩
  | sendStarted hstart =>
      have hreg := Io.registered_of_sendMessage hwf hstart
      exact ⟨hreg.written, hreg.order, rfl⟩
  | _ => exact ⟨rfl, rfl, rfl⟩

theorem Runs.handed (hruns : s.Runs sec s' next) (sock : Sock) :
    ∃ more, parcelsOf s'.handed sock = parcelsOf s.handed sock ++ more := by
  have hhand : ∀ hd data resolve, ∃ more,
      parcelsOf (s.hand hd data resolve).handed sock = parcelsOf s.handed sock ++ more := by
    intro hd data resolve
    exact ⟨_, List.filterMap_append⟩
  cases hruns with
  | sendStarted _ => exact hhand _ _ _
  | sendRefused => exact hhand _ _ _
  | sendAborted _ => exact hhand _ _ _
  | _ => exact ⟨[], (List.append_nil _).symm⟩

variable {written : List Byte} {handed : List Parcel} {fd : Fd} {d : Due}

theorem Leads.due (hleads : s.Leads sec next) {sec' : Section} (hmem : sec' ∈ next)
    (hdue : sec'.due = some (fd, d)) {order : ByteOrder}
    (hold : ∀ d, sec.due = some (fd, d) → d.Holds s.manager.self order written handed) :
    d.Holds s.manager.self order written handed := by
  have hquiet : (∀ sec' ∈ next, sec'.due = none) → d.Holds s.manager.self order written handed :=
    fun hnone => absurd ((hnone sec' hmem).symm.trans hdue) (by simp)
  cases hleads with
  | @helloTaken hd msg peer =>
      obtain rfl := List.mem_singleton.mp hmem
      obtain ⟨rfl, rfl⟩ := Prod.mk.inj (Option.some.inj hdue)
      exact ⟨hold .blank rfl, List.mem_cons_of_mem _ List.mem_cons_self⟩
  | answerSent =>
      obtain rfl := List.mem_singleton.mp hmem
      obtain ⟨rfl, rfl⟩ := Prod.mk.inj (Option.some.inj hdue)
      exact hold .settled rfl
  | notifySent =>
      obtain rfl := List.mem_singleton.mp hmem
      obtain ⟨rfl, rfl⟩ := Prod.mk.inj (Option.some.inj hdue)
      exact hold .settled rfl
  | answerTaken =>
      obtain rfl := List.mem_singleton.mp hmem
      obtain ⟨rfl, rfl⟩ := Prod.mk.inj (Option.some.inj hdue)
      exact hold .settled rfl
  | queuedSent _ =>
      obtain rfl := List.mem_singleton.mp hmem
      obtain ⟨rfl, rfl⟩ := Prod.mk.inj (Option.some.inj hdue)
      exact hold .settled rfl
  | _ => exact hquiet (by simp [Section.due, OnMessage.due])

/-- So does a section that opens no socket; `pushBack` relies on the empty queue. -/
theorem Runs.due (hruns : s.Runs sec s' next) (hsec : ∀ peer, sec ≠ .dial peer) {sec' : Section}
    (hmem : sec' ∈ next) (hdue : sec'.due = some (fd, d)) {order : ByteOrder}
    (hold : ∀ d, sec.due = some (fd, d) → d.Holds s.manager.self order written handed)
    (hidle : s.manager.sendQueues fd = some [] → Settled s.manager.self order written handed) :
    d.Holds s.manager.self order written handed := by
  have hquiet : (∀ sec' ∈ next, sec'.due = none) → d.Holds s.manager.self order written handed :=
    fun hnone => absurd ((hnone sec' hmem).symm.trans hdue) (by simp)
  cases hruns with
  | leads hleads => exact hleads.due hmem hdue hold
  | notify =>
      exact hquiet fun _ hmem => writing.ofSection_of_handle_none (Call.handle_none_of_mem hmem)
  | opens _ _ => exact absurd rfl (hsec _)
  | @pushBack hd parcel queue hqueue =>
      split at hmem
      · rename_i hempty
        obtain rfl := List.mem_singleton.mp hmem
        obtain ⟨rfl, rfl⟩ := Prod.mk.inj (Option.some.inj hdue)
        exact hidle (hempty ▸ hqueue)
      · exact absurd hmem List.not_mem_nil
  | takeFront _ =>
      obtain rfl := List.mem_singleton.mp hmem
      obtain ⟨rfl, rfl⟩ := Prod.mk.inj (Option.some.inj hdue)
      exact ⟨hold .settled rfl, rfl⟩
  | popFront _ =>
      split at hmem
      · exact absurd hmem List.not_mem_nil
      · obtain rfl := List.mem_singleton.mp hmem
        obtain ⟨rfl, rfl⟩ := Prod.mk.inj (Option.some.inj hdue)
        exact hold .settled rfl
  | @recvRefused hd resolve =>
      obtain rfl := List.mem_singleton.mp hmem
      exact hold d hdue
  | @sendRefused hd data resolve =>
      obtain rfl := List.mem_singleton.mp hmem
      cases resolve with
      | queued parcel =>
          obtain ⟨rfl, rfl⟩ := Prod.mk.inj (Option.some.inj hdue)
          exact (hold (.giving data parcel) rfl).1
      | helloAnswer peer => exact absurd hdue (by simp [Section.due])
      | helloNotify peer => exact absurd hdue (by simp [Section.due])
  | insertActive =>
      obtain rfl := List.mem_singleton.mp hmem
      obtain ⟨rfl, rfl⟩ := Prod.mk.inj (Option.some.inj hdue)
      exact hold .settled rfl
  | insertConnToFd =>
      obtain rfl := List.mem_singleton.mp hmem
      obtain ⟨rfl, rfl⟩ := Prod.mk.inj (Option.some.inj hdue)
      exact hold .settled rfl
  | @insertQueue hd conn =>
      refine hquiet ?_
      unfold opened
      split <;> simp [Section.due, OnMessage.due]
  | _ => exact hquiet (by simp [Section.due])

/-- A queue is empty because it was, or because its last message has come to its end. -/
theorem Runs.idle (hruns : s.Runs sec s' next) (hempty : s'.manager.sendQueues fd = some []) :
    s.manager.sendQueues fd = some [] ∨ sec.due = some (fd, .settled) := by
  cases hruns with
  | eraseQueue => exact .inl ((PartialMap.erase_eq_some _).mp hempty).2
  | @pushBack hd parcel queue _ =>
      have hempty : (s.manager.sendQueues.set hd.fd (queue ++ [parcel])) fd = some [] := hempty
      by_cases hfd : fd = hd.fd
      · rw [hfd, PartialMap.set_self] at hempty
        exact absurd (Option.some.inj hempty) (by simp)
      · exact .inl ((PartialMap.set_of_ne _ hfd _).symm.trans hempty)
  | @takeFront hd parcel rest _ =>
      have hempty : (s.manager.sendQueues.set hd.fd (parcel.movedOut :: rest)) fd = some [] :=
        hempty
      by_cases hfd : fd = hd.fd
      · rw [hfd, PartialMap.set_self] at hempty
        exact absurd (Option.some.inj hempty) (by simp)
      · exact .inl ((PartialMap.set_of_ne _ hfd _).symm.trans hempty)
  | @popFront hd front rest _ =>
      by_cases hfd : fd = hd.fd
      · subst hfd
        exact .inr rfl
      · exact .inl ((PartialMap.set_of_ne _ hfd _).symm.trans hempty)
  | @insertQueue hd conn =>
      by_cases hfd : fd = hd.fd
      · subst hfd
        exact .inr rfl
      · exact .inl ((PartialMap.insert_of_ne _ hfd _).symm.trans hempty)
  | _ => exact .inl hempty

end Shared

namespace Process

variable {p : Process}

/-- A queue is not empty while an operation runs on its descriptor that does not read messages. -/
theorem Parts.queue_of_running (h : p.Parts) {r : Running} (hrunning : p.running = some r)
    (hrole : r.closure.role ≠ .reading) : p.shared.manager.sendQueues r.handle.fd ≠ some [] := by
  intro hempty
  have hat := h.at_fd r.handle.fd
  have hown := h.alike.tally_pos hrunning
  have hidle := hat.idle hempty
  have hnone : p.tally .hello r.handle.fd + p.tally .filling r.handle.fd = 0 := by
    by_contra hpos
    exact absurd (hempty.symm.trans (hat.apart (by omega)).2.2) (by simp)
  cases hr : r.closure.role with
  | reading => exact hrole hr
  | _ =>
      rw [hr] at hown
      omega

end Process

end Diplom
