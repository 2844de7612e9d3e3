import Diplom.Spec.Moves

/-!
# What holds of every descriptor

`Stage` says what a descriptor can be in the middle of: it is closed and nothing is under way, or it
is in a hello exchange with at most one operation under way, or it is an established connection with
a queue, a reader and a sender of the front of the queue at most. Every move keeps this, whatever
happens to the tables that are keyed by peer.
-/

namespace Diplom

namespace Snapshot

/-- The operations and the connection of one descriptor fit together. -/
structure Stage (sock : Option Sock) (active : Option Conn) (recv : Option (RecvOp × OnMessage))
    (send : Option (SendOp × OnSent)) (queue : Option (List Parcel)) : Prop where
  closed : sock = none → active = none ∧ recv = none ∧ send = none
  reads : ∀ op resolve, recv = some (op, resolve) → (resolve = .readMessage ↔ active ≠ none)
  sends : ∀ op resolve, send = some (op, resolve) → (resolve.IsHello ↔ active = none)
  one : active = none → recv = none ∨ send = none
  queued : queue ≠ none ↔ active ≠ none
  front : ∀ op parcel, send = some (op, .queued parcel) →
    ∃ rest, queue = some (parcel.movedOut :: rest)

theorem Stage.nothing (sock : Option Sock) : Stage sock none none none none :=
  ⟨fun _ => ⟨rfl, rfl, rfl⟩, fun _ _ h => absurd h (by simp), fun _ _ h => absurd h (by simp),
    fun _ => .inl rfl, by simp, fun _ _ h => absurd h (by simp)⟩

/-- Every descriptor is at some stage, and no two of them share a socket. -/
structure Ok (s : Snapshot) : Prop where
  stage : ∀ fd, Stage (s.fds fd) (s.activeConns fd) (s.recvAt fd) (s.sendAt fd) (s.sendQueues fd)
  inj : ∀ fd fd' sock, s.fds fd = some sock → s.fds fd' = some sock → fd = fd'
  old : ∀ fd sock, s.fds fd = some sock → sock < s.nextSock

variable {s s' : Snapshot} {fd : Fd}

theorem init_ok (self : PeerId) (order : ByteOrder) :
    (ConnectionManager.init self order).snapshot.Ok :=
  ⟨fun _ => .nothing _,
    fun _ _ _ h => absurd h (by simp [ConnectionManager.snapshot, ConnectionManager.init, Io.init]),
    fun _ _ h => absurd h (by simp [ConnectionManager.snapshot, ConnectionManager.init, Io.init])⟩

/-! ### Reading the invariant -/

theorem Ok.recv_open (h : s.Ok) {op : RecvOp × OnMessage} (hat : s.recvAt fd = some op) :
    ∃ sock, s.fds fd = some sock := by
  rw [← Option.ne_none_iff_exists']
  intro hnone
  exact absurd ((h.stage fd).closed hnone).2.1 (by rw [hat]; simp)

theorem Ok.send_open (h : s.Ok) {op : SendOp × OnSent} (hat : s.sendAt fd = some op) :
    ∃ sock, s.fds fd = some sock := by
  rw [← Option.ne_none_iff_exists']
  intro hnone
  exact absurd ((h.stage fd).closed hnone).2.2 (by rw [hat]; simp)

theorem Ok.active_open (h : s.Ok) {conn : Conn} (hat : s.activeConns fd = some conn) :
    ∃ sock, s.fds fd = some sock := by
  rw [← Option.ne_none_iff_exists']
  intro hnone
  exact absurd ((h.stage fd).closed hnone).1 (by rw [hat]; simp)

theorem Ok.hello_recv (h : s.Ok) {op : RecvOp} {resolve : OnMessage}
    (hat : s.recvAt fd = some (op, resolve)) (hhello : resolve ≠ .readMessage) :
    s.activeConns fd = none ∧ s.sendAt fd = none := by
  have hinactive : s.activeConns fd = none := by
    by_contra hactive
    exact hhello (((h.stage fd).reads op resolve hat).mpr hactive)
  refine ⟨hinactive, ((h.stage fd).one hinactive).resolve_left ?_⟩
  rw [hat]
  simp

theorem Ok.hello_send (h : s.Ok) {op : SendOp} {resolve : OnSent}
    (hat : s.sendAt fd = some (op, resolve)) (hhello : resolve.IsHello) :
    s.activeConns fd = none ∧ s.recvAt fd = none := by
  have hinactive := ((h.stage fd).sends op resolve hat).mp hhello
  refine ⟨hinactive, ((h.stage fd).one hinactive).resolve_right ?_⟩
  rw [hat]
  simp

theorem Ok.reader_active (h : s.Ok) {op : RecvOp} (hat : s.recvAt fd = some (op, .readMessage)) :
    ∃ conn, s.activeConns fd = some conn :=
  Option.ne_none_iff_exists'.mp (((h.stage fd).reads op _ hat).mp rfl)

theorem Ok.queued_active (h : s.Ok) {op : SendOp} {parcel : Parcel}
    (hat : s.sendAt fd = some (op, .queued parcel)) : ∃ conn, s.activeConns fd = some conn :=
  Option.ne_none_iff_exists'.mp fun hnone => ((h.stage fd).sends op _ hat).mpr hnone

theorem Ok.queue_active (h : s.Ok) {queue : List Parcel} (hat : s.sendQueues fd = some queue) :
    ∃ conn, s.activeConns fd = some conn :=
  Option.ne_none_iff_exists'.mp ((h.stage fd).queued.mp (by rw [hat]; simp))

theorem Ok.queue_none (h : s.Ok) (hinactive : s.activeConns fd = none) :
    s.sendQueues fd = none := by
  by_contra hqueue
  exact (h.stage fd).queued.mp hqueue hinactive

theorem Ok.queue_idle (h : s.Ok) (hat : s.sendQueues fd = some []) : s.sendAt fd = none := by
  obtain ⟨conn, hconn⟩ := h.queue_active hat
  rw [Option.eq_none_iff_forall_ne_some]
  rintro ⟨op, resolve⟩ hsend
  cases resolve with
  | helloAnswer peer =>
      exact absurd (((h.stage fd).sends op _ hsend).mp trivial) (by rw [hconn]; simp)
  | helloNotify peer =>
      exact absurd (((h.stage fd).sends op _ hsend).mp trivial) (by rw [hconn]; simp)
  | queued parcel =>
      obtain ⟨rest, hqueue⟩ := (h.stage fd).front op parcel hsend
      exact absurd (hat.symm.trans hqueue) (by simp)

/-! ### Keeping the invariant -/

theorem Ok.congr (h : s.Ok) (hfds : s'.fds = s.fds) (hnext : s'.nextSock = s.nextSock)
    (hactive : s'.activeConns = s.activeConns) (hrecv : s'.recvAt = s.recvAt)
    (hsend : s'.sendAt = s.sendAt) (hqueue : s'.sendQueues = s.sendQueues) : s'.Ok := by
  refine ⟨?_, ?_, ?_⟩
  · rw [hfds, hactive, hrecv, hsend, hqueue]
    exact h.stage
  · rw [hfds]
    exact h.inj
  · rw [hfds, hnext]
    exact h.old

/-- One descriptor moves to another stage, on its socket or without one. -/
theorem Ok.change (h : s.Ok) (s' : Snapshot) (fd : Fd)
    (hfds : ∀ fd', fd' ≠ fd → s'.fds fd' = s.fds fd')
    (hactive : ∀ fd', fd' ≠ fd → s'.activeConns fd' = s.activeConns fd')
    (hrecv : ∀ fd', fd' ≠ fd → s'.recvAt fd' = s.recvAt fd')
    (hsend : ∀ fd', fd' ≠ fd → s'.sendAt fd' = s.sendAt fd')
    (hqueue : ∀ fd', fd' ≠ fd → s'.sendQueues fd' = s.sendQueues fd')
    (hnext : s'.nextSock = s.nextSock) (hsock : s'.fds fd = s.fds fd ∨ s'.fds fd = none)
    (hstage : Stage (s'.fds fd) (s'.activeConns fd) (s'.recvAt fd) (s'.sendAt fd)
      (s'.sendQueues fd)) : s'.Ok := by
  have hsub : ∀ fd' sock, s'.fds fd' = some sock → s.fds fd' = some sock := by
    intro fd' sock hfd'
    by_cases hne : fd' = fd
    · subst hne
      rcases hsock with hsame | hnone
      · exact hsame ▸ hfd'
      · exact absurd hfd' (by rw [hnone]; simp)
    · exact hfds fd' hne ▸ hfd'
  refine ⟨fun fd' => ?_, fun fd₁ fd₂ sock h₁ h₂ => h.inj _ _ _ (hsub _ _ h₁) (hsub _ _ h₂),
    fun fd' sock hfd' => ?_⟩
  · by_cases hne : fd' = fd
    · exact hne ▸ hstage
    · rw [hfds _ hne, hactive _ hne, hrecv _ hne, hsend _ hne, hqueue _ hne]
      exact h.stage fd'
  · rw [hnext]
    exact h.old _ _ (hsub _ _ hfd')

theorem Ok.note (h : s.Ok) (n : Notification) : (s.note n).Ok := h.congr rfl rfl rfl rfl rfl rfl

theorem Ok.notesIf (h : s.Ok) (given : Bool) (n : Notification) : (s.notesIf given n).Ok := by
  cases given
  · exact h
  · exact h.note n

theorem Ok.abort (h : s.Ok) : s.abort.Ok := h.congr rfl rfl rfl rfl rfl rfl

theorem Ok.took (h : s.Ok) (fd : Fd) (bytes : List Byte) : (s.took fd bytes).Ok :=
  h.congr rfl rfl rfl rfl rfl rfl

theorem Ok.put (h : s.Ok) (fd : Fd) (bytes : List Byte) : (s.put fd bytes).Ok :=
  h.congr rfl rfl rfl rfl rfl rfl

/-- A queue may change as it likes while nothing is being sent, and at its end at any time. -/
theorem Ok.setQueue (h : s.Ok) (fd : Fd) (queue : List Parcel) (hqueue : s.sendQueues fd ≠ none)
    (hfront : s.sendAt fd = none ∨ ∃ front rest rest', s.sendQueues fd = some (front :: rest) ∧
      queue = front :: rest') : (s.setQueue fd queue).Ok := by
  refine h.change (s.setQueue fd queue) fd (fun _ _ => rfl) (fun _ _ => rfl) (fun _ _ => rfl)
    (fun _ _ => rfl) (fun _ hne => PartialMap.set_of_ne _ hne _) rfl (.inl rfl) ?_
  have hat : (s.setQueue fd queue).sendQueues fd = some queue := PartialMap.set_self _ _ _
  have hstage := h.stage fd
  rw [hat]
  refine ⟨hstage.closed, hstage.reads, hstage.sends, hstage.one,
    iff_of_true (by simp) (hstage.queued.mp hqueue), ?_⟩
  intro op parcel hsend
  rcases hfront with hnone | ⟨front, rest, rest', hold, rfl⟩
  · exact absurd hsend (by rw [show (s.setQueue fd queue).sendAt fd = none from hnone]; simp)
  · obtain ⟨rest₀, hfront⟩ := hstage.front op parcel hsend
    rw [hold] at hfront
    exact ⟨rest', by rw [(List.cons.inj (Option.some.inj hfront)).1]⟩

theorem Ok.push (h : s.Ok) {queue : List Parcel} (hqueue : s.sendQueues fd = some queue)
    (parcel : Parcel) : (s.push fd queue parcel).Ok := by
  have hset : (s.setQueue fd (queue ++ [parcel])).Ok := by
    refine h.setQueue fd _ (by rw [hqueue]; simp) ?_
    cases queue with
    | nil => exact .inl (h.queue_idle hqueue)
    | cons front rest => exact .inr ⟨front, rest, rest ++ [parcel], hqueue, rfl⟩
  exact hset.congr rfl rfl rfl rfl rfl rfl

theorem Ok.openFd (h : s.Ok) (hfree : s.fds fd = none) : (s.openFd fd).Ok := by
  have hclosed := (h.stage fd).closed hfree
  refine ⟨fun fd' => ?_, fun fd₁ fd₂ sock h₁ h₂ => ?_, fun fd' sock hfd' => ?_⟩
  · by_cases hne : fd' = fd
    · subst hne
      rw [show (s.openFd fd').activeConns fd' = none from hclosed.1,
        show (s.openFd fd').recvAt fd' = none from hclosed.2.1,
        show (s.openFd fd').sendAt fd' = none from hclosed.2.2,
        show (s.openFd fd').sendQueues fd' = none from h.queue_none hclosed.1]
      exact .nothing _
    · have hfds : (s.openFd fd).fds fd' = s.fds fd' := PartialMap.set_of_ne _ hne _
      rw [hfds]
      exact h.stage fd'
  · simp only [Snapshot.openFd, PartialMap.set_apply] at h₁ h₂
    split at h₁ <;> split at h₂
    · simp_all
    · rw [← Option.some.inj h₁] at h₂
      exact absurd (h.old _ _ h₂) (Nat.lt_irrefl _)
    · rw [← Option.some.inj h₂] at h₁
      exact absurd (h.old _ _ h₁) (Nat.lt_irrefl _)
    · exact h.inj _ _ _ h₁ h₂
  · simp only [Snapshot.openFd, PartialMap.set_apply] at hfd' ⊢
    split at hfd'
    · rw [← Option.some.inj hfd']
      exact Nat.lt_succ_self _
    · exact Nat.lt_succ_of_lt (h.old _ _ hfd')

theorem Ok.endRecv (h : s.Ok) (fd : Fd) (bytes : List Byte) : (s.endRecv fd bytes).Ok := by
  refine h.change (s.endRecv fd bytes) fd (fun _ _ => rfl) (fun _ _ => rfl)
    (fun _ hne => PartialMap.erase_of_ne _ hne) (fun _ _ => rfl) (fun _ _ => rfl) rfl (.inl rfl) ?_
  have hnone : (s.endRecv fd bytes).recvAt fd = none := PartialMap.erase_self _ _
  have hstage := h.stage fd
  rw [hnone]
  exact ⟨fun hsock => ⟨(hstage.closed hsock).1, rfl, (hstage.closed hsock).2.2⟩,
    fun _ _ hat => absurd hat (by simp), hstage.sends, fun _ => .inl rfl,
    hstage.queued, hstage.front⟩

theorem Ok.endSend (h : s.Ok) (fd : Fd) (bytes : List Byte) : (s.endSend fd bytes).Ok := by
  refine h.change (s.endSend fd bytes) fd (fun _ _ => rfl) (fun _ _ => rfl) (fun _ _ => rfl)
    (fun _ hne => PartialMap.erase_of_ne _ hne) (fun _ _ => rfl) rfl (.inl rfl) ?_
  have hnone : (s.endSend fd bytes).sendAt fd = none := PartialMap.erase_self _ _
  have hstage := h.stage fd
  rw [hnone]
  exact ⟨fun hsock => ⟨(hstage.closed hsock).1, (hstage.closed hsock).2.1, rfl⟩, hstage.reads,
    fun _ _ hat => absurd hat (by simp), fun _ => .inr rfl, hstage.queued,
    fun _ _ hat => absurd hat (by simp)⟩

/-- A receiving operation may be put where it fits: a reader on a connection, or the one operation
of a hello exchange. -/
theorem Ok.setRecv (h : s.Ok) (fd : Fd) (op : RecvOp) (resolve : OnMessage)
    (hopen : s.fds fd ≠ none)
    (hfits : if resolve = .readMessage then s.activeConns fd ≠ none else s.activeConns fd = none ∧
      s.sendAt fd = none) : (s.setRecv fd op resolve).Ok := by
  refine h.change (s.setRecv fd op resolve) fd (fun _ _ => rfl) (fun _ _ => rfl)
    (fun _ hne => PartialMap.set_of_ne _ hne _) (fun _ _ => rfl) (fun _ _ => rfl) rfl (.inl rfl) ?_
  have hat : (s.setRecv fd op resolve).recvAt fd = some (op, resolve) := PartialMap.set_self _ _ _
  have hstage := h.stage fd
  rw [hat]
  refine ⟨fun hsock => absurd hsock hopen, ?_, hstage.sends, fun hinactive => ?_,
    hstage.queued, hstage.front⟩
  · intro op' resolve' heq
    obtain ⟨rfl, rfl⟩ := Prod.mk.inj (Option.some.inj heq)
    split at hfits
    · rename_i hread
      exact iff_of_true hread hfits
    · rename_i hread
      exact iff_of_false hread fun hactive => hactive hfits.1
  · split at hfits
    · exact absurd hinactive hfits
    · exact .inr hfits.2

theorem Ok.setHello (h : s.Ok) (fd : Fd) (op : SendOp) (resolve : OnSent) (hhello : resolve.IsHello)
    (hopen : s.fds fd ≠ none) (hactive : s.activeConns fd = none) (hrecv : s.recvAt fd = none) :
    (s.setSend fd op resolve).Ok := by
  refine h.change (s.setSend fd op resolve) fd (fun _ _ => rfl) (fun _ _ => rfl) (fun _ _ => rfl)
    (fun _ hne => PartialMap.set_of_ne _ hne _) (fun _ _ => rfl) rfl (.inl rfl) ?_
  have hat : (s.setSend fd op resolve).sendAt fd = some (op, resolve) := PartialMap.set_self _ _ _
  have hstage := h.stage fd
  rw [hat]
  refine ⟨fun hsock => absurd hsock hopen, hstage.reads, ?_, fun _ => .inl hrecv, hstage.queued, ?_⟩
  · intro op' resolve' heq
    obtain ⟨rfl, rfl⟩ := Prod.mk.inj (Option.some.inj heq)
    exact iff_of_true hhello hactive
  · intro op' parcel heq
    rw [(Prod.mk.inj (Option.some.inj heq)).2] at hhello
    exact hhello.elim

/-- The front of the queue of a connection may be sent, when its place in the queue is marked. -/
theorem Ok.setQueued (h : s.Ok) (fd : Fd) (op : SendOp) {parcel : Parcel} {rest : List Parcel}
    (hqueue : s.sendQueues fd = some (parcel.movedOut :: rest)) :
    (s.setSend fd op (.queued parcel)).Ok := by
  refine h.change (s.setSend fd op (.queued parcel)) fd (fun _ _ => rfl) (fun _ _ => rfl)
    (fun _ _ => rfl) (fun _ hne => PartialMap.set_of_ne _ hne _) (fun _ _ => rfl) rfl (.inl rfl) ?_
  have hat : (s.setSend fd op (.queued parcel)).sendAt fd = some (op, .queued parcel) :=
    PartialMap.set_self _ _ _
  obtain ⟨conn, hconn⟩ := h.queue_active hqueue
  obtain ⟨sock, hsock⟩ := h.active_open hconn
  have hstage := h.stage fd
  have hactive : s.activeConns fd ≠ none := by
    rw [hconn]
    simp
  rw [hat]
  refine ⟨fun hnone => absurd (hsock.symm.trans hnone) (by simp), hstage.reads, ?_,
    fun hinactive => absurd hinactive hactive, hstage.queued, ?_⟩
  · intro op' resolve' heq
    obtain ⟨rfl, rfl⟩ := Prod.mk.inj (Option.some.inj heq)
    exact iff_of_false id hactive
  · intro op' parcel' heq
    obtain ⟨_, hresolve⟩ := Prod.mk.inj (Option.some.inj heq)
    obtain rfl := OnSent.queued.inj hresolve
    exact ⟨rest, hqueue⟩

theorem Ok.resend (h : s.Ok) {op : SendOp} {resolve : OnSent}
    (hat : s.sendAt fd = some (op, resolve)) (op' : SendOp) : (s.setSend fd op' resolve).Ok := by
  obtain ⟨sock, hsock⟩ := h.send_open hat
  have hopen : s.fds fd ≠ none := by
    rw [hsock]
    simp
  cases resolve with
  | helloAnswer peer =>
      obtain ⟨hactive, hrecv⟩ := h.hello_send hat trivial
      exact h.setHello fd op' _ trivial hopen hactive hrecv
  | helloNotify peer =>
      obtain ⟨hactive, hrecv⟩ := h.hello_send hat trivial
      exact h.setHello fd op' _ trivial hopen hactive hrecv
  | queued parcel =>
      obtain ⟨rest, hqueue⟩ := (h.stage fd).front op parcel hat
      exact h.setQueued fd op' hqueue

/-- Nothing is under way on an open descriptor, which is no connection. -/
structure Bare (s : Snapshot) (fd : Fd) : Prop where
  isOpen : s.fds fd ≠ none
  active : s.activeConns fd = none
  recv : s.recvAt fd = none
  send : s.sendAt fd = none

theorem Ok.closeFd (h : s.Ok) (hbare : Bare s fd) : (s.closeFd fd).Ok := by
  refine h.change (s.closeFd fd) fd (fun _ hne => PartialMap.erase_of_ne _ hne) (fun _ _ => rfl)
    (fun _ _ => rfl) (fun _ _ => rfl) (fun _ _ => rfl) rfl (.inr (PartialMap.erase_self _ _)) ?_
  rw [show (s.closeFd fd).activeConns fd = none from hbare.active,
    show (s.closeFd fd).recvAt fd = none from hbare.recv,
    show (s.closeFd fd).sendAt fd = none from hbare.send,
    show (s.closeFd fd).sendQueues fd = none from h.queue_none hbare.active]
  exact .nothing _

/-- Into tables without an entry for the descriptor, `insert` makes one. -/
theorem Ok.established_tables (h : s.Ok) (hactive : s.activeConns fd = none) (conn : Conn) :
    (s.established fd conn).activeConns = s.activeConns.set fd conn ∧
      (s.established fd conn).sendQueues = s.sendQueues.set fd [] :=
  ⟨PartialMap.insert_of_none _ hactive _, PartialMap.insert_of_none _ (h.queue_none hactive) _⟩

theorem Ok.established (h : s.Ok) (hbare : Bare s fd) (conn : Conn) :
    (s.established fd conn).Ok := by
  obtain ⟨hactive, hqueue⟩ := h.established_tables hbare.active conn
  refine h.change (s.established fd conn) fd (fun _ _ => rfl) ?_ (fun _ _ => rfl) (fun _ _ => rfl)
    ?_ rfl (.inl rfl) ?_
  · intro fd' hne
    rw [hactive, PartialMap.set_of_ne _ hne]
  · intro fd' hne
    rw [hqueue, PartialMap.set_of_ne _ hne]
  · rw [hactive, hqueue, PartialMap.set_self, PartialMap.set_self,
      show (s.established fd conn).recvAt fd = none from hbare.recv,
      show (s.established fd conn).sendAt fd = none from hbare.send]
    exact ⟨fun hsock => absurd hsock hbare.isOpen, fun _ _ hat => absurd hat (by simp),
      fun _ _ hat => absurd hat (by simp),
      fun _ => .inl rfl, by simp, fun _ _ hat => absurd hat (by simp)⟩

/-! ### `CloseFD` -/

@[simp] theorem closeFD_fds (s : Snapshot) (fd : Fd) : (s.closeFD fd).fds = s.fds.erase fd := by
  simp only [closeFD]
  split <;> rfl

@[simp] theorem closeFD_recvAt (s : Snapshot) (fd : Fd) :
    (s.closeFD fd).recvAt = s.recvAt.erase fd := by
  simp only [closeFD]
  split <;> rfl

@[simp] theorem closeFD_sendAt (s : Snapshot) (fd : Fd) :
    (s.closeFD fd).sendAt = s.sendAt.erase fd := by
  simp only [closeFD]
  split <;> rfl

@[simp] theorem closeFD_activeConns (s : Snapshot) (fd : Fd) :
    (s.closeFD fd).activeConns = s.activeConns.erase fd := by
  simp only [closeFD]
  split
  · rename_i hnone
    exact (PartialMap.erase_of_none _ hnone).symm
  · rfl

theorem Ok.closeFD_sendQueues (h : s.Ok) (fd : Fd) :
    (s.closeFD fd).sendQueues = s.sendQueues.erase fd := by
  simp only [Snapshot.closeFD]
  split
  · rename_i hnone
    exact (PartialMap.erase_of_none _ (h.queue_none hnone)).symm
  · rfl

@[simp] theorem closeFD_nextSock (s : Snapshot) (fd : Fd) :
    (s.closeFD fd).nextSock = s.nextSock := by
  simp only [closeFD]
  split <;> rfl

theorem Ok.closeFD (h : s.Ok) (fd : Fd) : (s.closeFD fd).Ok := by
  refine h.change (s.closeFD fd) fd ?_ ?_ ?_ ?_ ?_ (closeFD_nextSock s fd) (.inr ?_) ?_
  · intro fd' hne
    rw [closeFD_fds, PartialMap.erase_of_ne _ hne]
  · intro fd' hne
    rw [closeFD_activeConns, PartialMap.erase_of_ne _ hne]
  · intro fd' hne
    rw [closeFD_recvAt, PartialMap.erase_of_ne _ hne]
  · intro fd' hne
    rw [closeFD_sendAt, PartialMap.erase_of_ne _ hne]
  · intro fd' hne
    rw [h.closeFD_sendQueues, PartialMap.erase_of_ne _ hne]
  · rw [closeFD_fds, PartialMap.erase_self]
  · rw [closeFD_activeConns, closeFD_recvAt, closeFD_sendAt, h.closeFD_sendQueues]
    simp only [PartialMap.erase_self]
    exact .nothing _

theorem Ok.reader (h : s.Ok) (fd : Fd) (hactive : s.activeConns fd ≠ none) (registered : Bool) :
    (s.reader fd registered).Ok := by
  obtain ⟨conn, hconn⟩ := Option.ne_none_iff_exists'.mp hactive
  obtain ⟨sock, hsock⟩ := h.active_open hconn
  cases registered with
  | false => exact h.closeFD fd
  | true => exact h.setRecv fd _ _ (by rw [hsock]; simp) (by simpa using hactive)

theorem Ok.closeConnDir (h : s.Ok) (conn : Conn) : (s.closeConnDir conn).Ok := by
  unfold Snapshot.closeConnDir
  split
  · exact h
  · exact h.closeFD _

theorem Ok.closeConn (h : s.Ok) (peer : PeerId) (dir : LinkDirection) :
    (s.closeConn peer dir).Ok := by
  unfold Snapshot.closeConn
  dsimp only
  split <;> split
  · exact (h.closeConnDir _).closeConnDir _
  · exact h.closeConnDir _
  · exact h.closeConnDir _
  · exact h

theorem Ok.queueRun (h : s.Ok) (hqueue : s.sendQueues fd ≠ none) (hsend : s.sendAt fd = none)
    {queue : List Parcel} (hrun : QueueRun s fd queue s') : s'.Ok := by
  induction hrun with
  | idle => exact h.setQueue fd [] hqueue (.inl hsend)
  | starts parcel rest hlength =>
      exact (h.setQueue fd _ hqueue (.inl hsend)).setQueued fd _ (PartialMap.set_self _ _ _)
  | aborts parcel rest hlength => exact (h.setQueue fd _ hqueue (.inl hsend)).abort
  | refused parcel _ ih => exact ih

theorem Ok.fewer (h : s.Ok) {recvAt : PartialMap Fd (RecvOp × OnMessage)}
    {sendAt : PartialMap Fd (SendOp × OnSent)}
    (hrecv : ∀ fd, recvAt fd = s.recvAt fd ∨ recvAt fd = none)
    (hsend : ∀ fd, sendAt fd = s.sendAt fd ∨ sendAt fd = none) :
    Ok { s with recvAt := recvAt, sendAt := sendAt } := by
  refine ⟨fun fd => ?_, h.inj, h.old⟩
  have hstage := h.stage fd
  refine ⟨fun hsock => ⟨(hstage.closed hsock).1, ?_, ?_⟩, fun op resolve hat => ?_,
    fun op resolve hat => ?_, fun hinactive => ?_, hstage.queued, fun op parcel hat => ?_⟩
  · exact (hrecv fd).elim (fun hsame => hsame.trans (hstage.closed hsock).2.1) id
  · exact (hsend fd).elim (fun hsame => hsame.trans (hstage.closed hsock).2.2) id
  · rcases hrecv fd with hsame | hnone
    · exact hstage.reads op resolve (hsame ▸ hat)
    · exact absurd hat (by simp [hnone])
  · rcases hsend fd with hsame | hnone
    · exact hstage.sends op resolve (hsame ▸ hat)
    · exact absurd hat (by simp [hnone])
  · rcases hstage.one hinactive with hnone | hnone
    · exact .inl ((hrecv fd).elim (fun hsame => hsame.trans hnone) id)
    · exact .inr ((hsend fd).elim (fun hsame => hsame.trans hnone) id)
  · rcases hsend fd with hsame | hnone
    · exact hstage.front op parcel (hsame ▸ hat)
    · exact absurd hat (by simp [hnone])

/-- A queue run changes the queue, what is being sent and whether the process lives. -/
theorem QueueRun.eq {queue : List Parcel} (h : QueueRun s fd queue s') :
    ∃ sendAt sendQueues alive,
      s' = { s with sendAt := sendAt, sendQueues := sendQueues, alive := alive } := by
  induction h with
  | idle => exact ⟨_, _, _, rfl⟩
  | starts parcel rest hlength => exact ⟨_, _, _, rfl⟩
  | aborts parcel rest hlength => exact ⟨_, _, _, rfl⟩
  | refused parcel _ ih => exact ih

/-! ### Every move -/

/-- After a hello operation has resolved, nothing is under way on its descriptor. -/
theorem Ok.bare_recv (h : s.Ok) {op : RecvOp} {resolve : OnMessage}
    (hat : s.recvAt fd = some (op, resolve)) (hhello : resolve ≠ .readMessage) (bytes : List Byte) :
    Bare (s.endRecv fd bytes) fd := by
  obtain ⟨sock, hsock⟩ := h.recv_open hat
  obtain ⟨hactive, hsend⟩ := h.hello_recv hat hhello
  refine ⟨?_, hactive, PartialMap.erase_self _ _, hsend⟩
  rw [show (s.endRecv fd bytes).fds fd = some sock from hsock]
  simp

theorem Ok.bare_send (h : s.Ok) {op : SendOp} {resolve : OnSent}
    (hat : s.sendAt fd = some (op, resolve)) (hhello : resolve.IsHello) (bytes : List Byte) :
    Bare (s.endSend fd bytes) fd := by
  obtain ⟨sock, hsock⟩ := h.send_open hat
  obtain ⟨hactive, hrecv⟩ := h.hello_send hat hhello
  refine ⟨?_, hactive, hrecv, PartialMap.erase_self _ _⟩
  rw [show (s.endSend fd bytes).fds fd = some sock from hsock]
  simp

theorem Ok.bare_open (h : s.Ok) (hfree : s.fds fd = none) : Bare (s.openFd fd) fd := by
  obtain ⟨hactive, hrecv, hsend⟩ := (h.stage fd).closed hfree
  exact ⟨by simp [Snapshot.openFd], hactive, hrecv, hsend⟩

theorem Bare.established (h : Bare s fd) (conn : Conn) :
    (s.established fd conn).activeConns fd = some conn := by
  rw [show (s.established fd conn).activeConns
    = s.activeConns.set fd conn from PartialMap.insert_of_none _ h.active _, PartialMap.set_self]

theorem Ok.move (h : s.Ok) {event : ConnectionManager.Event} (hmove : Move s event s') : s'.Ok := by
  cases hmove with
  | accepted hfree =>
      have hbare := h.bare_open hfree
      exact (h.openFd hfree).setRecv _ _ _ hbare.isOpen ⟨hbare.active, hbare.send⟩
  | acceptUnwatched hfree => exact (h.openFd hfree).closeFd (h.bare_open hfree)
  | @recvGoesOn fd _ _ _ op op' resolve hat hevent =>
      obtain ⟨sock, hsock⟩ := h.recv_open hat
      refine (h.took fd _).setRecv fd op' resolve
        (by rw [show (s.took fd _).fds fd = some sock from hsock]; simp) ?_
      split
      · rename_i hread
        exact ((h.stage fd).reads op resolve hat).mp hread
      · rename_i hread
        exact h.hello_recv hat hread
  | recvAborts hat hevent => exact h.abort
  | helloDropped hat hhello hevent hbad => exact (h.endRecv _ _).closeFd (h.bare_recv hat hhello _)
  | @helloAnswered fd res ret answers op peer hat hevent =>
      have hbare := h.bare_recv hat (by simp) (ret.bytes res)
      exact (h.endRecv _ _).setHello _ _ (.helloAnswer _) trivial hbare.isOpen
        hbare.active hbare.recv
  | @sessionOut fd res ret answers op peer hat hevent registered hreader =>
      have hbare := h.bare_recv hat (by simp) (ret.bytes res)
      refine Ok.note (Ok.reader ((h.endRecv _ _).established hbare _) _ ?_ _) _
      rw [hbare.established]
      simp
  | messageRead hat hconn hevent registered =>
      refine ((h.endRecv _ _).note _).reader _ ?_ _
      rw [show (((s.endRecv _ _).note _).activeConns) = s.activeConns from rfl, hconn]
      simp
  | readFailed hat hevent => exact (h.endRecv _ _).closeFD _
  | sendGoesOn hat hevent => exact (h.put _ _).resend hat _
  | sendAborts hat hevent => exact h.abort
  | answerUnsent hat hevent => exact (h.endSend _ _).closeFd (h.bare_send hat trivial _)
  | @sessionIn fd res ret answers op peer hat hevent registered =>
      have hbare := h.bare_send hat trivial (op.put res ret)
      refine Ok.reader (Ok.note ((h.endSend _ _).established hbare _) _) _ ?_ _
      rw [show ((((s.endSend _ _).established _ _).note _).activeConns)
        = ((s.endSend _ _).established _ _).activeConns from rfl, hbare.established]
      simp
  | @notifyUnsent fd res ret answers op peer e hat hevent =>
      have hbare := h.bare_send hat trivial (op.put res ret)
      exact ((h.endSend _ _).note _).closeFd ⟨hbare.isOpen, hbare.active, hbare.recv, hbare.send⟩
  | @notifySent fd res ret answers op peer hat hevent =>
      have hbare := h.bare_send hat trivial (op.put res ret)
      exact (h.endSend _ _).setRecv _ _ _ hbare.isOpen ⟨hbare.active, hbare.send⟩
  | notifyUnanswered hat hevent => exact (h.endSend _ _).closeFd (h.bare_send hat trivial _)
  | queueAdvances hat hqueue hevent hrun =>
      refine (h.endSend _ _).queueRun ?_ (PartialMap.erase_self _ _) hrun
      rw [show (s.endSend _ _).sendQueues = s.sendQueues from rfl, hqueue]
      simp
  | sendNowhere => exact h
  | sendQueued hqueue hwaits => exact h.push hqueue _
  | sendAlone hqueue hrun =>
      refine (h.push hqueue _).queueRun ?_ (h.queue_idle hqueue) hrun
      simp [Snapshot.push, Snapshot.setQueue]
  | notDialed kind => exact h.note _
  | dialed hfree early =>
      have hbare := h.bare_open hfree
      exact ((h.openFd hfree).setHello _ _ (.helloNotify _) trivial hbare.isOpen hbare.active
        hbare.recv).notesIf _ _
  | dialUnwatched hfree early =>
      exact (((h.openFd hfree).closeFd (h.bare_open hfree)).notesIf _ _).note _
  | closed => exact h.closeConn _ _
  | destroyed hrecv hsend => exact h.fewer hrecv hsend

end Snapshot

end Diplom
