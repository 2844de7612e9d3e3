import Diplom.Proof.Moves
import Diplom.Spec.Life

/-!
# What a move does to each socket

A move works on one descriptor, apart from `CloseConn`, which closes up to two, and from objects
that are destroyed. So a move leaves every socket as it was, or takes the socket of its descriptor
one step on, or closes it, or both.
-/

namespace Diplom

namespace Snapshot

variable {s s' s'' : Snapshot} {fd : Fd} {sock : Sock}

/-! ### Sockets and their descriptors -/

theorem Ok.life_of_held (h : s.Ok) (hfd : s.fds fd = some sock) :
    s.life sock = s.lifeAt fd sock := by
  have hex : ∃ fd, s.fds fd = some sock := ⟨fd, hfd⟩
  rw [life, dif_pos hex, h.inj _ _ _ hex.choose_spec hfd]

theorem life_of_closed (h : ∀ fd, s.fds fd ≠ some sock) : s.life sock = s.lifeClosed sock :=
  dif_neg fun ⟨fd, hfd⟩ => h fd hfd

theorem life_logs (s : Snapshot) (sock : Sock) :
    (s.life sock).written = s.written sock ∧ (s.life sock).taken = s.taken sock ∧
      (s.life sock).pushed = s.pushed sock ∧ (s.life sock).recorded = s.recorded sock := by
  unfold life
  split <;> exact ⟨rfl, rfl, rfl, rfl⟩

/-- Nothing but one descriptor and its socket has changed. -/
structure Only (fd : Fd) (s s' : Snapshot) : Prop where
  fds : ∀ fd', fd' ≠ fd → s'.fds fd' = s.fds fd'
  recvAt : ∀ fd', fd' ≠ fd → s'.recvAt fd' = s.recvAt fd'
  sendAt : ∀ fd', fd' ≠ fd → s'.sendAt fd' = s.sendAt fd'
  activeConns : ∀ fd', fd' ≠ fd → s'.activeConns fd' = s.activeConns fd'
  sendQueues : ∀ fd', fd' ≠ fd → s'.sendQueues fd' = s.sendQueues fd'
  logs : ∀ sock, s.fds fd ≠ some sock → s'.lifeClosed sock = s.lifeClosed sock
  sock : s'.fds fd = s.fds fd ∨ s'.fds fd = none
  self : s'.self = s.self
  order : s'.order = s.order
  nextSock : s'.nextSock = s.nextSock

theorem Only.refl (fd : Fd) (s : Snapshot) : Only fd s s :=
  ⟨fun _ _ => rfl, fun _ _ => rfl, fun _ _ => rfl, fun _ _ => rfl, fun _ _ => rfl, fun _ _ => rfl,
    .inl rfl, rfl, rfl, rfl⟩

theorem Only.trans (h : Only fd s s') (h' : Only fd s' s'') : Only fd s s'' where
  fds fd' hne := (h'.fds fd' hne).trans (h.fds fd' hne)
  recvAt fd' hne := (h'.recvAt fd' hne).trans (h.recvAt fd' hne)
  sendAt fd' hne := (h'.sendAt fd' hne).trans (h.sendAt fd' hne)
  activeConns fd' hne := (h'.activeConns fd' hne).trans (h.activeConns fd' hne)
  sendQueues fd' hne := (h'.sendQueues fd' hne).trans (h.sendQueues fd' hne)
  logs sock hsock := by
    refine (h'.logs sock ?_).trans (h.logs sock hsock)
    rcases h.sock with hsame | hnone
    · rw [hsame]
      exact hsock
    · rw [hnone]
      simp
  sock := by
    rcases h'.sock with hsame | hnone
    · rw [hsame]
      exact h.sock
    · exact .inr hnone
  self := h'.self.trans h.self
  order := h'.order.trans h.order
  nextSock := h'.nextSock.trans h.nextSock

theorem Only.life (h : Only fd s s') (hs : s.Ok) (hs' : s'.Ok) (hsock : s.fds fd ≠ some sock) :
    s'.life sock = s.life sock := by
  have hlogs := h.logs sock hsock
  have hsock' : s'.fds fd ≠ some sock := by
    rcases h.sock with hsame | hnone
    · rw [hsame]
      exact hsock
    · rw [hnone]
      simp
  by_cases hheld : ∃ fd', s.fds fd' = some sock
  · obtain ⟨fd', hfd'⟩ := hheld
    have hne : fd' ≠ fd := fun heq => hsock (heq ▸ hfd')
    rw [hs.life_of_held hfd', hs'.life_of_held ((h.fds fd' hne).trans hfd')]
    obtain ⟨-, -, -, -, hwritten, htaken, hpushed, hrecorded⟩ := (Life.mk.injEq ..).mp hlogs
    simp only [lifeAt, h.recvAt fd' hne, h.sendAt fd' hne, h.activeConns fd' hne,
      h.sendQueues fd' hne, hwritten, htaken, hpushed, hrecorded]
  · have hheld' : ∀ fd', s'.fds fd' ≠ some sock := by
      intro fd' hfd'
      by_cases hne : fd' = fd
      · exact hsock' (hne ▸ hfd')
      · exact hheld ⟨fd', (h.fds fd' hne).symm.trans hfd'⟩
    rw [life_of_closed hheld', life_of_closed fun fd' hfd' => hheld ⟨fd', hfd'⟩, hlogs]

theorem notesIf_life (s : Snapshot) (given : Bool) (n : Notification) (sock : Sock) :
    (s.notesIf given n).life sock = s.life sock := by
  cases given <;> rfl

/-! ### What the parts of a move touch -/

section Parts

variable (s) (fd : Fd)

theorem only_note (n : Notification) :
    Only fd s (s.note n) :=
  ⟨fun _ _ => rfl, fun _ _ => rfl, fun _ _ => rfl, fun _ _ => rfl, fun _ _ => rfl, fun _ _ => rfl,
    .inl rfl, rfl, rfl, rfl⟩

theorem only_notesIf (given : Bool) (n : Notification) : Only fd s (s.notesIf given n) := by
  cases given
  · exact Only.refl fd s
  · exact only_note s fd n

theorem only_abort :
    Only fd s s.abort :=
  ⟨fun _ _ => rfl, fun _ _ => rfl, fun _ _ => rfl, fun _ _ => rfl, fun _ _ => rfl, fun _ _ => rfl,
    .inl rfl, rfl, rfl, rfl⟩

theorem only_closeFd : Only fd s (s.closeFd fd) :=
  ⟨fun _ hne => PartialMap.erase_of_ne _ hne, fun _ _ => rfl, fun _ _ => rfl, fun _ _ => rfl,
    fun _ _ => rfl, fun _ _ => rfl, .inr (PartialMap.erase_self _ _), rfl, rfl, rfl⟩

theorem only_setRecv (op : RecvOp) (resolve : OnMessage) : Only fd s (s.setRecv fd op resolve) :=
  ⟨fun _ _ => rfl, fun _ hne => PartialMap.set_of_ne _ hne _, fun _ _ => rfl, fun _ _ => rfl,
    fun _ _ => rfl, fun _ _ => rfl, .inl rfl, rfl, rfl, rfl⟩

theorem only_setSend (op : SendOp) (resolve : OnSent) : Only fd s (s.setSend fd op resolve) :=
  ⟨fun _ _ => rfl, fun _ _ => rfl, fun _ hne => PartialMap.set_of_ne _ hne _, fun _ _ => rfl,
    fun _ _ => rfl, fun _ _ => rfl, .inl rfl, rfl, rfl, rfl⟩

theorem only_setQueue (queue : List Parcel) : Only fd s (s.setQueue fd queue) :=
  ⟨fun _ _ => rfl, fun _ _ => rfl, fun _ _ => rfl, fun _ _ => rfl,
    fun _ hne => PartialMap.set_of_ne _ hne _, fun _ _ => rfl, .inl rfl, rfl, rfl, rfl⟩

theorem only_took (bytes : List Byte) : Only fd s (s.took fd bytes) := by
  refine ⟨fun _ _ => rfl, fun _ _ => rfl, fun _ _ => rfl, fun _ _ => rfl, fun _ _ => rfl,
    fun sock hsock => ?_, .inl rfl, rfl, rfl, rfl⟩
  simp only [lifeClosed, took, appendTo_of_ne _ hsock, recorded]

theorem only_put (bytes : List Byte) : Only fd s (s.put fd bytes) := by
  refine ⟨fun _ _ => rfl, fun _ _ => rfl, fun _ _ => rfl, fun _ _ => rfl, fun _ _ => rfl,
    fun sock hsock => ?_, .inl rfl, rfl, rfl, rfl⟩
  simp only [lifeClosed, put, appendTo_of_ne _ hsock, recorded]

theorem only_endRecv (bytes : List Byte) : Only fd s (s.endRecv fd bytes) :=
  (only_took s fd bytes).trans
  ⟨fun _ _ => rfl, fun _ hne => PartialMap.erase_of_ne _ hne, fun _ _ => rfl, fun _ _ => rfl,
    fun _ _ => rfl, fun _ _ => rfl, .inl rfl, rfl, rfl, rfl⟩

theorem only_endSend (bytes : List Byte) : Only fd s (s.endSend fd bytes) :=
  (only_put s fd bytes).trans
  ⟨fun _ _ => rfl, fun _ _ => rfl, fun _ hne => PartialMap.erase_of_ne _ hne, fun _ _ => rfl,
    fun _ _ => rfl, fun _ _ => rfl, .inl rfl, rfl, rfl, rfl⟩

theorem only_push (queue : List Parcel) (parcel : Parcel) : Only fd s (s.push fd queue parcel) := by
  refine ⟨fun _ _ => rfl, fun _ _ => rfl, fun _ _ => rfl, fun _ _ => rfl,
    fun _ hne => PartialMap.set_of_ne _ hne _, fun sock hsock => ?_, .inl rfl, rfl, rfl, rfl⟩
  simp only [lifeClosed, push, setQueue, appendTo_of_ne _ hsock, recorded]

theorem only_established (conn : Conn) : Only fd s (s.established fd conn) := by
  refine ⟨fun _ _ => rfl, fun _ _ => rfl, fun _ _ => rfl,
    fun _ hne => PartialMap.insert_of_ne _ hne _, fun _ hne => PartialMap.insert_of_ne _ hne _,
    fun sock hsock => ?_, .inl rfl, rfl, rfl, rfl⟩
  have hrecorded : (s.established fd conn).recorded sock = s.recorded sock := by
    simp only [recorded, Snapshot.established]
    cases hfd : s.fds fd with
    | none => simp
    | some sock' =>
        have hne : sock' ≠ sock := fun heq => hsock (heq ▸ hfd)
        simp [hne]
  simp only [lifeClosed, hrecorded]
  rfl

theorem Ok.only_closeFD {s : Snapshot} {fd : Fd} (h : s.Ok) : Only fd s (s.closeFD fd) := by
  refine ⟨?_, ?_, ?_, ?_, ?_, ?_, .inr ?_, ?_, ?_, closeFD_nextSock s fd⟩
  · intro fd' hne
    rw [closeFD_fds, PartialMap.erase_of_ne _ hne]
  · intro fd' hne
    rw [closeFD_recvAt, PartialMap.erase_of_ne _ hne]
  · intro fd' hne
    rw [closeFD_sendAt, PartialMap.erase_of_ne _ hne]
  · intro fd' hne
    rw [closeFD_activeConns, PartialMap.erase_of_ne _ hne]
  · intro fd' hne
    rw [h.closeFD_sendQueues, PartialMap.erase_of_ne _ hne]
  · intro sock _
    simp only [Snapshot.closeFD]
    split <;> rfl
  · rw [closeFD_fds, PartialMap.erase_self]
  · simp only [Snapshot.closeFD]
    split <;> rfl
  · simp only [Snapshot.closeFD]
    split <;> rfl

end Parts

theorem QueueRun.only {queue : List Parcel} (h : QueueRun s fd queue s') : Only fd s s' := by
  induction h with
  | idle => exact only_setQueue s fd []
  | starts parcel rest hlength => exact (only_setQueue s fd _).trans (only_setSend _ fd _ _)
  | aborts parcel rest hlength => exact (only_setQueue s fd _).trans (only_abort _ fd)
  | refused parcel _ ih => exact ih

/-! ### The life of the descriptor's socket -/

section At

theorem lifeAt_setRecv (s : Snapshot) (op : RecvOp) (resolve : OnMessage) :
    (s.setRecv fd op resolve).lifeAt fd sock
      = { s.lifeAt fd sock with recv := some (op, resolve) } := by
  have hrecv : (s.setRecv fd op resolve).recvAt fd = some (op, resolve) := PartialMap.set_self _ _ _
  rw [lifeAt, hrecv]
  rfl

theorem lifeAt_setSend (s : Snapshot) (op : SendOp) (resolve : OnSent) :
    (s.setSend fd op resolve).lifeAt fd sock
      = { s.lifeAt fd sock with send := some (op, resolve) } := by
  have hsend : (s.setSend fd op resolve).sendAt fd = some (op, resolve) := PartialMap.set_self _ _ _
  rw [lifeAt, hsend]
  rfl

theorem lifeAt_setQueue (s : Snapshot) (queue : List Parcel) :
    (s.setQueue fd queue).lifeAt fd sock = { s.lifeAt fd sock with queue := some queue } := by
  have hqueue : (s.setQueue fd queue).sendQueues fd = some queue := PartialMap.set_self _ _ _
  rw [lifeAt, hqueue]
  rfl

theorem lifeAt_note (s : Snapshot) (n : Notification) :
    (s.note n).lifeAt fd sock = s.lifeAt fd sock :=
  rfl

theorem lifeAt_took (hsock : s.fds fd = some sock) (bytes : List Byte) :
    (s.took fd bytes).lifeAt fd sock
      = { s.lifeAt fd sock with taken := s.taken sock ++ bytes } := by
  have htaken : (s.took fd bytes).taken sock = s.taken sock ++ bytes := by
    simp only [took, hsock, appendTo_self]
  rw [lifeAt, htaken]
  rfl

theorem lifeAt_put (hsock : s.fds fd = some sock) (bytes : List Byte) :
    (s.put fd bytes).lifeAt fd sock
      = { s.lifeAt fd sock with written := s.written sock ++ bytes } := by
  have hwritten : (s.put fd bytes).written sock = s.written sock ++ bytes := by
    simp only [put, hsock, appendTo_self]
  rw [lifeAt, hwritten]
  rfl

theorem lifeAt_endRecv (hsock : s.fds fd = some sock) (bytes : List Byte) :
    (s.endRecv fd bytes).lifeAt fd sock
      = { s.lifeAt fd sock with recv := none, taken := s.taken sock ++ bytes } := by
  have hrecv : (s.endRecv fd bytes).recvAt fd = none := PartialMap.erase_self _ _
  have htook := lifeAt_took hsock bytes
  have hsame : (s.endRecv fd bytes).lifeAt fd sock
      = { (s.took fd bytes).lifeAt fd sock with recv := none } := by
    rw [lifeAt, hrecv]
    rfl
  rw [hsame, htook]

theorem lifeAt_endSend (hsock : s.fds fd = some sock) (bytes : List Byte) :
    (s.endSend fd bytes).lifeAt fd sock
      = { s.lifeAt fd sock with send := none, written := s.written sock ++ bytes } := by
  have hsend : (s.endSend fd bytes).sendAt fd = none := PartialMap.erase_self _ _
  have hput := lifeAt_put hsock bytes
  have hsame : (s.endSend fd bytes).lifeAt fd sock
      = { (s.put fd bytes).lifeAt fd sock with send := none } := by
    rw [lifeAt, hsend]
    rfl
  rw [hsame, hput]

theorem lifeAt_push (hsock : s.fds fd = some sock) (queue : List Parcel) (parcel : Parcel) :
    (s.push fd queue parcel).lifeAt fd sock =
      { s.lifeAt fd sock with
        queue := some (queue ++ [parcel]), pushed := s.pushed sock ++ [parcel] } := by
  have hqueue : (s.push fd queue parcel).sendQueues fd = some (queue ++ [parcel]) :=
    PartialMap.set_self _ _ _
  have hpushed : (s.push fd queue parcel).pushed sock = s.pushed sock ++ [parcel] := by
    simp only [push, hsock, appendTo_self]
  rw [lifeAt, hqueue, hpushed]
  rfl

theorem Ok.lifeAt_established (h : s.Ok) (hsock : s.fds fd = some sock)
    (hactive : s.activeConns fd = none) (conn : Conn) :
    (s.established fd conn).lifeAt fd sock =
      { s.lifeAt fd sock with
        active := some conn, queue := some [], recorded := s.recorded sock ++ [conn] } := by
  obtain ⟨hactive', hqueue'⟩ := h.established_tables hactive conn
  have hactive'' : (s.established fd conn).activeConns fd = some conn := by
    rw [hactive', PartialMap.set_self]
  have hqueue'' : (s.established fd conn).sendQueues fd = some [] := by
    rw [hqueue', PartialMap.set_self]
  have hrecorded : (s.established fd conn).recorded sock = s.recorded sock ++ [conn] := by
    simp [recorded, Snapshot.established, hsock]
  rw [lifeAt, hactive'', hqueue'', hrecorded]
  rfl

theorem QueueRun.starts_of (hrun : QueueRun s fd queue s') (hsend : s.sendAt fd = none)
    (sock : Sock) :
    ∃ queue' send, Life.Starts s.order queue queue' send ∧
      s'.lifeAt fd sock = { s.lifeAt fd sock with queue := some queue', send := send } := by
  have hnone : (s.lifeAt fd sock).send = none := hsend
  induction hrun with
  | idle =>
      refine ⟨[], none, .idle [], ?_⟩
      rw [lifeAt_setQueue, ← hnone]
  | starts parcel rest hlength =>
      refine ⟨_, _, .starts [] parcel rest hlength, ?_⟩
      rw [lifeAt_setSend, lifeAt_setQueue]
  | aborts parcel rest hlength =>
      refine ⟨_, _, .aborts [] parcel rest, ?_⟩
      rw [show (s.setQueue fd (parcel.movedOut :: rest)).abort.lifeAt fd sock =
        (s.setQueue fd (parcel.movedOut :: rest)).lifeAt fd sock from rfl, lifeAt_setQueue, ← hnone]
  | @refused parcel rest s' _ ih =>
      obtain ⟨queue', send, hstarts, heq⟩ := ih
      refine ⟨queue', send, ?_, heq⟩
      cases hstarts with
      | idle => exact .idle (parcel :: rest)
      | starts skipped next rest' hlength => exact .starts (parcel :: skipped) next rest' hlength
      | aborts skipped next rest' => exact .aborts (parcel :: skipped) next rest'

end At

/-! ### Every move -/

open ConnectionManager (Answers Dial Event)

/-- A socket stays as it is or, if the event is for its descriptor, goes a step on, and may be
closed in the same move. -/
def Lives (s : Snapshot) (event : Event) (s' : Snapshot) (sock : Sock) : Prop :=
  ∃ l, (l = s.life sock ∨ Life.Step s.self s.order (s.life sock) event l ∧ ∀ fd ∈ event.fd,
    s.fds fd = some sock) ∧ (s'.life sock = l ∨ s'.life sock = l.closed)

theorem lives_of_eq {event : Event} (h : s'.life sock = s.life sock) : Lives s event s' sock :=
  ⟨_, .inl rfl, .inl h⟩

theorem lives_of_step {event : Event} (hevent : ∀ fd' ∈ event.fd, fd' = fd) (hs : s.Ok)
    (hs' : s'.Ok) (honly : Only fd s s') (hfds : s'.fds fd = s.fds fd)
    (hstep : ∀ sock, s.fds fd = some sock →
      Life.Step s.self s.order (s.lifeAt fd sock) event (s'.lifeAt fd sock)) (sock : Sock) :
    Lives s event s' sock := by
  by_cases hsock : s.fds fd = some sock
  · refine ⟨s'.life sock, .inr ⟨?_, fun fd' hfd' => hevent fd' hfd' ▸ hsock⟩, .inl rfl⟩
    rw [hs.life_of_held hsock, hs'.life_of_held (hfds.trans hsock)]
    exact hstep sock hsock
  · exact lives_of_eq (honly.life hs hs' hsock)

/-- The descriptor of a socket is closed, and nothing is added to the logs. -/
structure Closes (fd : Fd) (t s' : Snapshot) : Prop where
  only : Only fd t s'
  gone : s'.fds fd = none
  logs : ∀ sock, s'.lifeClosed sock = t.lifeClosed sock

theorem Closes.life {t : Snapshot} (h : Closes fd t s') (ht : t.Ok) (hsock : t.fds fd = some sock) :
    s'.life sock = (t.life sock).closed := by
  have hgone : ∀ fd', s'.fds fd' ≠ some sock := by
    intro fd' hfd'
    by_cases hne : fd' = fd
    · rw [hne, h.gone] at hfd'
      exact absurd hfd' (by simp)
    · exact hne (ht.inj _ _ _ ((h.only.fds fd' hne).symm.trans hfd') hsock)
  rw [life_of_closed hgone, ht.life_of_held hsock, h.logs]
  rfl

theorem lives_of_closes {event : Event} {t : Snapshot} (hevent : ∀ fd' ∈ event.fd, fd' = fd)
    (hs : s.Ok) (ht : t.Ok) (hs' : s'.Ok) (honly : Only fd s t) (hfds : t.fds fd = s.fds fd)
    (hcloses : Closes fd t s')
    (hstep : ∀ sock, s.fds fd = some sock → t.lifeAt fd sock = s.lifeAt fd sock ∨
      Life.Step s.self s.order (s.lifeAt fd sock) event (t.lifeAt fd sock)) (sock : Sock) :
    Lives s event s' sock := by
  by_cases hsock : s.fds fd = some sock
  · have ht' : t.fds fd = some sock := hfds.trans hsock
    refine ⟨t.life sock, ?_, .inr (hcloses.life ht ht')⟩
    rw [hs.life_of_held hsock, ht.life_of_held ht']
    exact (hstep sock hsock).imp_right fun hgoes => ⟨hgoes, fun fd' hfd' => hevent fd' hfd' ▸ hsock⟩
  · refine lives_of_eq ((hcloses.only.life ht hs' ?_).trans (honly.life hs ht hsock))
    rw [hfds]
    exact hsock

theorem closes_closeFd (s : Snapshot) (fd : Fd) : Closes fd s (s.closeFd fd) :=
  ⟨only_closeFd s fd, PartialMap.erase_self _ _, fun _ => rfl⟩

theorem Ok.closes_closeFD (h : s.Ok) (fd : Fd) : Closes fd s (s.closeFD fd) := by
  refine ⟨h.only_closeFD, by rw [closeFD_fds, PartialMap.erase_self], fun sock => ?_⟩
  simp only [Snapshot.closeFD]
  split <;> rfl

theorem Closes.setRecv {t : Snapshot} (h : Closes fd t s') (op : RecvOp) (resolve : OnMessage) :
    Closes fd (t.setRecv fd op resolve) s' := by
  refine ⟨⟨h.only.fds, fun fd' hne => ?_, h.only.sendAt, h.only.activeConns, h.only.sendQueues,
    h.only.logs, .inr h.gone, h.only.self, h.only.order, h.only.nextSock⟩, h.gone, h.logs⟩
  rw [h.only.recvAt fd' hne]
  exact (PartialMap.set_of_ne _ hne _).symm

theorem Ok.life_openFd (h : s.Ok) (hfree : s.fds fd = none) (sock : Sock) :
    (s.openFd fd).life sock = s.life sock := by
  have hopened := h.openFd hfree
  by_cases hnew : sock = s.nextSock
  · subst hnew
    have hheld : (s.openFd fd).fds fd = some s.nextSock := PartialMap.set_self _ _ _
    have hclosed : ∀ fd', s.fds fd' ≠ some s.nextSock :=
      fun fd' hfd' => Nat.lt_irrefl _ (h.old _ _ hfd')
    obtain ⟨hactive, hrecv, hsend⟩ := (h.stage fd).closed hfree
    rw [hopened.life_of_held hheld, life_of_closed hclosed]
    simp only [lifeAt, lifeClosed, show (s.openFd fd).recvAt fd = none from hrecv,
      show (s.openFd fd).sendAt fd = none from hsend,
      show (s.openFd fd).activeConns fd = none from hactive,
      show (s.openFd fd).sendQueues fd = none from h.queue_none hactive]
    rfl
  · by_cases hheld : ∃ fd', s.fds fd' = some sock
    · obtain ⟨fd', hfd'⟩ := hheld
      have hne : fd' ≠ fd := by
        rintro rfl
        exact absurd (hfree.symm.trans hfd') (by simp)
      rw [h.life_of_held hfd', hopened.life_of_held ((PartialMap.set_of_ne _ hne _).trans hfd')]
      rfl
    · have hclosed : ∀ fd', (s.openFd fd).fds fd' ≠ some sock := by
        intro fd' hfd'
        simp only [Snapshot.openFd, PartialMap.set_apply] at hfd'
        split at hfd'
        · exact hnew (Option.some.inj hfd').symm
        · exact hheld ⟨fd', hfd'⟩
      rw [life_of_closed hclosed, life_of_closed fun fd' hfd' => hheld ⟨fd', hfd'⟩]
      rfl

/-- What a move does to the sockets there are, or makes of a new one. -/
structure MovesLife (s : Snapshot) (event : Event) (s' : Snapshot) : Prop where
  self : s'.self = s.self
  order : s'.order = s.order
  life : (s'.nextSock = s.nextSock ∧ ∀ sock, Lives s event s' sock) ∨
    (s'.nextSock = s.nextSock + 1 ∧ (∀ sock, sock ≠ s.nextSock → s'.life sock = s.life sock) ∧
      Life.Born s.self s.order (s.life s.nextSock) event (s'.life s.nextSock))

theorem new_of_step {self : PeerId} {order : ByteOrder} {event : Event} {l : Life}
    (h : Life.Step self order .new event l) : l = .new := by
  cases h with
  | recvGoesOn hat => exact absurd hat (by simp [Life.new])
  | recvEnds op hat => exact absurd hat (by simp [Life.new])
  | helloAnswered hat => exact absurd hat (by simp [Life.new])
  | sessionOut hat => exact absurd hat (by simp [Life.new])
  | messageRead hat => exact absurd hat (by simp [Life.new])
  | sendGoesOn hat => exact absurd hat (by simp [Life.new])
  | helloUnsent hat => exact absurd hat (by simp [Life.new])
  | sessionIn hat => exact absurd hat (by simp [Life.new])
  | notifySent hat => exact absurd hat (by simp [Life.new])
  | queueAdvances hat => exact absurd hat (by simp [Life.new])
  | sendQueued hqueue => exact absurd hqueue (by simp [Life.new])
  | sendAlone hqueue => exact absurd hqueue (by simp [Life.new])
  | @destroyed token ok recv send hrecv hsend =>
      obtain rfl : recv = none := hrecv.elim id id
      obtain rfl : send = none := hsend.elim id id
      rfl

theorem MovesLife.fresh {event : Event} (h : MovesLife s event s')
    (hfresh : ∀ sock, s.nextSock ≤ sock → s.life sock = .new) {sock : Sock}
    (hsock : s'.nextSock ≤ sock) : s'.life sock = .new := by
  rcases h.life with ⟨hnext, hlives⟩ | ⟨hnext, hothers, -⟩
  · have hnew := hfresh sock (hnext ▸ hsock)
    obtain ⟨l, hl, hlife⟩ := hlives sock
    have hl' : l = .new := by
      rcases hl with rfl | ⟨hstep, -⟩
      · exact hnew
      · exact new_of_step (hnew ▸ hstep)
    rcases hlife with hlife | hlife
    · rw [hlife, hl']
    · rw [hlife, hl']
      rfl
  · have hlt : s.nextSock < sock := by
      rw [hnext] at hsock
      exact hsock
    rw [hothers sock (Nat.ne_of_gt hlt), hfresh sock (Nat.le_of_lt hlt)]

theorem Only.movesLife (h : Only fd s s') {event : Event} (hlives : ∀ sock, Lives s event s' sock) :
    MovesLife s event s' :=
  ⟨h.self, h.order, .inl ⟨h.nextSock, hlives⟩⟩

theorem movesLife_of_step {event : Event} (hevent : ∀ fd' ∈ event.fd, fd' = fd) (hs : s.Ok)
    (hs' : s'.Ok) (honly : Only fd s s') (hfds : s'.fds fd = s.fds fd)
    (hstep : ∀ sock, s.fds fd = some sock →
      Life.Step s.self s.order (s.lifeAt fd sock) event (s'.lifeAt fd sock)) :
    MovesLife s event s' :=
  honly.movesLife (lives_of_step hevent hs hs' honly hfds hstep)

theorem movesLife_of_closes {event : Event} {t : Snapshot} (hevent : ∀ fd' ∈ event.fd, fd' = fd)
    (hs : s.Ok) (ht : t.Ok) (hs' : s'.Ok) (honly : Only fd s t) (hfds : t.fds fd = s.fds fd)
    (hcloses : Closes fd t s')
    (hstep : ∀ sock, s.fds fd = some sock → t.lifeAt fd sock = s.lifeAt fd sock ∨
      Life.Step s.self s.order (s.lifeAt fd sock) event (t.lifeAt fd sock)) :
    MovesLife s event s' :=
  (honly.trans hcloses.only).movesLife (lives_of_closes hevent hs ht hs' honly hfds hcloses hstep)

theorem movesLife_of_reader {event : Event} {t : Snapshot} (hevent : ∀ fd' ∈ event.fd, fd' = fd)
    (hs : s.Ok) (ht : t.Ok) (hactive : t.activeConns fd ≠ none) (registered : Bool)
    (honly : Only fd s t) (hfds : t.fds fd = s.fds fd)
    (hstep : ∀ sock, s.fds fd = some sock →
      Life.Step s.self s.order (s.lifeAt fd sock) event
        { t.lifeAt fd sock with recv := some (.start, .readMessage) }) :
    MovesLife s event (t.reader fd registered) := by
  have hread := ht.reader fd hactive true
  have hat : ∀ sock, s.fds fd = some sock →
      Life.Step s.self s.order (s.lifeAt fd sock) event
        ((t.setRecv fd .start .readMessage).lifeAt fd sock) := by
    intro sock hsock
    rw [lifeAt_setRecv]
    exact hstep sock hsock
  cases registered with
  | true => exact movesLife_of_step hevent hs hread (honly.trans (only_setRecv t fd _ _)) hfds hat
  | false =>
      have hcloses := (ht.closes_closeFD fd).setRecv .start .readMessage
      exact movesLife_of_closes hevent hs hread (ht.closeFD fd)
        (honly.trans (only_setRecv t fd _ _)) hfds hcloses fun sock hsock => .inr (hat sock hsock)

theorem closeConnDir_life (h : s.Ok) (conn : Conn) (sock : Sock) :
    (s.closeConnDir conn).life sock = s.life sock ∨
      (s.closeConnDir conn).life sock = (s.life sock).closed := by
  unfold closeConnDir
  split
  · exact .inl rfl
  · rename_i fd hfd
    by_cases hsock : s.fds fd = some sock
    · exact .inr ((h.closes_closeFD fd).life h hsock)
    · exact .inl ((h.closes_closeFD fd).only.life h (h.closeFD fd) hsock)

theorem closeConn_life (h : s.Ok) (peer : PeerId) (dir : LinkDirection) (sock : Sock) :
    (s.closeConn peer dir).life sock = s.life sock ∨
      (s.closeConn peer dir).life sock = (s.life sock).closed := by
  have htwice : ∀ l : Life, l.closed.closed = l.closed := fun _ => rfl
  unfold closeConn
  dsimp only
  split <;> split
  · rcases closeConnDir_life h (peer, .incoming) sock with hin | hin <;> rcases closeConnDir_life
        (h.closeConnDir (peer, .incoming)) (peer, .outgoing) sock with hout | hout
    · exact .inl (hout.trans hin)
    · exact .inr (hout.trans (by rw [hin]))
    · exact .inr (hout.trans hin)
    · exact .inr (hout.trans (by rw [hin, htwice]))
  · exact closeConnDir_life h _ sock
  · exact closeConnDir_life h _ sock
  · exact .inl rfl

theorem closeConn_same (s : Snapshot) (peer : PeerId) (dir : LinkDirection) :
    (s.closeConn peer dir).self = s.self ∧ (s.closeConn peer dir).order = s.order ∧
      (s.closeConn peer dir).nextSock = s.nextSock := by
  have hdir : ∀ (t : Snapshot) (conn : Conn), (t.closeConnDir conn).self = t.self ∧
      (t.closeConnDir conn).order = t.order ∧ (t.closeConnDir conn).nextSock = t.nextSock := by
    intro t conn
    unfold closeConnDir
    split
    · exact ⟨rfl, rfl, rfl⟩
    · simp only [Snapshot.closeFD]
      split <;> exact ⟨rfl, rfl, rfl⟩
  unfold closeConn
  dsimp only
  split <;> split
  · obtain ⟨hself, horder, hnext⟩ := hdir s (peer, .incoming)
    obtain ⟨hself', horder', hnext'⟩ := hdir (s.closeConnDir (peer, .incoming)) (peer, .outgoing)
    exact ⟨hself'.trans hself, horder'.trans horder, hnext'.trans hnext⟩
  · exact hdir _ _
  · exact hdir _ _
  · exact ⟨rfl, rfl, rfl⟩

theorem Ok.movesLife_born (h : s.Ok) (hfree : s.fds fd = none) {event : Event} (hs' : s'.Ok)
    (honly : Only fd (s.openFd fd) s')
    (hborn : Life.Born s.self s.order (s.life s.nextSock) event (s'.life s.nextSock)) :
    MovesLife s event s' := by
  refine ⟨honly.self, honly.order, .inr ⟨honly.nextSock, fun sock hne => ?_, hborn⟩⟩
  have hother : (s.openFd fd).fds fd ≠ some sock := by
    rw [show (s.openFd fd).fds fd = some s.nextSock from PartialMap.set_self _ _ _]
    exact fun heq => hne (Option.some.inj heq).symm
  rw [honly.life (h.openFd hfree) hs' hother, h.life_openFd hfree]

theorem Ok.born_lifeAt (h : s.Ok) (hfree : s.fds fd = none) :
    (s.openFd fd).lifeAt fd s.nextSock = s.life s.nextSock := by
  rw [← h.life_openFd hfree, (h.openFd hfree).life_of_held (PartialMap.set_self _ _ _)]

theorem Ok.born_closed (h : s.Ok) (hfree : s.fds fd = none) :
    ((s.openFd fd).closeFd fd).life s.nextSock = s.life s.nextSock := by
  have hheld : (s.openFd fd).fds fd = some s.nextSock := PartialMap.set_self _ _ _
  have hclosed : ∀ fd', s.fds fd' ≠ some s.nextSock :=
    fun fd' hfd' => Nat.lt_irrefl _ (h.old _ _ hfd')
  rw [(closes_closeFd _ fd).life (h.openFd hfree) hheld, h.life_openFd hfree,
    life_of_closed hclosed]
  rfl

theorem QueueRun.movesLife {t : Snapshot} {queue : List Parcel} {event : Event}
    (hrun : QueueRun t fd queue s') (hevent : ∀ fd' ∈ event.fd, fd' = fd) (hs : s.Ok) (hs' : s'.Ok)
    (honly : Only fd s t) (hfds : t.fds fd = s.fds fd) (hidle : t.sendAt fd = none)
    (hstep : ∀ sock, s.fds fd = some sock → ∀ queue' send,
      Life.Starts t.order queue queue' send →
        Life.Step s.self s.order (s.lifeAt fd sock) event
          { t.lifeAt fd sock with queue := some queue', send := send }) :
    MovesLife s event s' := by
  refine movesLife_of_step hevent hs hs' (honly.trans hrun.only) ?_ fun sock hsock => ?_
  · obtain ⟨_, _, _, rfl⟩ := hrun.eq
    exact hfds
  · obtain ⟨queue', send, hstarts, heq⟩ := hrun.starts_of hidle sock
    rw [heq]
    exact hstep sock hsock queue' send hstarts

theorem Ok.movesLife_sessionOut (h : s.Ok) {res : EpollResult} {ret : RecvReturn}
    {answers : Answers} {op : RecvOp} {peer : PeerId}
    (hat : s.recvAt fd = some (op, .outgoingAnswer peer))
    (hevent : op.event s.order res ret = .resolved (.ok (HelloMsg.make peer helloAnswer).serialize))
    (registered : Bool) :
    MovesLife s (.readable fd res ret answers)
      ((((s.endRecv fd (ret.bytes res)).established fd (peer, .outgoing)).reader fd
        registered).note (.sessionOpened peer .outgoing)) := by
  have hbare := h.bare_recv hat (by simp) (ret.bytes res)
  have hended := h.endRecv fd (ret.bytes res)
  have hactive : ((s.endRecv fd (ret.bytes res)).established fd (peer, .outgoing)).activeConns fd ≠
      none := by
    rw [hbare.established]
    simp
  have hmoves : MovesLife s (.readable fd res ret answers)
      (((s.endRecv fd (ret.bytes res)).established fd (peer, .outgoing)).reader fd registered) := by
    refine movesLife_of_reader (by simp [Event.fd]) h (hended.established hbare _) hactive
      registered ((only_endRecv s fd _).trans (only_established _ fd _)) rfl fun sock hsock => ?_
    rw [hended.lifeAt_established hsock hbare.active, lifeAt_endRecv hsock]
    exact .sessionOut hat hevent
  exact ⟨hmoves.self, hmoves.order, hmoves.life⟩

theorem Ok.movesLife_messageRead (h : s.Ok) {res : EpollResult} {ret : RecvReturn}
    {answers : Answers} {op : RecvOp} {conn : Conn} {msg : Message}
    (hat : s.recvAt fd = some (op, .readMessage)) (hconn : s.activeConns fd = some conn)
    (hevent : op.event s.order res ret = .resolved (.ok msg)) (registered : Bool) :
    MovesLife s (.readable fd res ret answers)
      (((s.endRecv fd (ret.bytes res)).note (.receivedMessage conn.1 msg)).reader fd
        registered) := by
  have hactive : ((s.endRecv fd (ret.bytes res)).note (.receivedMessage conn.1 msg)).activeConns
      fd = some conn := hconn
  refine movesLife_of_reader (by simp [Event.fd]) h ((h.endRecv fd _).note _) ?_ registered
    ((only_endRecv s fd _).trans (only_note _ fd _)) rfl fun sock hsock => ?_
  · rw [hactive]
    simp
  · rw [lifeAt_note, lifeAt_endRecv hsock]
    exact .messageRead hat hevent

theorem Ok.movesLife_sessionIn (h : s.Ok) {res : EpollResult} {ret : SendReturn}
    {answers : Answers} {op : SendOp} {peer : PeerId}
    (hat : s.sendAt fd = some (op, .helloAnswer peer))
    (hevent : op.event res ret = .resolved (.ok ())) (registered : Bool) :
    MovesLife s (.writable fd res ret answers)
      ((((s.endSend fd (op.put res ret)).established fd (peer, .incoming)).note
        (.sessionOpened peer .incoming)).reader fd registered) := by
  have hbare := h.bare_send hat trivial (op.put res ret)
  have hended := h.endSend fd (op.put res ret)
  have hactive : (((s.endSend fd (op.put res ret)).established fd (peer, .incoming)).note
      (.sessionOpened peer .incoming)).activeConns fd ≠ none := by
    rw [show (((s.endSend fd (op.put res ret)).established fd (peer, .incoming)).note
      (.sessionOpened peer .incoming)).activeConns fd = some (peer, .incoming) from
        hbare.established _]
    simp
  refine movesLife_of_reader (by simp [Event.fd]) h ((hended.established hbare _).note _) hactive
    registered (((only_endSend s fd _).trans (only_established _ fd _)).trans (only_note _ fd _))
    rfl fun sock hsock => ?_
  rw [lifeAt_note, hended.lifeAt_established hsock hbare.active, lifeAt_endSend hsock]
  exact .sessionIn hat hevent

theorem Ok.movesLife_notifyUnanswered (h : s.Ok) {res : EpollResult} {ret : SendReturn}
    {answers : Answers} {op : SendOp} {peer : PeerId}
    (hat : s.sendAt fd = some (op, .helloNotify peer))
    (hevent : op.event res ret = .resolved (.ok ()))
    (hs' : ((s.endSend fd (op.put res ret)).closeFd fd).Ok) :
    MovesLife s (.writable fd res ret answers) ((s.endSend fd (op.put res ret)).closeFd fd) := by
  have hbare := h.bare_send hat trivial (op.put res ret)
  have hrecv := (h.endSend fd (op.put res ret)).setRecv fd .start (.outgoingAnswer peer)
    hbare.isOpen ⟨hbare.active, hbare.send⟩
  refine movesLife_of_closes (by simp [Event.fd]) h hrecv hs'
    ((only_endSend s fd _).trans (only_setRecv _ fd _ _)) rfl
    ((closes_closeFd _ fd).setRecv _ _) fun sock hsock => ?_
  rw [lifeAt_setRecv, lifeAt_endSend hsock]
  exact .inr (.notifySent hat hevent)

theorem Ok.movesLife_dialed (h : s.Ok) {peer : PeerId} {dial : Dial}
    (hfree : s.fds fd = none) (early : Bool)
    (hs' : (((s.openFd fd).setSend fd
      (.start s.order (HelloMsg.make s.self helloNotify).serialize) (.helloNotify peer)).notesIf
        early (.error peer ⟨.error, .outgoing⟩)).Ok) :
    MovesLife s (.openSession peer dial)
      (((s.openFd fd).setSend fd (.start s.order (HelloMsg.make s.self helloNotify).serialize)
        (.helloNotify peer)).notesIf early (.error peer ⟨.error, .outgoing⟩)) := by
  have hbare := h.bare_open hfree
  have hsent := (h.openFd hfree).setHello fd
    (.start s.order (HelloMsg.make s.self helloNotify).serialize) (.helloNotify peer) trivial
    hbare.isOpen hbare.active hbare.recv
  refine h.movesLife_born hfree hs'
    ((only_setSend _ fd _ _).trans (only_notesIf _ fd early _)) ?_
  rw [notesIf_life, hsent.life_of_held (PartialMap.set_self _ _ _), lifeAt_setSend,
    h.born_lifeAt hfree]
  exact .dialed

theorem Ok.movesLife_destroyed (h : s.Ok) {token : CancellationToken} {ok : Bool}
    {recvAt : PartialMap Fd (RecvOp × OnMessage)} {sendAt : PartialMap Fd (SendOp × OnSent)}
    (hrecv : ∀ fd, recvAt fd = s.recvAt fd ∨ recvAt fd = none)
    (hsend : ∀ fd, sendAt fd = s.sendAt fd ∨ sendAt fd = none)
    (hs' : { s with recvAt := recvAt, sendAt := sendAt }.Ok) :
    MovesLife s (.destroy token ok) { s with recvAt := recvAt, sendAt := sendAt } := by
  refine ⟨rfl, rfl, .inl ⟨rfl, fun sock => ?_⟩⟩
  by_cases hheld : ∃ fd, s.fds fd = some sock
  · obtain ⟨fd, hfd⟩ := hheld
    refine ⟨_, .inr ⟨?_, by simp [Event.fd]⟩, .inl rfl⟩
    rw [h.life_of_held hfd,
      hs'.life_of_held
        (show { s with recvAt := recvAt, sendAt := sendAt }.fds fd = some sock from hfd)]
    exact .destroyed (hrecv fd) (hsend fd)
  · refine lives_of_eq ?_
    rw [life_of_closed fun fd hfd => hheld ⟨fd, hfd⟩,
      life_of_closed (s := { s with recvAt := recvAt, sendAt := sendAt }) fun fd hfd =>
        hheld ⟨fd, hfd⟩]
    rfl

theorem Ok.move_life (h : s.Ok) {event : Event} (hmove : Move s event s') :
    MovesLife s event s' := by
  have hs' := h.move hmove
  cases hmove with
  | @accepted fd register hfree =>
      refine h.movesLife_born hfree hs' (only_setRecv _ fd _ _) ?_
      have hheld : ((s.openFd fd).setRecv fd .start .incomingHello).fds fd = some s.nextSock :=
        PartialMap.set_self _ _ _
      rw [hs'.life_of_held hheld, lifeAt_setRecv, h.born_lifeAt hfree]
      exact .accepted
  | @acceptUnwatched fd register hfree =>
      refine h.movesLife_born hfree hs' (only_closeFd _ fd) ?_
      rw [h.born_closed hfree]
      exact .acceptUnwatched
  | @recvGoesOn fd res ret answers op op' resolve hat hevent =>
      refine movesLife_of_step (by simp [Event.fd]) h hs'
        ((only_took s fd _).trans (only_setRecv _ fd _ _)) rfl fun sock hsock => ?_
      rw [lifeAt_setRecv, lifeAt_took hsock]
      exact .recvGoesOn hat hevent
  | @recvAborts fd res ret answers op resolve hat hevent =>
      exact (only_abort s fd).movesLife fun sock => lives_of_eq rfl
  | @helloDropped fd res ret answers op resolve result hat hhello hevent hbad =>
      refine movesLife_of_closes (by simp [Event.fd]) h (h.endRecv fd _) hs' (only_endRecv s fd _)
        rfl (closes_closeFd _ fd) fun sock hsock => ?_
      rw [lifeAt_endRecv hsock]
      exact .inr (.recvEnds _ hat)
  | @helloAnswered fd res ret answers op peer hat hevent =>
      refine movesLife_of_step (by simp [Event.fd]) h hs'
        ((only_endRecv s fd _).trans (only_setSend _ fd _ _)) rfl fun sock hsock => ?_
      rw [lifeAt_setSend, lifeAt_endRecv hsock]
      exact .helloAnswered hat hevent
  | sessionOut hat hevent registered hreader => exact h.movesLife_sessionOut hat hevent registered
  | messageRead hat hconn hevent registered =>
      exact h.movesLife_messageRead hat hconn hevent registered
  | @readFailed fd res ret answers op e hat hevent =>
      have hended := h.endRecv fd (ret.bytes res)
      refine movesLife_of_closes (by simp [Event.fd]) h hended hs' (only_endRecv s fd _) rfl
        (hended.closes_closeFD fd) fun sock hsock => ?_
      rw [lifeAt_endRecv hsock]
      exact .inr (.recvEnds _ hat)
  | @sendGoesOn fd res ret answers op op' resolve hat hevent =>
      refine movesLife_of_step (by simp [Event.fd]) h hs'
        ((only_put s fd _).trans (only_setSend _ fd _ _)) rfl fun sock hsock => ?_
      rw [lifeAt_setSend, lifeAt_put hsock]
      exact .sendGoesOn hat hevent
  | @sendAborts fd res ret answers op resolve hat hevent =>
      exact (only_abort s fd).movesLife fun sock => lives_of_eq rfl
  | @answerUnsent fd res ret answers op peer e hat hevent =>
      refine movesLife_of_closes (by simp [Event.fd]) h (h.endSend fd _) hs' (only_endSend s fd _)
        rfl (closes_closeFd _ fd) fun sock hsock => ?_
      rw [lifeAt_endSend hsock]
      exact .inr (.helloUnsent hat trivial hevent)
  | sessionIn hat hevent registered => exact h.movesLife_sessionIn hat hevent registered
  | @notifyUnsent fd res ret answers op peer e hat hevent =>
      refine movesLife_of_closes (by simp [Event.fd]) h ((h.endSend fd _).note _) hs'
        ((only_endSend s fd _).trans (only_note _ fd _)) rfl (closes_closeFd _ fd)
        fun sock hsock => ?_
      rw [lifeAt_note, lifeAt_endSend hsock]
      exact .inr (.helloUnsent hat trivial hevent)
  | @notifySent fd res ret answers op peer hat hevent =>
      refine movesLife_of_step (by simp [Event.fd]) h hs'
        ((only_endSend s fd _).trans (only_setRecv _ fd _ _)) rfl fun sock hsock => ?_
      rw [lifeAt_setRecv, lifeAt_endSend hsock]
      exact .notifySent hat hevent
  | notifyUnanswered hat hevent => exact h.movesLife_notifyUnanswered hat hevent hs'
  | @queueAdvances fd res ret answers op parcel front rest result _ hat hqueue hevent hrun =>
      refine hrun.movesLife (by simp [Event.fd]) h hs' (only_endSend s fd _) rfl
        (PartialMap.erase_self _ _) fun sock hsock queue' send hstarts => ?_
      rw [lifeAt_endSend hsock]
      exact .queueAdvances hat hqueue hevent hstarts
  | sendNowhere => exact (Only.refl 0 s).movesLife fun sock => lives_of_eq rfl
  | @sendQueued peer msg registers fd queue hqueue hwaits =>
      refine movesLife_of_step (by simp [Event.fd]) h hs' (only_push s fd _ _) rfl
        fun sock hsock => ?_
      rw [lifeAt_push hsock]
      exact .sendQueued hqueue hwaits
  | @sendAlone peer msg registers fd _ hqueue hrun =>
      refine hrun.movesLife (by simp [Event.fd]) h hs' (only_push s fd _ _) rfl
        (h.queue_idle hqueue) fun sock hsock queue' send hstarts => ?_
      rw [lifeAt_push hsock]
      exact .sendAlone hqueue hstarts
  | notDialed kind => exact (only_note s 0 _).movesLife fun sock => lives_of_eq rfl
  | dialed hfree early => exact h.movesLife_dialed hfree early hs'
  | @dialUnwatched peer dial fd hfree early =>
      refine h.movesLife_born hfree hs'
        (((only_closeFd _ fd).trans (only_notesIf _ fd early _)).trans (only_note _ fd _)) ?_
      rw [show ∀ (t : Snapshot) n, (t.note n).life = t.life from fun _ _ => rfl, notesIf_life,
        h.born_closed hfree]
      exact .dialUnwatched
  | @closed peer dir ok =>
      obtain ⟨hself, horder, hnext⟩ := closeConn_same s peer dir
      exact ⟨hself, horder, .inl ⟨hnext, fun sock => ⟨_, .inl rfl, closeConn_life h peer dir sock⟩⟩⟩
  | destroyed hrecv hsend => exact h.movesLife_destroyed hrecv hsend hs'

end Snapshot

end Diplom
