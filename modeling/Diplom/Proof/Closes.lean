import Diplom.Proof.Refinement

/-!
# Every socket is closed at most once

The manager closes a socket by its descriptor, and a descriptor that has been closed leads nowhere,
or to a newer socket. So no socket is closed a second time, whoever closes it.
-/

namespace Diplom

namespace Io

variable {io io' : Io OnMessage OnSent}

/-- A socket has one number at most, and none after it has been closed. -/
structure Sockets (io : Io OnMessage OnSent) : Prop where
  fresh : ∀ fd sock, io.fds fd = some sock → sock < io.nextSock
  one : ∀ fd fd' sock, io.fds fd = some sock → io.fds fd' = some sock → fd = fd'
  closed : ∀ sock ∈ io.closes.filterMap Prod.snd, sock < io.nextSock ∧ ∀ fd, io.fds fd ≠ some sock
  once : (io.closes.filterMap Prod.snd).Nodup

theorem init_sockets (order : ByteOrder) : (init order : Io OnMessage OnSent).Sockets :=
  ⟨fun _ _ h => absurd h (by simp [init]),
    fun _ _ _ h => absurd h (by simp [init]), by simp [init], by simp [init]⟩

theorem Sockets.of_same (h : io.Sockets) (hsame : SameSockets io io') : io'.Sockets := by
  refine ⟨?_, ?_, ?_, ?_⟩
  · rw [hsame.fds, hsame.nextSock]
    exact h.fresh
  · rw [hsame.fds]
    exact h.one
  · rw [hsame.fds, hsame.nextSock, hsame.closes]
    exact h.closed
  · rw [hsame.closes]
    exact h.once

theorem Sockets.openFd (h : io.Sockets) (fd : Fd) : (io.openFd fd).Sockets := by
  have hat : ∀ fd' sock, (io.fds.set fd io.nextSock) fd' = some sock →
      (fd' = fd ∧ sock = io.nextSock) ∨ io.fds fd' = some sock := by
    intro fd' sock hsock
    by_cases hfd : fd' = fd
    · rw [hfd, PartialMap.set_self] at hsock
      exact .inl ⟨hfd, (Option.some.inj hsock).symm⟩
    · rw [PartialMap.set_of_ne _ hfd] at hsock
      exact .inr hsock
  refine ⟨fun fd' sock hsock => ?_, fun fd₁ fd₂ sock h₁ h₂ => ?_, fun sock hsock => ?_, h.once⟩
  · rcases hat fd' sock hsock with ⟨_, rfl⟩ | hold
    · exact Nat.lt_succ_self _
    · exact Nat.lt_succ_of_lt (h.fresh fd' sock hold)
  · rcases hat fd₁ sock h₁ with ⟨rfl, rfl⟩ | hold₁
    · rcases hat fd₂ _ h₂ with ⟨rfl, -⟩ | hold₂
      · rfl
      · exact absurd (h.fresh _ _ hold₂) (Nat.lt_irrefl _)
    · rcases hat fd₂ sock h₂ with ⟨-, rfl⟩ | hold₂
      · exact absurd (h.fresh _ _ hold₁) (Nat.lt_irrefl _)
      · exact h.one fd₁ fd₂ sock hold₁ hold₂
  · obtain ⟨hlt, hnone⟩ := h.closed sock hsock
    refine ⟨Nat.lt_succ_of_lt hlt, fun fd' hfd' => ?_⟩
    rcases hat fd' sock hfd' with ⟨_, rfl⟩ | hold
    · exact Nat.lt_irrefl _ hlt
    · exact hnone fd' hold

theorem Sockets.close (h : io.Sockets) (fd : Fd) : (io.close fd).Sockets := by
  have hat : ∀ fd' sock, (io.fds.erase fd) fd' = some sock → fd' ≠ fd ∧ io.fds fd' = some sock :=
    fun fd' sock hsock => (PartialMap.erase_eq_some _).mp hsock
  have hcloses :
      (io.close fd).closes.filterMap Prod.snd = io.closes.filterMap Prod.snd
        ++ (io.fds fd).toList := by
    simp only [Io.close, List.filterMap_append]
    cases io.fds fd <;> rfl
  refine ⟨fun fd' sock hsock => h.fresh fd' sock (hat fd' sock hsock).2,
    fun fd₁ fd₂ sock h₁ h₂ => h.one fd₁ fd₂ sock (hat fd₁ sock h₁).2 (hat fd₂ sock h₂).2,
    fun sock hsock => ?_, ?_⟩
  · rw [hcloses, List.mem_append, Option.mem_toList] at hsock
    rcases hsock with hold | hnew
    · exact ⟨(h.closed sock hold).1,
        fun fd' hfd' => (h.closed sock hold).2 fd' (hat fd' sock hfd').2⟩
    · refine ⟨h.fresh fd sock hnew, fun fd' hfd' => ?_⟩
      obtain ⟨hne, hold⟩ := hat fd' sock hfd'
      exact hne (h.one fd' fd sock hold hnew)
  · rw [hcloses, List.nodup_append]
    refine ⟨h.once, ?_, fun sock hold sock' hnew heq => ?_⟩
    · cases io.fds fd <;> simp
    · rw [Option.mem_toList] at hnew
      exact (h.closed sock hold).2 fd (heq ▸ hnew)

end Io

namespace ConnectionManager

variable {w w' : ConnectionManager} {fd : Fd}

/-! ### What opens and closes nothing -/

private theorem recvMessage_same {io io' : Io OnMessage OnSent} {resolve : OnMessage} {ok : Bool}
    (h : io.recvMessage fd resolve ok = some io') : Io.SameSockets io io' := by
  unfold Io.recvMessage at h
  split at h
  · obtain rfl := Option.some.inj h
    exact ⟨rfl, rfl, rfl, rfl⟩
  · exact absurd h (by simp)

private theorem sendMessage_same {io io' : Io OnMessage OnSent} {data : Message} {resolve : OnSent}
    {ok : Bool} (h : io.sendMessage fd data resolve ok = .pending io') : Io.SameSockets io io' := by
  unfold Io.sendMessage at h
  split at h
  · cases h
    exact ⟨rfl, rfl, rfl, rfl⟩
  · exact absurd h (by simp)
  · exact absurd h (by simp)

/-! ### One function after another -/

theorem closeFD_sockets (h : w.io.Sockets) (fd : Fd) (ok : Bool) :
    (w.closeFD fd ok).io.Sockets := by
  have hio : (w.closeFD fd ok).io = (w.io.deregisterFd fd ok).close fd := by
    unfold closeFD
    dsimp only
    split
    · rfl
    · rename_i conn v heq
      obtain ⟨_, -, hpair⟩ := Option.map_eq_some_iff.mp heq
      obtain ⟨-, rfl⟩ := Prod.mk.inj hpair
      rfl
  rw [hio]
  exact (h.of_same (Io.deregisterFd_silent fd ok).toSameSockets).close fd

theorem readFailed_sockets (h : w.io.Sockets) (fd : Fd) (ok : Bool) :
    (w.readFailed fd ok).io.Sockets := by
  unfold readFailed
  split
  · exact h
  · exact closeFD_sockets h fd ok

theorem readMessage_sockets (h : w.io.Sockets) (fd : Fd) (register deregister : Bool) :
    (w.readMessage fd register deregister).io.Sockets := by
  unfold readMessage
  split
  · rename_i io hstart
    exact h.of_same (recvMessage_same hstart)
  · exact readFailed_sockets h fd deregister

theorem incomingHelloExchange_sockets (h : w.io.Sockets) (fd : Fd) (register : Bool) :
    (w.incomingHelloExchange fd register).io.Sockets := by
  unfold incomingHelloExchange
  split
  · rename_i io hstart
    exact h.of_same (recvMessage_same hstart)
  · exact h.close fd

theorem helloNotifySent_sockets (h : w.io.Sockets) (fd : Fd) (peer : PeerId) (res : IoResult Unit)
    (register : Bool) : (w.helloNotifySent fd peer res register).io.Sockets := by
  unfold helloNotifySent
  split
  · exact h.close fd
  · split
    · rename_i io hstart
      exact h.of_same (recvMessage_same hstart)
    · exact h.close fd

theorem establishConnection_sockets (h : w.io.Sockets) (peer : PeerId) (dial : Dial) :
    (w.establishConnection peer dial).io.Sockets := by
  have hopened : ∀ (v : ConnectionManager) (fd : Fd), v.io.Sockets →
      (v.outgoingHelloExchange fd peer dial.register).io.Sockets := by
    intro v fd hv
    unfold outgoingHelloExchange
    split
    · rename_i io hstart
      exact hv.of_same (sendMessage_same hstart)
    · exact helloNotifySent_sockets hv fd peer _ _
    · exact hv
  unfold establishConnection
  split
  · exact h
  · split
    · exact h
    · split
      · exact h
      · rename_i fd _
        refine hopened _ fd ?_
        split <;> exact h.openFd fd

theorem closeConn_sockets (h : w.io.Sockets) (peer : PeerId) (dir : LinkDirection) (ok : Bool) :
    (w.closeConn peer dir ok).io.Sockets := by
  have hdir : ∀ (v : ConnectionManager) (conn : Conn), v.io.Sockets →
      (v.closeConnDir conn ok).io.Sockets := by
    intro v conn hv
    unfold closeConnDir
    split
    · exact hv
    · exact closeFD_sockets hv _ ok
  unfold closeConn
  dsimp only
  split <;> split
  · exact hdir _ _ (hdir _ _ h)
  · exact hdir _ _ h
  · exact hdir _ _ h
  · exact h

theorem queuedSent_sockets (h : w.io.Sockets) (fd : Fd)
    {next : ConnectionManager → ConnectionManager}
    (hnext : ∀ v : ConnectionManager, v.io.Sockets → (next v).io.Sockets) :
    (w.queuedSent fd next).io.Sockets := by
  unfold queuedSent
  split
  · exact h
  · split
    · exact h
    · rename_i more v hpop
      have hv : v.io = w.io := by
        unfold popFront at hpop
        split at hpop
        · exact absurd hpop (by simp)
        · obtain ⟨-, rfl⟩ := Prod.mk.inj (Option.some.inj hpop)
          rfl
        · obtain ⟨-, rfl⟩ := Prod.mk.inj (Option.some.inj hpop)
          rfl
      split
      · exact hnext v (hv ▸ h)
      · exact hv ▸ h

theorem sendMessageFd_sockets (fuel : Nat) (h : w.io.Sockets) (fd : Fd) (registers : List Bool) :
    (sendMessageFd fd fuel registers w).io.Sockets := by
  induction fuel generalizing w registers with
  | zero => exact h
  | succ fuel ih =>
      unfold sendMessageFd
      split
      · exact h
      · rename_i parcel v htake
        have hv : v.io = w.io := by
          unfold takeFront at htake
          split at htake
          · obtain ⟨-, rfl⟩ := Prod.mk.inj (Option.some.inj htake)
            rfl
          · exact absurd htake (by simp)
        split
        · rename_i io hstart
          exact (hv ▸ h : v.io.Sockets).of_same (sendMessage_same hstart)
        · exact queuedSent_sockets (hv ▸ h) fd fun v hv => ih hv registers.tail
        · exact hv ▸ h

theorem sendMessage_sockets (h : w.io.Sockets) (peer : PeerId) (msg : Message)
    (registers : List Bool) : (w.sendMessage peer msg registers).io.Sockets := by
  unfold sendMessage
  split
  · exact h
  · split
    · exact h
    · rename_i alone v hpush
      have hv : v.io = w.io := by
        obtain ⟨_, -, hpair⟩ := Option.map_eq_some_iff.mp hpush
        obtain ⟨-, rfl⟩ := Prod.mk.inj hpair
        rfl
      split
      · exact sendMessageFd_sockets _ (hv ▸ h) _ registers
      · exact hv ▸ h

theorem onMessage_sockets (h : w.io.Sockets) (fd : Fd) (resolve : OnMessage)
    (res : IoResult Message) (answers : Answers) :
    (w.onMessage fd resolve res answers).io.Sockets := by
  cases resolve with
  | incomingHello =>
      simp only [onMessage, incomingHello]
      split
      · exact h.close fd
      · split
        · exact h.close fd
        · split
          · exact h.close fd
          · split
            · exact h.close fd
            · split
              · rename_i io hstart
                exact h.of_same (sendMessage_same hstart)
              · exact h.close fd
              · exact h
  | outgoingAnswer peer =>
      simp only [onMessage, outgoingAnswer]
      split
      · exact h.close fd
      · split
        · exact h.close fd
        · split
          · exact h.close fd
          · exact readMessage_sockets (w := w.established fd (peer, .outgoing)) h fd _ _
  | readMessage =>
      simp only [onMessage, messageRead]
      split
      · exact readFailed_sockets h fd _
      · split
        · exact h
        · exact readMessage_sockets (w := w.notify _) h fd _ _

theorem onSent_sockets (h : w.io.Sockets) (fd : Fd) (resolve : OnSent) (res : IoResult Unit)
    (answers : Answers) : (w.onSent fd resolve res answers).io.Sockets := by
  cases resolve with
  | helloAnswer peer =>
      simp only [onSent, helloAnswerSent]
      split
      · exact h.close fd
      · exact readMessage_sockets (w := (w.established fd (peer, .incoming)).notify _) h fd _ _
  | helloNotify peer => exact helloNotifySent_sockets h fd peer res _
  | queued parcel => exact queuedSent_sockets h fd fun v hv => sendMessageFd_sockets _ hv fd _

theorem Sound.step_sockets (hw : w.Sound) (h : w.io.Sockets) {event : Event}
    (hstep : w.step event = some w') : w'.io.Sockets := by
  simp only [ConnectionManager.step] at hstep
  split at hstep
  · exact absurd hstep (by simp)
  cases event with
  | accept fd register =>
      dsimp only at hstep
      split at hstep
      · obtain rfl := Option.some.inj hstep
        exact incomingHelloExchange_sockets (w := { w with io := w.io.openFd fd })
          (h.openFd fd) fd register
      · exact absurd hstep (by simp)
  | openSession peer dial =>
      dsimp only at hstep
      split at hstep
      · obtain rfl := Option.some.inj hstep
        exact establishConnection_sockets h peer dial
      · exact absurd hstep (by simp)
  | closeSession peer dir ok =>
      obtain rfl := Option.some.inj hstep
      exact closeConn_sockets h peer dir ok
  | sendMessage peer msg registers =>
      obtain rfl := Option.some.inj hstep
      exact sendMessage_sockets h peer msg registers
  | readable fd res ret answers =>
      obtain ⟨ran, hevent, rfl⟩ := Option.map_eq_some_iff.mp hstep
      have hsame := Io.recvEvent_sockets hw.io hevent
      cases ran with
      | pending io => exact h.of_same hsame.2
      | resolved io resolve result =>
          exact onMessage_sockets (w := { w with io := io }) (h.of_same hsame.2) fd _ _ _
      | aborted => exact h
  | writable fd res ret answers =>
      obtain ⟨ran, hevent, rfl⟩ := Option.map_eq_some_iff.mp hstep
      have hsame := Io.sendEvent_sockets hw.io hevent
      cases ran with
      | pending io => exact h.of_same hsame.2
      | resolved io resolve result =>
          exact onSent_sockets (w := { w with io := io }) (h.of_same hsame.2) fd _ _ _
      | aborted => exact h
  | destroy token ok =>
      dsimp only at hstep
      split at hstep
      · obtain rfl := Option.some.inj hstep
        exact h.of_same (Io.destroy_fewer hw.io token ok).toSameSockets
      · exact absurd hstep (by simp)

end ConnectionManager

end Diplom
