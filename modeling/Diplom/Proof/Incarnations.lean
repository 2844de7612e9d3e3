import Diplom.Proof.Closes
import Diplom.Proof.Threads

/-!
# Numbers and sockets

A descriptor number is given out again after `close`, and the code of two threads goes on with
numbers that it has read earlier. As long as the kernel gives out a number only when nothing of an
earlier socket is left under it, everything that knows a number knows it for the socket that got it
last, and no call reaches another one. A manager that closes a session while it is given a message,
and opens the next one, shows that this does not always hold.
-/

namespace Diplom

def Section.handle : Section → Option Handle
  | .deregisterFd h | .closeFd h | .eraseActive h | .eraseConnToFd h _ | .eraseQueue h
    _ | .closeHello h => some h
  | .pushBack h _ | .takeFront h | .popFront h => some h
  | .recvMessage h _ | .received h _ _ | .sendMessage h _ _ | .sent h _ _ => some h
  | .insertActive h _ | .insertConnToFd h _ | .insertQueue h _ => some h
  | .lockConn | .unlockConn | .checkSession _ | .dial _ | .closeConnDir _ | .lookupFd _
    _ | .notify _ => none

theorem Call.handle_none {call : Call} {sec : Section} (h : sec ∈ call.sections) :
    sec.handle = none := by
  have hall : ∀ sec ∈ call.sections, sec.handle = none := by
    cases call with
    | openSession peer => simp [Call.sections, Section.handle]
    | closeSession peer dir =>
        simp only [Call.sections, List.forall_mem_cons, List.forall_mem_append]
        refine ⟨rfl, ?_, ?_, rfl, by simp⟩
        · split <;> simp [Section.handle]
        · split <;> simp [Section.handle]
    | sendMessage peer msg => simp [Call.sections, Section.handle]
  exact hall sec h

theorem Call.handle_none_of_mem {calls : List Call} {sec : Section}
    (h : sec ∈ calls.flatMap Call.sections) : sec.handle = none := by
  obtain ⟨call, -, hmem⟩ := List.mem_flatMap.mp h
  exact Call.handle_none hmem

namespace Process

variable (p : Process)

/-- Something names a number: a section that is still to be run, a running callback, an entry of a
table, or a registered action. -/
inductive Named (p : Process) : Fd → Prop
  | work {t : ThreadId} {sec : Section} {h : Handle} (hmem : sec ∈ p.work t)
      (hsec : sec.handle = some h) : Named p h.fd
  | running {r : Running} (hrunning : p.running = some r) : Named p r.handle.fd
  | active {fd : Fd} {conn : Conn} (h : p.shared.manager.activeConns fd = some conn) : Named p fd
  | entry {conn : Conn} {fd : Fd} (h : p.shared.manager.connToFd conn = some fd) : Named p fd
  | queue {fd : Fd} {queue : List Parcel} (h : p.shared.manager.sendQueues fd = some queue) :
      Named p fd
  | action {key : FdDirection} {closure : Closure OnMessage OnSent}
      (h : p.shared.manager.io.actionAt key = some closure) : Named p key.fd
  | token {token : CancellationToken} {key : FdDirection}
      (hmem : token ∈ p.shared.manager.io.orphans)
      (h : p.shared.manager.io.loop.cancelMap token = some key) : Named p key.fd

def opens : Input → Option Fd
  | .accept fd => some fd
  | .openOther fd => some fd
  | .run t answer =>
      match p.work t with
      | .dial _ :: _ => if answer.dial.address = true then answer.dial.socket else none
      | _ => none
  | _ => none

/-- A number that the step gives to something new is named by nothing. -/
def OpensUnnamed (input : Input) : Prop := ∀ fd, p.opens input = some fd → ¬ p.Named fd

/-- Every call has reached the socket that it was made for, or none, and no socket has been closed
twice. -/
structure TouchesOwnOnly (p : Process) : Prop where
  own : ∀ touch ∈ p.shared.touched, ∀ sock ∈ touch.hits, sock = touch.own.sock
  closedOnce : (p.shared.manager.io.closes.filterMap Prod.snd).Nodup

end Process

/-! ### Who knows a number -/

namespace Shared

variable {s s' : Shared} {sec : Section} {next : List Section} {latest : Fd → Option Sock}

/-- The tables know every number for the socket that got it last. -/
structure Owned (latest : Fd → Option Sock) (s : Shared) : Prop where
  sockets : ∀ fd sock, s.manager.io.fds fd = some sock → latest fd = some sock
  entries : ∀ conn fd, s.manager.connToFd conn = some fd → latest fd = some (s.entryOf conn)
  queues : ∀ fd queue, s.manager.sendQueues fd = some queue → latest fd = some (s.queueOf fd)
  actions : ∀ key closure, s.manager.io.actionAt key = some closure →
    latest key.fd = some (s.actionOf key)
  touched : ∀ touch ∈ s.touched, ∀ sock ∈ touch.hits, sock = touch.own.sock

def Knows (latest : Fd → Option Sock) (sec : Section) : Prop :=
  ∀ h, sec.handle = some h → latest h.fd = some h.sock

theorem Owned.socketAt (h : s.Owned latest) {fd : Fd} {sock : Sock} (hsock : sock ∈ s.socketAt fd) :
    latest fd = some sock :=
  h.sockets fd sock (Option.mem_toList.mp hsock)

theorem Owned.actionSockets (h : s.Owned latest) {fd : Fd} {sock : Sock}
    (hsock : sock ∈ s.actionSockets fd) : latest fd = some sock := by
  obtain ⟨key, hkey, hat⟩ := List.mem_filterMap.mp hsock
  split at hat
  · rename_i hslot
    obtain rfl := Option.some.inj hat
    obtain ⟨keeper, hkeeper⟩ := Option.ne_none_iff_exists'.mp (PartialMap.contains_eq_true.mp hslot)
    have hclosure : s.manager.io.actionAt key = some keeper.callback := by
      rw [Io.actionAt_apply, hkeeper, Option.map_some]
    have hfd : key.fd = fd := by
      rcases List.mem_cons.mp hkey with rfl | hkey
      · rfl
      · rw [List.mem_singleton.mp hkey]
    rw [← hfd]
    exact h.actions key _ hclosure
  · exact absurd hat (by simp)

theorem Owned.touch (h : s.Owned latest) {hd : Handle} (hknown : latest hd.fd = some hd.sock)
    (call : TouchCall) {hits : List Sock} (hhits : ∀ sock ∈ hits, latest hd.fd = some sock) :
    (s.touch call hd hits).Owned latest := by
  refine ⟨h.sockets, h.entries, h.queues, h.actions, fun touch htouch sock hsock => ?_⟩
  rcases List.mem_append.mp htouch with hold | hnew
  · exact h.touched touch hold sock hsock
  · obtain rfl := List.mem_singleton.mp hnew
    exact Option.some.inj ((hhits sock hsock).symm.trans hknown)

theorem Owned.setIo (h : s.Owned latest) {io : Io OnMessage OnSent}
    (hfds : ∀ fd sock, io.fds fd = some sock → latest fd = some sock)
    (hactions : ∀ key closure, io.actionAt key = some closure →
      ∃ closure', s.manager.io.actionAt key = some closure') : (s.setIo io).Owned latest := by
  refine ⟨hfds, h.entries, h.queues, fun key closure hat => ?_, h.touched⟩
  obtain ⟨closure', hold⟩ := hactions key closure hat
  exact h.actions key closure' hold

theorem Owned.registered (h : s.Owned latest) {io : Io OnMessage OnSent} {hd : Handle}
    {closure : Closure OnMessage OnSent} (hreg : Io.Registered s.manager.io io hd.fd closure)
    (hknown : latest hd.fd = some hd.sock) : ((s.setIo io).claim hd closure.dir).Owned latest := by
  refine ⟨fun fd sock hsock => h.sockets fd sock (hreg.fds ▸ hsock), h.entries, h.queues,
    fun key closure' hat => ?_, h.touched⟩
  have hat : io.actionAt key = some closure' := hat
  rw [hreg.actionAt] at hat
  simp only [claim]
  by_cases hkey : key = ⟨hd.fd, closure.dir⟩
  · rw [if_pos hkey, hkey]
    exact hknown
  · rw [PartialMap.set_of_ne _ hkey] at hat
    rw [if_neg hkey]
    exact h.actions key closure' hat

theorem Owned.deregisterFd (h : s.Owned latest) (fd : Fd) (ok : Bool) :
    (s.setIo (s.manager.io.deregisterFd fd ok)).Owned latest :=
  h.setIo h.sockets fun key closure hat =>
    ⟨closure, PartialMap.eq_some_of_kept (s.manager.io.deregisterFd_taken fd ok key) hat⟩

theorem Owned.close (h : s.Owned latest) (fd : Fd) :
    (s.setIo (s.manager.io.close fd)).Owned latest := by
  refine h.setIo (fun fd' sock hsock => ?_) fun key closure hat => ⟨closure, hat⟩
  exact h.sockets fd' sock ((PartialMap.erase_eq_some _).mp hsock).2

theorem Owned.of_manager (h : s.Owned latest) {manager : ConnectionManager}
    (hio : manager.io = s.manager.io)
    (hentries : ∀ conn fd, manager.connToFd conn = some fd → s.manager.connToFd conn = some fd)
    (hqueues : ∀ fd queue, manager.sendQueues fd = some queue →
      ∃ queue', s.manager.sendQueues fd = some queue') : (s.setManager manager).Owned latest := by
  refine ⟨?_, fun conn fd hfd => h.entries conn fd (hentries conn fd hfd),
    fun fd queue hqueue => ?_, ?_, h.touched⟩
  · intro fd sock hsock
    rw [Shared.setManager, hio] at hsock
    exact h.sockets fd sock hsock
  · obtain ⟨queue', hold⟩ := hqueues fd queue hqueue
    exact h.queues fd queue' hold
  · intro key closure hat
    rw [Shared.setManager, hio] at hat
    exact h.actions key closure hat

private theorem queue_of_set {queues : PartialMap Fd (List Parcel)} {fd : Fd}
    {old new : List Parcel} (hold : queues fd = some old) (fd' : Fd) (queue : List Parcel)
    (h : (queues.set fd new) fd' = some queue) : ∃ queue', queues fd' = some queue' := by
  by_cases hfd : fd' = fd
  · exact ⟨old, hfd ▸ hold⟩
  · rw [PartialMap.set_of_ne _ hfd] at h
    exact ⟨queue, h⟩

theorem Owned.hand (h : s.Owned latest) (hd : Handle) (data : Message) (resolve : OnSent) :
    (s.hand hd data resolve).Owned latest :=
  ⟨h.sockets, h.entries, h.queues, h.actions, h.touched⟩

/-- What is known of every entry and its owner is known after an `insert` too. -/
theorem owned_insert {K V : Type} [DecidableEq K] {m : PartialMap K V} {owner : K → Sock}
    {P : K → V → Sock → Prop} (hold : ∀ k v, m k = some v → P k v (owner k)) {k : K} {v : V}
    {sock : Sock} (hnew : P k v sock) (k' : K) (v' : V) (h : (m.insert k v) k' = some v') :
    P k' v' ((if m k = none then fun k' => if k' = k then sock else owner k' else owner) k') := by
  cases hk : m k with
  | none =>
      rw [PartialMap.insert_of_none _ hk] at h
      rw [if_pos rfl]
      by_cases hkk : k' = k
      · subst hkk
        rw [PartialMap.set_self] at h
        rw [if_pos rfl, ← Option.some.inj h]
        exact hnew
      · rw [PartialMap.set_of_ne _ hkk] at h
        rw [if_neg hkk]
        exact hold k' v' h
  | some w =>
      rw [PartialMap.insert_of_some _ hk] at h
      rw [if_neg (by simp)]
      exact hold k' v' h

/-- What follows a section that leaves everything as it is knows no more than the tables do. -/
theorem Leads.knows (hleads : s.Leads sec next) (h : s.Owned latest) (hsec : Knows latest sec) :
    ∀ sec' ∈ next, Knows latest sec' := by
  have hone : ∀ sec' : Section, (∀ h, sec'.handle = some h → sec.handle = some h) →
      ∀ sec'' ∈ [sec'], Knows latest sec'' := by
    intro sec' hsame sec'' hmem hd hhd
    rw [List.mem_singleton.mp hmem] at hhd
    exact hsec hd (hsame hd hhd)
  have hnew : ∀ {sec' : Section} {conn : Conn} {fd : Fd}, s.manager.connToFd conn = some fd →
      sec'.handle = some ⟨fd, s.entryOf conn⟩ → ∀ sec'' ∈ [sec'], Knows latest sec'' := by
    intro sec' conn fd hentry heq sec'' hmem hd hhd
    rw [List.mem_singleton.mp hmem, heq] at hhd
    obtain rfl := Option.some.inj hhd
    exact h.entries conn fd hentry
  cases hleads with
  | closes hentry => exact hnew hentry rfl
  | found hentry => exact hnew hentry rfl
  | messageRead =>
      intro sec' hmem hd hhd
      rcases List.mem_cons.mp hmem with rfl | hmem
      · exact absurd hhd (by simp [Section.handle])
      · exact hone (.recvMessage _ _) (fun _ h => h) sec' hmem hd hhd
  | notifyUnsent =>
      intro sec' hmem hd hhd
      rcases List.mem_cons.mp hmem with rfl | hmem
      · exact absurd hhd (by simp [Section.handle])
      · exact hone (.closeHello _) (fun _ h => h) sec' hmem hd hhd
  | noSession => exact fun _ hmem => absurd hmem (by simp)
  | notActive => exact fun _ hmem => absurd hmem (by simp)
  | noConnection => exact fun _ hmem => absurd hmem (by simp)
  | noQueue _ => exact fun _ hmem => absurd hmem (by simp)
  | nothingWaits _ => exact fun _ hmem => absurd hmem (by simp)
  | queueGone _ => exact fun _ hmem => absurd hmem (by simp)
  | senderInactive _ => exact fun _ hmem => absurd hmem (by simp)
  | readerInactive => exact fun _ hmem => absurd hmem (by simp)
  | _ => exact hone _ fun _ h => h

theorem Runs.owned (hruns : s.Runs sec s' next) (hwf : s.manager.io.Wf) (h : s.Owned latest)
    (hsec : Knows latest sec) (hnew : s'.manager.io.nextSock = s.manager.io.nextSock) :
    s'.Owned latest ∧ ∀ sec' ∈ next, Knows latest sec' := by
  have hnext : ∀ sec' : Section, sec'.handle = sec.handle →
      ∀ sec'' ∈ [sec'], Knows latest sec'' := by
    intro sec' hsame sec'' hmem hd hhd
    rw [List.mem_singleton.mp hmem, hsame] at hhd
    exact hsec hd hhd
  have hnone : ∀ sec' ∈ ([] : List Section), Knows latest sec' :=
    fun _ hmem => absurd hmem (by simp)
  have hquiet : ∀ {secs : List Section}, (∀ sec' ∈ secs, sec'.handle = none) →
      ∀ sec' ∈ secs, Knows latest sec' := by
    intro secs hall sec' hmem hd hhd
    exact absurd ((hall sec' hmem).symm.trans hhd) (by simp)
  cases hruns with
  | leads hleads => exact ⟨h, hleads.knows h hsec⟩
  | @notify note calls =>
      exact ⟨h.of_manager rfl (fun _ _ h => h) fun _ queue h => ⟨queue, h⟩,
        hquiet fun _ hmem => Call.handle_none_of_mem hmem⟩
  | opens _ _ => exact absurd hnew (Nat.succ_ne_self _)
  | @deregisterFd hd ok =>
      have hhits : ∀ sock ∈ s.socketAt hd.fd ++ s.actionSockets hd.fd, latest hd.fd = some sock :=
        fun sock hmem => (List.mem_append.mp hmem).elim h.socketAt h.actionSockets
      have htouch := h.touch (hsec hd rfl) .deregisterFd hhits
      exact ⟨htouch.deregisterFd hd.fd ok, hnext _ rfl⟩
  | @closeFd hd =>
      exact ⟨(h.touch (hsec hd rfl) .close fun _ => h.socketAt).close hd.fd, hnext _ rfl⟩
  | @closeHello hd => exact ⟨(h.touch (hsec hd rfl) .close fun _ => h.socketAt).close hd.fd, hnone⟩
  | eraseActive _ =>
      exact ⟨h.of_manager rfl (fun _ _ h => h) fun _ queue h => ⟨queue, h⟩, hnext _ rfl⟩
  | eraseConnToFd =>
      refine ⟨h.of_manager rfl (fun conn fd hfd => ?_) fun _ queue h => ⟨queue, h⟩, hnext _ rfl⟩
      exact ((PartialMap.erase_eq_some _).mp hfd).2
  | eraseQueue =>
      refine ⟨h.of_manager rfl (fun _ _ h => h) fun fd queue hqueue => ?_,
        hquiet fun sec' hmem => ?_⟩
      · exact ⟨queue, ((PartialMap.erase_eq_some _).mp hqueue).2⟩
      · rw [List.mem_singleton.mp hmem]
        rfl
  | @pushBack hd parcel queue hqueue =>
      have hmanager : (s.setManager (s.pushed hd queue parcel).manager).Owned latest :=
        h.of_manager rfl (fun _ _ h => h) (queue_of_set hqueue)
      refine ⟨⟨hmanager.sockets, hmanager.entries, hmanager.queues, hmanager.actions,
        hmanager.touched⟩, ?_⟩
      split
      · exact hnext _ rfl
      · exact hnone
  | takeFront hqueue => exact ⟨h.of_manager rfl (fun _ _ h => h) (queue_of_set hqueue), hnext _ rfl⟩
  | popFront hqueue =>
      refine ⟨h.of_manager rfl (fun _ _ h => h) (queue_of_set hqueue), ?_⟩
      split
      · exact hnone
      · exact hnext _ rfl
  | popEmpty _ => exact ⟨h.of_manager rfl (fun _ _ h => h) fun _ queue h => ⟨queue, h⟩, hnone⟩
  | @recvStarted hd resolve ok io hstart =>
      have htouch := h.touch (hsec hd rfl) .registerAction fun _ => h.socketAt
      exact ⟨htouch.registered (Io.registered_of_recvMessage hwf hstart) (hsec hd rfl), hnone⟩
  | @recvRefused hd resolve =>
      exact ⟨h.touch (hsec hd rfl) .registerAction fun _ => h.socketAt, hnext _ rfl⟩
  | @sendStarted hd data resolve ok io hstart =>
      have htouch :=
        (h.hand hd data resolve).touch (hsec hd rfl) .registerAction fun _ => h.socketAt
      exact ⟨htouch.registered (Io.registered_of_sendMessage hwf hstart) (hsec hd rfl), hnone⟩
  | @sendRefused hd data resolve =>
      exact ⟨(h.hand hd data resolve).touch (hsec hd rfl) .registerAction fun _ => h.socketAt,
        hnext _ rfl⟩
  | @sendAborted hd data resolve _ _ =>
      exact ⟨(h.hand hd data resolve).of_manager rfl (fun _ _ h => h) fun _ queue h => ⟨queue, h⟩,
        hnone⟩
  | @insertActive hd conn =>
      exact ⟨⟨h.sockets, h.entries, h.queues, h.actions, h.touched⟩, hnext _ rfl⟩
  | @insertConnToFd hd conn =>
      refine ⟨⟨h.sockets, ?_, h.queues, h.actions, h.touched⟩, hnext _ rfl⟩
      exact owned_insert (P := fun _ fd sock => latest fd = some sock) h.entries (hsec hd rfl)
  | @insertQueue hd conn =>
      refine ⟨⟨h.sockets, h.entries, ?_, h.actions, h.touched⟩, ?_⟩
      · exact owned_insert (P := fun fd _ sock => latest fd = some sock) h.queues (hsec hd rfl)
      · intro sec' hmem hd' hhd'
        have hread : sec' = .recvMessage hd .readMessage := by
          unfold opened at hmem
          split at hmem
          all_goals simp at hmem
          all_goals rcases hmem with rfl | rfl
          all_goals first | rfl | exact absurd hhd' (by simp [Section.handle])
        rw [hread] at hhd'
        exact hsec hd' hhd'

theorem Owned.transfer (h : s.Owned latest) (r : Running) (res : EpollResult) (recv : RecvReturn)
    (send : SendReturn) : (s.transfer r res recv send).1.Owned latest := by
  unfold Shared.transfer
  cases r.closure <;> exact ⟨h.sockets, h.entries, h.queues, h.actions, h.touched⟩

theorem Runs.sockets (hruns : s.Runs sec s' next) (hwf : s.manager.io.Wf)
  (h : s.manager.io.Sockets) : s'.manager.io.Sockets := by
  cases hruns with
  | opens _ _ => exact h.openFd _
  | deregisterFd => exact h.of_same (Io.deregisterFd_silent _ _).toSameSockets
  | closeFd => exact h.close _
  | closeHello => exact h.close _
  | recvStarted hstart => exact h.of_same (Io.registered_of_recvMessage hwf hstart).toSameSockets
  | sendStarted hstart => exact h.of_same (Io.registered_of_sendMessage hwf hstart).toSameSockets
  | _ => exact h

theorem Runs.nextSock (hruns : s.Runs sec s' next) (hwf : s.manager.io.Wf)
    (hsec : ∀ peer, sec ≠ .dial peer) : s'.manager.io.nextSock = s.manager.io.nextSock := by
  cases hruns with
  | opens _ _ => exact absurd rfl (hsec _)
  | recvStarted hstart => exact (Io.registered_of_recvMessage hwf hstart).nextSock
  | sendStarted hstart => exact (Io.registered_of_sendMessage hwf hstart).nextSock
  | _ => rfl

theorem Runs.fds (hruns : s.Runs sec s' next) (hwf : s.manager.io.Wf)
    (hsec : ∀ peer, sec ≠ .dial peer) (fd : Fd) :
    s'.manager.io.fds fd = s.manager.io.fds fd ∨ s'.manager.io.fds fd = none := by
  have herase : ∀ fd', (s.manager.io.fds.erase fd') fd = s.manager.io.fds fd ∨
      (s.manager.io.fds.erase fd') fd = none := by
    intro fd'
    rw [PartialMap.erase_apply]
    split
    · exact .inr rfl
    · exact .inl rfl
  cases hruns with
  | opens _ _ => exact absurd rfl (hsec _)
  | closeFd => exact herase _
  | closeHello => exact herase _
  | recvStarted hstart => exact .inl (congrFun (Io.registered_of_recvMessage hwf hstart).fds fd)
  | sendStarted hstart => exact .inl (congrFun (Io.registered_of_sendMessage hwf hstart).fds fd)
  | _ => exact .inl rfl

/-- What `dial` does with a number that `socket` has given. -/
theorem dial_cases {peer : PeerId} {answers : ConnectionManager.Dial}
    (h : s.dial peer answers = some (s', next)) :
    ((answers.address = true → answers.socket = none) ∧ s' = s ∧ ∀ sec ∈ next, sec.handle = none) ∨
      ∃ fd told, answers.address = true ∧ answers.socket = some fd ∧
      s' = s.setIo (s.manager.io.openFd fd) ∧ (∀ sec ∈ told, sec.handle = none) ∧
      next = told ++ [.sendMessage (s.newHandle fd)
        (HelloMsg.make s.manager.self helloNotify).serialize (.helloNotify peer)] := by
  unfold dial at h
  split at h
  · rename_i haddress
    obtain ⟨rfl, rfl⟩ := Prod.mk.inj (Option.some.inj h)
    exact .inl ⟨fun htrue => absurd (haddress.symm.trans htrue) (by simp),
      rfl, by simp [Section.handle]⟩
  · rename_i haddress
    split at h
    · rename_i hsocket
      obtain ⟨rfl, rfl⟩ := Prod.mk.inj (Option.some.inj h)
      exact .inl ⟨fun _ => hsocket, rfl, by simp [Section.handle]⟩
    · rename_i fd hsocket
      split at h
      · obtain ⟨rfl, rfl⟩ := Prod.mk.inj (Option.some.inj h)
        refine .inr ⟨fd,
          if answers.connect = .failed then [.notify (.error peer ⟨.error, .outgoing⟩)] else [],
          by simpa using haddress, hsocket, rfl, ?_, ?_⟩
        · split <;> simp [Section.handle]
        · split <;> rfl
      · exact absurd h (by simp)

end Shared

namespace Process

variable {p p' : Process} {input : Input} {latest : Fd → Option Sock}

/-- The socket that got a number last, after a step. -/
def latestAfter (p : Process) (input : Input) (latest : Fd → Option Sock) (fd : Fd) : Option Sock :=
  if p.opens input = some fd then some p.shared.manager.io.nextSock else latest fd

theorem latestAfter_of_none (h : p.opens input = none) : p.latestAfter input latest = latest := by
  funext fd
  rw [latestAfter, h, if_neg (by simp)]

theorem latestAfter_of_some {fd : Fd} (h : p.opens input = some fd) :
    p.latestAfter input latest = fun fd' =>
      if fd' = fd then some p.shared.manager.io.nextSock else latest fd' := by
  funext fd'
  rw [latestAfter, h]
  by_cases hfd : fd' = fd
  · rw [if_pos hfd, if_pos (by rw [hfd])]
  · rw [if_neg hfd, if_neg fun heq => hfd (Option.some.inj heq).symm]

/-- Everything in the process knows a number for the socket that got it last, and a socket has got
one number only. -/
structure Owned (latest : Fd → Option Sock) (p : Process) : Prop where
  fresh : ∀ fd sock, latest fd = some sock → sock < p.shared.manager.io.nextSock
  one : ∀ fd fd' sock, latest fd = some sock → latest fd' = some sock → fd = fd'
  shared : p.shared.Owned latest
  work : ∀ t, ∀ sec ∈ p.work t, Shared.Knows latest sec
  running : ∀ r, p.running = some r → latest r.handle.fd = some r.handle.sock

theorem init_owned (self : PeerId) (order : ByteOrder) : (init self order).Owned fun _ => none :=
  ⟨fun _ _ h => absurd h (by simp), fun _ _ _ h => absurd h (by simp),
    ⟨fun _ _ h => absurd h (by simp [init, Shared.init, ConnectionManager.init, Io.init]),
      fun _ _ h => absurd h (by simp [init, Shared.init, ConnectionManager.init]),
      fun _ _ h => absurd h (by simp [init, Shared.init, ConnectionManager.init]),
      fun _ _ h => absurd h
        (by simp [init, Shared.init, ConnectionManager.init, Io.init, Io.actionAt_apply]),
      by simp [init, Shared.init]⟩,
    by simp [init], by simp [init]⟩

theorem Owned.setWork (h : p.Owned latest) (t : ThreadId) (work : List Section)
    (hwork : ∀ sec ∈ work, Shared.Knows latest sec) : (p.setWork t work).Owned latest := by
  refine ⟨h.fresh, h.one, h.shared, fun t' sec hsec => ?_, h.running⟩
  rcases p.of_mem_setWork_new hsec with hnew | hold
  · exact hwork sec hnew
  · exact h.work t' sec hold

theorem Owned.rest (h : p.Owned latest) {t : ThreadId} {sec : Section} {rest : List Section}
    (hwork : p.work t = sec :: rest) :
    Shared.Knows latest sec ∧ ∀ sec' ∈ rest, Shared.Knows latest sec' := by
  have hall := h.work t
  rw [hwork, List.forall_mem_cons] at hall
  exact hall

theorem Owned.opened (h : p.Owned latest) {fd : Fd} (hfd : ¬ p.Named fd) :
    (p.setIo (p.shared.manager.io.openFd fd)).Owned fun fd' =>
      if fd' = fd then some p.shared.manager.io.nextSock else latest fd' := by
  have hother : ∀ {fd' : Fd} {sock : Sock}, p.Named fd' → latest fd' = some sock →
      (if fd' = fd then some p.shared.manager.io.nextSock else latest fd') = some sock := by
    intro fd' sock hnamed hlatest
    rw [if_neg fun heq : fd' = fd => hfd (heq ▸ hnamed)]
    exact hlatest
  have hcases : ∀ {fd' : Fd} {sock : Sock},
      (if fd' = fd then some p.shared.manager.io.nextSock else latest fd') = some sock →
      (fd' = fd ∧ sock = p.shared.manager.io.nextSock) ∨
        (latest fd' = some sock ∧ sock < p.shared.manager.io.nextSock) := by
    intro fd' sock hlatest
    split at hlatest
    · exact .inl ⟨‹_›, (Option.some.inj hlatest).symm⟩
    · exact .inr ⟨hlatest, h.fresh fd' sock hlatest⟩
  refine ⟨fun fd' sock hlatest => ?_, fun fd₁ fd₂ sock h₁ h₂ => ?_,
    ⟨fun fd' sock hsock => ?_, ?_, ?_, ?_, h.shared.touched⟩, ?_, ?_⟩
  · rcases hcases hlatest with ⟨-, rfl⟩ | ⟨-, hlt⟩
    · exact Nat.lt_succ_self _
    · exact Nat.lt_succ_of_lt hlt
  · rcases hcases h₁ with ⟨rfl, hsock⟩ | ⟨hold₁, hlt₁⟩
    · rcases hcases h₂ with ⟨rfl, -⟩ | ⟨-, hlt⟩
      · rfl
      · exact absurd hlt (hsock ▸ Nat.lt_irrefl _)
    · rcases hcases h₂ with ⟨-, rfl⟩ | ⟨hold₂, -⟩
      · exact absurd hlt₁ (Nat.lt_irrefl _)
      · exact h.one fd₁ fd₂ sock hold₁ hold₂
  · simp only [Process.setIo, Shared.setIo, Io.openFd, PartialMap.set_apply] at hsock
    split at hsock
    · rw [if_pos ‹_›]
      exact hsock
    · rw [if_neg ‹_›]
      exact h.shared.sockets fd' sock hsock
  · exact fun conn fd' hentry => hother (.entry hentry) (h.shared.entries conn fd' hentry)
  · exact fun fd' queue hqueue => hother (.queue hqueue) (h.shared.queues fd' queue hqueue)
  · exact fun key closure hat => hother (.action hat) (h.shared.actions key closure hat)
  · exact fun t sec hmem hd hhd => hother (.work hmem hhd) (h.work t sec hmem hd hhd)
  · exact fun r hr => hother (.running hr) (h.running r hr)

private theorem calls_know (call : Call) : ∀ sec ∈ call.sections, Shared.Knows latest sec :=
  fun _ hmem _ hhd => absurd ((Call.handle_none hmem).symm.trans hhd) (by simp)

theorem resolves_handle {r : Running} {next : Section} (h : r.Resolves next) :
    next.handle = some r.handle := by
  unfold Running.Resolves at h
  split at h
  · obtain ⟨_, rfl⟩ := h
    rfl
  · obtain ⟨_, rfl⟩ := h
    rfl

theorem opens_of_not_dial {t : ThreadId} {answer : Answer} {sec : Section} {rest : List Section}
    (hwork : p.work t = sec :: rest) (hsec : ∀ peer, sec ≠ .dial peer) :
    p.opens (.run t answer) = none := by
  simp only [opens, hwork]
  split
  · rename_i heq
    exact absurd (List.cons.inj heq).1 (hsec _)
  · rfl

theorem dial_cases {t : ThreadId} {answer : Answer} {peer : PeerId} {rest next : List Section}
    {shared : Shared} (hwork : p.work t = .dial peer :: rest)
    (hrun : p.shared.run answer (.dial peer) = some (shared, next)) :
    (p.opens (.run t answer) = none ∧ shared = p.shared ∧ ∀ sec ∈ next, sec.handle = none) ∨
      ∃ fd told, p.opens (.run t answer) = some fd ∧
      shared = p.shared.setIo (p.shared.manager.io.openFd fd) ∧ (∀ sec ∈ told, sec.handle = none) ∧
      next = told ++ [.sendMessage (p.shared.newHandle fd)
        (HelloMsg.make p.shared.manager.self helloNotify).serialize (.helloNotify peer)] := by
  rcases Shared.dial_cases
      hrun with ⟨hclosed, hsame, hnone⟩ | ⟨fd, told, haddress, hsocket, hopen, htold, hnext⟩
  · refine .inl ⟨?_, hsame, hnone⟩
    simp only [opens, hwork]
    split
    · exact hclosed ‹_›
    · rfl
  · refine .inr ⟨fd, told, ?_, hopen, htold, hnext⟩
    simp only [opens, hwork, haddress, if_true, hsocket]

theorem Owned.run (hwf : p.Wf) (h : p.Owned latest) {t : ThreadId} {answer : Answer} {sec : Section}
    {rest next : List Section} {shared : Shared} (hok : p.OpensUnnamed (.run t answer))
    (hwork : p.work t = sec :: rest) (hrun : p.shared.run answer sec = some (shared, next)) :
    ({ p.setWork t (next ++ rest) with shared := shared } : Process).Owned
      (p.latestAfter (.run t answer) latest) := by
  obtain ⟨hsec, hrest⟩ := h.rest hwork
  have hwith : ∀ {latest' : Fd → Option Sock},
      (∀ fd sock, latest' fd = some sock → sock < shared.manager.io.nextSock) →
      (∀ fd fd' sock, latest' fd = some sock → latest' fd' = some sock → fd = fd') →
      shared.Owned latest' → (∀ sec' ∈ next, Shared.Knows latest' sec') →
      (∀ t', ∀ sec' ∈ p.work t', Shared.Knows latest' sec') →
      (∀ r, p.running = some r → latest' r.handle.fd = some r.handle.sock) →
      ({ p.setWork t (next ++ rest) with shared := shared } : Process).Owned latest' := by
    intro latest' hfresh hone hshared hnext hall hrunning
    refine ⟨hfresh, hone, hshared, fun t' sec' hsec' => ?_, hrunning⟩
    rcases p.of_mem_setWork hwork hsec' with hnew | hold
    · exact hnext sec' hnew
    · exact hall t' sec' hold
  by_cases hdial : ∃ peer, sec = .dial peer
  · obtain ⟨peer, rfl⟩ := hdial
    rcases dial_cases hwork hrun with ⟨hopens, rfl, hnone⟩ | ⟨fd, told, hopens, rfl, htold, rfl⟩
    · rw [latestAfter_of_none hopens]
      exact hwith h.fresh h.one h.shared
        (fun sec' hmem hd hhd => absurd ((hnone sec' hmem).symm.trans hhd) (by simp))
        h.work h.running
    · have hopen := h.opened (hok fd hopens)
      rw [latestAfter_of_some hopens]
      refine hwith hopen.fresh hopen.one hopen.shared (fun sec' hmem hd hhd => ?_)
        hopen.work hopen.running
      rcases List.mem_append.mp hmem with hmem | hmem
      · exact absurd ((htold sec' hmem).symm.trans hhd) (by simp)
      · rw [List.mem_singleton.mp hmem] at hhd
        obtain rfl := Option.some.inj hhd
        exact if_pos rfl
  · have hnot : ∀ peer, sec ≠ .dial peer := fun peer heq => hdial ⟨peer, heq⟩
    have hruns := Shared.run_cases hrun
    have hnextSock := hruns.nextSock hwf.io hnot
    obtain ⟨hshared, hnext⟩ := hruns.owned hwf.io h.shared hsec hnextSock
    rw [latestAfter_of_none (opens_of_not_dial hwork hnot)]
    exact hwith (hnextSock ▸ h.fresh) h.one hshared hnext h.work h.running

theorem Owned.goOn (h : p.Owned latest) (io : Io OnMessage OnSent)
    (hfds : io.fds = p.shared.manager.io.fds) (hnext : io.nextSock = p.shared.manager.io.nextSock)
    (hactions : ∀ key closure, io.actionAt key = some closure →
      ∃ closure', p.shared.manager.io.actionAt key = some closure') :
    (p.setIo io).Owned latest := by
  refine ⟨fun fd sock hlatest => ?_, h.one, h.shared.setIo ?_ hactions, h.work, h.running⟩
  · have hlt := h.fresh fd sock hlatest
    rw [← hnext] at hlt
    exact hlt
  · rw [hfds]
    exact h.shared.sockets

private theorem action_of_set {actions : PartialMap FdDirection (Closure OnMessage OnSent)}
    {key : FdDirection} {next : Closure OnMessage OnSent} (hslot : actions key ≠ none)
    (key' : FdDirection) (closure : Closure OnMessage OnSent)
    (h : (actions.set key next) key' = some closure) :
    ∃ closure', actions key' = some closure' := by
  by_cases hkey : key' = key
  · rw [hkey]
    exact Option.ne_none_iff_exists'.mp hslot
  · rw [PartialMap.set_of_ne _ hkey] at h
    exact ⟨closure, h⟩

theorem Owned.step (hwf : p.Wf) (h : p.Owned latest) (hok : p.OpensUnnamed input)
    (hstep : Step p input p') : p'.Owned (p.latestAfter input latest) := by
  have hidle : ∀ r : Running, (none : Option Running) = some r →
      latest r.handle.fd = some r.handle.sock :=
    fun r hr => absurd hr (by simp)
  have hnone : p.opens input = none → p'.Owned latest → p'.Owned (p.latestAfter input latest) := by
    intro hopens howned
    rw [latestAfter_of_none hopens]
    exact howned
  cases hstep with
  | @lock t _ _ hwork _ =>
      have hset := h.setWork t _ (h.rest hwork).2
      exact hnone (opens_of_not_dial hwork (by simp))
        ⟨hset.fresh, hset.one, hset.shared, hset.work, hset.running⟩
  | @unlock t _ _ hwork =>
      have hset := h.setWork t _ (h.rest hwork).2
      exact hnone (opens_of_not_dial hwork (by simp))
        ⟨hset.fresh, hset.one, hset.shared, hset.work, hset.running⟩
  | run hwork hrun => exact h.run hwf hok hwork hrun
  | call _ => exact hnone rfl (h.setWork _ _ (calls_know _))
  | @accept fd _ _ =>
      rw [latestAfter_of_some rfl]
      refine (h.opened (hok fd rfl)).setWork _ _ fun sec hsec hd hhd => ?_
      rw [List.mem_singleton.mp hsec] at hhd
      obtain rfl := Option.some.inj hhd
      exact if_pos rfl
  | @openOther fd _ =>
      rw [latestAfter_of_some rfl]
      have hopen := h.opened (hok fd rfl)
      exact ⟨hopen.fresh, hopen.one, hopen.shared, hopen.work, hopen.running⟩
  | closeOther _ => exact hnone rfl ⟨h.fresh, h.one, h.shared.close _, h.work, h.running⟩
  | @fetch fd dir closure a _ hat _ =>
      refine hnone rfl ⟨h.fresh, h.one, h.shared, h.work, fun r hr => ?_⟩
      obtain rfl := Option.some.inj hr
      exact h.shared.actions ⟨fd, dir⟩ closure hat
  | @transfer res recv send r hrunning _ =>
      have hsame := (p.shared.transfer_io r res recv send).2.2
      refine hnone rfl ⟨hsame.nextSock ▸ h.fresh, h.one, ?_, h.work, fun r' hr' => ?_⟩
      · exact h.shared.transfer r res recv send
      · obtain rfl := Option.some.inj hr'
        exact h.running r hrunning
  | @kept ok r next hrunning houtcome hholds =>
      have hr := hwf.running r hrunning
      obtain ⟨-, hactions, -⟩ := Io.keep_kept hwf.io hr.fd (hr.fits _ houtcome) hholds
      have hslot : p.shared.manager.io.actionAt r.key ≠ none := by
        rw [ne_eq, Io.actionAt_eq_none]
        exact PartialMap.contains_eq_true.mp hholds.1
      have hgo :=
        h.goOn { p.shared.manager.io with loop := r.afd.keep p.shared.manager.io.loop next } rfl rfl
          (hactions ▸ action_of_set hslot)
      exact hnone rfl ⟨hgo.fresh, hgo.one, hgo.shared, hgo.work, hidle⟩
  | dropped _ _ _ => exact hnone rfl ⟨h.fresh, h.one, h.shared, h.work, hidle⟩
  | @replaced ok r next loop hrunning houtcome hreplace =>
      have hr := hwf.running r hrunning
      obtain ⟨-, hslot, hactions, -⟩ :=
          Io.replaceAction_replaced hwf.io hr.token (hr.fits _ houtcome) hreplace
      have hgo :=
        h.goOn { p.shared.manager.io with loop := loop } rfl rfl (hactions ▸ action_of_set hslot)
      exact hnone rfl ⟨hgo.fresh, hgo.one, hgo.shared, hgo.work, hidle⟩
  | @unreplaced ok r next hrunning houtcome _ =>
      refine hnone rfl ⟨h.fresh, h.one, h.shared, h.work, fun r' hr' => ?_⟩
      obtain rfl := Option.some.inj hr'
      exact h.running r hrunning
  | @resolved ok r next hrunning houtcome =>
      have hr := hwf.running r hrunning
      obtain ⟨-, hactions, hsame⟩ := Io.handBack_handed hwf.io hr.token ok
      have hgo :=
        h.goOn (p.shared.manager.io.handBack r.afd ok) hsame.fds hsame.nextSock
          fun key closure hat =>
        ⟨closure, ((PartialMap.erase_eq_some _).mp (hactions ▸ hat)).2⟩
      have hset := hgo.setWork .eventLoop [next] fun sec hsec hd hhd => ?_
      · exact hnone rfl ⟨hset.fresh, hset.one, hset.shared, hset.work, hidle⟩
      · rw [List.mem_singleton.mp hsec, resolves_handle (hr.fits _ houtcome)] at hhd
        obtain rfl := Option.some.inj hhd
        exact h.running r hrunning
  | aborted _ _ => 
      exact hnone rfl
        ⟨h.fresh, h.one, h.shared.of_manager rfl (fun _ _ h => h) fun _ queue h => ⟨queue, h⟩,
          h.work, h.running⟩
  | @destroy token ok _ _ =>
      have hfewer := Io.destroy_fewer hwf.io token ok
      exact hnone rfl (h.goOn _ hfewer.fds hfewer.nextSock fun key closure hat =>
        ⟨closure, PartialMap.eq_some_of_kept (p.shared.manager.io.destroy_taken token ok key) hat⟩)

theorem sockets_step (hwf : p.Wf) (h : p.shared.manager.io.Sockets) (hstep : Step p input p') :
    p'.shared.manager.io.Sockets := by
  cases hstep with
  | run _ hrun => exact (Shared.run_cases hrun).sockets hwf.io h
  | accept _ _ => exact h.openFd _
  | openOther _ => exact h.openFd _
  | closeOther _ => exact h.close _
  | @transfer res recv send r _ _ => exact h.of_same (p.shared.transfer_io r res recv send).2.2
  | kept _ _ _ => exact h.of_same ⟨rfl, rfl, rfl, rfl⟩
  | replaced _ _ _ => exact h.of_same ⟨rfl, rfl, rfl, rfl⟩
  | @resolved ok r _ hrunning _ =>
      exact h.of_same (Io.handBack_handed hwf.io (hwf.running r hrunning).token ok).2.2
  | @destroy token ok _ _ =>
      exact h.of_same (Io.destroy_fewer hwf.io token ok).toSilent.toSameSockets
  | _ => exact h

/-- If a number is given to a new socket only when nothing names it, every call reaches its own
socket or none. -/
theorem own_socket_only (self : PeerId) (order : ByteOrder) (inputs : List Input)
    (h : machine.EachStep OpensUnnamed (init self order) inputs) :
    machine.Always TouchesOwnOnly (init self order) inputs := by
  refine Machine.always_of_eachStep
    (I := fun p => p.Wf ∧ (∃ latest, p.Owned latest) ∧ p.shared.manager.io.Sockets) (fun p hp => ?_)
    (fun p input p' hp hok hstep => ?_) inputs
    ⟨init_wf self order, ⟨_, init_owned self order⟩, Io.init_sockets order⟩ h
  · obtain ⟨-, ⟨latest, howned⟩, hsockets⟩ := hp
    exact ⟨howned.shared.touched, hsockets.once⟩
  · obtain ⟨hwf, ⟨latest, howned⟩, hsockets⟩ := hp
    have hcases := step_cases hstep
    exact ⟨hwf.step hcases, ⟨_, howned.step hwf hok hcases⟩, sockets_step hwf hsockets hcases⟩

/-! ### A conversation, step by step -/

/-- Every system call succeeds, and the manager calls nothing back. -/
def granted : Answer := ⟨true, true, ⟨true, none, .connected, true⟩, []⟩

def loopRuns (n : Nat) : List Input := List.replicate n (.run .eventLoop granted)

/-- The `TransportManager`'s own thread runs some sections. -/
def managerRuns (n : Nat) : List Input := List.replicate n (.run .manager granted)

def reads (fd : Fd) (bytes : List Byte) : List Input :=
  [.fetch fd .input, .transfer (.ok ()) (.moved bytes) (.moved 0), .finish true]

def writes (fd : Fd) (count : Nat) : List Input :=
  [.fetch fd .output, .transfer (.ok ()) (.moved []) (.moved count), .finish true]

def readsMessage (fd : Fd) (msg : Message) : List Input :=
  reads fd ((uint32 .little).encode msg.length) ++ reads fd msg

/-- A peer connects, and the exchange goes through. -/
def acceptsFrom (fd : Fd) (peer : PeerId) : List Input :=
  .accept fd :: (loopRuns 1 ++ readsMessage fd (HelloMsg.make peer helloNotify).serialize
    ++ loopRuns 2 ++ writes fd 4 ++ writes fd HelloMsg.size ++ loopRuns 6)

/-- A step that gives no number to a socket, whatever the state. -/
def Input.OpensNothing : Input → Prop
  | .accept _ => False
  | .openOther _ => False
  | .run _ answer => answer.dial.socket = none
  | _ => True

instance (input : Input) : Decidable input.OpensNothing := by
  unfold Input.OpensNothing
  cases input <;> infer_instance

theorem opensUnnamed_of_opensNothing {input : Input} (h : input.OpensNothing) (p : Process) :
    p.OpensUnnamed input := by
  intro fd hfd
  cases input with
  | accept _ => exact absurd h id
  | openOther _ => exact absurd h id
  | run t answer =>
      simp only [opens] at hfd
      split at hfd
      · split at hfd
        · exact absurd (hfd.symm.trans h) (by simp)
        · exact absurd hfd (by simp)
      · exact absurd hfd (by simp)
  | call _ _ => exact absurd hfd (by simp [opens])
  | closeOther _ => exact absurd hfd (by simp [opens])
  | fetch _ _ => exact absurd hfd (by simp [opens])
  | transfer _ _ _ => exact absurd hfd (by simp [opens])
  | finish _ => exact absurd hfd (by simp [opens])
  | destroy _ _ => exact absurd hfd (by simp [opens])

theorem not_named_init (self : PeerId) (order : ByteOrder) (fd : Fd) :
    ¬ (init self order).Named fd := by
  intro h
  cases h with
  | work hmem _ => exact absurd hmem (by simp [init])
  | running h => exact absurd h (by simp [init])
  | active h => exact absurd h (by simp [init, Shared.init, ConnectionManager.init])
  | entry h => exact absurd h (by simp [init, Shared.init, ConnectionManager.init])
  | queue h => exact absurd h (by simp [init, Shared.init, ConnectionManager.init])
  | action h =>
      exact absurd h
        (by simp [init, Shared.init, ConnectionManager.init, Io.init, Io.actionAt_apply])
  | token hmem _ => exact absurd hmem (by simp [init, Shared.init, ConnectionManager.init, Io.init])

/-- One socket is opened, and whatever follows opens no other. -/
theorem eachStep_of_accept (self : PeerId) (order : ByteOrder) (fd : Fd) (inputs : List Input)
    (h : ∀ input ∈ inputs, input.OpensNothing) :
    machine.EachStep OpensUnnamed (init self order) (.accept fd :: inputs) := by
  have hrest : ∀ (inputs : List Input) (p : Process), (∀ input ∈ inputs, input.OpensNothing) →
      machine.EachStep OpensUnnamed p inputs := by
    intro inputs
    induction inputs with
    | nil => exact fun _ _ => trivial
    | cons input rest ih =>
        intro p hall p' _
        exact ⟨opensUnnamed_of_opensNothing (hall input (by simp)) p,
          ih p' fun i hi => hall i (List.mem_cons_of_mem _ hi)⟩
  intro p _
  refine ⟨fun fd' _ => not_named_init self order fd', hrest inputs p h⟩

def ann : PeerId := ⟨[0, 0, 0, 0, 0, 1], rfl⟩

def bob : PeerId := ⟨[0, 0, 0, 0, 0, 2], rfl⟩

def carl : PeerId := ⟨[0, 0, 0, 0, 0, 3], rfl⟩

/-- A connection that the manager closes while it is given a message. -/
theorem own_socket_only_of_close_in_message :
    machine.Always TouchesOwnOnly (init bob .little)
      (acceptsFrom 5 ann ++ readsMessage 5 [7]
        ++ [.run .eventLoop granted,
          .run .eventLoop { granted with calls := [.closeSession ann .all] }] ++ loopRuns 12) :=
  own_socket_only bob .little _ (eachStep_of_accept bob .little 5 _ (by decide))

/-- The manager is given a message of `ann`, closes that session and opens one with `carl`; the new
socket gets the old number, and the reader of the old connection is registered for it. -/
theorem reader_starts_on_next_socket :
    ¬ ∀ (self : PeerId) (order : ByteOrder) (inputs : List Input) (p : Process),
      machine.exec (init self order) inputs = some p → p.TouchesOwnOnly := by
  intro h
  let calls : List Call := [.closeSession ann .all, .openSession carl]
  have hrun : (machine.exec (init bob .little)
      (acceptsFrom 5 ann ++ readsMessage 5 [7]
        ++ [.run .eventLoop granted, .run .eventLoop { granted with calls := calls }] ++ loopRuns 12
        ++ [.run .eventLoop { granted with dial := ⟨true, some 5, .inProgress, true⟩ }]
        ++ loopRuns 3)).map (fun p => p.shared.touched.getLast?)
      = some (some ⟨.registerAction, ⟨5, 0⟩, [1]⟩) := by
    decide +kernel
  obtain ⟨p, hexec, hlast⟩ := Option.map_eq_some_iff.mp hrun
  have := (h _ _ _ p hexec).own _ (List.mem_of_getLast? hlast) 1 (by simp)
  exact absurd this (by decide)

end Process

end Diplom
