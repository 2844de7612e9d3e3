import Diplom.Proof.Parts

/-!
# Messages and peers

`SendMessage` names a peer, and from its look-up on the message goes by the descriptor. While a
number is given to a new socket only when nothing names it, the number leads to the connection that
was looked up, in the queue, in the registered action, and in `send`.
-/

namespace Diplom

namespace Shared

variable (s : Shared)

/-- A socket has been entered for a peer. -/
def Records (sock : Sock) (peer : PeerId) : Prop := ∃ dir, (sock, (peer, dir)) ∈ s.entered

/-- What is sent on a socket from its queue is for a peer of that socket. -/
def Sends (sock : Sock) : OnSent → Prop
  | .queued parcel => s.Records sock parcel.peer
  | _ => True

def Carries (sock : Sock) : Closure OnMessage OnSent → Prop
  | .send _ resolve => s.Sends sock resolve
  | .recv _ _ => True

def Addresses : Section → Prop
  | .insertConnToFd h conn => (h.sock, conn) ∈ s.entered
  | .pushBack h parcel => s.Records h.sock parcel.peer
  | .sendMessage h _ resolve => s.Sends h.sock resolve
  | _ => True

/-- Every message is where its peer is. -/
structure Addressed (s : Shared) : Prop where
  entries : ∀ conn fd, s.manager.connToFd conn = some fd → (s.entryOf conn, conn) ∈ s.entered
  queues : ∀ fd queue, s.manager.sendQueues fd = some queue →
    ∀ parcel ∈ queue, s.Records (s.queueOf fd) parcel.peer
  actions : ∀ key closure, s.manager.io.actionAt key = some closure →
    s.Carries (s.actionOf key) closure
  placed : ∀ entry ∈ s.placed, s.Records entry.1 entry.2.peer
  wrote : ∀ entry ∈ s.wrote, s.Records entry.1 entry.2.peer

variable {s} {s' : Shared} {sec : Section} {next : List Section} {latest : Fd → Option Sock}

theorem Records.mono (h : ∀ entry ∈ s.entered, entry ∈ s'.entered) {sock : Sock} {peer : PeerId}
    (hrec : s.Records sock peer) : s'.Records sock peer := by
  obtain ⟨dir, hmem⟩ := hrec
  exact ⟨dir, h _ hmem⟩

theorem Sends.mono (h : ∀ entry ∈ s.entered, entry ∈ s'.entered) {sock : Sock} {resolve : OnSent}
    (hsends : s.Sends sock resolve) : s'.Sends sock resolve := by
  cases resolve with
  | queued parcel => exact Records.mono h hsends
  | helloAnswer _ => trivial
  | helloNotify _ => trivial

theorem Carries.mono (h : ∀ entry ∈ s.entered, entry ∈ s'.entered) {sock : Sock}
    {closure : Closure OnMessage OnSent} (hcarries : s.Carries sock closure) :
    s'.Carries sock closure := by
  cases closure with
  | send _ resolve => exact Sends.mono h hcarries
  | recv _ _ => trivial

theorem Addresses.mono (h : ∀ entry ∈ s.entered, entry ∈ s'.entered) (hsec : s.Addresses sec) :
    s'.Addresses sec := by
  cases sec with
  | insertConnToFd hd conn => exact h _ hsec
  | pushBack hd parcel => exact Records.mono h hsec
  | sendMessage hd data resolve => exact Sends.mono h hsec
  | _ => trivial

theorem Carries.alike {sock : Sock} {closure closure' : Closure OnMessage OnSent}
    (h : s.Carries sock closure) (halike : closure'.Alike closure) : s.Carries sock closure' := by
  cases halike <;> exact h

/-- Nothing new has been entered, and nothing is kept that was not kept before. -/
theorem Addressed.of_fewer (h : s.Addressed) (hentered : s'.entered = s.entered)
    (hentryOf : s'.entryOf = s.entryOf) (hqueueOf : s'.queueOf = s.queueOf)
    (hactionOf : s'.actionOf = s.actionOf) (hplaced : s'.placed = s.placed)
    (hwrote : s'.wrote = s.wrote)
    (hentries : ∀ conn fd, s'.manager.connToFd conn = some fd → s.manager.connToFd conn = some fd)
    (hqueues : ∀ fd queue, s'.manager.sendQueues fd = some queue →
      ∃ queue', s.manager.sendQueues fd = some queue' ∧ ∀ parcel ∈ queue, ∃ parcel' ∈ queue',
      parcel.peer = parcel'.peer)
    (hactions : ∀ key closure, s'.manager.io.actionAt key = some closure →
      s.manager.io.actionAt key = some closure) : s'.Addressed := by
  have hmono : ∀ entry ∈ s.entered, entry ∈ s'.entered := fun entry hmem => hentered ▸ hmem
  refine ⟨fun conn fd hfd => ?_, fun fd queue hqueue parcel hmem => ?_, fun key closure hat => ?_,
    fun entry hmem => ?_, fun entry hmem => ?_⟩
  · rw [hentryOf, hentered]
    exact h.entries conn fd (hentries conn fd hfd)
  · obtain ⟨queue', hqueue', hpeers⟩ := hqueues fd queue hqueue
    obtain ⟨parcel', hmem', hpeer⟩ := hpeers parcel hmem
    rw [hqueueOf, hpeer]
    exact Records.mono hmono (h.queues fd queue' hqueue' parcel' hmem')
  · rw [hactionOf]
    exact Carries.mono hmono (h.actions key closure (hactions key closure hat))
  · rw [hplaced] at hmem
    exact Records.mono hmono (h.placed entry hmem)
  · rw [hwrote] at hmem
    exact Records.mono hmono (h.wrote entry hmem)

/-- What follows a section that leaves everything as it is has looked up its connection. -/
theorem Leads.addresses (hleads : s.Leads sec next) (h : s.Addressed) :
    ∀ sec' ∈ next, s.Addresses sec' := by
  have hone : ∀ {sec' : Section}, s.Addresses sec' → ∀ sec'' ∈ [sec'], s.Addresses sec'' := by
    intro sec' h' sec'' hmem
    rw [List.mem_singleton.mp hmem]
    exact h'
  have htwo : ∀ {sec₁ sec₂ : Section}, s.Addresses sec₁ → s.Addresses sec₂ → ∀ sec' ∈ [sec₁, sec₂],
      s.Addresses sec' := by
    intro sec₁ sec₂ h₁ h₂ sec' hmem
    rcases List.mem_cons.mp hmem with rfl | hmem
    · exact h₁
    · exact hone h₂ sec' hmem
  have hnil : ∀ sec' ∈ ([] : List Section), s.Addresses sec' := fun _ hmem => absurd hmem (by simp)
  cases hleads with
  | found hentry => exact hone ⟨_, h.entries _ _ hentry⟩
  | messageRead => exact htwo trivial trivial
  | notifyUnsent => exact htwo trivial trivial
  | noSession => exact hnil
  | notActive => exact hnil
  | noConnection => exact hnil
  | noQueue _ => exact hnil
  | nothingWaits _ => exact hnil
  | queueGone _ => exact hnil
  | senderInactive _ => exact hnil
  | readerInactive => exact hnil
  | _ => exact hone trivial

theorem addresses_of_handle_none (h : sec.handle = none) : s.Addresses sec := by
  cases sec with
  | insertConnToFd _ _ | pushBack _ _ | sendMessage _ _ _ =>
      exact absurd h (by simp [Section.handle])
  | _ => trivial

private theorem queues_set {queues : PartialMap Fd (List Parcel)} {fd : Fd} {old new : List Parcel}
    (hold : queues fd = some old)
    (hpeers : ∀ parcel ∈ new, ∃ parcel' ∈ old, parcel.peer = parcel'.peer) (fd' : Fd)
    (queue : List Parcel) (h : (queues.set fd new) fd' = some queue) :
    ∃ queue', queues fd' = some queue' ∧ ∀ parcel ∈ queue, ∃ parcel' ∈ queue',
      parcel.peer = parcel'.peer := by
  by_cases hfd : fd' = fd
  · rw [hfd, PartialMap.set_self] at h
    obtain rfl := Option.some.inj h
    exact ⟨old, hfd ▸ hold, hpeers⟩
  · rw [PartialMap.set_of_ne _ hfd] at h
    exact ⟨queue, h, fun parcel hmem => ⟨parcel, hmem, rfl⟩⟩

private theorem queues_self {queues : PartialMap Fd (List Parcel)} (fd : Fd) (queue : List Parcel)
    (h : queues fd = some queue) :
    ∃ queue', queues fd = some queue' ∧ ∀ parcel ∈ queue, ∃ parcel' ∈ queue',
      parcel.peer = parcel'.peer :=
  ⟨queue, h, fun parcel hmem => ⟨parcel, hmem, rfl⟩⟩

theorem Addressed.registered (h : s.Addressed) {io : Io OnMessage OnSent} {hd : Handle}
    {closure : Closure OnMessage OnSent}
    (hactions : io.actionAt = s.manager.io.actionAt.set ⟨hd.fd, closure.dir⟩ closure)
    (hcarries : s.Carries hd.sock closure) : ((s.setIo io).claim hd closure.dir).Addressed := by
  refine ⟨h.entries, h.queues, fun key closure' hat => ?_, h.placed, h.wrote⟩
  have hat : io.actionAt key = some closure' := hat
  rw [hactions] at hat
  have hat' : ((s.setIo io).claim hd closure.dir).actionOf key = if key
      = ⟨hd.fd, closure.dir⟩ then hd.sock else s.actionOf key :=
    rfl
  rw [hat']
  by_cases hkey : key = ⟨hd.fd, closure.dir⟩
  · rw [hkey, PartialMap.set_self] at hat
    obtain rfl := Option.some.inj hat
    rw [if_pos hkey]
    exact Carries.mono (fun _ hmem => hmem) hcarries
  · rw [PartialMap.set_of_ne _ hkey] at hat
    rw [if_neg hkey]
    exact Carries.mono (fun _ hmem => hmem) (h.actions key closure' hat)

theorem Addressed.hand (h : s.Addressed) (hd : Handle) (data : Message) (resolve : OnSent) :
    (s.hand hd data resolve).Addressed :=
  ⟨h.entries, h.queues, h.actions, h.placed, h.wrote⟩

theorem Addressed.pushed (h : s.Addressed) {hd : Handle} {parcel : Parcel} {queue : List Parcel}
    (hqueue : s.manager.sendQueues hd.fd = some queue)
    (hrec : s.Records (s.queueOf hd.fd) parcel.peer) : (s.pushed hd queue parcel).Addressed := by
  refine ⟨h.entries, fun fd queue' hqueue' parcel' hmem => ?_, h.actions, fun entry hmem => ?_,
    h.wrote⟩
  · have hqueue' : (s.manager.sendQueues.set hd.fd (queue ++ [parcel])) fd = some queue' :=
      hqueue'
    by_cases hfd : fd = hd.fd
    · subst hfd
      rw [PartialMap.set_self] at hqueue'
      rw [← Option.some.inj hqueue'] at hmem
      rcases List.mem_append.mp hmem with hold | hnew
      · exact h.queues _ queue hqueue parcel' hold
      · rw [List.mem_singleton.mp hnew]
        exact hrec
    · rw [PartialMap.set_of_ne _ hfd] at hqueue'
      exact h.queues fd queue' hqueue' parcel' hmem
  · rcases List.mem_append.mp hmem with hold | hnew
    · exact h.placed entry hold
    · rw [List.mem_singleton.mp hnew]
      exact hrec

theorem Addressed.insertActive (h : s.Addressed) (hd : Handle) (conn : Conn) :
    (s.insertActive hd conn).Addressed := by
  have hmono : ∀ entry ∈ s.entered, entry ∈ (s.insertActive hd conn).entered :=
    fun entry hmem => List.mem_append_left _ hmem
  exact ⟨fun conn' fd hfd => hmono _ (h.entries conn' fd hfd),
    fun fd queue hqueue parcel hmem =>
      Records.mono hmono (h.queues fd queue hqueue parcel hmem),
    fun key closure hat => Carries.mono hmono (h.actions key closure hat),
    fun entry hmem => Records.mono hmono (h.placed entry hmem),
    fun entry hmem => Records.mono hmono (h.wrote entry hmem)⟩

theorem Runs.addressed (hruns : s.Runs sec s' next) (hwf : s.manager.io.Wf)
    (howned : s.Owned latest) (hknows : Knows latest sec)
    (hbare : ∀ hd conn, sec = .insertActive hd conn → s.manager.activeConns hd.fd = none)
    (hsec : s.Addresses sec) (h : s.Addressed) :
    s'.Addressed ∧ ∀ sec' ∈ next, s'.Addresses sec' := by
  have hnil : ∀ sec' ∈ ([] : List Section), s'.Addresses sec' := fun _ hmem => absurd hmem (by simp)
  have hone : ∀ {sec' : Section}, s'.Addresses sec' → ∀ sec'' ∈ [sec'], s'.Addresses sec'' := by
    intro sec' h' sec'' hmem
    rw [List.mem_singleton.mp hmem]
    exact h'
  -- a queue belongs to the socket that the number was looked up for
  have howner : ∀ {hd : Handle} {queue : List Parcel}, sec.handle = some hd →
      s.manager.sendQueues hd.fd = some queue → s.queueOf hd.fd = hd.sock := by
    intro hd queue hhd hqueue
    exact Option.some.inj ((howned.queues _ _ hqueue).symm.trans (hknows hd hhd))
  cases hruns with
  | leads hleads => exact ⟨h, hleads.addresses h⟩
  | @notify note calls =>
      exact ⟨h.of_fewer rfl rfl rfl rfl rfl rfl (fun _ _ h => h) queues_self (fun _ _ h => h),
        fun _ hmem => addresses_of_handle_none (Call.handle_none_of_mem hmem)⟩
  | @opens peer fd told _ htold =>
      refine ⟨h.of_fewer rfl rfl rfl rfl rfl rfl (fun _ _ h => h) queues_self (fun _ _ h => h),
        fun sec' hmem => ?_⟩
      rcases List.mem_append.mp hmem with hmem | hmem
      · rcases htold with rfl | rfl
        · exact absurd hmem (by simp)
        · rw [List.mem_singleton.mp hmem]
          trivial
      · rw [List.mem_singleton.mp hmem]
        trivial
  | @deregisterFd hd ok =>
      exact ⟨h.of_fewer rfl rfl rfl rfl rfl rfl (fun _ _ h => h) queues_self fun key _ =>
        PartialMap.eq_some_of_kept (s.manager.io.deregisterFd_taken hd.fd ok key), hone trivial⟩
  | closeFd =>
      exact ⟨h.of_fewer rfl rfl rfl rfl rfl rfl (fun _ _ h => h) queues_self (fun _ _ h => h),
        hone trivial⟩
  | closeHello =>
      exact ⟨h.of_fewer rfl rfl rfl rfl rfl rfl (fun _ _ h => h) queues_self (fun _ _ h => h), hnil⟩
  | eraseActive _ =>
      exact ⟨h.of_fewer rfl rfl rfl rfl rfl rfl (fun _ _ h => h) queues_self (fun _ _ h => h),
        hone trivial⟩
  | eraseConnToFd =>
      refine ⟨h.of_fewer rfl rfl rfl rfl rfl rfl (fun conn fd hfd => ?_) queues_self
        (fun _ _ h => h), hone trivial⟩
      exact ((PartialMap.erase_eq_some _).mp hfd).2
  | eraseQueue =>
      refine ⟨h.of_fewer rfl rfl rfl rfl rfl rfl (fun _ _ h => h) (fun fd queue hqueue => ?_)
        (fun _ _ h => h), hone trivial⟩
      exact queues_self fd queue ((PartialMap.erase_eq_some _).mp hqueue).2
  | @pushBack hd parcel queue hqueue =>
      have hrec : s.Records (s.queueOf hd.fd) parcel.peer := by
        rw [howner rfl hqueue]
        exact hsec
      refine ⟨h.pushed hqueue hrec, ?_⟩
      split
      · exact hone trivial
      · exact hnil
  | @takeFront hd parcel rest hqueue =>
      refine ⟨h.of_fewer rfl rfl rfl rfl rfl rfl (fun _ _ h => h)
        (queues_set hqueue fun parcel' hmem => ?_) (fun _ _ h => h), hone ?_⟩
      · rcases List.mem_cons.mp hmem with rfl | hmem
        · exact ⟨parcel, by simp, rfl⟩
        · exact ⟨parcel', List.mem_cons_of_mem _ hmem, rfl⟩
      · have hrec := h.queues _ _ hqueue parcel (by simp)
        rw [howner rfl hqueue] at hrec
        exact hrec
  | @popFront hd front rest hqueue =>
      refine ⟨h.of_fewer rfl rfl rfl rfl rfl rfl (fun _ _ h => h)
        (queues_set hqueue fun parcel' hmem => ?_) (fun _ _ h => h), ?_⟩
      · exact ⟨parcel', List.mem_cons_of_mem _ hmem, rfl⟩
      · split
        · exact hnil
        · exact hone trivial
  | popEmpty _ =>
      exact ⟨h.of_fewer rfl rfl rfl rfl rfl rfl (fun _ _ h => h) queues_self (fun _ _ h => h), hnil⟩
  | @recvStarted hd resolve ok io hstart =>
      have htouch : (s.touch .registerAction hd (s.socketAt hd.fd)).Addressed :=
        ⟨h.entries, h.queues, h.actions, h.placed, h.wrote⟩
      have hreg := Io.registered_of_recvMessage hwf hstart
      exact ⟨htouch.registered hreg.actionAt trivial, hnil⟩
  | @recvRefused hd resolve =>
      exact ⟨⟨h.entries, h.queues, h.actions, h.placed, h.wrote⟩, hone trivial⟩
  | @sendStarted hd data resolve ok io hstart =>
      have hhand := h.hand hd data resolve
      have htouch :
          ((s.hand hd data resolve).touch .registerAction hd (s.socketAt hd.fd)).Addressed :=
        ⟨hhand.entries, hhand.queues, hhand.actions, hhand.placed, hhand.wrote⟩
      exact ⟨htouch.registered (Io.registered_of_sendMessage hwf hstart).actionAt hsec, hnil⟩
  | @sendRefused hd data resolve =>
      have hhand := h.hand hd data resolve
      exact ⟨⟨hhand.entries, hhand.queues, hhand.actions, hhand.placed, hhand.wrote⟩, hone trivial⟩
  | @sendAborted hd data resolve _ _ =>
      have hhand := h.hand hd data resolve
      exact ⟨hhand.of_fewer rfl rfl rfl rfl rfl rfl (fun _ _ h => h) queues_self (fun _ _ h => h),
        hnil⟩
  | @insertActive hd conn =>
      refine ⟨h.insertActive hd conn, hone (List.mem_append_right _ ?_)⟩
      rw [if_pos (hbare hd conn rfl)]
      exact List.mem_singleton.mpr rfl
  | @insertConnToFd hd conn =>
      refine ⟨⟨?_, h.queues, h.actions, h.placed, h.wrote⟩, hone trivial⟩
      exact owned_insert (P := fun conn _ sock => (sock, conn) ∈ s.entered) h.entries hsec
  | @insertQueue hd conn =>
      refine ⟨⟨h.entries, ?_, h.actions, h.placed, h.wrote⟩, fun sec' hmem => ?_⟩
      · exact owned_insert
          (P := fun _ (queue : List Parcel) sock => ∀ parcel ∈ queue, s.Records sock parcel.peer)
          h.queues (by simp)
      · unfold opened at hmem
        split at hmem
        all_goals simp at hmem
        all_goals rcases hmem with rfl | rfl <;> trivial

theorem Runs.entered (hruns : s.Runs sec s' next) : ∀ entry ∈ s.entered, entry ∈ s'.entered := by
  cases hruns with
  | insertActive => exact fun entry hmem => List.mem_append_left _ hmem
  | _ => exact fun _ hmem => hmem

/-- `send` is given the number of the connection that the message was queued for. -/
theorem Addressed.transfer (h : s.Addressed) (howned : s.Owned latest) {r : Running}
    (hr : latest r.handle.fd = some r.handle.sock) (hcarries : s.Carries r.handle.sock r.closure)
    (res : EpollResult) (recv : RecvReturn) (send : SendReturn) :
    (s.transfer r res recv send).1.Addressed := by
  unfold Shared.transfer
  cases hc : r.closure with
  | recv op resolve => exact ⟨h.entries, h.queues, h.actions, h.placed, h.wrote⟩
  | send op resolve =>
      refine ⟨h.entries, h.queues, h.actions, h.placed, fun entry hmem => ?_⟩
      rcases List.mem_append.mp hmem with hold | hnew
      · exact h.wrote entry hold
      · cases resolve with
        | queued parcel =>
            simp only at hnew
            split at hnew
            · exact absurd hnew (by simp)
            · obtain ⟨sock, hsock, rfl⟩ := List.mem_map.mp hnew
              rw [hc] at hcarries
              have heq : sock = r.handle.sock :=
                Option.some.inj ((howned.socketAt hsock).symm.trans hr)
              rw [heq]
              exact hcarries
        | helloAnswer _ => exact absurd hnew (by simp)
        | helloNotify _ => exact absurd hnew (by simp)

end Shared

namespace Process

variable {p p' : Process} {input : Input} {latest : Fd → Option Sock}

/-- Every message was put in a queue of, and sent to, a connection that has been entered for its
peer. -/
structure RightPeer (p : Process) : Prop where
  placed : ∀ entry ∈ p.shared.placed, p.shared.Records entry.1 entry.2.peer
  wrote : ∀ entry ∈ p.shared.wrote, p.shared.Records entry.1 entry.2.peer

/-- Every message is where its peer is, also in what the threads still do. -/
structure Addressed (p : Process) : Prop where
  shared : p.shared.Addressed
  work : ∀ t, ∀ sec ∈ p.work t, p.shared.Addresses sec
  running : ∀ r, p.running = some r → p.shared.Carries r.handle.sock r.closure

theorem init_addressed (self : PeerId) (order : ByteOrder) : (init self order).Addressed :=
  ⟨⟨fun _ _ h => absurd h (by simp [init, Shared.init, ConnectionManager.init]),
    fun _ _ h => absurd h (by simp [init, Shared.init, ConnectionManager.init]),
    fun _ _ h => absurd h
      (by simp [init, Shared.init, ConnectionManager.init, Io.init, Io.actionAt_apply]),
    by simp [init, Shared.init], by simp [init, Shared.init]⟩,
    by simp [init], by simp [init]⟩

theorem Addressed.setWork (h : p.Addressed) (t : ThreadId) (work : List Section)
    (hwork : ∀ sec ∈ work, p.shared.Addresses sec) : (p.setWork t work).Addressed := by
  refine ⟨h.shared, fun t' sec hsec => ?_, h.running⟩
  rcases p.of_mem_setWork_new hsec with hnew | hold
  · exact hwork sec hnew
  · exact h.work t' sec hold

/-- A callback's part that registers nothing but the operation that has run. -/
theorem Addressed.goOn (h : p.Addressed) (io : Io OnMessage OnSent)
    (hactions : ∀ key closure, io.actionAt key = some closure →
      p.shared.Carries (p.shared.actionOf key) closure) : (p.setIo io).Addressed := by
  refine ⟨⟨h.shared.entries, h.shared.queues, fun key closure hat => ?_, h.shared.placed,
    h.shared.wrote⟩, fun t sec hsec => ?_, fun r hr => ?_⟩
  · exact Shared.Carries.mono (fun _ hmem => hmem) (hactions key closure hat)
  · exact Shared.Addresses.mono (fun _ hmem => hmem) (h.work t sec hsec)
  · exact Shared.Carries.mono (fun _ hmem => hmem) (h.running r hr)

theorem Addressed.put (h : p.Addressed) (howned : p.Owned latest) {r : Running}
    (hrunning : p.running = some r) {next : Closure OnMessage OnSent} (hnext : next.Alike r.closure)
    (hslot : p.shared.manager.io.actionAt r.key ≠ none) (key : FdDirection)
    (closure : Closure OnMessage OnSent)
    (hat : (p.shared.manager.io.actionAt.set r.key next) key = some closure) :
    p.shared.Carries (p.shared.actionOf key) closure := by
  by_cases hkey : key = r.key
  · obtain ⟨old, hold⟩ := Option.ne_none_iff_exists'.mp hslot
    have hsock : p.shared.actionOf r.key = r.handle.sock :=
      Option.some.inj
        ((howned.shared.actions r.key old hold).symm.trans (howned.running r hrunning))
    rw [hkey, PartialMap.set_self] at hat
    obtain rfl := Option.some.inj hat
    rw [hkey, hsock]
    exact (h.running r hrunning).alike hnext
  · rw [PartialMap.set_of_ne _ hkey] at hat
    exact h.shared.actions key closure hat

theorem Addressed.step (hwf : p.Wf) (howned : p.Owned latest) (hparts : p.Parts) (h : p.Addressed)
    (hstep : Step p input p') : p'.Addressed := by
  have hrest : ∀ {t : ThreadId} {sec : Section} {rest : List Section}, p.work t = sec :: rest →
      ∀ sec' ∈ rest, p.shared.Addresses sec' :=
    fun hwork sec' hmem => h.work _ sec' (hwork ▸ List.mem_cons_of_mem _ hmem)
  have hidle : ∀ r : Running, (none : Option Running) = some r →
      p.shared.Carries r.handle.sock r.closure :=
    fun r hr => absurd hr (by simp)
  cases hstep with
  | @lock t _ _ hwork _ =>
      have hset := h.setWork t _ (hrest hwork)
      exact ⟨hset.shared, hset.work, hset.running⟩
  | @unlock t _ _ hwork =>
      have hset := h.setWork t _ (hrest hwork)
      exact ⟨hset.shared, hset.work, hset.running⟩
  | @run t answer sec rest next shared hwork hrun =>
      have hruns := Shared.run_cases hrun
      have hmem : sec ∈ p.work t := by simp [hwork]
      have hbare : ∀ hd conn, sec = .insertActive hd conn →
          p.shared.manager.activeConns hd.fd = none := by
        rintro hd conn rfl
        have hcast := cast_le_tally hmem .hello hd.fd
        rw [cast_at (.insertActive hd conn) rfl, if_pos rfl] at hcast
        exact (hparts.at_fd hd.fd).bare (by omega)
      obtain ⟨hshared, hnext⟩ :=
          hruns.addressed hwf.io howned.shared (howned.rest hwork).1 hbare
            (h.work t sec hmem) h.shared
      refine ⟨hshared, fun t' sec' hsec' => ?_,
        fun r hr => Shared.Carries.mono hruns.entered (h.running r hr)⟩
      rcases p.of_mem_setWork hwork hsec' with hnew | hold
      · exact hnext sec' hnew
      · exact Shared.Addresses.mono hruns.entered (h.work t' sec' hold)
  | call _ =>
      exact h.setWork _ _ fun _ hmem => Shared.addresses_of_handle_none (Call.handle_none hmem)
  | @accept fd _ _ =>
      refine (h.goOn (p.shared.manager.io.openFd fd) h.shared.actions).setWork _ _ fun sec hsec =>
        ?_
      rw [List.mem_singleton.mp hsec]
      trivial
  | @openOther fd _ =>
      have hopen := h.goOn (p.shared.manager.io.openFd fd) h.shared.actions
      exact ⟨hopen.shared, hopen.work, hopen.running⟩
  | @closeOther fd _ =>
      have hclosed := h.goOn (p.shared.manager.io.close fd) h.shared.actions
      exact ⟨hclosed.shared, hclosed.work, hclosed.running⟩
  | @fetch fd dir closure a _ hat _ =>
      refine ⟨h.shared, h.work, fun r hr => ?_⟩
      obtain rfl := Option.some.inj hr
      exact h.shared.actions ⟨fd, dir⟩ closure hat
  | @transfer res recv send r hrunning _ =>
      have hentered : (p.shared.transfer r res recv send).1.entered = p.shared.entered := by
        unfold Shared.transfer
        cases r.closure <;> rfl
      have hmono : ∀ entry ∈ p.shared.entered,
          entry ∈ (p.shared.transfer r res recv send).1.entered :=
        fun entry hmem => hentered ▸ hmem
      have hcarries := h.running r hrunning
      refine ⟨h.shared.transfer howned.shared (howned.running r hrunning) hcarries res recv send,
        fun t sec hsec => Shared.Addresses.mono hmono (h.work t sec hsec), fun r' hr' => ?_⟩
      obtain rfl := Option.some.inj hr'
      exact Shared.Carries.mono hmono hcarries
  | @kept ok r next hrunning houtcome hholds =>
      have hr := hwf.running r hrunning
      have hfits : next.Alike r.closure := hr.fits _ houtcome
      obtain ⟨-, hactions, -⟩ := Io.keep_kept hwf.io hr.fd hfits hholds
      have hslot : p.shared.manager.io.actionAt r.key ≠ none := by
        rw [ne_eq, Io.actionAt_eq_none]
        exact PartialMap.contains_eq_true.mp hholds.1
      have hgo :=
        h.goOn { p.shared.manager.io with loop := r.afd.keep p.shared.manager.io.loop next }
          fun key closure hat =>
        h.put howned hrunning hfits hslot key closure (hactions ▸ hat)
      exact ⟨hgo.shared, hgo.work, hidle⟩
  | dropped _ _ _ => exact ⟨h.shared, h.work, hidle⟩
  | @replaced ok r next loop hrunning houtcome hreplace =>
      have hr := hwf.running r hrunning
      have hfits : next.Alike r.closure := hr.fits _ houtcome
      obtain ⟨-, hslot, hactions, -⟩ := Io.replaceAction_replaced hwf.io hr.token hfits hreplace
      have hgo := h.goOn { p.shared.manager.io with loop := loop } fun key closure hat =>
        h.put howned hrunning hfits hslot key closure (hactions ▸ hat)
      exact ⟨hgo.shared, hgo.work, hidle⟩
  | @unreplaced ok r next hrunning _ _ =>
      refine ⟨h.shared, h.work, fun r' hr' => ?_⟩
      obtain rfl := Option.some.inj hr'
      exact h.running r hrunning
  | @resolved ok r next hrunning houtcome =>
      have hr := hwf.running r hrunning
      obtain ⟨-, hactions, -⟩ := Io.handBack_handed hwf.io hr.token ok
      have hgo := h.goOn (p.shared.manager.io.handBack r.afd ok) fun key closure hat =>
        h.shared.actions key closure ((PartialMap.erase_eq_some _).mp (hactions ▸ hat)).2
      have hset := hgo.setWork .eventLoop [next] fun sec hsec => ?_
      · exact ⟨hset.shared, hset.work, hidle⟩
      · rw [List.mem_singleton.mp hsec]
        have hfits : r.Resolves next := hr.fits _ houtcome
        unfold Running.Resolves at hfits
        split at hfits
        · obtain ⟨_, rfl⟩ := hfits
          trivial
        · obtain ⟨_, rfl⟩ := hfits
          trivial
  | aborted _ _ =>
      have hgo := h.goOn p.shared.manager.io h.shared.actions
      exact ⟨⟨hgo.shared.entries, hgo.shared.queues, hgo.shared.actions, hgo.shared.placed,
        hgo.shared.wrote⟩, fun t sec hsec => Shared.Addresses.mono (fun _ hmem => hmem)
        (h.work t sec hsec), fun r hr => Shared.Carries.mono (fun _ hmem => hmem) (h.running r hr)⟩
  | @destroy token ok _ _ =>
      exact h.goOn _ fun key closure hat =>
        h.shared.actions key closure
          (PartialMap.eq_some_of_kept (p.shared.manager.io.destroy_taken token ok key) hat)

/-- If a number is given to a new socket only when nothing names it, no message goes to another
peer. -/
theorem right_peer (self : PeerId) (order : ByteOrder) (inputs : List Input)
    (h : machine.EachStep OpensUnnamed (init self order) inputs) :
    machine.Always RightPeer (init self order) inputs := by
  refine Machine.always_of_eachStep
    (I := fun p => p.Wf ∧ (∃ latest, p.Owned latest) ∧ p.Parts ∧ p.Addressed) (fun p hp => ?_)
    (fun p input p' hp hok hstep => ?_) inputs
    ⟨init_wf self order, ⟨_, init_owned self order⟩, init_parts self order,
      init_addressed self order⟩ h
  · exact ⟨hp.2.2.2.shared.placed, hp.2.2.2.shared.wrote⟩
  · obtain ⟨hwf, ⟨latest, howned⟩, hparts, haddressed⟩ := hp
    have hcases := step_cases hstep
    exact ⟨hwf.step hcases, ⟨_, howned.step hwf hok hcases⟩, hparts.step hwf hok hcases,
      haddressed.step hwf howned hparts hcases⟩

/-- A message for a peer that has connected. -/
theorem right_peer_of_message :
    machine.Always RightPeer (init bob .little)
      (acceptsFrom 5 ann ++ [.call .manager (.sendMessage ann [7])] ++ managerRuns 5 ++ writes 5 4
        ++ writes 5 1 ++ loopRuns 2) :=
  right_peer bob .little _ (eachStep_of_accept bob .little 5 _ (by decide))

/-- `SendMessage` has looked up the number of `ann`'s connection when that is closed and `carl` gets
the number; her message is put in his queue. -/
theorem next_peer_gets_message :
    ¬ ∀ (self : PeerId) (order : ByteOrder) (inputs : List Input) (p : Process),
      machine.exec (init self order) inputs = some p → p.RightPeer := by
  intro h
  have hrun : (machine.exec (init bob .little)
      (acceptsFrom 5 ann ++ [.call .manager (.sendMessage ann [7])] ++ managerRuns 2 ++ reads 5 []
        ++ loopRuns 7 ++ acceptsFrom 5 carl ++ managerRuns 1)).map
      (fun p => (p.shared.placed, p.shared.entered))
      = some ([(1, ⟨ann, [7]⟩)], [(0, (ann, .incoming)), (1, (carl, .incoming))]) := by
    decide +kernel
  obtain ⟨p, hexec, hlogs⟩ := Option.map_eq_some_iff.mp hrun
  obtain ⟨hplaced, hentered⟩ := Prod.mk.inj hlogs
  obtain ⟨dir, hmem⟩ := (h _ _ _ p hexec).placed (1, ⟨ann, [7]⟩) (by simp [hplaced])
  rw [hentered] at hmem
  have hcarl : ann = carl ∧ dir = .incoming := by simpa using hmem
  exact absurd hcarl.1 (by decide)

end Process

end Diplom
