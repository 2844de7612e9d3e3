import Diplom.Lib.Machine
import Diplom.Transport.ConnManager

/-!
# The connection manager on two threads

The `TransportManager` calls from its own thread while the event loop runs callbacks on another one,
and inside a notification it may call again. Here each part of a function that holds one of the
mutexes is a step of its own, as is each system call, and the steps of the two threads may come in
any order. `_connMutex` keeps the calls of a `TransportManager` apart.

A thread has a stack of sections that it still has to run. A section runs on what the threads share
and puts the sections that follow it in its own place. Code that has read a descriptor from a table
goes on with the number, whoever has it by then; a `Handle` keeps beside the number the socket it
was meant for, and the logs keep what was done to which socket. Neither is known to the program.

Other code of the process opens descriptors out of the same numbers while the manager runs:
`ProcessHello` the timer of a peer, which stays, and `getifaddrs` a socket that it closes before it
returns. A `Sock` stands for whatever is behind such a number too.
-/

namespace Diplom

/-- A descriptor that running code holds, and the socket it stands for. -/
structure Handle where
  fd : Fd
  sock : Sock
deriving DecidableEq, Repr

inductive ThreadId
  | manager
  | eventLoop
deriving DecidableEq, Repr

/-- A call of the public functions of `IpTransport`. -/
inductive Call
  | openSession (peer : PeerId)
  | closeSession (peer : PeerId) (dir : LinkDirection)
  | sendMessage (peer : PeerId) (msg : Message)
deriving DecidableEq

/-- What a thread does in one step. -/
inductive Section
  /- the two ends of a `std::unique_lock` on `_connMutex` -/
  | lockConn
  | unlockConn
  /- `EstablishConnection` -/
  | checkSession (peer : PeerId)
  | dial (peer : PeerId)
  /- one half of `CloseConn` -/
  | closeConnDir (conn : Conn)
  /- `CloseFD` -/
  | deregisterFd (h : Handle)
  | closeFd (h : Handle)
  | eraseActive (h : Handle)
  | eraseConnToFd (h : Handle) (conn : Conn)
  | eraseQueue (h : Handle) (conn : Conn)
  /- `close(async_fd->Release())` -/
  | closeHello (h : Handle)
  /- `SendMessage`, `SendMessageFd` and its lambda -/
  | lookupFd (peer : PeerId) (msg : Message)
  | pushBack (h : Handle) (parcel : Parcel)
  | takeFront (h : Handle)
  | popFront (h : Handle)
  /- `RecvMessage` and `SendMessage` of a new `AsyncFd`, and the lambdas given to them -/
  | recvMessage (h : Handle) (resolve : OnMessage)
  | received (h : Handle) (resolve : OnMessage) (res : IoResult Message)
  | sendMessage (h : Handle) (data : Message) (resolve : OnSent)
  | sent (h : Handle) (resolve : OnSent) (res : IoResult Unit)
  /- the end of a hello exchange -/
  | insertActive (h : Handle) (conn : Conn)
  | insertConnToFd (h : Handle) (conn : Conn)
  | insertQueue (h : Handle) (conn : Conn)
  /- a call on the `TransportManager` -/
  | notify (note : Notification)
deriving DecidableEq

/-- The sections of a call. -/
def Call.sections : Call → List Section
  | .openSession peer => [.lockConn, .checkSession peer, .unlockConn]
  | .closeSession peer dir =>
      .lockConn :: ((if dir = .all ∨ dir = .incoming then [.closeConnDir (peer, .incoming)] else [])
        ++ ((if dir = .all ∨ dir = .outgoing then [.closeConnDir (peer, .outgoing)] else [])
          ++ [.unlockConn]))
  | .sendMessage peer msg => [.lockConn, .lookupFd peer msg, .unlockConn]

/-- What system calls answer, and what the `TransportManager` calls while it is notified. -/
structure Answer where
  /-- `epoll_ctl`. -/
  ok : Bool
  /-- `getpeername`. -/
  address : Bool
  dial : ConnectionManager.Dial
  calls : List Call

inductive TouchCall
  | close
  | deregisterFd
  | registerAction
deriving DecidableEq, Repr

/-- A call that names a descriptor: the handle it was made for, and the sockets it reached. -/
structure Touch where
  call : TouchCall
  own : Handle
  hits : List Sock
deriving DecidableEq, Repr

/-- What the threads share. -/
structure Shared where
  manager : ConnectionManager
  /-- The socket that an entry of `connToFd` was made for. -/
  entryOf : Conn → Sock
  /-- The socket that a queue was made for. -/
  queueOf : Fd → Sock
  /-- The socket that a registered action was meant for. -/
  actionOf : FdDirection → Sock
  /-- The connections entered in `activeConns`. -/
  entered : List (Sock × Conn)
  /-- The messages put in queues. -/
  placed : List (Sock × Parcel)
  /-- The messages given to `AsyncFd::SendMessage`. -/
  handed : List (Sock × Parcel)
  /-- The sockets that bytes of a message were sent to. -/
  wrote : List (Sock × Parcel)
  touched : List Touch

namespace Shared

variable (s : Shared)

def init (self : PeerId) (order : ByteOrder) : Shared where
  manager := .init self order
  entryOf := fun _ => 0
  queueOf := fun _ => 0
  actionOf := fun _ => 0
  entered := []
  placed := []
  handed := []
  wrote := []
  touched := []

def setManager (manager : ConnectionManager) : Shared := { s with manager := manager }

def setIo (io : Io OnMessage OnSent) : Shared := { s with manager := { s.manager with io := io } }

/-- The socket that a number leads to. -/
def socketAt (fd : Fd) : List Sock := (s.manager.io.fds fd).toList

/-- The sockets that the actions of a number were meant for. -/
def actionSockets (fd : Fd) : List Sock :=
  [⟨fd, .input⟩, ⟨fd, .output⟩].filterMap fun key =>
    if s.manager.io.loop.fdToCallback.contains key then some (s.actionOf key) else none

def touch (call : TouchCall) (h : Handle) (hits : List Sock) : Shared :=
  { s with touched := s.touched ++ [⟨call, h, hits⟩] }

/-- An action is registered for a handle. -/
def claim (h : Handle) (dir : IoDirection) : Shared :=
  { s with actionOf := fun key => if key = ⟨h.fd, dir⟩ then h.sock else s.actionOf key }

/-- `socket` or `accept` gave the number `fd`: the handle of the new socket. -/
def newHandle (fd : Fd) : Handle := ⟨fd, s.manager.io.nextSock⟩

/-! ### The lambdas, up to their first mutex or through it -/

/-- A lambda that waits for a message. -/
def received (h : Handle) (res : IoResult Message) (address : Bool) : OnMessage → List Section
  | .incomingHello =>
      match res with
      | .err _ => [.closeHello h]
      | .ok msg =>
          match HelloMsg.deserialize msg with
          | none => [.closeHello h]
          | some hello =>
              if hello.type ≠ helloNotify then [.closeHello h]
              else if address = false then [.closeHello h]
              else [.sendMessage h (HelloMsg.make s.manager.self helloAnswer).serialize
                (.helloAnswer hello.id)]
  | .outgoingAnswer peer =>
      match res with
      | .err _ => [.closeHello h]
      | .ok msg =>
          match HelloMsg.deserialize msg with
          | none => [.closeHello h]
          | some hello =>
              if hello.id ≠ peer ∨ hello.type ≠ helloAnswer then [.closeHello h]
              else [.insertActive h (peer, .outgoing)]
  | .readMessage =>
      match s.manager.activeConns h.fd with
      | none => []
      | some (peer, _) =>
          match res with
          | .err _ => [.deregisterFd h]
          | .ok msg => [.notify (.receivedMessage peer msg), .recvMessage h .readMessage]

/-- A lambda that waits for a message to be sent. -/
def sent (h : Handle) (res : IoResult Unit) : OnSent → List Section
  | .helloAnswer peer =>
      match res with
      | .err _ => [.closeHello h]
      | .ok _ => [.insertActive h (peer, .incoming)]
  | .helloNotify peer =>
      match res with
      | .err _ => [.notify (.error peer ⟨.error, .outgoing⟩), .closeHello h]
      | .ok _ => [.recvMessage h (.outgoingAnswer peer)]
  | .queued _ =>
      match s.manager.activeConns h.fd with
      | none => []
      | some _ => [.popFront h]

/-! ### Sections -/

/-- `socket` and `connect`. An error of `connect` is reported, and the exchange starts all the same.
-/
def dial (peer : PeerId) (answers : ConnectionManager.Dial) : Option (Shared × List Section) :=
  if answers.address = false then some (s, [.notify (.error peer ⟨.noSuchPeer, .outgoing⟩)])
  else
    match answers.socket with
    | none => some (s, [.notify (.error peer ⟨.error, .outgoing⟩)])
    | some fd =>
        if s.manager.Unused fd then
          let hello :=
            .sendMessage (s.newHandle fd) (HelloMsg.make s.manager.self helloNotify).serialize
              (.helloNotify peer)
          some (s.setIo (s.manager.io.openFd fd),
            if answers.connect = .failed then
              [.notify (.error peer ⟨.error, .outgoing⟩), hello]
            else [hello])
        else none

/-- The first entry for a descriptor stays, as `insert` has it. -/
def insertActive (h : Handle) (conn : Conn) : Shared :=
  { s.setManager (s.manager.insertActive h.fd conn) with
    entered := s.entered ++ if s.manager.activeConns h.fd = none then [(h.sock, conn)] else [] }

def insertConnToFd (h : Handle) (conn : Conn) : Shared :=
  { s.setManager (s.manager.insertConnToFd h.fd conn) with
    entryOf := if s.manager.connToFd conn = none then fun c =>
      if c = conn then h.sock else s.entryOf c else s.entryOf }

def insertQueue (h : Handle) : Shared :=
  { s.setManager (s.manager.insertQueue h.fd) with
    queueOf := if s.manager.sendQueues h.fd = none then fun fd =>
      if fd = h.fd then h.sock else s.queueOf fd else s.queueOf }

/-- In `SendMessage`, under `sendQueueMut_`. -/
def pushBack (h : Handle) (parcel : Parcel) : Shared × List Section :=
  match s.manager.pushBack h.fd parcel with
  | none => (s, [])
  | some (alone, manager) =>
      ({ s.setManager manager with placed := s.placed ++ [(s.queueOf h.fd, parcel)] },
        if alone then [.takeFront h] else [])

/-- `RecvMessage` of a new `AsyncFd`. -/
def recvMessage (h : Handle) (resolve : OnMessage) (ok : Bool) : Shared × List Section :=
  let s := s.touch .registerAction h (s.socketAt h.fd)
  match s.manager.io.recvMessage h.fd resolve ok with
  | some io => ((s.setIo io).claim h .input, [])
  | none => (s, [.received h resolve (.err .error)])

/-- The message that `AsyncFd::SendMessage` is given. -/
def hand (h : Handle) (data : Message) (resolve : OnSent) : Shared :=
  { s with
    handed := s.handed ++
      match resolve with
      | .queued parcel => [(h.sock, { parcel with body := data })]
      | _ => [] }

/-- `SendMessage` of a new `AsyncFd`. -/
def sendMessage (h : Handle) (data : Message) (resolve : OnSent) (ok : Bool) :
    Shared × List Section :=
  let s := s.hand h data resolve
  match s.manager.io.sendMessage h.fd data resolve ok with
  | .pending io => (((s.touch .registerAction h (s.socketAt h.fd)).setIo io).claim h .output, [])
  | .failed => (s.touch .registerAction h (s.socketAt h.fd), [.sent h resolve (.err .error)])
  | .aborted => (s.setManager s.manager.abort, [])

/-- One section: what is shared afterwards, and what the thread does next. The two of `_connMutex`
are not run here. -/
def run (answer : Answer) : Section → Option (Shared × List Section)
  | .lockConn | .unlockConn => none
  | .checkSession peer =>
      some (s,
        if s.manager.connToFd.contains (peer, .outgoing) then
          [.notify (.error peer ⟨.sessionExists, .outgoing⟩)]
        else [.dial peer])
  | .dial peer => s.dial peer answer.dial
  | .closeConnDir conn =>
      some (s,
        match s.manager.connToFd conn with
        | none => []
        | some fd => [.deregisterFd ⟨fd, s.entryOf conn⟩])
  | .deregisterFd h =>
      some ((s.touch .deregisterFd h (s.socketAt h.fd ++ s.actionSockets h.fd)).setIo
        (s.manager.io.deregisterFd h.fd answer.ok), [.closeFd h])
  | .closeFd h =>
    some ((s.touch .close h (s.socketAt h.fd)).setIo (s.manager.io.close h.fd), [.eraseActive h])
  | .eraseActive h =>
      some
        (match s.manager.eraseActive h.fd with
        | none => (s, [])
        | some (conn, manager) => (s.setManager manager, [.eraseConnToFd h conn]))
  | .eraseConnToFd h conn =>
    some (s.setManager (s.manager.eraseConnToFd conn), [.eraseQueue h conn])
  | .eraseQueue h conn =>
    some (s.setManager (s.manager.eraseQueue h.fd), [.notify (.sessionLost conn.1 conn.2)])
  | .closeHello h => some ((s.touch .close h (s.socketAt h.fd)).setIo (s.manager.io.close h.fd), [])
  | .lookupFd peer msg =>
      some (s,
        match s.manager.connToFd (peer, .outgoing) with
        | some fd => [.pushBack ⟨fd, s.entryOf (peer, .outgoing)⟩ ⟨peer, msg⟩]
        | none =>
            match s.manager.connToFd (peer, .incoming) with
            | some fd => [.pushBack ⟨fd, s.entryOf (peer, .incoming)⟩ ⟨peer, msg⟩]
            | none => [])
  | .pushBack h parcel => some (s.pushBack h parcel)
  | .takeFront h =>
      some
        (match s.manager.takeFront h.fd with
        | none => (s, [])
        | some (parcel, manager) =>
          (s.setManager manager, [.sendMessage h parcel.body (.queued parcel)]))
  | .popFront h =>
      some
        (match s.manager.popFront h.fd with
        | none => (s, [])
        | some (more, manager) => (s.setManager manager, if more then [.takeFront h] else []))
  | .recvMessage h resolve => some (s.recvMessage h resolve answer.ok)
  | .received h resolve res => some (s, s.received h res answer.address resolve)
  | .sendMessage h data resolve => some (s.sendMessage h data resolve answer.ok)
  | .sent h resolve res => some (s, s.sent h res resolve)
  | .insertActive h conn => some (s.insertActive h conn, [.insertConnToFd h conn])
  | .insertConnToFd h conn => some (s.insertConnToFd h conn, [.insertQueue h conn])
  | .insertQueue h conn =>
      some (s.insertQueue h,
        if conn.2 = .outgoing then [.recvMessage h .readMessage,
          .notify (.sessionOpened conn.1 conn.2)]
        else [.notify (.sessionOpened conn.1 conn.2), .recvMessage h .readMessage])
  | .notify note => some (s.setManager (s.manager.notify note), answer.calls.flatMap Call.sections)

end Shared

/-! ### Callbacks -/

/-- What is left of a callback after its system call. -/
inductive Outcome
  | keep (next : Closure OnMessage OnSent)
  | replace (next : Closure OnMessage OnSent)
  | resolve (next : Section)
  | abort

/-- A callback that the event loop has fetched and not finished. -/
structure Running where
  handle : Handle
  afd : AsyncFd
  closure : Closure OnMessage OnSent
  outcome : Option Outcome

namespace Running

variable (r : Running)

/-- The place of the action. -/
def key : FdDirection := ⟨r.handle.fd, r.closure.dir⟩

/-- The lambda is given an error. -/
def failed : Section :=
  match r.closure with
  | .recv _ resolve => .received r.handle resolve (.err .error)
  | .send _ resolve => .sent r.handle resolve (.err .error)

/-- The outcome of an event for a receiver. -/
def recvOutcome (h : Handle) (resolve : OnMessage) : Progress RecvOp Message → Outcome
  | .waiting op => .keep (.recv op resolve)
  | .next op => .replace (.recv op resolve)
  | .resolved res => .resolve (.received h resolve res)
  | .aborted => .abort

def sendOutcome (h : Handle) (resolve : OnSent) : Progress SendOp Unit → Outcome
  | .waiting op => .keep (.send op resolve)
  | .next op => .replace (.send op resolve)
  | .resolved res => .resolve (.sent h resolve res)
  | .aborted => .abort

end Running

/-- The operation of an object is still the one in its place. -/
def Io.Holds (io : Io OnMessage OnSent) (key : FdDirection) (a : AsyncFd) : Prop :=
  io.loop.fdToCallback.contains key = true ∧ io.objects key = some a

instance (io : Io OnMessage OnSent) (key : FdDirection) (a : AsyncFd) :
    Decidable (io.Holds key a) := by
  unfold Io.Holds
  infer_instance

/-- `Deregister` of a running object, which has no token afterwards. -/
def Io.handBack (io : Io OnMessage OnSent) (a : AsyncFd) (ok : Bool) : Io OnMessage OnSent :=
  { io.destroy a.token ok with orphans := (io.destroy a.token ok).orphans.erase a.token }

namespace Shared

variable (s : Shared)

/-- `recv` or `send` on the number that the callback has. -/
def transfer (r : Running) (res : EpollResult) (recv : RecvReturn) (send : SendReturn) :
    Shared × Outcome :=
  let io := s.manager.io
  match r.closure with
  | .recv op resolve =>
      (s.setIo { io with taken := appendTo io.taken (io.fds r.handle.fd) (recv.bytes res) },
        Running.recvOutcome r.handle resolve (op.event io.order res recv))
  | .send op resolve =>
      let bytes := op.put res send
      let wrote :=
        match resolve with
        | .queued parcel => if bytes = [] then [] else (s.socketAt r.handle.fd).map fun sock =>
          (sock, parcel)
        | _ => []
      ({ s.setIo { io with written := appendTo io.written (io.fds r.handle.fd) bytes } with wrote :=
        s.wrote ++ wrote }, Running.sendOutcome r.handle resolve (op.event res send))

end Shared

/-- The process. -/
structure Process where
  shared : Shared
  /-- The numbers that other code of the process has opened and will close itself. -/
  others : List Fd
  /-- The owner of `_connMutex`. -/
  connMutex : Option ThreadId
  work : ThreadId → List Section
  running : Option Running

namespace Process

variable (p : Process)

def init (self : PeerId) (order : ByteOrder) : Process where
  shared := .init self order
  others := []
  connMutex := none
  work := fun _ => []
  running := none

def setWork (t : ThreadId) (work : List Section) : Process :=
  { p with work := fun t' => if t' = t then work else p.work t' }

def setIo (io : Io OnMessage OnSent) : Process := { p with shared := p.shared.setIo io }

/-- A thread has nothing left to do. -/
def Idle (t : ThreadId) : Prop := p.work t = [] ∧ (t = .eventLoop → p.running = none)

instance (t : ThreadId) : Decidable (p.Idle t) := by
  unfold Idle
  infer_instance

inductive Input
  /-- A thread runs its next section. -/
  | run (t : ThreadId) (answer : Answer)
  /-- A thread begins a call: the manager's own, or the event loop's for the broadcast manager. -/
  | call (t : ThreadId) (call : Call)
  /-- `AcceptConn`. -/
  | accept (fd : Fd)
  /-- `timerfd_create`, or a socket of `getifaddrs`. -/
  | openOther (fd : Fd)
  | closeOther (fd : Fd)
  /-- The loop fetches a callback under its mutex. -/
  | fetch (fd : Fd) (dir : IoDirection)
  /-- The callback makes its system call. -/
  | transfer (res : EpollResult) (recv : RecvReturn) (send : SendReturn)
  /-- The callback goes on with what the call returned. -/
  | finish (ok : Bool)
  | destroy (token : CancellationToken) (ok : Bool)

/-- The rest of a callback, one mutex of the loop at a time. -/
def finish (r : Running) (ok : Bool) : Outcome → Process
  | .keep next =>
      let io := p.shared.manager.io
      { (if io.Holds r.key r.afd then p.setIo
        { io with loop := r.afd.keep io.loop next } else p) with running := none }
  | .replace next =>
      match p.shared.manager.io.loop.replaceAction r.afd.token next with
      | (true, loop) => { p.setIo { p.shared.manager.io with loop := loop } with running := none }
      | (false, _) => { p with running := some { r with outcome := some (.resolve r.failed) } }
  | .resolve next =>
      { (p.setIo (p.shared.manager.io.handBack r.afd ok)).setWork .eventLoop [next] with running :=
        none }
  | .abort => { p with shared := p.shared.setManager p.shared.manager.abort }

def step (input : Input) : Option Process :=
  if p.shared.manager.alive = false then none
  else
    match input with
    | .run t answer =>
        match p.work t with
        | [] => none
        | .lockConn :: rest =>
          if p.connMutex = none then some { p.setWork t rest with connMutex := some t } else none
        | .unlockConn :: rest => some { p.setWork t rest with connMutex := none }
        | sec :: rest => (p.shared.run answer sec).map fun (shared, next) =>
          { p.setWork t (next ++ rest) with shared := shared }
    | .call t call => if p.Idle t then some (p.setWork t call.sections) else none
    | .accept fd =>
        if p.Idle .eventLoop ∧ p.shared.manager.Unused fd then
          some ((p.setIo (p.shared.manager.io.openFd fd)).setWork .eventLoop
            [.recvMessage (p.shared.newHandle fd) .incomingHello])
        else none
    | .openOther fd =>
        if p.shared.manager.Unused fd then
          some { p.setIo (p.shared.manager.io.openFd fd) with others := fd :: p.others }
        else none
    | .closeOther fd =>
        if fd ∈ p.others then
          some { p.setIo (p.shared.manager.io.close fd) with others := p.others.erase fd }
        else none
    | .fetch fd dir =>
        if p.Idle .eventLoop then
          match p.shared.manager.io.loop.callbackAt fd dir,
            p.shared.manager.io.objects ⟨fd, dir⟩ with
          | some closure, some a =>
              some { p with running := some ⟨⟨fd, p.shared.actionOf ⟨fd, dir⟩⟩, a, closure, none⟩ }
          | _, _ => none
        else none
    | .transfer res recv send =>
        match p.running with
        | some ⟨h, a, closure, none⟩ =>
            let (shared, outcome) := p.shared.transfer ⟨h, a, closure, none⟩ res recv send
            some { p with shared := shared, running := some ⟨h, a, closure, some outcome⟩ }
        | _ => none
    | .finish ok =>
        match p.running with
        | some ⟨h, a, closure, some outcome⟩ =>
          some (p.finish ⟨h, a, closure, some outcome⟩ ok outcome)
        | _ => none
    | .destroy token ok =>
        if p.Idle .eventLoop ∧ token ∈ p.shared.manager.io.orphans then
          some (p.setIo (p.shared.manager.io.destroy token ok))
        else none

def machine : Machine Process Input := ⟨step⟩

end Process

end Diplom
