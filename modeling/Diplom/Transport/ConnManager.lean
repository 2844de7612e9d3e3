import Diplom.Transport.Hello
import Diplom.Transport.Io

/-!
# The connection manager

`ConnectionManager` runs the two hello exchanges, keeps the tables of established connections, and
sends and receives on them. Its functions here are cut where the source cuts them: a lambda given to
`AsyncFd` is a function of its own, named after the event it waits for, and each part of a function
that holds one of the three mutexes is one of the operations on the tables.

What system calls answer is given from outside: whether `epoll_ctl` accepts a registration, whether
`getpeername` knows the other end, what `socket` and `connect` return. `Io` adds what follows from
its own state, such as that a closed descriptor cannot be registered.

The loop runs one callback after another, and `step` runs one to its end, or one call of the
manager. So what is said of its runs is said of runs in which no call overlaps a callback, nor is
made from inside one; `Threads.lean` has the two threads with every overlap. `ProcessHello`, which
the incoming exchange calls between receiving and answering, works on other tables and is not part
of this one.
-/

namespace Diplom

/-- The peer and the direction of an established connection. -/
abbrev Conn := PeerId × LinkDirection

/-- A message in a queue, and beside it the peer it is meant for, which the program forgets. -/
structure Parcel where
  peer : PeerId
  body : Message
deriving DecidableEq

/-- What `std::move` leaves in the queue. -/
def Parcel.movedOut (p : Parcel) : Parcel := { p with body := [] }

/-- The lambdas that wait for a message. -/
inductive OnMessage
  | incomingHello
  | outgoingAnswer (peer : PeerId)
  | readMessage
deriving DecidableEq

/-- The lambdas that wait for a message to be sent. -/
inductive OnSent
  | helloAnswer (peer : PeerId)
  | helloNotify (peer : PeerId)
  | queued (parcel : Parcel)
deriving DecidableEq

structure ConnectionManager where
  /-- `ipTransport_->_self`. -/
  self : PeerId
  io : Io OnMessage OnSent
  activeConns : PartialMap Fd Conn
  connToFd : PartialMap Conn Fd
  sendQueues : PartialMap Fd (List Parcel)
  /-- The calls on the `TransportManager`, in order. -/
  notes : List Notification
  /-- Every socket that was entered in `activeConns`, with its entry, in order. -/
  records : List (Sock × Conn)
  /-- Every message that was put in the queue of a socket, in order. -/
  pushed : Sock → List Parcel
  /-- Whether the process still runs. -/
  alive : Bool

namespace ConnectionManager

variable (w : ConnectionManager)

def init (self : PeerId) (order : ByteOrder) : ConnectionManager where
  self := self
  io := .init order
  activeConns := .empty
  connToFd := .empty
  sendQueues := .empty
  notes := []
  records := []
  pushed := fun _ => []
  alive := true

/-- A call on the `TransportManager`. -/
def notify (note : Notification) : ConnectionManager := { w with notes := w.notes ++ [note] }

/-- A failed assertion, or undefined behaviour. -/
def abort : ConnectionManager := { w with alive := false }

/-! ### The tables, one mutex at a time -/

/-- Under `activeConnsMut_`, when a hello exchange is through. -/
def insertActive (fd : Fd) (conn : Conn) : ConnectionManager :=
  { w with
    activeConns := w.activeConns.insert fd conn
    records := w.records ++ ((w.io.fds fd).map fun sock => (sock, conn)).toList }

/-- Under `connToFdMut_`. -/
def insertConnToFd (fd : Fd) (conn : Conn) : ConnectionManager :=
  { w with connToFd := w.connToFd.insert conn fd }

/-- Under `sendQueueMut_`. -/
def insertQueue (fd : Fd) : ConnectionManager :=
  { w with sendQueues := w.sendQueues.insert fd [] }

/-- In `CloseFD`, under `activeConnsMut_`: the connection, if there is one, and the table without
it. -/
def eraseActive (fd : Fd) : Option (Conn × ConnectionManager) :=
  (w.activeConns fd).map fun conn => (conn, { w with activeConns := w.activeConns.erase fd })

/-- In `CloseFD`, under `connToFdMut_`. -/
def eraseConnToFd (conn : Conn) : ConnectionManager :=
  { w with connToFd := w.connToFd.erase conn }

/-- In `CloseFD`, under `sendQueueMut_`. -/
def eraseQueue (fd : Fd) : ConnectionManager :=
  { w with sendQueues := w.sendQueues.erase fd }

/-- In `SendMessage`, under `connToFdMut_`: the outgoing connection if there is one, else the
incoming one. -/
def lookupFd (peer : PeerId) : Option Fd :=
  match w.connToFd (peer, .outgoing) with
  | some fd => some fd
  | none => w.connToFd (peer, .incoming)

/-- In `SendMessage`, under `sendQueueMut_`: nothing if there is no queue, else the queue with the
message, and whether the message is alone in it. -/
def pushBack (fd : Fd) (parcel : Parcel) : Option (Bool × ConnectionManager) :=
  (w.sendQueues fd).map fun queue =>
    ((queue ++ [parcel]).length ≤ 1,
      { w with
        sendQueues := w.sendQueues.set fd (queue ++ [parcel])
        pushed := appendTo w.pushed (w.io.fds fd) [parcel] })

/-- In `SendMessageFd`, under `sendQueueMut_`: the front message is moved out and its place stays.
-/
def takeFront (fd : Fd) : Option (Parcel × ConnectionManager) :=
  match w.sendQueues fd with
  | some (parcel :: rest) =>
    some (parcel, { w with sendQueues := w.sendQueues.set fd (parcel.movedOut :: rest) })
  | _ => none

/-- In the lambda of `SendMessageFd`, under `sendQueueMut_`: whether messages are left after the
front one is gone. There is no front to remove in an empty queue. -/
def popFront (fd : Fd) : Option (Bool × ConnectionManager) :=
  match w.sendQueues fd with
  | none => none
  | some [] => some (false, w.abort)
  | some (_ :: rest) => some (rest ≠ [], { w with sendQueues := w.sendQueues.set fd rest })

/-! ### Closing and reading -/

/-- `close(async_fd->Release())`, when the operation of `async_fd` has been resolved. -/
def closeHello (fd : Fd) : ConnectionManager := { w with io := w.io.close fd }

/-- `CloseFD`. -/
def closeFD (fd : Fd) (ok : Bool) : ConnectionManager :=
  let w := { w with io := (w.io.deregisterFd fd ok).close fd }
  match w.eraseActive fd with
  | none => w
  | some (conn, w) => ((w.eraseConnToFd conn).eraseQueue fd).notify (.sessionLost conn.1 conn.2)

/-- The lambda of `ReadMessage` after an error. -/
def readFailed (fd : Fd) (ok : Bool) : ConnectionManager :=
  match w.activeConns fd with
  | none => w
  | some _ => w.closeFD fd ok

/-- `ReadMessage`. -/
def readMessage (fd : Fd) (register deregister : Bool) : ConnectionManager :=
  match w.io.recvMessage fd .readMessage register with
  | some io => { w with io := io }
  | none => w.readFailed fd deregister

/-- The lambda of `ReadMessage`. -/
def messageRead (fd : Fd) (res : IoResult Message) (register deregister : Bool) :
    ConnectionManager :=
  match res with
  | .err _ => w.readFailed fd deregister
  | .ok msg =>
      match w.activeConns fd with
      | none => w
      | some (peer, _) => (w.notify (.receivedMessage peer msg)).readMessage fd register deregister

/-! ### The hello exchanges -/

/-- A hello exchange is through: the three tables are filled one after another. -/
def established (fd : Fd) (conn : Conn) : ConnectionManager :=
  ((w.insertActive fd conn).insertConnToFd fd conn).insertQueue fd

/-- `IncomingHelloExchange`. -/
def incomingHelloExchange (fd : Fd) (register : Bool) : ConnectionManager :=
  match w.io.recvMessage fd .incomingHello register with
  | some io => { w with io := io }
  | none => w.closeHello fd

/-- The outer lambda of `IncomingHelloExchange`. `address` says whether `getpeername` knows the
other end. -/
def incomingHello (fd : Fd) (res : IoResult Message) (address register : Bool) :
    ConnectionManager :=
  match res with
  | .err _ => w.closeHello fd
  | .ok msg =>
      match HelloMsg.deserialize msg with
      | none => w.closeHello fd
      | some hello =>
          if hello.type ≠ helloNotify then w.closeHello fd
          else if address = false then w.closeHello fd
          else
            match w.io.sendMessage fd (HelloMsg.make w.self helloAnswer).serialize
              (.helloAnswer hello.id) register with
            | .pending io => { w with io := io }
            | .failed => w.closeHello fd
            | .aborted => w.abort

/-- The inner lambda of `IncomingHelloExchange`: the answer has been sent. -/
def helloAnswerSent (fd : Fd) (peer : PeerId) (res : IoResult Unit) (register deregister : Bool) :
    ConnectionManager :=
  match res with
  | .err _ => w.closeHello fd
  | .ok _ =>
      ((w.established fd (peer, .incoming)).notify (.sessionOpened peer .incoming)).readMessage fd
      register deregister

/-- The inner lambda of `OutgoingHelloExchange`: the answer has come. -/
def outgoingAnswer (fd : Fd) (peer : PeerId) (res : IoResult Message) (register deregister : Bool) :
    ConnectionManager :=
  match res with
  | .err _ => w.closeHello fd
  | .ok msg =>
      match HelloMsg.deserialize msg with
      | none => w.closeHello fd
      | some hello =>
          if hello.id ≠ peer ∨ hello.type ≠ helloAnswer then w.closeHello fd
          else
            -- the reader starts before the session is announced
            ((w.established fd (peer, .outgoing)).readMessage fd register deregister).notify
            (.sessionOpened peer .outgoing)

/-- The outer lambda of `OutgoingHelloExchange`: the hello has been sent. -/
def helloNotifySent (fd : Fd) (peer : PeerId) (res : IoResult Unit) (register : Bool) :
    ConnectionManager :=
  match res with
  | .err _ => (w.notify (.error peer ⟨.error, .outgoing⟩)).closeHello fd
  | .ok _ =>
      match w.io.recvMessage fd (.outgoingAnswer peer) register with
      | some io => { w with io := io }
      | none => w.closeHello fd

/-- `OutgoingHelloExchange`. -/
def outgoingHelloExchange (fd : Fd) (peer : PeerId) (register : Bool) : ConnectionManager :=
  match w.io.sendMessage fd (HelloMsg.make w.self helloNotify).serialize
    (.helloNotify peer) register with
  | .pending io => { w with io := io }
  | .failed => w.helloNotifySent fd peer (.err .error) register
  | .aborted => w.abort

/-- What `connect` on a non-blocking socket returns at once. -/
inductive ConnectResult
  | connected
  | inProgress
  | failed
deriving DecidableEq, Repr

/-- What the system calls of `EstablishConnection` return: whether the peer's address is known, the
new socket, the result of `connect`, and whether the sender of the hello is registered. -/
structure Dial where
  address : Bool
  socket : Option Fd
  connect : ConnectResult
  register : Bool
deriving DecidableEq, Repr

/-- `EstablishConnection`. -/
def establishConnection (peer : PeerId) (dial : Dial) : ConnectionManager :=
  if w.connToFd.contains (peer, .outgoing) then w.notify (.error peer ⟨.sessionExists, .outgoing⟩)
  else if dial.address = false then w.notify (.error peer ⟨.noSuchPeer, .outgoing⟩)
  else
    match dial.socket with
    | none => w.notify (.error peer ⟨.error, .outgoing⟩)
    | some fd =>
        let w := { w with io := w.io.openFd fd }
        -- no `return` after the error
        let w := if dial.connect = .failed then w.notify (.error peer ⟨.error, .outgoing⟩) else w
        w.outgoingHelloExchange fd peer dial.register

/-- One half of `CloseConn`. -/
def closeConnDir (conn : Conn) (ok : Bool) : ConnectionManager :=
  match w.connToFd conn with
  | none => w
  | some fd => w.closeFD fd ok

/-- `CloseConn`. -/
def closeConn (peer : PeerId) (dir : LinkDirection) (ok : Bool) : ConnectionManager :=
  let w := if dir = .all ∨ dir = .incoming then w.closeConnDir (peer, .incoming) ok else w
  if dir = .all ∨ dir = .outgoing then w.closeConnDir (peer, .outgoing) ok else w

/-! ### Sending -/

/-- The lambda of `SendMessageFd`. An error is only logged; `next` starts the message that has come
to the front. -/
def queuedSent (fd : Fd) (next : ConnectionManager → ConnectionManager) : ConnectionManager :=
  match w.activeConns fd with
  | none => w
  | some _ =>
      match w.popFront fd with
      | none => w
      | some (more, w) => if more then next w else w

/-- `SendMessageFd`, for at most `fuel` messages whose registration is refused. Each of them leaves
the queue, so its length is enough. -/
def sendMessageFd (fd : Fd) : Nat → List Bool → ConnectionManager → ConnectionManager
  | 0, _, w => w
  | fuel + 1, registers, w =>
      match w.takeFront fd with
      | none => w
      | some (parcel, w) =>
          match w.io.sendMessage fd parcel.body (.queued parcel) (registers.headD true) with
          | .pending io => { w with io := io }
          | .failed => w.queuedSent fd (sendMessageFd fd fuel registers.tail)
          | .aborted => w.abort

/-- How many messages wait on a descriptor. -/
def queueLength (fd : Fd) : Nat := ((w.sendQueues fd).getD []).length

/-- `SendMessageFd` with all the rounds it can take. -/
def startQueue (fd : Fd) (registers : List Bool) : ConnectionManager :=
  sendMessageFd fd (w.queueLength fd) registers w

/-- `SendMessage`. -/
def sendMessage (peer : PeerId) (msg : Message) (registers : List Bool) : ConnectionManager :=
  match w.lookupFd peer with
  | none => w
  | some fd =>
      match w.pushBack fd ⟨peer, msg⟩ with
      | none => w
      | some (alone, w) => if alone then w.startQueue fd registers else w

/-! ### Steps -/

/-- What system calls answer while one callback runs. -/
structure Answers where
  /-- `epoll_ctl`, when a registration is taken back. -/
  deregister : Bool
  /-- `getpeername`. -/
  address : Bool
  /-- `epoll_ctl`, for one registration after another. -/
  registers : List Bool
deriving DecidableEq, Repr

/-- `epoll_ctl`, for the first registration. -/
def Answers.register (a : Answers) : Bool := a.registers.headD true

inductive Event
  /-- `AcceptConn`, when `accept` gives a descriptor. -/
  | accept (fd : Fd) (register : Bool)
  | openSession (peer : PeerId) (dial : Dial)
  | closeSession (peer : PeerId) (dir : LinkDirection) (ok : Bool)
  | sendMessage (peer : PeerId) (msg : Message) (registers : List Bool)
  | readable (fd : Fd) (res : EpollResult) (ret : RecvReturn) (answers : Answers)
  | writable (fd : Fd) (res : EpollResult) (ret : SendReturn) (answers : Answers)
  | destroy (token : CancellationToken) (ok : Bool)

/-- A receiving operation has resolved. -/
def onMessage (fd : Fd) (resolve : OnMessage) (res : IoResult Message) (answers : Answers) :
    ConnectionManager :=
  match resolve with
  | .incomingHello => w.incomingHello fd res answers.address answers.register
  | .outgoingAnswer peer => w.outgoingAnswer fd peer res answers.register answers.deregister
  | .readMessage => w.messageRead fd res answers.register answers.deregister

/-- A sending operation has resolved. -/
def onSent (fd : Fd) (resolve : OnSent) (res : IoResult Unit) (answers : Answers) :
    ConnectionManager :=
  match resolve with
  | .helloAnswer peer => w.helloAnswerSent fd peer res answers.register answers.deregister
  | .helloNotify peer => w.helloNotifySent fd peer res answers.register
  | .queued _ => w.queuedSent fd fun w => w.startQueue fd answers.registers

/-- A number that the kernel may give to a new socket. -/
def Unused (fd : Fd) : Prop := 0 ≤ fd ∧ w.io.fds fd = none

instance (fd : Fd) : Decidable (w.Unused fd) := by
  unfold Unused
  infer_instance

def step (event : Event) : Option ConnectionManager :=
  if w.alive = false then none
  else
    match event with
    | .accept fd register =>
        if w.Unused fd then some
          ({ w with io := w.io.openFd fd }.incomingHelloExchange fd register) else none
    | .openSession peer dial =>
        if ∀ fd ∈ dial.socket, w.Unused fd then some (w.establishConnection peer dial) else none
    | .closeSession peer dir ok => some (w.closeConn peer dir ok)
    | .sendMessage peer msg registers => some (w.sendMessage peer msg registers)
    | .readable fd res ret answers =>
        (w.io.recvEvent fd res ret answers.deregister).map fun
          | .pending io => { w with io := io }
          | .resolved io resolve result => { w with io := io }.onMessage fd resolve result answers
          | .aborted => w.abort
    | .writable fd res ret answers =>
        (w.io.sendEvent fd res ret answers.deregister).map fun
          | .pending io => { w with io := io }
          | .resolved io resolve result => { w with io := io }.onSent fd resolve result answers
          | .aborted => w.abort
    | .destroy token ok =>
        if token ∈ w.io.orphans then some { w with io := w.io.destroy token ok } else none

end ConnectionManager

end Diplom
