import Diplom.Transport.Broadcast
import Diplom.Transport.ConnManager

/-!
# The transport

`IpTransport` puts the two managers together. The calls of a `TransportManager` run under
`_connMutex`; the callbacks of the event loop run without it, except that a change of the interfaces
closes sessions through the public call. Every notification is recorded together with whether the
thread that gives it holds the mutex.

A call or a callback runs to its end as one step, so the runs are those in which calls overlap no
callback. A call that a manager makes from inside a notification is a further step here; which
thread holds the mutex while it notifies does not depend on it.
-/

namespace Diplom

structure IpTransport where
  connManager : ConnectionManager
  brManager : BroadcastManager
  /-- Whether the running thread holds `_connMutex`. -/
  connMutex : Bool
  /-- Every notification, and whether it was given under `_connMutex`. -/
  given : List (Notification × Bool)

namespace IpTransport

variable (t : IpTransport)

/-- `Init`. -/
def init (self : PeerId) (order : ByteOrder) : IpTransport where
  connManager := .init self order
  brManager := .init self
  connMutex := false
  given := []

/-- The running thread gives a notification. -/
def notify (note : Notification) : IpTransport :=
  { t with given := t.given ++ [(note, t.connMutex)] }

/-- The connection manager has gone on to `conn`, and its notifications have been given. -/
def goOn (conn : ConnectionManager) : IpTransport :=
  { t with
    connManager := conn
    given := t.given ++ (conn.notes.drop t.connManager.notes.length).map fun note =>
      (note, t.connMutex) }

/-- Between the two ends of a `std::unique_lock` on `_connMutex`. -/
def locked (body : IpTransport → IpTransport) : IpTransport :=
  { body { t with connMutex := true } with connMutex := false }

/-! ### The calls of a manager -/

/-- `GetAddress`, and what system calls return. -/
def dial (peer : PeerId) (answers : ConnectionManager.Dial) : ConnectionManager.Dial :=
  { answers with address := (t.brManager.getAddress peer).isSome }

/-- `OpenSession`. -/
def openSession (peer : PeerId) (answers : ConnectionManager.Dial) : IpTransport :=
  t.locked fun t => t.goOn (t.connManager.establishConnection peer (t.dial peer answers))

/-- `SendMessage`. -/
def sendMessage (peer : PeerId) (msg : Message) (registers : List Bool) : IpTransport :=
  t.locked fun t => t.goOn (t.connManager.sendMessage peer msg registers)

/-- `CloseSession`. -/
def closeSession (peer : PeerId) (dir : LinkDirection) (ok : Bool) : IpTransport :=
  t.locked fun t => t.goOn (t.connManager.closeConn peer dir ok)

/-! ### The callbacks of the event loop -/

/-- What the broadcast manager asks for: `CloseSession`, `OnNeighborFound` or `OnNeighborLost`. -/
def obey (ok : Bool) : Deed → IpTransport
  | .closeSession peer dir => t.closeSession peer dir ok
  | .neighborFound peer => t.notify (.newNeighbour peer)
  | .neighborLost peer => t.notify (.lostNeighbour peer)
  | _ => t

/-- One wish after another, each with the answer of `epoll_ctl` in case it closes something. -/
def perform : List Deed → List Bool → IpTransport → IpTransport
  | [], _, t => t
  | deed :: rest, oks, t => perform rest oks.tail (t.obey (oks.headD true) deed)

/-- The broadcast manager has gone on to `br`, and what it asked for is done. -/
def broadcast (br : BroadcastManager) (oks : List Bool) : IpTransport :=
  perform (br.deeds.drop t.brManager.deeds.length) oks { t with brManager := br }

/-- The hello that the running callback passes to `ProcessHello`, if there is one: a whole and valid
`Hello::Notify` of an incoming exchange whose other end is known. -/
def heard (fd : Fd) (res : EpollResult) (ret : RecvReturn) (answers : ConnectionManager.Answers) :
    Option HelloMsg :=
  match t.connManager.io.recvEvent fd res ret answers.deregister with
  | some (.resolved _ .incomingHello (.ok msg)) =>
      (HelloMsg.deserialize msg).filter fun hello =>
        hello.type = helloNotify ∧ answers.address = true
  | _ => none

/-- In the middle of `IncomingHelloExchange`: the hello is processed, and reported to nobody. -/
def hear (sender : InAddr) (timer : BroadcastManager.TimerAnswers) :
    Option HelloMsg → Option IpTransport
  | none => some t
  | some hello =>
      (t.brManager.processHello sender hello.id false timer).map fun br => t.broadcast br []

inductive Event
  | openSession (peer : PeerId) (answers : ConnectionManager.Dial)
  | sendMessage (peer : PeerId) (msg : Message) (registers : List Bool)
  | closeSession (peer : PeerId) (dir : LinkDirection) (ok : Bool)
  | accept (fd : Fd) (register : Bool)
  | readable (fd : Fd) (res : EpollResult) (ret : RecvReturn) (answers : ConnectionManager.Answers)
      (sender : InAddr) (timer : BroadcastManager.TimerAnswers)
  | writable (fd : Fd) (res : EpollResult) (ret : SendReturn) (answers : ConnectionManager.Answers)
  | destroy (token : CancellationToken) (ok : Bool)
  | broadcastHello (sender : InAddr) (id : PeerId) (timer : BroadcastManager.TimerAnswers)
  | peerLost (fd : Fd) (ok : Bool)
  | networkUpdate (ifs : List String) (oks : List Bool)

/-- A callback of the connection manager. -/
def callback (event : ConnectionManager.Event) : Option IpTransport :=
  (t.connManager.step event).map t.goOn

def step (event : Event) : Option IpTransport :=
  if t.connManager.alive = false then none
  else
    match event with
    | .openSession peer answers =>
        if ∀ fd ∈ answers.socket, t.connManager.Unused fd then
          some (t.openSession peer answers)
        else none
    | .sendMessage peer msg registers => some (t.sendMessage peer msg registers)
    | .closeSession peer dir ok => some (t.closeSession peer dir ok)
    | .accept fd register => t.callback (.accept fd register)
    | .readable fd res ret answers sender timer =>
        if t.brManager.Unused timer.timer then
          (t.hear sender timer (t.heard fd res ret answers)).bind fun t =>
          t.callback (.readable fd res ret answers)
        else none
    | .writable fd res ret answers => t.callback (.writable fd res ret answers)
    | .destroy token ok => t.callback (.destroy token ok)
    | .broadcastHello sender id timer =>
        (t.brManager.step (.hello sender id true timer)).map fun br => t.broadcast br []
    | .peerLost fd ok => (t.brManager.step (.peerLost fd ok)).map fun br => t.broadcast br []
    | .networkUpdate ifs oks =>
        (t.brManager.step (.networkUpdate ifs)).map fun br => t.broadcast br oks

def machine : Machine IpTransport Event := ⟨step⟩

end IpTransport

end Diplom
