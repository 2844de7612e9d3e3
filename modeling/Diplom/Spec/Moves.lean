import Diplom.Proof.AsyncOps
import Diplom.Transport.ConnManager

/-!
# What a connection manager can do

The manager without its loop: which operations are under way on which descriptor, the tables, and
the logs. `Move` lists once what a step can do to this picture, one constructor for each way through
a callback or a call; whether a registration succeeded is left open. `Proof/Refinement.lean` shows
that every step of the code is such a move, and every invariant of the manager is proved about
moves.
-/

namespace Diplom

/-- The lambdas of a hello exchange that wait for a message to be sent. -/
def OnSent.IsHello : OnSent → Prop
  | .helloAnswer _ => True
  | .helloNotify _ => True
  | .queued _ => False

structure Snapshot where
  self : PeerId
  order : ByteOrder
  recvAt : PartialMap Fd (RecvOp × OnMessage)
  sendAt : PartialMap Fd (SendOp × OnSent)
  fds : PartialMap Fd Sock
  nextSock : Sock
  written : Sock → List Byte
  taken : Sock → List Byte
  activeConns : PartialMap Fd Conn
  connToFd : PartialMap Conn Fd
  sendQueues : PartialMap Fd (List Parcel)
  notes : List Notification
  records : List (Sock × Conn)
  pushed : Sock → List Parcel
  alive : Bool

/-- What the proofs see of a manager. -/
def ConnectionManager.snapshot (w : ConnectionManager) : Snapshot where
  self := w.self
  order := w.io.order
  recvAt := w.io.recvAt
  sendAt := w.io.sendAt
  fds := w.io.fds
  nextSock := w.io.nextSock
  written := w.io.written
  taken := w.io.taken
  activeConns := w.activeConns
  connToFd := w.connToFd
  sendQueues := w.sendQueues
  notes := w.notes
  records := w.records
  pushed := w.pushed
  alive := w.alive

namespace Snapshot

variable (s : Snapshot)

def note (n : Notification) : Snapshot := { s with notes := s.notes ++ [n] }

/-- A note that is given on one way only. -/
def notesIf (given : Bool) (n : Notification) : Snapshot := if given then s.note n else s

def abort : Snapshot := { s with alive := false }

/-- A new socket under an unused number. -/
def openFd (fd : Fd) : Snapshot :=
  { s with fds := s.fds.set fd s.nextSock, nextSock := s.nextSock + 1 }

/-- A descriptor without operations is closed. -/
def closeFd (fd : Fd) : Snapshot := { s with fds := s.fds.erase fd }

def setRecv (fd : Fd) (op : RecvOp) (resolve : OnMessage) : Snapshot :=
  { s with recvAt := s.recvAt.set fd (op, resolve) }

def setSend (fd : Fd) (op : SendOp) (resolve : OnSent) : Snapshot :=
  { s with sendAt := s.sendAt.set fd (op, resolve) }

def setQueue (fd : Fd) (queue : List Parcel) : Snapshot :=
  { s with sendQueues := s.sendQueues.set fd queue }

/-- An event has taken bytes from a descriptor's socket. -/
def took (fd : Fd) (bytes : List Byte) : Snapshot :=
  { s with taken := appendTo s.taken (s.fds fd) bytes }

/-- An event has put bytes on a descriptor's socket. -/
def put (fd : Fd) (bytes : List Byte) : Snapshot :=
  { s with written := appendTo s.written (s.fds fd) bytes }

/-- The receiving operation has resolved. -/
def endRecv (fd : Fd) (bytes : List Byte) : Snapshot :=
  { s.took fd bytes with recvAt := s.recvAt.erase fd }

/-- The sending operation has resolved. -/
def endSend (fd : Fd) (bytes : List Byte) : Snapshot :=
  { s.put fd bytes with sendAt := s.sendAt.erase fd }

/-- A hello exchange is through. -/
def established (fd : Fd) (conn : Conn) : Snapshot :=
  { s with
    activeConns := s.activeConns.insert fd conn
    connToFd := s.connToFd.insert conn fd
    sendQueues := s.sendQueues.insert fd []
    records := s.records ++ ((s.fds fd).map fun sock => (sock, conn)).toList }

/-- `CloseFD`: the operations of the descriptor are gone, and the connection, if it was one, is
reported lost. -/
def closeFD (fd : Fd) : Snapshot :=
  let s :=
    { s with recvAt := s.recvAt.erase fd, sendAt := s.sendAt.erase fd, fds := s.fds.erase fd }
  match s.activeConns fd with
  | none => s
  | some conn =>
      { s with
        activeConns := s.activeConns.erase fd
        connToFd := s.connToFd.erase conn
        sendQueues := s.sendQueues.erase fd }.note (.sessionLost conn.1 conn.2)

/-- `ReadMessage` on an established connection: a reader, or the end of the connection. -/
def reader (fd : Fd) (registered : Bool) : Snapshot :=
  if registered then s.setRecv fd .start .readMessage else s.closeFD fd

/-- One half of `CloseConn`. -/
def closeConnDir (conn : Conn) : Snapshot :=
  match s.connToFd conn with
  | none => s
  | some fd => s.closeFD fd

/-- `CloseConn`. -/
def closeConn (peer : PeerId) (dir : LinkDirection) : Snapshot :=
  let s := if dir = .all ∨ dir = .incoming then s.closeConnDir (peer, .incoming) else s
  if dir = .all ∨ dir = .outgoing then s.closeConnDir (peer, .outgoing) else s

/-- A message joins the queue of a descriptor. -/
def push (fd : Fd) (queue : List Parcel) (parcel : Parcel) : Snapshot :=
  { s.setQueue fd (queue ++ [parcel]) with pushed := appendTo s.pushed (s.fds fd) [parcel] }

/-- The front of a queue is started, after any number of messages whose registration failed and that
have left the queue. -/
inductive QueueRun (s : Snapshot) (fd : Fd) : List Parcel → Snapshot → Prop
  | idle : QueueRun s fd [] (s.setQueue fd [])
  | starts (parcel : Parcel) (rest : List Parcel) (hlength : SendOp.msgLen parcel.body ≠ 0) :
      QueueRun s fd (parcel :: rest)
        ((s.setQueue fd (parcel.movedOut :: rest)).setSend fd (.start s.order parcel.body)
          (.queued parcel))
  | aborts (parcel : Parcel) (rest : List Parcel) (hlength : SendOp.msgLen parcel.body = 0) :
      QueueRun s fd (parcel :: rest) (s.setQueue fd (parcel.movedOut :: rest)).abort
  | refused (parcel : Parcel) {rest : List Parcel} {s' : Snapshot} (h : QueueRun s fd rest s') :
      QueueRun s fd (parcel :: rest) s'

open ConnectionManager (Event)

/-- Everything that a step can do. -/
inductive Move (s : Snapshot) : Event → Snapshot → Prop
  | accepted {fd : Fd} {register : Bool} (hfree : s.fds fd = none) :
      Move s (.accept fd register) ((s.openFd fd).setRecv fd .start .incomingHello)
  | acceptUnwatched {fd : Fd} {register : Bool} (hfree : s.fds fd = none) :
      Move s (.accept fd register) ((s.openFd fd).closeFd fd)
  /- receiving -/
  | recvGoesOn {fd : Fd} {res ret answers} {op op' : RecvOp} {resolve : OnMessage}
      (hat : s.recvAt fd = some (op, resolve))
      (hevent : op.event s.order res ret = .waiting op' ∨ op.event s.order res ret = .next op') :
      Move s (.readable fd res ret answers) ((s.took fd (ret.bytes res)).setRecv fd op' resolve)
  | recvAborts {fd : Fd} {res ret answers} {op : RecvOp} {resolve : OnMessage}
      (hat : s.recvAt fd = some (op, resolve)) (hevent : op.event s.order res ret = .aborted) :
      Move s (.readable fd res ret answers) s.abort
  | helloDropped {fd : Fd} {res ret answers} {op : RecvOp} {resolve : OnMessage}
      {result : IoResult Message} (hat : s.recvAt fd = some (op, resolve))
      (hhello : resolve ≠ .readMessage) (hevent : op.event s.order res ret = .resolved result)
      (hbad : ∀ peer, resolve = .outgoingAnswer peer →
        result ≠ .ok (HelloMsg.make peer helloAnswer).serialize) :
      Move s (.readable fd res ret answers) ((s.endRecv fd (ret.bytes res)).closeFd fd)
  | helloAnswered {fd : Fd} {res ret answers} {op : RecvOp} {peer : PeerId}
      (hat : s.recvAt fd = some (op, .incomingHello))
      (hevent : op.event s.order res ret
        = .resolved (.ok (HelloMsg.make peer helloNotify).serialize)) :
      Move s (.readable fd res ret answers)
        ((s.endRecv fd (ret.bytes res)).setSend fd
          (.start s.order (HelloMsg.make s.self helloAnswer).serialize) (.helloAnswer peer))
  | sessionOut {fd : Fd} {res ret answers} {op : RecvOp} {peer : PeerId}
      (hat : s.recvAt fd = some (op, .outgoingAnswer peer))
      (hevent : op.event s.order res ret
        = .resolved (.ok (HelloMsg.make peer helloAnswer).serialize)) (registered : Bool)
      (hreader : answers.register = true → answers.deregister = true → registered = true) :
      Move s (.readable fd res ret answers)
        ((((s.endRecv fd (ret.bytes res)).established fd (peer, .outgoing)).reader fd
          registered).note (.sessionOpened peer .outgoing))
  | messageRead {fd : Fd} {res ret answers} {op : RecvOp} {conn : Conn} {msg : Message}
      (hat : s.recvAt fd = some (op, .readMessage)) (hconn : s.activeConns fd = some conn)
      (hevent : op.event s.order res ret = .resolved (.ok msg)) (registered : Bool) :
      Move s (.readable fd res ret answers)
        (((s.endRecv fd (ret.bytes res)).note (.receivedMessage conn.1 msg)).reader fd registered)
  | readFailed {fd : Fd} {res ret answers} {op : RecvOp} {e : IoError}
      (hat : s.recvAt fd = some (op, .readMessage))
      (hevent : op.event s.order res ret = .resolved (.err e)) :
      Move s (.readable fd res ret answers) ((s.endRecv fd (ret.bytes res)).closeFD fd)
  /- sending -/
  | sendGoesOn {fd : Fd} {res ret answers} {op op' : SendOp} {resolve : OnSent}
      (hat : s.sendAt fd = some (op, resolve))
      (hevent : op.event res ret = .waiting op' ∨ op.event res ret = .next op') :
      Move s (.writable fd res ret answers) ((s.put fd (op.put res ret)).setSend fd op' resolve)
  | sendAborts {fd : Fd} {res ret answers} {op : SendOp} {resolve : OnSent}
      (hat : s.sendAt fd = some (op, resolve)) (hevent : op.event res ret = .aborted) :
      Move s (.writable fd res ret answers) s.abort
  | answerUnsent {fd : Fd} {res ret answers} {op : SendOp} {peer : PeerId} {e : IoError}
      (hat : s.sendAt fd = some (op, .helloAnswer peer))
      (hevent : op.event res ret = .resolved (.err e)) :
      Move s (.writable fd res ret answers) ((s.endSend fd (op.put res ret)).closeFd fd)
  | sessionIn {fd : Fd} {res ret answers} {op : SendOp} {peer : PeerId}
      (hat : s.sendAt fd = some (op, .helloAnswer peer))
      (hevent : op.event res ret = .resolved (.ok ())) (registered : Bool) :
      Move s (.writable fd res ret answers)
        ((((s.endSend fd (op.put res ret)).established fd (peer, .incoming)).note
          (.sessionOpened peer .incoming)).reader fd registered)
  | notifyUnsent {fd : Fd} {res ret answers} {op : SendOp} {peer : PeerId} {e : IoError}
      (hat : s.sendAt fd = some (op, .helloNotify peer))
      (hevent : op.event res ret = .resolved (.err e)) :
      Move s (.writable fd res ret answers)
        (((s.endSend fd (op.put res ret)).note (.error peer ⟨.error, .outgoing⟩)).closeFd fd)
  | notifySent {fd : Fd} {res ret answers} {op : SendOp} {peer : PeerId}
      (hat : s.sendAt fd = some (op, .helloNotify peer))
      (hevent : op.event res ret = .resolved (.ok ())) :
      Move s (.writable fd res ret answers)
        ((s.endSend fd (op.put res ret)).setRecv fd .start (.outgoingAnswer peer))
  | notifyUnanswered {fd : Fd} {res ret answers} {op : SendOp} {peer : PeerId}
      (hat : s.sendAt fd = some (op, .helloNotify peer))
      (hevent : op.event res ret = .resolved (.ok ())) :
      Move s (.writable fd res ret answers) ((s.endSend fd (op.put res ret)).closeFd fd)
  | queueAdvances {fd : Fd} {res ret answers} {op : SendOp} {parcel front : Parcel}
      {rest : List Parcel} {result : IoResult Unit} {s' : Snapshot}
      (hat : s.sendAt fd = some (op, .queued parcel))
      (hqueue : s.sendQueues fd = some (front :: rest))
      (hevent : op.event res ret = .resolved result)
      (hrun : QueueRun (s.endSend fd (op.put res ret)) fd rest s') :
      Move s (.writable fd res ret answers) s'
  /- calls of the manager -/
  | sendNowhere {peer msg registers} : Move s (.sendMessage peer msg registers) s
  | sendQueued {peer msg registers} {fd : Fd} {queue : List Parcel}
      (hqueue : s.sendQueues fd = some queue) (hwaits : queue ≠ []) :
      Move s (.sendMessage peer msg registers) (s.push fd queue ⟨peer, msg⟩)
  | sendAlone {peer msg registers} {fd : Fd} {s' : Snapshot} (hqueue : s.sendQueues fd = some [])
      (hrun : QueueRun (s.push fd [] ⟨peer, msg⟩) fd [⟨peer, msg⟩] s') :
      Move s (.sendMessage peer msg registers) s'
  | notDialed {peer dial} (kind : OpenSessionErrorKind) :
      Move s (.openSession peer dial) (s.note (.error peer ⟨kind, .outgoing⟩))
  | dialed {peer dial} {fd : Fd} (hfree : s.fds fd = none) (early : Bool) :
      Move s (.openSession peer dial)
        (((s.openFd fd).setSend fd (.start s.order (HelloMsg.make s.self helloNotify).serialize)
          (.helloNotify peer)).notesIf early (.error peer ⟨.error, .outgoing⟩))
  | dialUnwatched {peer dial} {fd : Fd} (hfree : s.fds fd = none) (early : Bool) :
      Move s (.openSession peer dial)
        ((((s.openFd fd).closeFd fd).notesIf early (.error peer ⟨.error, .outgoing⟩)).note
          (.error peer ⟨.error, .outgoing⟩))
  | closed {peer dir ok} : Move s (.closeSession peer dir ok) (s.closeConn peer dir)
  | destroyed {token ok} {recvAt : PartialMap Fd (RecvOp × OnMessage)}
      {sendAt : PartialMap Fd (SendOp × OnSent)}
      (hrecv : ∀ fd, recvAt fd = s.recvAt fd ∨ recvAt fd = none)
      (hsend : ∀ fd, sendAt fd = s.sendAt fd ∨ sendAt fd = none) :
      Move s (.destroy token ok) { s with recvAt := recvAt, sendAt := sendAt }

end Snapshot

end Diplom
