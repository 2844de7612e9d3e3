import Diplom.Spec.Moves

/-!
# The life of one socket

A socket has at most one descriptor at a time and never gets a second one, so what concerns it can
be told apart from the rest of the manager: the operations, the connection and the queue of its
descriptor, while it has one, and its own logs. `Life.Step` lists what a move can do to a socket; in
the same move its descriptor may be closed as well.
-/

namespace Diplom

/-- The descriptor whose callback an event runs. -/
def ConnectionManager.Event.fd : ConnectionManager.Event → Option Fd
  | .readable fd _ _ _ => some fd
  | .writable fd _ _ _ => some fd
  | _ => none

structure Life where
  recv : Option (RecvOp × OnMessage)
  send : Option (SendOp × OnSent)
  active : Option Conn
  queue : Option (List Parcel)
  written : List Byte
  taken : List Byte
  pushed : List Parcel
  recorded : List Conn

namespace Life

/-- The logs stay, and everything else goes with the descriptor. -/
def closed (l : Life) : Life := { l with recv := none, send := none, active := none, queue := none }

/-- An operation that starts on the front of a queue, or none that does: `skipped` could not be
registered. -/
inductive Starts (order : ByteOrder) : List Parcel → List Parcel → Option (SendOp × OnSent) → Prop
  | idle (skipped : List Parcel) : Starts order skipped [] none
  | starts (skipped : List Parcel) (parcel : Parcel) (rest : List Parcel)
      (hlength : SendOp.msgLen parcel.body ≠ 0) :
      Starts order (skipped ++ parcel :: rest) (parcel.movedOut :: rest)
        (some (.start order parcel.body, .queued parcel))
  | aborts (skipped : List Parcel) (parcel : Parcel) (rest : List Parcel) :
      Starts order (skipped ++ parcel :: rest) (parcel.movedOut :: rest) none

open ConnectionManager (Event)

/-- What a move can do to a socket. -/
inductive Step (self : PeerId) (order : ByteOrder) (l : Life) : Event → Life → Prop
  /- receiving -/
  | recvGoesOn {fd : Fd} {res ret answers} {op op' : RecvOp} {resolve : OnMessage}
      (hat : l.recv = some (op, resolve))
      (hevent : op.event order res ret = .waiting op' ∨ op.event order res ret = .next op') :
      Step self order l (.readable fd res ret answers)
        { l with recv := some (op', resolve), taken := l.taken ++ ret.bytes res }
  | recvEnds {fd : Fd} {res ret answers} (op : RecvOp × OnMessage) (hat : l.recv = some op) :
      Step self order l (.readable fd res ret answers)
        { l with recv := none, taken := l.taken ++ ret.bytes res }
  | helloAnswered {fd : Fd} {res ret answers} {op : RecvOp} {peer : PeerId}
      (hat : l.recv = some (op, .incomingHello))
      (hevent : op.event order res ret
        = .resolved (.ok (HelloMsg.make peer helloNotify).serialize)) :
      Step self order l (.readable fd res ret answers) { l with
          recv := none
          taken := l.taken ++ ret.bytes res
          send := some (.start order (HelloMsg.make self helloAnswer).serialize,
            .helloAnswer peer) }
  | sessionOut {fd : Fd} {res ret answers} {op : RecvOp} {peer : PeerId}
      (hat : l.recv = some (op, .outgoingAnswer peer))
      (hevent : op.event order res ret
        = .resolved (.ok (HelloMsg.make peer helloAnswer).serialize)) :
      Step self order l (.readable fd res ret answers) { l with
          recv := some (.start, .readMessage)
          taken := l.taken ++ ret.bytes res
          active := some (peer, .outgoing)
          queue := some []
          recorded := l.recorded ++ [(peer, .outgoing)] }
  | messageRead {fd : Fd} {res ret answers} {op : RecvOp} {msg : Message}
      (hat : l.recv = some (op, .readMessage))
      (hevent : op.event order res ret = .resolved (.ok msg)) :
      Step self order l (.readable fd res ret answers)
        { l with recv := some (.start, .readMessage), taken := l.taken ++ ret.bytes res }
  /- sending -/
  | sendGoesOn {fd : Fd} {res ret answers} {op op' : SendOp} {resolve : OnSent}
      (hat : l.send = some (op, resolve))
      (hevent : op.event res ret = .waiting op' ∨ op.event res ret = .next op') :
      Step self order l (.writable fd res ret answers)
        { l with send := some (op', resolve), written := l.written ++ op.put res ret }
  | helloUnsent {fd : Fd} {res ret answers} {op : SendOp} {resolve : OnSent}
      (hat : l.send = some (op, resolve))
      (hhello : resolve.IsHello) {e : IoError} (hevent : op.event res ret = .resolved (.err e)) :
      Step self order l (.writable fd res ret answers)
        { l with send := none, written := l.written ++ op.put res ret }
  | sessionIn {fd : Fd} {res ret answers} {op : SendOp} {peer : PeerId}
      (hat : l.send = some (op, .helloAnswer peer))
      (hevent : op.event res ret = .resolved (.ok ())) :
      Step self order l (.writable fd res ret answers) { l with
          send := none
          written := l.written ++ op.put res ret
          recv := some (.start, .readMessage)
          active := some (peer, .incoming)
          queue := some []
          recorded := l.recorded ++ [(peer, .incoming)] }
  | notifySent {fd : Fd} {res ret answers} {op : SendOp} {peer : PeerId}
      (hat : l.send = some (op, .helloNotify peer))
      (hevent : op.event res ret = .resolved (.ok ())) :
      Step self order l (.writable fd res ret answers)
        { l with
          send := none
          written := l.written ++ op.put res ret
          recv := some (.start, .outgoingAnswer peer) }
  | queueAdvances {fd : Fd} {res ret answers} {op : SendOp} {parcel front : Parcel}
      {rest queue : List Parcel} {result : IoResult Unit} {send : Option (SendOp × OnSent)}
      (hat : l.send = some (op, .queued parcel))
      (hqueue : l.queue = some (front :: rest)) (hevent : op.event res ret = .resolved result)
      (hstarts : Starts order rest queue send) :
      Step self order l (.writable fd res ret answers)
        { l with send := send, written := l.written ++ op.put res ret, queue := some queue }
  /- calls of the manager -/
  | sendQueued {peer msg registers} {queue : List Parcel} (hqueue : l.queue = some queue)
      (hwaits : queue ≠ []) :
      Step self order l (.sendMessage peer msg registers)
        { l with queue := some (queue ++ [⟨peer, msg⟩]), pushed := l.pushed ++ [⟨peer, msg⟩] }
  | sendAlone {peer msg registers} {queue : List Parcel} {send : Option (SendOp × OnSent)}
      (hqueue : l.queue = some [])
      (hstarts : Starts order [⟨peer, msg⟩] queue send) :
      Step self order l (.sendMessage peer msg registers)
        { l with queue := some queue, send := send, pushed := l.pushed ++ [⟨peer, msg⟩] }
  | destroyed {token ok} {recv : Option (RecvOp × OnMessage)} {send : Option (SendOp × OnSent)}
      (hrecv : recv = l.recv ∨ recv = none) (hsend : send = l.send ∨ send = none) :
      Step self order l (.destroy token ok) { l with recv := recv, send := send }

/-- A socket as `accept` and `socket` make it. -/
def new : Life := ⟨none, none, none, none, [], [], [], []⟩

/-- What a move makes of a new socket. -/
inductive Born (self : PeerId) (order : ByteOrder) (l : Life) : Event → Life → Prop
  | accepted {fd : Fd} {register : Bool} :
      Born self order l (.accept fd register) { l with recv := some (.start, .incomingHello) }
  | acceptUnwatched {fd : Fd} {register : Bool} : Born self order l (.accept fd register) l
  | dialed {peer dial} :
      Born self order l (.openSession peer dial)
        { l with
          send := some
            (.start order (HelloMsg.make self helloNotify).serialize, .helloNotify peer) }
  | dialUnwatched {peer dial} : Born self order l (.openSession peer dial) l

end Life

namespace Snapshot

variable (s : Snapshot)

/-- The connections that a socket was entered for. -/
def recorded (sock : Sock) : List Conn :=
  s.records.filterMap fun r => if r.1 = sock then some r.2 else none

/-- The life of a socket that has this descriptor. -/
def lifeAt (fd : Fd) (sock : Sock) : Life where
  recv := s.recvAt fd
  send := s.sendAt fd
  active := s.activeConns fd
  queue := s.sendQueues fd
  written := s.written sock
  taken := s.taken sock
  pushed := s.pushed sock
  recorded := s.recorded sock

/-- The life of a socket that has no descriptor. -/
def lifeClosed (sock : Sock) : Life where
  recv := none
  send := none
  active := none
  queue := none
  written := s.written sock
  taken := s.taken sock
  pushed := s.pushed sock
  recorded := s.recorded sock

open Classical in
/-- The life of any socket. -/
noncomputable def life (sock : Sock) : Life :=
  if h : ∃ fd, s.fds fd = some sock then s.lifeAt h.choose sock else s.lifeClosed sock

end Snapshot

end Diplom
