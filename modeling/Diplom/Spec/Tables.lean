import Diplom.Spec.Moves

/-!
# The tables of a manager and what it reports

The part of a manager that the `TransportManager` can tell apart: which descriptor is which
connection, which descriptor a connection has, and the notifications so far. A step either completes
a hello exchange, or it reports errors and messages and closes connections, in some order: `Quiet`
is any such sequence.
-/

namespace Diplom

structure Tables where
  activeConns : PartialMap Fd Conn
  connToFd : PartialMap Conn Fd
  notes : List Notification

namespace Tables

variable (t : Tables)

def note (n : Notification) : Tables := { t with notes := t.notes ++ [n] }

def established (fd : Fd) (conn : Conn) : Tables :=
  { t with activeConns := t.activeConns.insert fd conn, connToFd := t.connToFd.insert conn fd }

def closeFD (fd : Fd) : Tables :=
  match t.activeConns fd with
  | none => t
  | some conn =>
      { t with activeConns := t.activeConns.erase fd, connToFd := t.connToFd.erase conn }.note
        (.sessionLost conn.1 conn.2)

def reader (fd : Fd) (registered : Bool) : Tables := if registered then t else t.closeFD fd

/-- A completed hello exchange. The reader of an outgoing connection starts before the session is
announced. -/
def completed (fd : Fd) (conn : Conn) (registered : Bool) : Tables :=
  if conn.2 = .outgoing then ((t.established fd conn).reader fd registered).note
    (.sessionOpened conn.1 conn.2)
  else ((t.established fd conn).note (.sessionOpened conn.1 conn.2)).reader fd registered

/-- What happens between completed hello exchanges. -/
inductive Quiet (t : Tables) : Tables → Prop
  | refl : Quiet t t
  | failed {t' : Tables} (h : Quiet t t') (peer : PeerId) (err : OpenSessionError) :
      Quiet t (t'.note (.error peer err))
  | received {t' : Tables} (h : Quiet t t') {fd : Fd} {conn : Conn}
      (hconn : t'.activeConns fd = some conn) (msg : Message) :
      Quiet t (t'.note (.receivedMessage conn.1 msg))
  | closed {t' : Tables} (h : Quiet t t') (fd : Fd) : Quiet t (t'.closeFD fd)

end Tables

namespace Snapshot

def tables (s : Snapshot) : Tables := ⟨s.activeConns, s.connToFd, s.notes⟩

end Snapshot

namespace Snapshot

open ConnectionManager (Event)

/-- The hello exchange that an event brings to its end: the descriptor, and the connection that it
becomes. -/
def completes (s : Snapshot) : Event → Option (Fd × Conn)
  | .readable fd res ret _ =>
      match s.recvAt fd with
      | some (op, .outgoingAnswer peer) =>
          if op.event s.order res ret =
              .resolved (.ok (HelloMsg.make peer helloAnswer).serialize) then
            some (fd, (peer, .outgoing))
          else none
      | _ => none
  | .writable fd res ret _ =>
      match s.sendAt fd with
      | some (op, .helloAnswer peer) =>
          if op.event res ret = .resolved (.ok ()) then some (fd, (peer, .incoming)) else none
      | _ => none
  | _ => none

end Snapshot

end Diplom
