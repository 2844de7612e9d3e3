import Diplom.Proof.AsyncOps
import Diplom.Transport.ConnManager
import Diplom.Transport.LoopRun

/-!
# Events of sockets, and what lies unread

`EpollLoop::Run` turns one event of a socket into calls of `RunCallback`, and these into steps of
the manager. Beside the manager stand the bytes that have arrived on each socket, so that it shows
what the kernel still holds when an event comes. For an event that reports input together with a
hangup or an error, and that ends the connection, it is recorded what lay unread and which messages
were passed on before the end.
-/

namespace Diplom

namespace ConnectionManager

/-- A call of `RunCallback`: nothing happens where no callback is registered. -/
def runCallback (w : ConnectionManager) (recv : RecvReturn) (send : SendReturn) (answers : Answers)
    (d : Dispatch) : ConnectionManager :=
  match d.dir with
  | .input => (w.step (.readable d.fd d.res recv answers)).getD w
  | .output => (w.step (.writable d.fd d.res send answers)).getD w

/-- What `Run` does with one event of a socket. -/
def handle (w : ConnectionManager) (fd : Fd) (events : EpollEvents) (recv : RecvReturn)
    (send : SendReturn) (answers : Answers) : ConnectionManager :=
  (dispatches fd events ((w.io.fds fd).getD 0)).foldl
  (fun w d => w.runCallback recv send answers d) w

end ConnectionManager

/-- A message that is passed on. -/
def Notification.message : Notification → Option Message
  | .receivedMessage _ msg => some msg
  | _ => none

/-- The end of a session. -/
def Notification.isSessionLost : Notification → Bool
  | .sessionLost _ _ => true
  | _ => false

/-- Input together with a hangup or an error. -/
def InputAndHangup (events : EpollEvents) : Prop :=
  events &&& epollIn ≠ 0 ∧ (events &&& epollHup ≠ 0 ∨ events &&& epollErr ≠ 0)

instance (events : EpollEvents) : Decidable (InputAndHangup events) := by
  unfold InputAndHangup
  infer_instance

/-- What lay unread when a connection ended, and the messages that were passed on before its end. -/
structure Hangup where
  pending : List Byte
  passed : List Message

structure Receiving where
  manager : ConnectionManager
  /-- The bytes that have arrived on each socket. -/
  arrived : Sock → List Byte
  hangups : List Hangup

namespace Receiving

variable (s : Receiving)

def init (self : PeerId) (order : ByteOrder) : Receiving := ⟨.init self order, fun _ => [], []⟩

/-- What the kernel holds for the socket of a descriptor. -/
def unread (fd : Fd) : List Byte :=
  match s.manager.io.fds fd with
  | none => []
  | some sock => (s.arrived sock).drop (s.manager.io.taken sock).length

/-- What the reader of a descriptor has taken of a frame, and what it has still to take. -/
def pending (fd : Fd) : List Byte :=
  (match s.manager.io.recvAt fd with
    | none => []
    | some (op, _) => op.consumed s.manager.io.order) ++ s.unread fd

inductive Event
  | arrives (sock : Sock) (bytes : List Byte)
  /-- A new connection, a call of the manager or a destructor. -/
  | other (event : ConnectionManager.Event)
  /-- An event of a socket, and what its callbacks are answered. -/
  | io (fd : Fd) (events : EpollEvents) (recv : RecvReturn) (send : SendReturn)
      (answers : ConnectionManager.Answers)

/-- The connection of a descriptor is established, and its reader is registered. -/
def Reads (fd : Fd) : Prop := s.manager.activeConns fd ≠ none ∧ s.manager.io.recvAt fd ≠ none

/-- The record of an event that ends a connection. -/
def hangup (fd : Fd) (events : EpollEvents) (w : ConnectionManager) : List Hangup :=
  if InputAndHangup events ∧ s.manager.activeConns fd ≠ none ∧ w.activeConns fd = none then
    [⟨s.pending fd,
      ((w.notes.drop s.manager.notes.length).takeWhile fun n => !n.isSessionLost).filterMap
        Notification.message⟩]
  else []

def step : Event → Option Receiving
  | .arrives sock bytes => some { s with arrived := appendTo s.arrived (some sock) bytes }
  | .other (.readable ..) => none
  | .other (.writable ..) => none
  | .other event => (s.manager.step event).map fun w => { s with manager := w }
  | .io fd events recv send answers =>
      -- `recv` moves nothing but what has arrived
      if recv.bytes (.ok ()) <+: s.unread fd then
        let w := s.manager.handle fd events recv send answers
        some { s with manager := w, hangups := s.hangups ++ s.hangup fd events w }
      else none

def machine : Machine Receiving Event := ⟨step⟩

/-- Where a connection ended in a hangup, the messages that lay unread in whole had been passed on,
in order. -/
def AllPassed : Prop :=
  ∀ h ∈ s.hangups, ∀ ms : List Message, (uint32 s.manager.io.order).Fits ms →
    (uint32 s.manager.io.order).frames ms <+: h.pending → ms <+: h.passed

/-- An event that reports input together with a hangup or an error to a reader finds no whole frame
unread. -/
def NothingWaits : Event → Prop
  | .io fd events _ _ _ =>
      s.manager.alive = true → InputAndHangup events → s.Reads fd →
        ∀ m : Message, m.length < 2 ^ 32 → ¬ frame s.manager.io.order m <+: s.pending fd
  | _ => True

end Receiving

end Diplom
