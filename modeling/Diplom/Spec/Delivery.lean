import Diplom.Spec.Hangup
import Diplom.Spec.Network
import Mathlib.Algebra.Group.Nat.Defs

/-!
# Messages from one end of a connection to the other

What a manager passes on is kept in mind for each socket, together with the peer that it is reported
for, and so is on which sockets a message has failed with a part of its frame written. The managers
themselves do neither.
-/

namespace Diplom

open ConnectionManager (Event)

/-- A message that is passed on, with the peer that it is reported for. -/
def Notification.received : Notification → Option (PeerId × Message)
  | .receivedMessage peer msg => some (peer, msg)
  | _ => none

/-- The messages that a step has passed on. -/
def ConnectionManager.passed (w w' : ConnectionManager) : List (PeerId × Message) :=
  (w'.notes.drop w.notes.length).filterMap Notification.received

/-- No `recv` says `EAGAIN`. -/
def ConnectionManager.Event.NotAgain : Event → Prop
  | .readable _ res ret _ => (res, ret) ≠ (.ok (), .failed .eagain)
  | _ => True

instance (event : Event) : Decidable event.NotAgain :=
  match event with
  | .readable _ res ret _ => inferInstanceAs (Decidable ((res, ret) ≠ (.ok (), .failed .eagain)))
  | .accept .. | .openSession .. | .closeSession .. | .sendMessage .. | .writable ..
  | .destroy .. =>
      inferInstanceAs (Decidable True)

/-- The message fits into a frame, whose length has four bytes. -/
def ConnectionManager.Event.Framable : Event → Prop
  | .sendMessage _ msg _ => msg.length < 2 ^ 32
  | _ => True

instance (event : Event) : Decidable event.Framable :=
  match event with
  | .sendMessage _ msg _ => inferInstanceAs (Decidable (msg.length < 2 ^ 32))
  | .accept .. | .openSession .. | .closeSession .. | .readable .. | .writable ..
  | .destroy .. =>
      inferInstanceAs (Decidable True)

/-! ### One node -/

structure Listening where
  manager : ConnectionManager
  /-- What has been passed on from each socket. -/
  got : Sock → List (PeerId × Message)

namespace Listening

variable (s : Listening)

def init (self : PeerId) (order : ByteOrder) : Listening := ⟨.init self order, fun _ => []⟩

def step (event : Event) : Option Listening :=
  (s.manager.step event).map fun w =>
    { manager := w
      got := appendTo s.got (s.manager.socketOf event) (s.manager.passed w) }

def machine : Machine Listening Event := ⟨step⟩

/-- The bodies of the messages that have been passed on from a socket. -/
def bodies (sock : Sock) : List Message := (s.got sock).map Prod.snd

/-- What has come to a socket is the hello of the peer that it is entered for, the messages that
have been passed on from it, reported for this peer, and a rest, which is no whole frame as long as
the connection is read. -/
structure HearsWhole : Prop where
  entered : ∀ sock conn, (sock, conn) ∈ s.manager.records → ∃ type rest,
    s.manager.io.taken sock = (uint32 s.manager.io.order).frames
      ((HelloMsg.make conn.1 type).serialize :: s.bodies sock) ++ rest ∧
    (∀ e ∈ s.got sock, e.1 = conn.1) ∧
    ∀ fd op, s.manager.io.fds fd = some sock → s.manager.io.recvAt fd = some (op, .readMessage) →
      (uint32 s.manager.io.order).Incomplete rest
  others : ∀ sock, (∀ conn, (sock, conn) ∉ s.manager.records) → s.got sock = []

end Listening

/-! ### The network -/

structure Delivery (Node : Type) where
  net : Network Node
  /-- The sockets on which a message has failed with a part of its frame written. -/
  torn : Node → Sock → Bool
  /-- What has been passed on from each socket. -/
  got : Node → Sock → List (PeerId × Message)

namespace Delivery

variable {Node : Type} [DecidableEq Node] (d : Delivery Node)

def init (self : Node → PeerId) (order : Node → ByteOrder) : Delivery Node where
  net := .init self order
  torn := fun _ _ => false
  got := fun _ _ => []

/-- A node and what is kept in mind of its sends. -/
def sending (node : Node) : Sending := ⟨d.net.managers node, d.torn node⟩

/-- A node and what is kept in mind of its messages. -/
def listening (node : Node) : Listening := ⟨d.net.managers node, d.got node⟩

/-- The node that takes a step, and its step. -/
def ofNode : Network.Event Node → Node × Event
  | .accept node fd register _ => (node, .accept fd register)
  | .runs node event => (node, event)

def step (event : Network.Event Node) : Option (Delivery Node) :=
  let node := (ofNode event).1
  (d.net.step event).bind fun net =>
    ((d.sending node).step (ofNode event).2).bind fun sending =>
      ((d.listening node).step (ofNode event).2).map fun listening =>
        { net := net
          torn := Function.update d.torn node sending.torn
          got := Function.update d.got node listening.got }

def machine : Machine (Delivery Node) (Network.Event Node) := ⟨step⟩

/-- No `recv` says `EAGAIN`, a socket that carries a part of a frame that has failed accepts nothing
more, and messages fit into frames. -/
def Careful (event : Network.Event Node) : Prop :=
  let (node, event) := ofNode event
  event.NotAgain ∧ (d.sending node).Spares event ∧ event.Framable

instance (event : Network.Event Node) : Decidable (d.Careful event) := by
  unfold Careful
  infer_instance

/-- What is passed on from a socket was queued at the other end of its connection, in this order. It
is reported for the node that has sent it, and whatever is queued there is for this node. -/
def Delivers : Prop :=
  ∀ here : Node × Sock, d.got here.1 here.2 ≠ [] → ∃ there ∈ d.net.far here,
    (∀ e ∈ d.got here.1 here.2, e.1 = (d.net.managers there.1).self) ∧
    ((d.got here.1 here.2).map Prod.snd).Sublist
      (((d.net.managers there.1).pushed there.2).map Parcel.body) ∧
    ∀ parcel ∈ (d.net.managers there.1).pushed there.2,
      parcel.peer = (d.net.managers here.1).self

end Delivery

end Diplom
