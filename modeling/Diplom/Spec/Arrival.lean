import Diplom.Spec.Delivery

/-!
# Messages that have been sent

The lambda of `SendMessageFd` is told how the sending of a message has ended, and only writes it to
the log. The messages that it is told are sent are kept in mind here, for each socket, beside what
has been passed on at the other end.
-/

namespace Diplom

open ConnectionManager (Event)

/-- The message that an event brings to its end, sent whole. -/
def sentBy (send : Option (SendOp × OnSent)) : Event → List Message
  | .writable _ res ret _ =>
      match send with
      | some (op, .queued parcel) =>
          match op.event res ret with
          | .resolved (.ok _) => [parcel.body]
          | _ => []
      | _ => []
  | _ => []

/-- Messages are waited for on the socket. -/
def ConnectionManager.Reads (w : ConnectionManager) (sock : Sock) : Prop :=
  ∃ fd op, w.io.fds fd = some sock ∧ w.io.recvAt fd = some (op, .readMessage)

structure Arrival (Node : Type) where
  delivery : Delivery Node
  /-- What has been sent on each socket, after the hello. -/
  sent : Node → Sock → List Message

namespace Arrival

variable {Node : Type} [DecidableEq Node] (a : Arrival Node)

def init (self : Node → PeerId) (order : Node → ByteOrder) : Arrival Node where
  delivery := .init self order
  sent := fun _ _ => []

def step (event : Network.Event Node) : Option (Arrival Node) :=
  let node := (Delivery.ofNode event).1
  let own := (Delivery.ofNode event).2
  let w := a.delivery.net.managers node
  (a.delivery.step event).map fun delivery =>
    { delivery := delivery
      sent := Function.update a.sent node
        (appendTo (a.sent node) (w.socketOf own) (sentBy (w.sendOf own) own)) }

def machine : Machine (Arrival Node) (Network.Event Node) := ⟨step⟩

def Careful (event : Network.Event Node) : Prop := a.delivery.Careful event

instance (event : Network.Event Node) : Decidable (a.Careful event) :=
  inferInstanceAs (Decidable (a.delivery.Careful event))

/-- On every connection, what has been sent at the one end was queued there, in this order, and what
has been passed on at the other end is a beginning of it. It is all of it when the other end has
taken every byte there is and waits for messages. -/
def Arrives : Prop :=
  ∀ here there, a.delivery.net.far here = some there →
    (a.sent there.1 there.2).Sublist
      (((a.delivery.net.managers there.1).pushed there.2).map Parcel.body) ∧
    (a.delivery.listening here.1).bodies here.2 <+: a.sent there.1 there.2 ∧
    (a.delivery.net.taken here = a.delivery.net.written there →
      (a.delivery.net.managers here.1).Reads here.2 →
      (a.delivery.listening here.1).bodies here.2 = a.sent there.1 there.2)

end Arrival

end Diplom
