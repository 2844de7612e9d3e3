import Diplom.Spec.Life
import Mathlib.Data.List.Sublists

/-!
# Frames on a socket

Everything that is sent on a socket goes through one `SendMessage` after another. A message that
fails after its first bytes leaves a part of its frame behind, and the lambda of `SendMessageFd`
goes on with the next one. `torn` keeps in mind on which sockets that has happened; the manager
itself does not. An event is a whole call or a whole callback, so this is about runs in which the
calls of the other thread overlap no callback.
-/

namespace Diplom

namespace ConnectionManager

variable (w : ConnectionManager)

/-- The socket whose callback an event runs. -/
def socketOf (event : Event) : Option Sock := event.fd.bind w.io.fds

/-- What is being sent on the descriptor whose callback an event runs. -/
def sendOf (event : Event) : Option (SendOp × OnSent) := event.fd.bind w.io.sendAt

end ConnectionManager

open ConnectionManager (Event Answers)

/-- What a node says in a hello exchange. -/
def hellos (node : PeerId) : List Message :=
  [(HelloMsg.make node helloNotify).serialize, (HelloMsg.make node helloAnswer).serialize]

/-- The bytes that an event puts on the socket. -/
def bytesPut (send : Option (SendOp × OnSent)) : Event → List Byte
  | .writable _ res ret _ => (send.map fun s => s.1.put res ret).getD []
  | _ => []

/-- The event makes a queued message fail with a part of its frame written. -/
def tears (order : ByteOrder) (send : Option (SendOp × OnSent)) : Event → Bool
  | .writable _ res ret _ =>
      match send with
      | some (op, .queued parcel) =>
          match op.event res ret with
          | .resolved (.err _) => op.remaining ≠ frame order parcel.body
          | _ => false
      | _ => false
  | _ => false

/-- The bytes are the beginning of the frames of a hello and of some of the messages that were
queued, in their order. -/
def Unbroken (node : PeerId) (order : ByteOrder) (written : List Byte) (pushed : List Parcel) :
    Prop :=
  ∃ hello ∈ hellos node, ∃ messages, messages.Sublist (pushed.map Parcel.body) ∧
    written <+: (uint32 order).frames (hello :: messages)

instance (node : PeerId) (order : ByteOrder) (written : List Byte) (pushed : List Parcel) :
    Decidable (Unbroken node order written pushed) :=
  decidable_of_iff (∃ hello ∈ hellos node, ∃ messages ∈ (pushed.map Parcel.body).sublists,
    written <+: (uint32 order).frames (hello :: messages))
    (by simp only [Unbroken, List.mem_sublists])

structure Sending where
  manager : ConnectionManager
  /-- The sockets on which a message has failed with a part of its frame written. -/
  torn : Sock → Bool

namespace Sending

variable (s : Sending)

def init (self : PeerId) (order : ByteOrder) : Sending := ⟨.init self order, fun _ => false⟩

def step (event : Event) : Option Sending :=
  (s.manager.step event).map fun w =>
    { manager := w
      torn := fun sock => s.torn sock ||
        (s.manager.socketOf event = some sock &&
          tears s.manager.io.order (s.manager.sendOf event) event) }

/-- Every socket carries a beginning of whole frames. -/
def FramesIntact : Prop :=
  ∀ sock, Unbroken s.manager.self s.manager.io.order (s.manager.io.written sock)
    (s.manager.pushed sock)

/-- A socket that carries a part of a frame that has failed accepts no more bytes. -/
def Spares (event : Event) : Prop :=
  ∀ sock ∈ s.manager.socketOf event, s.torn sock = true →
    bytesPut (s.manager.sendOf event) event = []

instance (event : Event) : Decidable (s.Spares event) := by
  unfold Spares
  infer_instance

end Sending

end Diplom
