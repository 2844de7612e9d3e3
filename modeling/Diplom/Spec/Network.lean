import Diplom.Lib.Machine
import Diplom.Spec.Frames

/-!
# A network of nodes

Every node runs its own manager, on a machine of its own. A TCP connection joins a socket that a
node has dialed with one that a node has accepted, and brings each of them what the other one is
given by `send`, in order, until it breaks. When it breaks is open: any `recv` can find an error or
the end of the stream, and any `send` can fail. One step is one step of one node, a whole call or a
whole callback, so the nodes' steps interleave but the calls of a node overlap none of its
callbacks.
-/

namespace Diplom

structure Network (Node : Type) where
  managers : Node → ConnectionManager
  /-- The sockets that nodes have made with `socket`, to dial others. -/
  dialed : List (Node × Sock)
  /-- The other end of the TCP connection of a socket. -/
  far : PartialMap (Node × Sock) (Node × Sock)

namespace Network

variable {Node : Type} [DecidableEq Node] (net : Network Node)

def init (self : Node → PeerId) (order : Node → ByteOrder) : Network Node where
  managers := fun node => .init (self node) (order node)
  dialed := []
  far := .empty

/-- What a node has sent on one of its sockets. -/
def written (here : Node × Sock) : List Byte := (net.managers here.1).io.written here.2

/-- What a node has received on one of its sockets. -/
def taken (here : Node × Sock) : List Byte := (net.managers here.1).io.taken here.2

/-- What comes to a socket from its other end. -/
def stream (here : Node × Sock) : List Byte :=
  match net.far here with
  | none => []
  | some there => net.written there

inductive Event (Node : Type)
  /-- `AcceptConn` on a node gives the other end of a socket that has been dialed. -/
  | accept (node : Node) (fd : Fd) (register : Bool) (initiator : Node × Sock)
  /-- Any other step of a node. -/
  | runs (node : Node) (event : ConnectionManager.Event)

/-- The sockets that a node has made in a step. -/
def opened (node : Node) (w : ConnectionManager) : List (Node × Sock) :=
  if w.io.nextSock = (net.managers node).io.nextSock then []
  else [(node, (net.managers node).io.nextSock)]

/-- `recv` finds what the other end has sent and this one has not received yet, or a part of it. -/
def Delivers (node : Node) : ConnectionManager.Event → Prop
  | .readable fd res ret _ =>
      ∀ sock ∈ (net.managers node).io.fds fd,
        net.taken (node, sock) ++ ret.bytes res <+: net.stream (node, sock)
  | _ => True

instance (node : Node) (event : ConnectionManager.Event) : Decidable (net.Delivers node event) :=
  match event with
  | .readable fd res ret _ =>
      inferInstanceAs (Decidable (∀ sock ∈ (net.managers node).io.fds fd,
        net.taken (node, sock) ++ ret.bytes res <+: net.stream (node, sock)))
  | .accept .. | .openSession .. | .closeSession .. | .sendMessage .. | .writable ..
  | .destroy .. =>
      inferInstanceAs (Decidable True)

def step : Event Node → Option (Network Node)
  | .accept node fd register initiator =>
      let acceptor := (node, (net.managers node).io.nextSock)
      if initiator ∈ net.dialed ∧ net.far initiator = none then
        ((net.managers node).step (.accept fd register)).map fun w =>
          { net with
            managers := Function.update net.managers node w
            far := (net.far.set initiator acceptor).set acceptor initiator }
      else none
  | .runs _ (.accept ..) => none
  | .runs node event =>
      if net.Delivers node event then
        ((net.managers node).step event).map fun w =>
          { net with
            managers := Function.update net.managers node w
            dialed := net.dialed ++ net.opened node w }
      else none

def machine : Machine (Network Node) (Event Node) := ⟨step⟩

/-- The two ends of a connection know each other: the one that has dialed enters it with the
identity of the other, which has entered it before, and the one that has accepted with the identity
of the one that has dialed, which has sent its hello. -/
structure Agrees : Prop where
  outgoing : ∀ node sock peer, (sock, (peer, .outgoing)) ∈ (net.managers node).records →
    ∃ there ∈ net.far (node, sock), there ∉ net.dialed ∧ (net.managers there.1).self = peer ∧
      (there.2, ((net.managers node).self, .incoming)) ∈ (net.managers there.1).records
  incoming : ∀ node sock peer, (sock, (peer, .incoming)) ∈ (net.managers node).records →
    ∃ there ∈ net.far (node, sock), there ∈ net.dialed ∧ (net.managers there.1).self = peer ∧
      frame (net.managers there.1).io.order (HelloMsg.make peer helloNotify).serialize
        <+: net.written there
  active : ∀ node fd conn, (net.managers node).activeConns fd = some conn →
    ∃ sock, (net.managers node).io.fds fd = some sock ∧ (sock, conn) ∈ (net.managers node).records

/-- No `recv` that is made in a hello exchange says `EAGAIN`. -/
def NoAgain : Event Node → Prop
  | .runs node (.readable fd res ret _) =>
      ∀ op ∈ (net.managers node).io.recvAt fd, op.2 ≠ .readMessage →
        (res, ret) ≠ (.ok (), .failed .eagain)
  | _ => True

instance (event : Event Node) : Decidable (net.NoAgain event) := by
  unfold NoAgain
  split <;> infer_instance

end Network

end Diplom
