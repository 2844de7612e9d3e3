import Mathlib.Data.List.Basic

/-!
# Peers, messages and notifications

The vocabulary of the `types` and `interface` directories: peer ids, messages, link directions, the
errors of a session request and the notifications a transport gives its manager.
-/

namespace Diplom

abbrev Byte := UInt8

/-- A message is the bytes of its body. -/
abbrev Message := List Byte

/-- A file descriptor number. `-1` is no descriptor. -/
abbrev Fd := Int

/-- A fixed-width byte array. -/
structure Bytes (n : Nat) where
  toList : List Byte
  length_eq : toList.length = n
deriving DecidableEq

namespace Bytes

@[simp] theorem length_toList {n : Nat} (b : Bytes n) : b.toList.length = n := b.length_eq

theorem toList_injective {n : Nat} {a b : Bytes n} (h : a.toList = b.toList) : a = b := by
  cases a
  cases b
  simpa using h

/-- The first `n` bytes of a list that has them. -/
def take (n : Nat) (bs : List Byte) (h : n ≤ bs.length) : Bytes n where
  toList := bs.take n
  length_eq := by rw [List.length_take, Nat.min_eq_left h]

end Bytes

/-- `PEER_ID_LEN`. -/
def peerIdLen : Nat := 6

abbrev PeerId := Bytes peerIdLen

inductive LinkDirection
  | incoming
  | outgoing
  | all
deriving DecidableEq, Repr

inductive OpenSessionErrorKind
  | sessionExists
  | noSuchPeer
  | error
deriving DecidableEq, Repr

/-- The one kind of error a manager is told about. -/
structure OpenSessionError where
  kind : OpenSessionErrorKind
  dir : LinkDirection
deriving DecidableEq, Repr

/-- The calls a transport makes on its manager. The transport id they carry is the constant
`GetTransportId` and is left out. -/
inductive Notification
  | newNeighbour (peer : PeerId)
  | lostNeighbour (peer : PeerId)
  | sessionOpened (peer : PeerId) (dir : LinkDirection)
  | error (peer : PeerId) (err : OpenSessionError)
  | sessionLost (peer : PeerId) (dir : LinkDirection)
  | receivedMessage (peer : PeerId) (msg : Message)
deriving DecidableEq

/-! ### Results of asynchronous operations -/

inductive IoError
  | timeout
  | error
deriving DecidableEq, Repr

/-- `IoResult<T>`: a value or an error. -/
inductive IoResult (α : Type)
  | ok (value : α)
  | err (e : IoError)
deriving DecidableEq, Repr

abbrev EpollResult := IoResult Unit

end Diplom
