import Diplom.Transport.Broadcast

/-!
# Hellos as datagrams

`ReceiveBroadcasts` takes the datagrams from the broadcast socket until there is none, and looks at
each where it lies: the size first, and then the identifier with `strcmp`, through a pointer that is
cast. What lies in memory behind a string constant is given from outside.
-/

namespace Diplom

/-- A datagram in the queue of a socket. -/
structure Datagram where
  payload : Message
  sender : InAddr
deriving DecidableEq

/-- `BUFFER_LEN`. -/
def bufferLen : Nat := 1024

/-- `read_broadcast`: what does not fit into the buffer is lost. -/
def readBroadcast (d : Datagram) : Message × InAddr := (d.payload.take bufferLen, d.sender)

/-- `IsValid` through the cast pointer: `strcmp` of what lies from the start of the message on with
what lies from `HELLO_ID` on. -/
def castIsValid (message behind : List Byte) : Bool := strcmpEq message (helloId.toList ++ behind)

/-- `*msg`, for a message of the size of a `HelloMsg`. -/
def castHello (message : Message) (h : message.length = HelloMsg.size) : HelloMsg :=
  HelloMsg.ofBytes message h

/-- `ReceiveBroadcasts`, on the datagrams in the queue, with any `ProcessHello` that may end the
process. -/
def receiveBroadcasts {State : Type} (processHello : State → InAddr → HelloMsg → Option State)
    (behind : List Byte) : List Datagram → State → Option State
  | [], s => some s
  | d :: queue, s =>
      let (message, addr) := readBroadcast d
      if h : message.length = HelloMsg.size then
        if castIsValid message behind then
          (processHello s addr (castHello message h)).bind
            (receiveBroadcasts processHello behind queue)
        else receiveBroadcasts processHello behind queue s
      else receiveBroadcasts processHello behind queue s

end Diplom
