import Diplom.Emulator.LogFiles
import Diplom.Transport.PeerIdText

/-!
# What is logged

`LOG` prints one line: the time of day, the tag of the file, the level, the function, and a message
that is made from a format. The calls of `ip_transport.cpp` with the level `INFO` are listed one by
one; they end in a peer id. Everything else that logs is known by its tag and level only.
-/

namespace Diplom

/-- `TAG`, for each file that logs. -/
inductive LogTag
  | ipTransport
  | connectionManager
  | broadcastManager
  | epollLoop
  | asyncFd
  | ipUtils
  | main
deriving DecidableEq, Repr

def LogTag.text : LogTag → Text
  | .ipTransport => "IpTransport".toList
  | .connectionManager => "ConnectionManager".toList
  | .broadcastManager => "BroadcastManager".toList
  | .epollLoop => "EpollLoop".toList
  | .asyncFd => "AsyncFd".toList
  | .ipUtils => "ip_utils".toList
  | .main => "main".toList

/-- The levels, by the macros that are called: `LOGT` to `LOGF`. -/
inductive LogLevel
  | trace
  | debug
  | info
  | warn
  | error
  | fatal
deriving DecidableEq, Repr

def LogLevel.text : LogLevel → Text
  | .trace => "TRACE".toList
  | .debug => "DEBUG".toList
  | .info => "INFO".toList
  | .warn => "WARN".toList
  | .error => "ERROR".toList
  | .fatal => "FATAL".toList

/-- A call of `LOG`, with the arguments put into the format. -/
structure LogCall where
  tag : LogTag
  level : LogLevel
  /-- `__FUNCTION__`. -/
  function : Text
  message : Text

namespace LogCall

variable (call : LogCall)

/-- What stands behind the time. -/
def body : Text :=
  call.tag.text ++ ':' :: call.level.text ++ ':' :: call.function ++ ':' :: call.message

/-- `LOG` at a point in time, without the end of the line. -/
def line (t : Int) : Text := '[' :: getDatetimeStr t ++ ']' :: call.body

/-- What `PrintLog` prints, with `vprintf` and `fputc` taken as one print. -/
def print (t : Int) : Text := call.line t ++ ['\n']

end LogCall

/-- `ToString`. -/
def LinkDirection.toText : LinkDirection → Text
  | .incoming => "INCOMING".toList
  | .outgoing => "OUTGOING".toList
  | .all => "ALL".toList

/-- `PeerIdToString(peer).c_str()`. -/
def peerText (peer : PeerId) : Text :=
  (peerIdToString (List.replicate macStrLen '\x00') peer).getD []

/-- The calls of `LOGI` in `ip_transport.cpp`. -/
inductive TransportCall
  /-- In `Start`. -/
  | started (self : PeerId)
  | openSession (peer : PeerId)
  | sendMessage (peer : PeerId)
  | closeSession (peer : PeerId)
  /-- In the functions that give the notifications. -/
  | notifies (note : Notification)

namespace TransportCall

/-- `__FUNCTION__`. -/
def function : TransportCall → Text
  | .started _ => "Start".toList
  | .openSession _ => "OpenSession".toList
  | .sendMessage _ => "SendMessage".toList
  | .closeSession _ => "CloseSession".toList
  | .notifies (.newNeighbour _) => "OnNeighborFound".toList
  | .notifies (.lostNeighbour _) => "OnNeighborLost".toList
  | .notifies (.sessionOpened _ _) => "OnLinkEstablishing".toList
  | .notifies (.error _ _) => "OnLinkEstablishingError".toList
  | .notifies (.sessionLost _ _) => "OnLinkClosed".toList
  | .notifies (.receivedMessage _ _) => "OnMessageReceived".toList

/-- The message up to the space before the peer id. -/
def front : TransportCall → Text
  | .started _ => "IP transport started with pid:".toList
  | .openSession _ => "Opening session to peer".toList
  | .sendMessage _ => "Sending message to peer".toList
  | .closeSession _ => "Closing session to peer".toList
  | .notifies (.newNeighbour _) => "Found new neighbor:".toList
  | .notifies (.lostNeighbour _) => "Lost neighbor:".toList
  | .notifies (.sessionOpened _ dir) => dir.toText ++ " session opened with peer".toList
  | .notifies (.error _ err) =>
      "Failed to open ".toList ++ err.dir.toText ++ " session with peer".toList
  | .notifies (.sessionLost _ dir) => dir.toText ++ " session closed with peer".toList
  | .notifies (.receivedMessage _ _) => "Message received from peer".toList

/-- The peer id that ends the message. -/
def peer : TransportCall → PeerId
  | .started self => self
  | .openSession peer => peer
  | .sendMessage peer => peer
  | .closeSession peer => peer
  | .notifies (.newNeighbour peer) => peer
  | .notifies (.lostNeighbour peer) => peer
  | .notifies (.sessionOpened peer _) => peer
  | .notifies (.error peer _) => peer
  | .notifies (.sessionLost peer _) => peer
  | .notifies (.receivedMessage peer _) => peer

def call (c : TransportCall) : LogCall where
  tag := .ipTransport
  level := .info
  function := c.function
  message := c.front ++ ' ' :: peerText c.peer

/-- The notification that is given behind the call. -/
def note : TransportCall → Option Notification
  | .notifies note => some note
  | _ => none

end TransportCall

/-- Any other call: of another file or another level. Its function is a name, and its message has
one line and quotes no line of the transport. -/
structure OtherCall extends LogCall where
  other : tag ≠ .ipTransport ∨ level ≠ .info
  named : ∀ c ∈ function, c ∉ [']', '\n', '\r']
  single : '\n' ∉ message ∧ '\r' ∉ message
  plain : ¬ "]IpTransport:INFO:".toList <:+: message

end Diplom
