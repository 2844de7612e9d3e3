import Diplom.Lib.KeyedList
import Diplom.Lib.Machine
import Diplom.Lib.PartialMap
import Diplom.Transport.EpollLoop
import Diplom.Transport.Hello

/-!
# The broadcast manager

`BroadcastManager` keeps track of the peers that were heard of: a timer for each, its address, and
the interface it was heard on. Three callbacks of the event loop change its five tables: a hello,
the timer of a peer that was not heard of again, and a change of the network's interfaces. They run
one after another, each to its end.

What it asks of the `IpTransport` is recorded in the order of the calls. What system calls return is
given from outside. Of the event loop it uses the actions of its timers, which no other part of the
program touches.
-/

namespace Diplom

/-- `in_addr_t`. -/
abbrev InAddr := UInt32

/-- The manager's calls, and one entry that is no call. -/
inductive Deed
  | sendBroadcastHello
  | closeSession (peer : PeerId) (dir : LinkDirection)
  | neighborFound (peer : PeerId)
  | neighborLost (peer : PeerId)
  /-- A peer is tracked from here on, and nobody is told. -/
  | trackedQuietly (peer : PeerId)
deriving DecidableEq

structure BroadcastManager where
  /-- `ipTransport_->_self`. -/
  self : PeerId
  /-- The callback of a timer is told by the timer. -/
  loop : EpollLoop Fd Unit
  fdToPeer : PartialMap Fd (PeerId × CancellationToken)
  peerToFd : PartialMap PeerId Fd
  peerToAddr : PartialMap PeerId InAddr
  addrToPeer : PartialMap InAddr PeerId
  /-- In the order of the names. -/
  ifToPeer : List (String × PeerId)
  deeds : List Deed
  /-- Every timer that was created. None of them is ever closed. -/
  timers : List Fd

namespace BroadcastManager

variable (w : BroadcastManager)

def init (self : PeerId) : BroadcastManager where
  self := self
  loop := .init
  fdToPeer := .empty
  peerToFd := .empty
  peerToAddr := .empty
  addrToPeer := .empty
  ifToPeer := []
  deeds := []
  timers := []

/-- What `ProcessHello` gets back: the descriptor of `create_timer`, `-1` if there is none, whether
`epoll_ctl` accepts it, and the name from `get_interface_by_ip`, nothing for a null pointer. -/
structure TimerAnswers where
  timer : Fd
  register : Bool
  ifname : Option String
deriving DecidableEq

/-- In `ProcessHello`, under `globalLock_`. The subscript enters a zero for a peer without a timer.
-/
def readTimer (id : PeerId) : Fd × BroadcastManager :=
  ((w.peerToFd id).getD 0, { w with peerToFd := w.peerToFd.insert id 0 })

/-- In `ProcessHello`, under `globalLock_`: the five tables get the peer. -/
def track (id : PeerId) (sender : InAddr) (timer : Fd) (token : CancellationToken)
    (ifname : String) : BroadcastManager :=
  { w with
    peerToFd := w.peerToFd.set id timer
    fdToPeer := w.fdToPeer.insert timer (id, token)
    peerToAddr := w.peerToAddr.set id sender
    addrToPeer := w.addrToPeer.set sender id
    ifToPeer := KeyedList.setOrdered ifname id w.ifToPeer }

def record (deeds : List Deed) : BroadcastManager := { w with deeds := w.deeds ++ deeds }

/-- `OnNeighborFound` sends a hello of its own first. -/
def foundDeeds (id : PeerId) (needNotify : Bool) : List Deed :=
  if needNotify then [.sendBroadcastHello, .neighborFound id] else [.trackedQuietly id]

/-- `ProcessHello`. A null pointer is no name: the string made of it throws, and the process ends.
-/
def processHello (sender : InAddr) (id : PeerId) (needNotify : Bool) (answers : TimerAnswers) :
    Option BroadcastManager :=
  if id = w.self then some w
  else
    let (tfd, w) := w.readTimer id
    if tfd ≠ 0 then some w
    else if answers.timer = -1 then some w
    else
      let w := { w with timers := answers.timer :: w.timers }
      match w.loop.registerAction answers.timer .input answers.timer none answers.register with
      | none => some w
      | some (token, loop) =>
          match answers.ifname with
          | none => none
          | some ifname =>
              some (({ w with loop := loop }.track id sender answers.timer token ifname).record
                (foundDeeds id needNotify))

/-- `ProcessPeerLost`. The entry in `ifToPeer_` stays. -/
def processPeerLost (fd : Fd) (ok : Bool) : BroadcastManager :=
  match w.fdToPeer fd with
  | none => w
  | some (peer, token) =>
      let addr := (w.peerToAddr peer).getD 0
      { w with
        loop := (w.loop.deregisterAction token ok).2
        peerToFd := w.peerToFd.erase peer
        fdToPeer := w.fdToPeer.erase fd
        peerToAddr := w.peerToAddr.erase peer
        addrToPeer := w.addrToPeer.erase addr }.record [.neighborLost peer]

/-- The entries of `ifToPeer_` whose interface is not among `ifs`. -/
def removed (ifs : List String) : List (String × PeerId) :=
  w.ifToPeer.filter fun entry => entry.1 ∉ ifs

/-- What becomes of the peer behind an entry whose interface is gone. -/
def lossDeeds (entry : String × PeerId) : List Deed :=
  [.closeSession entry.2 .all, .neighborLost entry.2]

/-- `ProcessNetworkUpdate`, when `get_interfaces` returns `ifs`. The other four tables stay. -/
def processNetworkUpdate (ifs : List String) : BroadcastManager :=
  { w with ifToPeer := w.ifToPeer.filter fun entry => entry.1 ∈ ifs }.record
    ((w.removed ifs).flatMap lossDeeds ++ [Deed.sendBroadcastHello])

/-- `GetAddress`. -/
def getAddress (peer : PeerId) : Option InAddr := w.peerToAddr peer

/-- `GetPeer`. -/
def getPeer (addr : InAddr) : Option PeerId := w.addrToPeer addr

inductive Event
  | hello (sender : InAddr) (id : PeerId) (needNotify : Bool) (answers : TimerAnswers)
  | peerLost (fd : Fd) (ok : Bool)
  | networkUpdate (ifs : List String)
deriving DecidableEq

/-- What `timerfd_create` may return: `-1`, or a number that is not in use. -/
def Unused (timer : Fd) : Prop := timer = -1 ∨ 0 ≤ timer ∧ timer ∉ w.timers

instance (timer : Fd) : Decidable (w.Unused timer) := by
  unfold Unused
  infer_instance

def step : Event → Option BroadcastManager
  | .hello sender id needNotify answers =>
      if w.Unused answers.timer then w.processHello sender id needNotify answers else none
  | .peerLost fd ok => some (w.processPeerLost fd ok)
  | .networkUpdate ifs => some (w.processNetworkUpdate ifs)

def machine : Machine BroadcastManager Event := ⟨step⟩

end BroadcastManager

end Diplom
