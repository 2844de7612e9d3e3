import Diplom.Transport.EpollLoop

/-!
# Starting the two managers

`BroadcastManager::Start` opens a UDP socket, a timer and a netlink socket,
`ConnectionManager::Start` a listening socket, and each registers an action for each of its
descriptors. What a call has opened and closed is kept in the order of the calls, beside the loop.

`create_broadcast_socket`, `create_tcp_socket` and `create_netlink_socket` differ in the calls they
make on a new socket; each closes it when one of them fails.
-/

namespace Diplom

/-- The loop, and what the calls of a start have done besides. -/
structure Startup (Callback Keep : Type) where
  loop : EpollLoop Callback Keep
  opened : List Fd
  closed : List Fd
  /-- The calls of `SendBroadcastHello`. -/
  hellos : Nat

/-- The lambdas that are registered. -/
structure StartLambdas (Callback : Type) where
  receiveBroadcasts : Callback
  broadcastTimer : Callback
  networkUpdate : Callback
  acceptConn : Callback

namespace Startup

variable {Callback Keep : Type} (s : Startup Callback Keep)

/-- Before the first call. -/
def begin (loop : EpollLoop Callback Keep) : Startup Callback Keep := ⟨loop, [], [], 0⟩

/-- `close`. A closed descriptor leaves the interest set by itself. -/
def close (fd : Fd) : Startup Callback Keep :=
  { s with
    loop := { s.loop with interest := s.loop.interest.erase fd }
    closed := s.closed ++ [fd] }

/-- A new descriptor and the calls that set it up, each with what it comes to. -/
def createDescriptor (descriptor : Option Fd) (setups : List Bool) :
    Option Fd × Startup Callback Keep :=
  match descriptor with
  | none => (none, s)
  | some fd =>
      let s := { s with opened := s.opened ++ [fd] }
      if setups.all id then (some fd, s) else (none, s.close fd)

def registerAction (fd : Fd) (callback : Callback) (ok : Bool) :
    Option (CancellationToken × Startup Callback Keep) :=
  (s.loop.registerAction fd .input callback none ok).map fun (token, loop) =>
  (token, { s with loop := loop })

def deregisterAction (token : CancellationToken) (ok : Bool) : Startup Callback Keep :=
  { s with loop := (s.loop.deregisterAction token ok).2 }

def sendBroadcastHello : Startup Callback Keep := { s with hellos := s.hellos + 1 }

end Startup

/-- What system calls answer in `BroadcastManager::Start`. -/
structure BroadcastAnswers where
  /-- `socket`, `setsockopt` and `bind` in `create_broadcast_socket`. -/
  socket : Option Fd
  broadcast : Bool
  bind : Bool
  registerSocket : Bool
  /-- `timerfd_create`. -/
  timer : Option Fd
  registerTimer : Bool
  /-- `socket` and `bind` in `create_netlink_socket`. -/
  netlink : Option Fd
  netlinkBind : Bool
  registerNetlink : Bool
  /-- `epoll_ctl`, when the actions of the socket and of the timer are taken back. -/
  deregisterSocket : Bool
  deregisterTimer : Bool

/-- What system calls answer in `ConnectionManager::Start`. -/
structure ListenAnswers where
  /-- `socket`, three times `setsockopt`, and `bind` in `create_tcp_socket`. -/
  socket : Option Fd
  reuse : Bool
  noDelay : Bool
  oobInline : Bool
  bind : Bool
  listen : Bool
  register : Bool

variable {Callback Keep : Type}

/-- `BroadcastManager::Start`. -/
def BroadcastManager.start (lambdas : StartLambdas Callback) (s : Startup Callback Keep)
    (answers : BroadcastAnswers) : Bool × Startup Callback Keep :=
  match s.createDescriptor answers.socket [answers.broadcast, answers.bind] with
  | (none, s) => (false, s)
  | (some broadcastFd, s) =>
      match s.registerAction broadcastFd lambdas.receiveBroadcasts answers.registerSocket with
      | none => (false, s.close broadcastFd)
      | some (brTok, s) =>
          match s.createDescriptor answers.timer [] with
          | (none, s) =>
            (false, (s.deregisterAction brTok answers.deregisterSocket).close broadcastFd)
          | (some broadcastTimerFd, s) =>
              match s.registerAction broadcastTimerFd lambdas.broadcastTimer
                answers.registerTimer with
              | none =>
                  (false, ((s.deregisterAction brTok answers.deregisterSocket).close
                    broadcastFd).close broadcastTimerFd)
              | some (timerTok, s) =>
                  match s.createDescriptor answers.netlink [answers.netlinkBind] with
                  -- nothing is taken back here
                  | (none, s) => (false, s)
                  | (some netlinkFd, s) =>
                      match s.registerAction netlinkFd lambdas.networkUpdate
                        answers.registerNetlink with
                      | none =>
                          let s := s.deregisterAction timerTok answers.deregisterTimer
                          let s := s.deregisterAction brTok answers.deregisterSocket
                          (false, ((s.close netlinkFd).close broadcastTimerFd).close broadcastFd)
                      | some (_, s) => (true, s.sendBroadcastHello)

/-- `ConnectionManager::Start`. -/
def ConnectionManager.start (lambdas : StartLambdas Callback) (s : Startup Callback Keep)
    (answers : ListenAnswers) : Bool × Startup Callback Keep :=
  match s.createDescriptor answers.socket
    [answers.reuse, answers.noDelay, answers.oobInline, answers.bind] with
  | (none, s) => (false, s)
  | (some listenFd, s) =>
      if answers.listen = false then (false, s.close listenFd)
      else
        match s.registerAction listenFd lambdas.acceptConn answers.register with
        | none => (false, s.close listenFd)
        | some (_, s) => (true, s)

/-- In `IpTransport::Start`: `brManager.Start() && connManager.Start()`. -/
def IpTransport.startManagers (lambdas : StartLambdas Callback) (s : Startup Callback Keep)
    (broadcast : BroadcastAnswers) (listen : ListenAnswers) : Bool × Startup Callback Keep :=
  match BroadcastManager.start lambdas s broadcast with
  | (false, s) => (false, s)
  | (true, s) => ConnectionManager.start lambdas s listen

end Diplom
