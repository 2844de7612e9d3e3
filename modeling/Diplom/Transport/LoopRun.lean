import Diplom.Lib.Machine
import Diplom.Transport.Io

/-!
# The thread of the event loop

`EpollLoop::Run` with the places where it lets go of `globalLock_`. `RunCallback` looks the callback
up under the lock and runs it without; the drain of `removeQueue_` takes one callback out under the
lock and destroys it without. Between any two steps of the thread, calls come from other threads,
from the callback that is running and from the one that is being destroyed, and descriptors are
opened and closed.

Callback objects are numbered as `std::make_unique` creates them. Beside them stand the sockets:
whose state an event reports, for which one an action was registered, and for which one a callback
was made. A callback that `ReplaceAction` puts in is for the socket that its token stands for,
whoever has the place by then.
-/

namespace Diplom

/-- A callback object, by its place in the order of creation. -/
abbrev CallbackId := Nat

/-- An element of the array that `epoll_wait` fills. `sock` is the socket behind the descriptor at
that moment. -/
inductive Reported
  | remove
  | stop
  | io (fd : Fd) (events : EpollEvents) (sock : Sock)
deriving DecidableEq

/-- A call of `RunCallback`. -/
structure Dispatch where
  fd : Fd
  dir : IoDirection
  res : EpollResult
  sock : Sock
deriving DecidableEq

def Dispatch.key (d : Dispatch) : FdDirection := ⟨d.fd, d.dir⟩

/-- The calls that one event leads to. -/
def dispatches (fd : Fd) (events : EpollEvents) (sock : Sock) : List Dispatch :=
  if events &&& epollHup ≠ 0 ∨ events &&& epollErr ≠ 0 then
    [⟨fd, .input, .err .error, sock⟩, ⟨fd, .output, .err .error, sock⟩]
  else if events &&& epollIn ≠ 0 then [⟨fd, .input, .ok (), sock⟩]
  else if events &&& epollOut ≠ 0 then [⟨fd, .output, .ok (), sock⟩]
  else []

/-- Where the thread stands in `Run`. -/
inductive Thread
  /-- In `epoll_wait`. -/
  | polling
  | handling (rest : List Reported)
  | dispatching (calls : List Dispatch) (rest : List Reported)
  | running (callback : CallbackId) (calls : List Dispatch) (rest : List Reported)
  /-- At the head of the loop that empties `removeQueue_`. -/
  | draining (rest : List Reported)
  | destroying (callback : CallbackId) (rest : List Reported)
  | returned
deriving DecidableEq

/-- `MAX_EPOLL_EVENTS`. -/
def maxEpollEvents : Nat := 32

structure LoopRun (Keep : Type) where
  loop : EpollLoop CallbackId Keep
  /-- How many callback objects have been created. -/
  created : CallbackId
  /-- The callback objects that the drain has destroyed, in order. -/
  destroyed : List CallbackId
  thread : Thread
  fds : PartialMap Fd Sock
  nextSock : Sock
  /-- The socket that an action was registered for, by its token. -/
  tokenSock : PartialMap CancellationToken Sock
  /-- The socket that a callback object was made for. -/
  callbackSock : PartialMap CallbackId Sock

inductive LoopEvent (Keep : Type)
  /-- `epoll_wait` returns, with nothing where it failed. -/
  | poll (events : Option (List Reported))
  /-- The next event of the array, or the end of what one event leads to. -/
  | next
  /-- The part of `RunCallback` under the lock. -/
  | fetch
  /-- The callback returns. -/
  | finish
  /-- The part of the drain under the lock. -/
  | drain
  /-- The callback that the drain took out is destroyed. -/
  | destroyed
  /-- A call on the tables; the callback it brings is a new object. -/
  | call (call : LoopCall Unit Keep)
  | openFd (fd : Fd)
  | closeFd (fd : Fd)

namespace LoopRun

variable {Keep : Type} (s : LoopRun Keep)

def init : LoopRun Keep where
  loop := .init
  created := 0
  destroyed := []
  thread := .polling
  fds := .empty
  nextSock := 0
  tokenSock := .empty
  callbackSock := .empty

/-- The callback object that is created next is made for a socket. -/
def madeFor (sock : Option Sock) : PartialMap CallbackId Sock :=
  fun id => if id = s.created then sock else s.callbackSock id

/-- A call on the tables. `epoll_ctl` refuses a closed descriptor. -/
def callStep : LoopCall Unit Keep → LoopRun Keep
  | .registerAction fd dir _ afd ok =>
      match s.fds fd with
      | none => s
      | some sock =>
          match s.loop.registerAction fd dir s.created afd ok with
          | none => s
          | some (token, loop) => { s with
              loop := loop
              created := s.created + 1
              tokenSock := s.tokenSock.set token sock
              callbackSock := s.madeFor (some sock) }
  | .replaceAction token _ =>
      match s.loop.replaceAction token s.created with
      | (true, loop) => { s with
          loop := loop
          created := s.created + 1
          callbackSock := s.madeFor (s.tokenSock token) }
      | (false, _) => s
  | .deregisterAction token ok => { s with loop := (s.loop.deregisterAction token ok).2 }
  | .deregisterFd fd ok => { s with loop := s.loop.deregisterFd fd ok }

/-- What `epoll_wait` reports: descriptors that it watches, each with the state of the socket behind
it. -/
def Reports : Reported → Prop
  | .io fd _ sock => s.loop.interest.contains fd = true ∧ s.fds fd = some sock
  | _ => True

instance (r : Reported) : Decidable (s.Reports r) := by
  cases r <;> unfold Reports <;> infer_instance

def step (event : LoopEvent Keep) : Option (LoopRun Keep) :=
  match event with
  | .poll none => if s.thread = .polling then some { s with thread := .returned } else none
  | .poll (some events) =>
      if s.thread = .polling ∧ events.length ≤ maxEpollEvents ∧ ∀ r ∈ events, s.Reports r then
        some { s with thread := .handling events }
      else none
  | .next =>
      match s.thread with
      | .handling [] => some { s with thread := .polling }
      | .handling (.stop :: _) => some { s with thread := .returned }
      | .handling (.remove :: rest) => some { s with thread := .draining rest }
      | .handling (.io fd events sock :: rest) =>
        some { s with thread := .dispatching (dispatches fd events sock) rest }
      | .dispatching [] rest => some { s with thread := .handling rest }
      | _ => none
  | .fetch =>
      match s.thread with
      | .dispatching (d :: calls) rest =>
          match s.loop.fdToCallback d.key with
          | some keeper => some { s with thread := .running keeper.callback calls rest }
          | none => some { s with thread := .dispatching calls rest }
      | _ => none
  | .finish =>
      match s.thread with
      | .running _ calls rest => some { s with thread := .dispatching calls rest }
      | _ => none
  | .drain =>
      match s.thread with
      | .draining rest =>
          match s.loop.removeQueue with
          | [] => some { s with thread := .handling rest }
          | callback :: queue => some { s with
              loop := { s.loop with removeQueue := queue }
              thread := .destroying callback rest }
      | _ => none
  | .destroyed =>
      match s.thread with
      | .destroying callback rest =>
        some { s with destroyed := s.destroyed ++ [callback], thread := .draining rest }
      | _ => none
  | .call call => some (s.callStep call)
  | .openFd fd =>
      if 0 ≤ fd ∧ s.fds fd = none then
        some { s with fds := s.fds.set fd s.nextSock, nextSock := s.nextSock + 1 }
      else none
  | .closeFd fd =>
      some { s with
        fds := s.fds.erase fd
        loop := { s.loop with interest := s.loop.interest.erase fd } }

def machine : Machine (LoopRun Keep) (LoopEvent Keep) := ⟨step⟩

end LoopRun

end Diplom
