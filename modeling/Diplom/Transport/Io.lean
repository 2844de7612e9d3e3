import Diplom.Transport.AsyncFd

/-!
# Descriptors, the loop and its objects

What a connection manager stands on: the process's open descriptors, the event loop, and the
`AsyncFd` objects whose operations are registered there. Each `AsyncFd` of the manager is used for
one operation after another and has at most one registered, so an object is found by the place of
its operation.

An object whose callback `DeregisterFd` took away still has its token. When the loop destroys that
callback the object goes with it, and its destructor hands the token back: that is `destroy`, at any
later moment.

A descriptor is a number that the kernel gives out again after `close`. A `Sock` is the socket
behind it, numbered in the order of creation and never given out twice. What has passed through a
socket is kept beside it, for the statements.
-/

namespace Diplom

/-- A socket, by its place in the order of creation. -/
abbrev Sock := Nat

/-- A log of each socket, with something added to one of them. -/
def appendTo {α : Type} (log : Sock → List α) : Option Sock → List α → Sock → List α
  | none, _ => log
  | some sock, more => fun s => if s = sock then log s ++ more else log s

section Logs

variable {α : Type} (log : Sock → List α)

theorem appendTo_self (sock : Sock) (more : List α) :
    appendTo log (some sock) more sock = log sock ++ more := if_pos rfl

theorem appendTo_of_ne {sock : Option Sock} {s : Sock} (h : sock ≠ some s) (more : List α) :
    appendTo log sock more s = log s := by
  cases sock with
  | none => rfl
  | some sock => exact if_neg fun hs => h (congrArg some hs.symm)

end Logs

structure Io (OnMessage OnSent : Type) where
  order : ByteOrder
  loop : AsyncLoop OnMessage OnSent
  /-- The object of the operation registered in a place. -/
  objects : PartialMap FdDirection AsyncFd
  /-- The tokens of the objects whose callback is gone and whose destructor has not run. -/
  orphans : List CancellationToken
  fds : PartialMap Fd Sock
  nextSock : Sock
  /-- Every `close` call, with the socket it closed. -/
  closes : List (Fd × Option Sock)
  written : Sock → List Byte
  taken : Sock → List Byte

namespace Io

variable {OnMessage OnSent : Type} (io : Io OnMessage OnSent)

def init (order : ByteOrder) : Io OnMessage OnSent where
  order := order
  loop := .init
  objects := .empty
  orphans := []
  fds := .empty
  nextSock := 0
  closes := []
  written := fun _ => []
  taken := fun _ => []

/-- `socket` or `accept` gave the number `fd`. -/
def openFd (fd : Fd) : Io OnMessage OnSent :=
  { io with fds := io.fds.set fd io.nextSock, nextSock := io.nextSock + 1 }

/-- `close`. A closed descriptor leaves the interest set by itself. -/
def close (fd : Fd) : Io OnMessage OnSent :=
  { io with
    loop := { io.loop with interest := io.loop.interest.erase fd }
    fds := io.fds.erase fd
    closes := io.closes ++ [(fd, io.fds fd)] }

/-- An object's operation is registered in a place of the loop. -/
def place (key : FdDirection) (a : AsyncFd) (loop : AsyncLoop OnMessage OnSent) :
    Io OnMessage OnSent :=
  { io with loop := loop, objects := io.objects.set key a }

/-- An object's operation is over. -/
def vacate (key : FdDirection) (loop : AsyncLoop OnMessage OnSent) : Io OnMessage OnSent :=
  { io with loop := loop, objects := io.objects.erase key }

/-- `Create(fd)->RecvMessage(resolve)`, or nothing where `resolve` has an error before the call
returns. `epoll_ctl` refuses a closed descriptor. -/
def recvMessage (fd : Fd) (resolve : OnMessage) (ok : Bool) : Option (Io OnMessage OnSent) :=
  match (AsyncFd.create fd).recvMessage io.loop resolve (ok && io.fds.contains fd) with
  | .pending a loop => some (io.place ⟨fd, .input⟩ a loop)
  | _ => none

/-- What `Create(fd)->SendMessage(data, resolve)` comes to before it returns. -/
inductive Started (S : Type)
  | pending (io : S)
  | failed
  | aborted

def sendMessage (fd : Fd) (data : Message) (resolve : OnSent) (ok : Bool) :
    Started (Io OnMessage OnSent) :=
  match (AsyncFd.create fd).sendMessage io.order io.loop data resolve
    (ok && io.fds.contains fd) with
  | .pending a loop => .pending (io.place ⟨fd, .output⟩ a loop)
  | .aborted => .aborted
  | _ => .failed

/-- What running a callback comes to, up to the call of `resolve`. -/
inductive Ran (S Resolve Result : Type)
  | pending (io : S)
  | resolved (io : S) (resolve : Resolve) (result : IoResult Result)
  | aborted

/-- `RunCallback` for `EPOLLIN`: nothing if no receiving operation is registered. -/
def recvEvent (fd : Fd) (res : EpollResult) (ret : RecvReturn) (ok : Bool) :
    Option (Ran (Io OnMessage OnSent) OnMessage Message) :=
  match io.loop.callbackAt fd .input, io.objects ⟨fd, .input⟩ with
  | some (.recv op resolve), some a =>
      let io := { io with taken := appendTo io.taken (io.fds fd) (ret.bytes res) }
      match a.recvEvent io.order io.loop op resolve res ret ok with
      | .pending a loop => some (.pending (io.place ⟨fd, .input⟩ a loop))
      | .resolved _ loop resolve result =>
        some (.resolved (io.vacate ⟨fd, .input⟩ loop) resolve result)
      | .aborted => some .aborted
      | .refused => none
  | _, _ => none

/-- `RunCallback` for `EPOLLOUT`. -/
def sendEvent (fd : Fd) (res : EpollResult) (ret : SendReturn) (ok : Bool) :
    Option (Ran (Io OnMessage OnSent) OnSent Unit) :=
  match io.loop.callbackAt fd .output, io.objects ⟨fd, .output⟩ with
  | some (.send op resolve), some a =>
      let io := { io with written := appendTo io.written (io.fds fd) (op.put res ret) }
      match a.sendEvent io.loop op resolve res ret ok with
      | .pending a loop => some (.pending (io.place ⟨fd, .output⟩ a loop))
      | .resolved _ loop resolve result =>
        some (.resolved (io.vacate ⟨fd, .output⟩ loop) resolve result)
      | .aborted => some .aborted
      | .refused => none
  | _, _ => none

/-- The token of the object in a place, if an action is registered there. -/
def droppedToken (key : FdDirection) : List CancellationToken :=
  if io.loop.fdToCallback.contains key then ((io.objects key).map AsyncFd.token).toList else []

/-- `DeregisterFd`: the objects of both operations are left to be destroyed. -/
def deregisterFd (fd : Fd) (ok : Bool) : Io OnMessage OnSent :=
  { io with
    loop := io.loop.deregisterFd fd ok
    objects := (io.objects.erase ⟨fd, .input⟩).erase ⟨fd, .output⟩
    orphans := io.orphans ++ io.droppedToken ⟨fd, .input⟩ ++ io.droppedToken ⟨fd, .output⟩ }

/-- The destructor of an object with a token: `Release` calls `DeregisterAction`, and if the token
leads to an action, the object of that one is left to be destroyed in its turn. -/
def destroy (token : CancellationToken) (ok : Bool) : Io OnMessage OnSent :=
  let loop := (io.loop.deregisterAction token ok).2
  let orphans := io.orphans.erase token
  match io.loop.cancelMap token with
  | none => { io with loop := loop, orphans := orphans }
  | some key =>
      { io with
        loop := loop
        objects := if io.loop.fdToCallback.contains key then io.objects.erase key else io.objects
        orphans := orphans ++ io.droppedToken key }

/-! ### The registered operations -/

/-- The receiving operation registered for a descriptor. -/
def recvAt : PartialMap Fd (RecvOp × OnMessage) := fun fd =>
  (io.loop.callbackAt fd .input).bind Closure.asRecv

/-- The sending operation registered for a descriptor. -/
def sendAt : PartialMap Fd (SendOp × OnSent) := fun fd =>
  (io.loop.callbackAt fd .output).bind Closure.asSend

end Io

end Diplom
