import Diplom.Lib.Machine
import Diplom.Transport.AsyncFd

/-!
# Asynchronous operations on one loop

Any number of `AsyncFd` objects on one event loop and one thread, on the same descriptors or on
different ones. Each call of `RecvMessage` or `SendMessage` has a `resolve` of its own. `EpollLoop`
is used by others too: they register callbacks that belong to no `AsyncFd`, and call what they like
with any token.

A call of a `resolve` is the last thing its caller does, so what it does in turn comes as the next
events of the run.
-/

namespace Diplom

abbrev ObjectId := Nat

/-- A call of `RecvMessage` or `SendMessage`, and with it the `resolve` it was given. -/
structure AsyncCall where
  object : ObjectId
  number : Nat
deriving DecidableEq

/-- Nothing stands for a callback that belongs to no `AsyncFd`. -/
abbrev SharedLoop := AsyncLoop (Option AsyncCall) (Option AsyncCall)

/-- The call whose `resolve` a closure captured. -/
def Closure.call : Closure (Option AsyncCall) (Option AsyncCall) → Option AsyncCall
  | .recv _ call => call
  | .send _ call => call

structure AsyncRun where
  order : ByteOrder
  loop : SharedLoop
  objects : PartialMap ObjectId AsyncFd
  nextObject : ObjectId
  nextCall : Nat
  /-- The calls that returned false. -/
  refused : List AsyncCall
  /-- The calls whose `resolve` was called, in order. -/
  resolved : List AsyncCall

namespace AsyncRun

variable (s : AsyncRun)

def init (order : ByteOrder) : AsyncRun where
  order := order
  loop := .init
  objects := .empty
  nextObject := 0
  nextCall := 0
  refused := []
  resolved := []

inductive Event
  /-- `AsyncFd::Create`. -/
  | create (fd : Fd)
  /-- `AsyncFd::RecvMessage`. -/
  | recvMessage (object : ObjectId) (ok : Bool)
  /-- `AsyncFd::SendMessage`. -/
  | sendMessage (object : ObjectId) (data : Message) (ok : Bool)
  /-- `RunCallback`, with what `recv` or `send` returns. -/
  | runCallback (key : FdDirection) (res : EpollResult) (received : RecvReturn)
      (sent : SendReturn) (ok : Bool)
  /-- `AsyncFd::Release`, called by the user or by the destructor. -/
  | release (object : ObjectId) (ok : Bool)
  /-- A call on the loop by someone else, `CloseFD` for one. -/
  | other (call : LoopCall Unit Unit)

/-- What the object's function came to. A process that was aborted takes no more steps. -/
def settle {Result : Type} (call : AsyncCall) :
    AsyncFd.Outcome SharedLoop (Option AsyncCall) Result → Option AsyncRun
  | .refused => some { s with refused := s.refused ++ [call] }
  | .pending a loop => some { s with loop := loop, objects := s.objects.set call.object a }
  | .resolved a loop resolve _ =>
      some { s with loop := loop, objects := s.objects.set call.object a, resolved :=
        s.resolved ++ resolve.toList }
  | .aborted => none

/-- A call on the tables by someone who is no `AsyncFd`. -/
def foreign : LoopCall Unit Unit → LoopCall (Closure (Option AsyncCall) (Option AsyncCall)) Unit
  | .registerAction fd dir _ _ ok => .registerAction fd dir (.recv .start none) none ok
  | .replaceAction token _ => .replaceAction token (.recv .start none)
  | .deregisterAction token ok => .deregisterAction token ok
  | .deregisterFd fd ok => .deregisterFd fd ok

def step : Event → Option AsyncRun
  | .create fd => some { s with objects := s.objects.set s.nextObject (.create fd), nextObject :=
    s.nextObject + 1 }
  | .recvMessage object ok =>
      match s.objects object with
      | none => none
      | some a =>
          let call : AsyncCall := ⟨object, s.nextCall⟩
          { s with nextCall := s.nextCall + 1 }.settle call (a.recvMessage s.loop (some call) ok)
  | .sendMessage object data ok =>
      match s.objects object with
      | none => none
      | some a =>
          let call : AsyncCall := ⟨object, s.nextCall⟩
          { s with nextCall := s.nextCall + 1 }.settle call
            (a.sendMessage s.order s.loop data (some call) ok)
  | .runCallback key res received sent ok =>
      match s.loop.callbackAt key.fd key.direction with
      | some (.recv op (some call)) =>
          match s.objects call.object with
          | none => none
          | some a => s.settle call (a.recvEvent s.order s.loop op (some call) res received ok)
      | some (.send op (some call)) =>
          match s.objects call.object with
          | none => none
          | some a => s.settle call (a.sendEvent s.loop op (some call) res sent ok)
      | _ => some s
  | .release object ok =>
      match s.objects object with
      | none => none
      | some a =>
          let (_, a, loop) := a.release s.loop ok
          some { s with loop := loop, objects := s.objects.set object a }
  | .other call => some { s with loop := s.loop.call (foreign call) }

def machine : Machine AsyncRun Event := ⟨step⟩

/-! ### What is claimed -/

/-- No `resolve` was called twice, and none that was given to a call that returned false. -/
structure ResolvedOnce (s : AsyncRun) : Prop where
  once : s.resolved.Nodup
  refused : ∀ call ∈ s.refused, call ∉ s.resolved

/-- The object has no token, and nothing of it is registered. -/
structure Disarmed (object : ObjectId) (s : AsyncRun) : Prop where
  token : ∃ a, s.objects object = some a ∧ a.token = 0
  actions : ∀ key keeper call, s.loop.fdToCallback key = some keeper →
    keeper.callback.call = some call → call.object ≠ object

/-- A step that calls a `resolve` has disarmed its object and, if a callback did, has left the
callback's place free; and a call that returns false has changed nothing. -/
structure DisarmsFirst (s : AsyncRun) (event : Event) (s' : AsyncRun) : Prop where
  resolved : s'.resolved = s.resolved ∨ ∃ call, s'.resolved = s.resolved ++ [call] ∧
    s'.Disarmed call.object ∧ ∀ key res received sent ok,
    event = .runCallback key res received sent ok → s'.loop.fdToCallback key = none
  refused : s'.refused ≠ s.refused → s'.loop = s.loop ∧ s'.objects = s.objects ∧
    s'.resolved = s.resolved

def Disarms (s : AsyncRun) (event : Event) : Prop :=
  ∀ s', s.step event = some s' → DisarmsFirst s event s'

end AsyncRun

end Diplom
