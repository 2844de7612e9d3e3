import Diplom.Lib.KeyedList
import Diplom.Lib.Machine
import Diplom.Transport.AsyncRun

/-!
# What the loop destroys under its lock

The references behind the event loop's tables. A callback is what it has captured: one entry for
each `shared_ptr` to an `AsyncFd` that goes with it. An object whose last reference is dropped is
destroyed there and then, and its destructor calls `DeregisterAction` if it has a token. So the
operations on the tables are taken apart into the lines that move, destroy and drop something, and
what is destroyed or dropped for good while `globalLock_` is held is written down.

Around the loop stand its own thread and the others. References outside the loop are handles: those
of the users and those in the frames of running functions.
-/

namespace Diplom

/-- A callback, by the objects that it keeps alive. -/
abbrev Captured := List ObjectId

/-- A `CallbackKeeper`, whose callback may have been moved away. -/
structure KeeperMemory where
  callback : Option Captured
  keepLink : Option ObjectId
deriving DecidableEq, Repr

structure LoopMemory where
  fdToCallback : List (FdDirection × KeeperMemory)
  cancelMap : List (CancellationToken × FdDirection)
  removeQueue : List (Option Captured)
  nextToken : CancellationToken
  interest : PartialMap Fd EpollEvents
  /-- The callbacks that were destroyed while the lock was held. -/
  lockedDestroys : List Captured
  /-- The objects whose last reference was dropped while the lock was held. -/
  lockedDrops : List ObjectId

namespace LoopMemory

variable (m : LoopMemory)

/-- A loop after `Init`. -/
def init : LoopMemory where
  fdToCallback := []
  cancelMap := []
  removeQueue := []
  nextToken := 1
  interest := .empty
  lockedDestroys := []
  lockedDrops := []

/-- Whether something in the loop refers to an object. -/
def holds (object : ObjectId) : Bool :=
  (m.fdToCallback.any fun e => e.2.keepLink = some object || object ∈ e.2.callback.getD []) ||
    m.removeQueue.any fun callback => object ∈ callback.getD []

/-! ### Single lines, all of them under the lock -/

/-- A `unique_ptr` to a callback goes, which may be empty. -/
def destroyCallback (callback : Option Captured) : LoopMemory :=
  { m with lockedDestroys := m.lockedDestroys ++ callback.toList }

/-- A `shared_ptr` to an object goes, which may be empty. `outside` are the references that are not
in the tables. -/
def dropLink (outside : List ObjectId) (link : Option ObjectId) : LoopMemory :=
  match link with
  | none => m
  | some object =>
      if object ∈ outside ∨ m.holds object then m
      else { m with lockedDrops := m.lockedDrops ++ [object] }

/-- `std::move(keeper->second.callback)`. -/
def moveCallback (key : FdDirection) : Option Captured × LoopMemory :=
  match KeyedList.get key m.fdToCallback with
  | none => (none, m)
  | some keeper =>
      (keeper.callback, { m with
        fdToCallback := KeyedList.set key { keeper with callback := none } m.fdToCallback })

/-- `keeper->second.callback = ...`: the callback that stands there is destroyed. -/
def assignCallback (key : FdDirection) (callback : Captured) : LoopMemory :=
  match KeyedList.get key m.fdToCallback with
  | none => m
  | some keeper =>
      { m with
        fdToCallback := KeyedList.set key { keeper with callback := some callback } m.fdToCallback
        }.destroyCallback keeper.callback

/-- `fdToCallback_.erase(key)`: the callback that stands there is destroyed and the link dropped. -/
def eraseKeeper (outside : List ObjectId) (key : FdDirection) : LoopMemory :=
  match KeyedList.get key m.fdToCallback with
  | none => m
  | some keeper =>
      ({ m with fdToCallback := KeyedList.erase key m.fdToCallback }.destroyCallback
        keeper.callback).dropLink outside keeper.keepLink

/-- `UtilizeCallback`. -/
def utilizeCallback (callback : Option Captured) : LoopMemory :=
  { m with removeQueue := m.removeQueue ++ [callback] }

/-- `EpollCtl`, which leaves the interest set as it is where it fails. -/
def ctl (fd : Fd) (cmd : EpollCmd) (ev : EpollEvents) (ok : Bool) : Bool × LoopMemory :=
  match epollCtl m.interest fd cmd ev ok with
  | none => (false, m)
  | some interest => (true, { m with interest := interest })

/-! ### The operations -/

/-- `RegisterAction`: the token and the new tables, or nothing where it returns false. -/
def registerAction (fd : Fd) (dir : IoDirection) (callback : Captured) (afd : Option ObjectId)
    (ok : Bool) : Option (CancellationToken × LoopMemory) :=
  match KeyedList.get ⟨fd, dir⟩ m.fdToCallback with
  | some _ => none
  | none =>
      let both := (KeyedList.get ⟨fd, dir.opposite⟩ m.fdToCallback).isSome
      let cmd := if both then EpollCmd.mod else EpollCmd.add
      let events :=
        if both then IoDirection.input.events ||| IoDirection.output.events else dir.events
      match m.ctl fd cmd (events ||| epollHup ||| epollErr) ok with
      | (false, _) => none
      | (true, m) =>
          some (m.nextToken,
            { m with
              fdToCallback := KeyedList.insert ⟨fd, dir⟩ ⟨some callback, afd⟩ m.fdToCallback
              cancelMap := KeyedList.insert m.nextToken ⟨fd, dir⟩ m.cancelMap
              nextToken := m.nextToken + 1 })

/-- `ReplaceAction`. -/
def replaceAction (token : CancellationToken) (callback : Captured) : Bool × LoopMemory :=
  match KeyedList.get token m.cancelMap with
  | none => (false, m)
  | some key =>
      match KeyedList.get key m.fdToCallback with
      | none => (false, m)
      | some _ =>
          let (old, m) := m.moveCallback key
          let m := m.utilizeCallback old
          (true, m.assignCallback key callback)

/-- `DeregisterAction`. -/
def deregisterAction (outside : List ObjectId) (token : CancellationToken) (ok : Bool) :
    Bool × LoopMemory :=
  match KeyedList.get token m.cancelMap with
  | none => (false, m)
  | some key =>
      match KeyedList.get key m.fdToCallback with
      | none => (false, { m with cancelMap := KeyedList.erase token m.cancelMap })
      | some _ =>
          let (old, m) := m.moveCallback key
          let m := m.utilizeCallback old
          let m := m.eraseKeeper outside key
          let m := { m with cancelMap := KeyedList.erase token m.cancelMap }
          let other := (KeyedList.get ⟨key.fd, key.direction.opposite⟩ m.fdToCallback).isSome
          let cmd := if other then EpollCmd.mod else EpollCmd.del
          let events := if other then key.direction.opposite.events else key.direction.events
          m.ctl key.fd cmd events ok

/-- One half of `DeregisterFd`. The callback is in a local variable while its keeper is erased. -/
def dropAction (outside : List ObjectId) (key : FdDirection) : Bool × LoopMemory :=
  match KeyedList.get key m.fdToCallback with
  | none => (false, m)
  | some _ =>
      let (cb, m) := m.moveCallback key
      let m := m.eraseKeeper (cb.getD [] ++ outside) key
      (true, m.utilizeCallback cb)

/-- `DeregisterFd`. -/
def deregisterFd (outside : List ObjectId) (fd : Fd) (ok : Bool) : LoopMemory :=
  let (gotIn, m) := m.dropAction outside ⟨fd, .input⟩
  let (gotOut, m) := m.dropAction outside ⟨fd, .output⟩
  if gotIn || gotOut then (m.ctl fd .del 0 ok).2 else m

/-- The tables without their references. -/
def tables : EpollLoop Captured ObjectId where
  fdToCallback key := (KeyedList.get key m.fdToCallback).bind fun keeper =>
    keeper.callback.map fun callback => ⟨callback, keeper.keepLink⟩
  cancelMap token := KeyedList.get token m.cancelMap
  removeQueue := m.removeQueue.reduceOption
  nextToken := m.nextToken
  interest := m.interest

end LoopMemory

/-! ### The threads -/

/-- Where the loop's thread stands. -/
inductive LockThread
  /-- Outside of everything that matters here. -/
  | idle
  /-- In a callback, whose object is in the table or in the queue. -/
  | running (captured : Captured)
  /-- At the head of the loop that empties `removeQueue_`. -/
  | draining
  /-- Destroying the callback that it took out, without the lock: what is still captured. -/
  | destroying (captured : Captured)
  /-- In the destructor of an object, called from there. -/
  | destructing (object : ObjectId) (captured : Captured)
deriving DecidableEq, Repr

/-- The references that the callback being destroyed still has. -/
def LockThread.owned : LockThread → List ObjectId
  | .destroying captured | .destructing _ captured => captured
  | _ => []

/-- The references that a running callback lends. -/
def LockThread.lent : LockThread → List ObjectId
  | .running captured => captured
  | _ => []

structure LockRun where
  memory : LoopMemory
  /-- The objects whose destructors have not returned. -/
  objects : List (ObjectId × AsyncFd)
  /-- The references outside the loop, one entry for each. -/
  handles : List ObjectId
  nextObject : ObjectId
  thread : LockThread
  /-- The objects that other threads are about to destroy. -/
  elsewhere : List ObjectId

inductive LockEvent
  /-- `AsyncFd::Create`. -/
  | create (fd : Fd)
  /-- A reference is copied. -/
  | share (object : ObjectId)
  /-- A reference outside the loop goes. -/
  | drop (object : ObjectId)
  /-- The destructor, called by a thread that has dropped the last reference. -/
  | destruct (object : ObjectId) (ok : Bool)
  /-- `ProcData` without a token: the callback captures the object and what its `resolve` does. -/
  | registerAction (object : ObjectId) (dir : IoDirection) (captured : Captured) (ok : Bool)
  /-- `ProcData` with a token, which only the object's running callback calls. -/
  | replaceAction (object : ObjectId) (captured : Captured)
  /-- `Deregister`. -/
  | deregister (object : ObjectId) (ok : Bool)
  /-- `RegisterAction` by someone who is no `AsyncFd`, without a link. -/
  | registerOther (fd : Fd) (dir : IoDirection) (captured : Captured) (ok : Bool)
  /-- `DeregisterAction` by someone who is no `AsyncFd`. -/
  | deregisterOther (token : CancellationToken) (ok : Bool)
  | deregisterFd (fd : Fd) (ok : Bool)
  | closeFd (fd : Fd)
  /-- The part of `RunCallback` under the lock. -/
  | fetch (key : FdDirection)
  /-- The callback returns. -/
  | finish
  /-- An event on `removeEvent_`. -/
  | beginDrain
  /-- The next thing the drain does. -/
  | drain (ok : Bool)
deriving DecidableEq

namespace LockRun

variable (s : LockRun)

def init : LockRun where
  memory := .init
  objects := []
  handles := []
  nextObject := 0
  thread := .idle
  elsewhere := []

/-- The references that are not in the tables. -/
def outside : List ObjectId := s.handles ++ s.thread.owned

/-- The references that a function can copy. -/
def refs : List ObjectId := s.handles ++ s.thread.lent

/-- Whether anything refers to an object. -/
def held (object : ObjectId) : Bool := object ∈ s.outside ∨ s.memory.holds object

/-- `token_`. -/
def tokenOf (object : ObjectId) : CancellationToken :=
  ((KeyedList.get object s.objects).map AsyncFd.token).getD 0

/-- A destructor that was called under the lock waits for the lock, and so does everyone. -/
def blocked : Bool := s.memory.lockedDrops.any fun object => s.tokenOf object ≠ 0

/-- `~AsyncFd`, nothing while it cannot get the lock that it needs for its token. -/
def destructor (object : ObjectId) (ok : Bool) : Option LockRun :=
  let token := s.tokenOf object
  let s' := { s with objects := KeyedList.erase object s.objects }
  if token = 0 then some s'
  else if s.blocked then none
  else some { s' with memory := (s.memory.deregisterAction s.outside token ok).2 }

/-- The next thing the drain does. -/
def drainStep (ok : Bool) : Option LockRun :=
  match s.thread with
  | .draining =>
      if s.blocked then none
      else
        match s.memory.removeQueue with
        | [] => some { s with thread := .idle }
        | callback :: queue => some { s with
            memory := { s.memory with removeQueue := queue }
            thread := .destroying (callback.getD []) }
  | .destroying [] => some { s with thread := .draining }
  | .destroying (object :: captured) =>
      let s' := { s with thread := .destroying captured }
      if s'.held object then some s' else some { s with thread := .destructing object captured }
  | .destructing object captured =>
      (s.destructor object ok).map fun s' => { s' with thread := .destroying captured }
  | _ => none

def step : LockEvent → Option LockRun
  | .create fd => some { s with
      objects := KeyedList.set s.nextObject (.create fd) s.objects
      handles := s.handles ++ [s.nextObject]
      nextObject := s.nextObject + 1 }
  | .share object =>
      if object ∈ s.refs then some { s with handles := s.handles ++ [object] } else none
  | .drop object =>
      if object ∈ s.handles then
        let s' := { s with handles := s.handles.erase object }
        if s'.held object then some s'
        else some { s' with elsewhere := s.elsewhere ++ [object] }
      else none
  | .destruct object ok =>
      if object ∈ s.elsewhere then
        (s.destructor object ok).map fun s' => { s' with elsewhere := s.elsewhere.erase object }
      else none
  | .registerAction object dir captured ok =>
      match KeyedList.get object s.objects with
      | none => none
      | some a =>
          if s.blocked ∨ a.token ≠ 0 ∨ ¬ object :: captured ⊆ s.refs then none
          else
            match s.memory.registerAction a.fd dir (object :: captured) (some object) ok with
            | none => some s
            | some (token, memory) => some { s with
                memory := memory
                objects := KeyedList.set object { a with token := token } s.objects }
  | .replaceAction object captured =>
      match KeyedList.get object s.objects with
      | none => none
      | some a =>
          if s.blocked ∨ a.token = 0 ∨ object ∉ s.thread.lent ∨ ¬ captured ⊆ s.refs then none
          else some { s with
            memory := (s.memory.replaceAction a.token (object :: captured)).2 }
  | .deregister object ok =>
      match KeyedList.get object s.objects with
      | none => none
      | some a =>
          if s.blocked ∨ a.token = 0 ∨ object ∉ s.refs then none
          else some { s with
            memory := (s.memory.deregisterAction s.outside a.token ok).2
            objects := KeyedList.set object { a with token := 0 } s.objects }
  | .registerOther fd dir captured ok =>
      if s.blocked ∨ ¬ captured ⊆ s.refs then none
      else
        match s.memory.registerAction fd dir captured none ok with
        | none => some s
        | some (_, memory) => some { s with memory := memory }
  | .deregisterOther token ok =>
      if s.blocked then none
      else some { s with memory := (s.memory.deregisterAction s.outside token ok).2 }
  | .deregisterFd fd ok =>
      if s.blocked then none
      else some { s with memory := s.memory.deregisterFd s.outside fd ok }
  | .closeFd fd =>
      some { s with memory := { s.memory with interest := s.memory.interest.erase fd } }
  | .fetch key =>
      if s.blocked ∨ s.thread ≠ .idle then none
      else
        match KeyedList.get key s.memory.fdToCallback with
        | none => some s
        | some keeper => some { s with thread := .running (keeper.callback.getD []) }
  | .finish =>
      match s.thread with
      | .running _ => some { s with thread := .idle }
      | _ => none
  | .beginDrain => if s.thread = .idle then some { s with thread := .draining } else none
  | .drain ok => s.drainStep ok

def machine : Machine LockRun LockEvent := ⟨step⟩

end LockRun

end Diplom
