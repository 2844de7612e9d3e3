import Diplom.Lib.PartialMap
import Diplom.Transport.Types

/-!
# The event loop's tables

`EpollLoop` keeps one callback for each descriptor and direction, a table of cancellation tokens,
the callbacks that wait for their destruction, and the kernel's interest set behind `epollHandle_`.
The callbacks and the objects they keep alive are parameters: nothing in the loop looks inside them.

Each operation runs under `globalLock_` from its first line to its last, so it is one function on
the tables. What `epoll_ctl` answers is decided by the interest set, and by one more `Bool` for
every reason to refuse that the interest set does not show.
-/

namespace Diplom

inductive IoDirection
  | input
  | output
deriving DecidableEq, Repr

/-- `GetOpposite`. -/
def IoDirection.opposite : IoDirection → IoDirection
  | .input => .output
  | .output => .input

@[simp] theorem IoDirection.opposite_ne (dir : IoDirection) : dir.opposite ≠ dir := by
  cases dir <;> decide

@[simp] theorem IoDirection.ne_opposite (dir : IoDirection) : dir ≠ dir.opposite :=
  (IoDirection.opposite_ne dir).symm

structure FdDirection where
  fd : Fd
  direction : IoDirection
deriving DecidableEq, Repr

/-- Tokens are handed out in increasing order from `1`; `0` is no token. -/
abbrev CancellationToken := Nat

/-- Event masks as `epoll_ctl` takes them. -/
abbrev EpollEvents := UInt32

def epollIn : EpollEvents := 0x001
def epollOut : EpollEvents := 0x004
def epollErr : EpollEvents := 0x008
def epollHup : EpollEvents := 0x010

def IoDirection.events : IoDirection → EpollEvents
  | .input => epollIn
  | .output => epollOut

inductive EpollCmd
  | add
  | mod
  | del
deriving DecidableEq, Repr

/-- `epoll_ctl` on an interest set: adding a present descriptor is `EEXIST`, changing or deleting an
absent one is `ENOENT`, and `ok` says that the kernel has no other reason to refuse. -/
def epollCtl (interest : PartialMap Fd EpollEvents) (fd : Fd) (cmd : EpollCmd) (ev : EpollEvents)
    (ok : Bool) : Option (PartialMap Fd EpollEvents) :=
  if ok = false then none
  else match cmd with
    | .add => if interest.contains fd then none else some (interest.set fd ev)
    | .mod => if interest.contains fd then some (interest.set fd ev) else none
    | .del => if interest.contains fd then some (interest.erase fd) else none

/-- A registered callback with the object it keeps alive. -/
structure CallbackKeeper (Callback Keep : Type) where
  callback : Callback
  keepLink : Option Keep
deriving DecidableEq

structure EpollLoop (Callback Keep : Type) where
  fdToCallback : PartialMap FdDirection (CallbackKeeper Callback Keep)
  cancelMap : PartialMap CancellationToken FdDirection
  /-- Callbacks taken out of the table, in the order in which they are to be destroyed. -/
  removeQueue : List Callback
  nextToken : CancellationToken
  /-- The kernel's side of `epollHandle_`. -/
  interest : PartialMap Fd EpollEvents

namespace EpollLoop

variable {Callback Keep : Type} (loop : EpollLoop Callback Keep)

/-- A loop after `Init`, which registers nothing but its own two event descriptors. -/
def init : EpollLoop Callback Keep where
  fdToCallback := .empty
  cancelMap := .empty
  removeQueue := []
  nextToken := 1
  interest := .empty

/-- The callback registered for a descriptor and direction. -/
def callbackAt (fd : Fd) (dir : IoDirection) : Option Callback :=
  (loop.fdToCallback ⟨fd, dir⟩).map CallbackKeeper.callback

/-- `EpollCtl`. -/
def ctl (fd : Fd) (cmd : EpollCmd) (ev : EpollEvents) (ok : Bool) :
    Option (EpollLoop Callback Keep) :=
  (epollCtl loop.interest fd cmd ev ok).map fun interest => { loop with interest := interest }

/-- `RegisterAction`: the token and the new tables, or nothing where it returns false, which it does
before it changes anything. -/
def registerAction (fd : Fd) (dir : IoDirection) (callback : Callback) (afd : Option Keep)
    (ok : Bool) : Option (CancellationToken × EpollLoop Callback Keep) :=
  if loop.fdToCallback.contains ⟨fd, dir⟩ then none
  else
    let both := loop.fdToCallback.contains ⟨fd, dir.opposite⟩
    let cmd := if both then EpollCmd.mod else EpollCmd.add
    let events :=
      if both then IoDirection.input.events ||| IoDirection.output.events else dir.events
    match loop.ctl fd cmd (events ||| epollHup ||| epollErr) ok with
    | none => none
    | some loop =>
        some (loop.nextToken,
          { loop with
            fdToCallback := loop.fdToCallback.insert ⟨fd, dir⟩ ⟨callback, afd⟩
            cancelMap := loop.cancelMap.insert loop.nextToken ⟨fd, dir⟩
            nextToken := loop.nextToken + 1 })

/-- `UtilizeCallback`: a callback taken out of the table is destroyed later, by the loop itself. -/
def utilizeCallback (callback : Callback) : EpollLoop Callback Keep :=
  { loop with removeQueue := loop.removeQueue ++ [callback] }

/-- `ReplaceAction`. -/
def replaceAction (token : CancellationToken) (callback : Callback) :
    Bool × EpollLoop Callback Keep :=
  match loop.cancelMap token with
  | none => (false, loop)
  | some key =>
      match loop.fdToCallback key with
      | none => (false, loop)
      | some keeper =>
          let loop := loop.utilizeCallback keeper.callback
          (true, { loop with fdToCallback :=
            loop.fdToCallback.set key { keeper with callback := callback } })

/-- `DeregisterAction`. The entry is gone even where the last `epoll_ctl` fails. -/
def deregisterAction (token : CancellationToken) (ok : Bool) : Bool × EpollLoop Callback Keep :=
  match loop.cancelMap token with
  | none => (false, loop)
  | some key =>
      match loop.fdToCallback key with
      | none => (false, { loop with cancelMap := loop.cancelMap.erase token })
      | some keeper =>
          let loop := loop.utilizeCallback keeper.callback
          let loop := { loop with
            fdToCallback := loop.fdToCallback.erase key
            cancelMap := loop.cancelMap.erase token }
          let other := loop.fdToCallback.contains ⟨key.fd, key.direction.opposite⟩
          let cmd := if other then EpollCmd.mod else EpollCmd.del
          let events := if other then key.direction.opposite.events else key.direction.events
          match loop.ctl key.fd cmd events ok with
          | none => (false, loop)
          | some loop => (true, loop)

/-- One half of `DeregisterFd`: the action for one direction, if there is one, is taken out. -/
def dropAction (key : FdDirection) : Bool × EpollLoop Callback Keep :=
  match loop.fdToCallback key with
  | none => (false, loop)
  | some keeper =>
      (true, { loop with fdToCallback := loop.fdToCallback.erase key }.utilizeCallback
        keeper.callback)

/-- `DeregisterFd`. It returns true whatever happened, and leaves `cancelMap` alone. -/
def deregisterFd (fd : Fd) (ok : Bool) : EpollLoop Callback Keep :=
  let (gotIn, loop) := loop.dropAction ⟨fd, .input⟩
  let (gotOut, loop) := loop.dropAction ⟨fd, .output⟩
  if gotIn || gotOut then (loop.ctl fd .del 0 ok).getD loop else loop

end EpollLoop

/-- A call on the loop's tables, with what the kernel answers to its `epoll_ctl`. -/
inductive LoopCall (Callback Keep : Type)
  | registerAction (fd : Fd) (dir : IoDirection) (callback : Callback)
      (afd : Option Keep) (ok : Bool)
  | replaceAction (token : CancellationToken) (callback : Callback)
  | deregisterAction (token : CancellationToken) (ok : Bool)
  | deregisterFd (fd : Fd) (ok : Bool)

namespace EpollLoop

variable {Callback Keep : Type} (loop : EpollLoop Callback Keep)

/-- The tables after a call. -/
def call : LoopCall Callback Keep → EpollLoop Callback Keep
  | .registerAction fd dir callback afd ok =>
    ((loop.registerAction fd dir callback afd ok).map Prod.snd).getD loop
  | .replaceAction token callback => (loop.replaceAction token callback).2
  | .deregisterAction token ok => (loop.deregisterAction token ok).2
  | .deregisterFd fd ok => loop.deregisterFd fd ok

/-! ### What each operation does to the tables -/

@[simp] theorem init_fdToCallback (key : FdDirection) :
    (init : EpollLoop Callback Keep).fdToCallback key = none := rfl

@[simp] theorem init_cancelMap (token : CancellationToken) :
    (init : EpollLoop Callback Keep).cancelMap token = none := rfl

variable {loop}

/-- `epoll_ctl` touches the interest set only. -/
theorem ctl_eq_some {fd : Fd} {cmd : EpollCmd} {ev : EpollEvents} {ok : Bool}
    {loop' : EpollLoop Callback Keep} (h : loop.ctl fd cmd ev ok = some loop') :
    ∃ interest, loop' = { loop with interest := interest } := by
  obtain ⟨interest, _, rfl⟩ := Option.map_eq_some_iff.mp h
  exact ⟨interest, rfl⟩

/-- A registration that succeeds found its slot free, and its token is the next one. -/
theorem registerAction_eq_some {fd : Fd} {dir : IoDirection} {callback : Callback}
    {afd : Option Keep} {ok : Bool} {token : CancellationToken} {loop' : EpollLoop Callback Keep}
    (h : loop.registerAction fd dir callback afd ok = some (token, loop')) :
    loop.fdToCallback ⟨fd, dir⟩ = none ∧ token = loop.nextToken ∧
      loop'.fdToCallback = loop.fdToCallback.set ⟨fd, dir⟩ ⟨callback, afd⟩ ∧
      loop'.cancelMap = loop.cancelMap.insert loop.nextToken ⟨fd, dir⟩ ∧
      loop'.nextToken = loop.nextToken + 1 ∧ loop'.removeQueue = loop.removeQueue := by
  unfold registerAction at h
  split at h
  · exact absurd h (by simp)
  · rename_i hfree
    have hslot : loop.fdToCallback ⟨fd, dir⟩ = none := by simpa using hfree
    dsimp only at h
    split at h
    · exact absurd h (by simp)
    · rename_i loop₁ hctl
      obtain ⟨interest, rfl⟩ := ctl_eq_some hctl
      obtain ⟨rfl, rfl⟩ := Prod.mk.inj (Option.some.inj h)
      exact ⟨hslot, rfl, PartialMap.insert_of_none _ hslot _, rfl, rfl, rfl⟩

/-- `ReplaceAction` succeeds exactly on a token that leads to a registered action, and replaces that
action's callback. -/
theorem replaceAction_cases (loop : EpollLoop Callback Keep) (token : CancellationToken)
    (callback : Callback) :
    (loop.replaceAction token callback = (false, loop) ∧ ∀ key, loop.cancelMap token = some key →
      loop.fdToCallback key = none) ∨ ∃ key keeper, loop.cancelMap token = some key ∧
      loop.fdToCallback key = some keeper ∧ loop.replaceAction token callback = (true, { loop with
          removeQueue := loop.removeQueue ++ [keeper.callback]
          fdToCallback := loop.fdToCallback.set key { keeper with callback := callback } }) := by
  cases htoken : loop.cancelMap token with
  | none =>
      refine .inl ⟨by simp only [replaceAction, htoken], ?_⟩
      simp
  | some key =>
      cases hslot : loop.fdToCallback key with
      | none =>
          refine .inl ⟨by simp only [replaceAction, htoken, hslot], ?_⟩
          simp [hslot]
      | some keeper =>
          refine .inr ⟨key, keeper, rfl, hslot, ?_⟩
          simp only [replaceAction, htoken, hslot, utilizeCallback]

/-- The three ways through `DeregisterAction`: an unknown token, a token whose action is gone, and a
token that leads to an action. -/
theorem deregisterAction_cases (loop : EpollLoop Callback Keep) (token : CancellationToken)
    (ok : Bool) :
    (loop.cancelMap token = none ∧ loop.deregisterAction token ok = (false, loop)) ∨
      (∃ key, loop.cancelMap token = some key ∧ loop.fdToCallback key = none ∧
        loop.deregisterAction token ok
          = (false, { loop with cancelMap := loop.cancelMap.erase token })) ∨ ∃ key keeper,
        loop.cancelMap token = some key ∧ loop.fdToCallback key = some keeper ∧ ∃ done interest,
        loop.deregisterAction token ok = (done, { loop with
          removeQueue := loop.removeQueue ++ [keeper.callback]
          fdToCallback := loop.fdToCallback.erase key
          cancelMap := loop.cancelMap.erase token
          interest := interest }) := by
  cases htoken : loop.cancelMap token with
  | none => exact .inl ⟨rfl, by simp only [deregisterAction, htoken]⟩
  | some key =>
      cases hslot : loop.fdToCallback key with
      | none => exact .inr (.inl ⟨key, rfl, hslot, by simp only [deregisterAction, htoken, hslot]⟩)
      | some keeper =>
          refine .inr (.inr ⟨key, keeper, rfl, hslot, ?_⟩)
          simp only [deregisterAction, htoken, hslot, utilizeCallback]
          split
          · exact ⟨false, loop.interest, rfl⟩
          · rename_i loop' hctl
            obtain ⟨interest, rfl⟩ := ctl_eq_some hctl
            exact ⟨true, interest, rfl⟩

theorem dropAction_snd (loop : EpollLoop Callback Keep) (key : FdDirection) :
    (loop.dropAction key).2.fdToCallback = loop.fdToCallback.erase key ∧
      (loop.dropAction key).2.cancelMap = loop.cancelMap ∧
      (loop.dropAction key).2.nextToken = loop.nextToken := by
  unfold dropAction
  split
  · rename_i hnone
    exact ⟨(PartialMap.erase_of_none _ hnone).symm, rfl, rfl⟩
  · exact ⟨rfl, rfl, rfl⟩

/-- `DeregisterFd` takes out the two actions of the descriptor and leaves the tokens where they are.
-/
theorem deregisterFd_tables (loop : EpollLoop Callback Keep) (fd : Fd) (ok : Bool) :
    (loop.deregisterFd fd ok).fdToCallback = (loop.fdToCallback.erase ⟨fd, .input⟩).erase
      ⟨fd, .output⟩ ∧ (loop.deregisterFd fd ok).cancelMap = loop.cancelMap ∧
      (loop.deregisterFd fd ok).nextToken = loop.nextToken := by
  have hin := dropAction_snd loop ⟨fd, .input⟩
  have hout := dropAction_snd (loop.dropAction ⟨fd, .input⟩).2 ⟨fd, .output⟩
  rw [hin.1, hin.2.1, hin.2.2] at hout
  unfold deregisterFd
  dsimp only
  split
  · cases hctl :
      (loop.dropAction ⟨fd, .input⟩).2.dropAction ⟨fd, .output⟩ |>.2.ctl fd .del 0 ok with
    | none => exact hout
    | some loop' =>
        obtain ⟨interest, rfl⟩ := ctl_eq_some hctl
        exact hout
  · exact hout

end EpollLoop

end Diplom
