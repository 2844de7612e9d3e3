import Diplom.Transport.LoopLock
import Mathlib.Data.List.ReduceOption

/-!
# The lock is not needed twice

A keeper drops its link while the lock is held. That is never the last reference as long as the
callback beside the link has captured the same object: every operation puts the callback into
another place before it erases the keeper. `RegisterAction` starts that way, and `ReplaceAction`
keeps it so if the object that replaces its action is the one that registered it.

The drain takes one callback from the queue and destroys it. That may move actions from the table
to the queue, so a callback weighs the same in both; and it takes at most two steps for each object
that the callback has captured.
-/

namespace Diplom

namespace LoopMemory

variable {m : LoopMemory}

/-! ### The keeper's callback goes with its link -/

/-- Every keeper has a callback that captured what the link refers to, and nothing was destroyed or
dropped for good under the lock. -/
structure Sound (m : LoopMemory) : Prop where
  linked : ∀ e ∈ m.fdToCallback, ∃ callback, e.2.callback = some callback ∧
    ∀ object, e.2.keepLink = some object → object ∈ callback
  destroys : m.lockedDestroys = []
  drops : m.lockedDrops = []

theorem init_sound : init.Sound := ⟨by simp [init], rfl, rfl⟩

theorem Sound.of_get (h : m.Sound) {key : FdDirection} {keeper : KeeperMemory}
    (hget : KeyedList.get key m.fdToCallback = some keeper) :
    ∃ callback, keeper.callback = some callback ∧
      ∀ object, keeper.keepLink = some object → object ∈ callback :=
  h.linked _ (KeyedList.mem_of_get hget)

/-- The lock's notes stay as they are while the tables change. -/
theorem Sound.of_tables {m' : LoopMemory} (h : m.Sound)
    (htable : ∀ e ∈ m'.fdToCallback, e ∈ m.fdToCallback)
    (hdestroys : m'.lockedDestroys = m.lockedDestroys) (hdrops : m'.lockedDrops = m.lockedDrops) :
    m'.Sound :=
  ⟨fun e he => h.linked e (htable e he), hdestroys.trans h.destroys, hdrops.trans h.drops⟩

theorem ctl_snd (m : LoopMemory) (fd : Fd) (cmd : EpollCmd) (ev : EpollEvents) (ok : Bool) :
    ∃ interest, (m.ctl fd cmd ev ok).2 = { m with interest := interest } := by
  unfold ctl
  split
  · exact ⟨m.interest, rfl⟩
  · rename_i interest _
    exact ⟨interest, rfl⟩

/-- The link of a keeper whose callback is somewhere else in the loop, or in a local variable. -/
theorem dropLink_eq (outside : List ObjectId) {link : Option ObjectId}
    (h : ∀ object, link = some object → object ∈ outside ∨ m.holds object) :
    m.dropLink outside link = m := by
  cases link with
  | none => rfl
  | some object => exact if_pos (h object rfl)

theorem eraseKeeper_moved (outside : List ObjectId) (key : FdDirection) (keeper : KeeperMemory)
    (table : List (FdDirection × KeeperMemory))
    (htable : m.fdToCallback = KeyedList.set key { keeper with callback := none } table) :
    m.eraseKeeper outside key
      = { m with fdToCallback := KeyedList.erase key table }.dropLink outside keeper.keepLink := by
  have hget : KeyedList.get key m.fdToCallback = some { keeper with callback := none } := by
    rw [htable, KeyedList.get_set, if_pos rfl]
  unfold eraseKeeper
  rw [hget]
  simp only [destroyCallback, Option.toList_none, List.append_nil, htable, KeyedList.erase_set]

theorem moveCallback_eq {key : FdDirection} {keeper : KeeperMemory}
    (h : KeyedList.get key m.fdToCallback = some keeper) :
    m.moveCallback key = (keeper.callback, { m with
      fdToCallback := KeyedList.set key { keeper with callback := none } m.fdToCallback }) := by
  simp only [moveCallback, h]

def without (m : LoopMemory) (key : FdDirection) (callback : Option Captured) : LoopMemory :=
  { m with
    fdToCallback := KeyedList.erase key m.fdToCallback
    removeQueue := m.removeQueue ++ [callback] }

theorem Sound.without (h : m.Sound) (key : FdDirection) (callback : Option Captured) :
    (m.without key callback).Sound := by
  have htable : ∀ e ∈ (m.without key callback).fdToCallback, e ∈ m.fdToCallback := by
    intro e he
    exact (List.mem_filter.mp he).1
  exact h.of_tables htable rfl rfl

/-- `DeregisterAction` has the callback in the queue when it erases the keeper. -/
theorem Sound.eraseKeeper_queued (h : m.Sound) (outside : List ObjectId) {key : FdDirection}
    {keeper : KeeperMemory} (hget : KeyedList.get key m.fdToCallback = some keeper) :
    ({ m with
      fdToCallback := KeyedList.set key { keeper with callback := none } m.fdToCallback
      }.utilizeCallback keeper.callback).eraseKeeper outside key
        = m.without key keeper.callback := by
  obtain ⟨callback, hcallback, hlink⟩ := h.of_get hget
  rw [eraseKeeper_moved outside key keeper m.fdToCallback rfl, dropLink_eq]
  · rfl
  · intro object hobject
    right
    simp [holds, utilizeCallback, hcallback, hlink object hobject]

/-- The three ways through `DeregisterAction`, of which the last takes the action out. -/
theorem Sound.deregisterAction_cases (h : m.Sound) (outside : List ObjectId)
    (token : CancellationToken) (ok : Bool) :
    (m.deregisterAction outside token ok).2 = m ∨
      (m.deregisterAction outside token ok).2
        = { m with cancelMap := KeyedList.erase token m.cancelMap } ∨
      ∃ key keeper interest, KeyedList.get key m.fdToCallback = some keeper ∧
        (m.deregisterAction outside token ok).2 = { m.without key keeper.callback with
          cancelMap := KeyedList.erase token m.cancelMap
          interest := interest } := by
  cases htoken : KeyedList.get token m.cancelMap with
  | none =>
      left
      simp only [deregisterAction, htoken]
  | some key =>
      cases hget : KeyedList.get key m.fdToCallback with
      | none =>
          refine .inr (.inl ?_)
          simp only [deregisterAction, htoken, hget]
      | some keeper =>
          refine .inr (.inr ⟨key, keeper, ?_⟩)
          simp only [deregisterAction, htoken, hget, moveCallback_eq hget,
            h.eraseKeeper_queued outside hget]
          exact (ctl_snd _ _ _ _ _).imp fun interest hctl => ⟨trivial, hctl⟩

theorem Sound.deregisterAction (h : m.Sound) (outside : List ObjectId)
    (token : CancellationToken) (ok : Bool) : (m.deregisterAction outside token ok).2.Sound := by
  rcases h.deregisterAction_cases outside token ok with heq | heq | ⟨key, keeper, interest, _, heq⟩
  · rw [heq]
    exact h
  · rw [heq]
    exact h.of_tables (fun _ he => he) rfl rfl
  · rw [heq]
    exact (h.without key keeper.callback).of_tables (fun _ he => he) rfl rfl

/-- In `DeregisterFd` the local variable has what the link refers to. -/
theorem Sound.dropAction_cases (h : m.Sound) (outside : List ObjectId) (key : FdDirection) :
    (KeyedList.get key m.fdToCallback = none ∧ m.dropAction outside key = (false, m)) ∨
      ∃ keeper, KeyedList.get key m.fdToCallback = some keeper ∧
        m.dropAction outside key = (true, m.without key keeper.callback) := by
  cases hget : KeyedList.get key m.fdToCallback with
  | none =>
      left
      simp only [LoopMemory.dropAction, hget, and_self]
  | some keeper =>
      refine .inr ⟨keeper, rfl, ?_⟩
      obtain ⟨callback, hcallback, hlink⟩ := h.of_get hget
      simp only [LoopMemory.dropAction, hget, moveCallback_eq hget]
      rw [eraseKeeper_moved _ key keeper m.fdToCallback rfl, dropLink_eq]
      · rfl
      · intro object hobject
        left
        simp [hcallback, hlink object hobject]

theorem Sound.dropAction (h : m.Sound) (outside : List ObjectId) (key : FdDirection) :
    (m.dropAction outside key).2.Sound := by
  rcases h.dropAction_cases outside key with ⟨_, heq⟩ | ⟨keeper, _, heq⟩
  · rwa [heq]
  · rw [heq]
    exact h.without key keeper.callback

theorem Sound.deregisterFd (h : m.Sound) (outside : List ObjectId) (fd : Fd) (ok : Bool) :
    (m.deregisterFd outside fd ok).Sound := by
  have hboth := (h.dropAction outside ⟨fd, .input⟩).dropAction outside ⟨fd, .output⟩
  unfold LoopMemory.deregisterFd
  simp only
  split
  · obtain ⟨interest, hctl⟩ := ctl_snd
      ((m.dropAction outside ⟨fd, .input⟩).2.dropAction outside ⟨fd, .output⟩).2 fd .del 0 ok
    rw [hctl]
    exact hboth.of_tables (fun _ he => he) rfl rfl
  · exact hboth

theorem registerAction_eq_some {fd : Fd} {dir : IoDirection} {callback : Captured}
    {afd : Option ObjectId} {ok : Bool} {token : CancellationToken} {m' : LoopMemory}
    (h : m.registerAction fd dir callback afd ok = some (token, m')) :
    m'.fdToCallback = KeyedList.set ⟨fd, dir⟩ ⟨some callback, afd⟩ m.fdToCallback ∧
      m'.removeQueue = m.removeQueue ∧ m'.lockedDestroys = m.lockedDestroys ∧
      m'.lockedDrops = m.lockedDrops := by
  unfold registerAction at h
  split at h
  · simp at h
  · rename_i hfree
    simp only at h
    split at h
    · simp at h
    · rename_i m₁ hctl
      obtain ⟨interest, hinterest⟩ := ctl_snd m fd _ _ ok
      rw [hctl] at hinterest
      obtain rfl : m₁ = { m with interest := interest } := hinterest
      obtain ⟨-, rfl⟩ := Prod.mk.inj (Option.some.inj h)
      exact ⟨KeyedList.insert_of_none hfree _, rfl, rfl, rfl⟩

theorem Sound.registerAction (h : m.Sound) {fd : Fd} {dir : IoDirection} {callback : Captured}
    {afd : Option ObjectId} {ok : Bool} {token : CancellationToken} {m' : LoopMemory}
    (hafd : ∀ object, afd = some object → object ∈ callback)
    (hregister : m.registerAction fd dir callback afd ok = some (token, m')) : m'.Sound := by
  obtain ⟨htable, -, hdestroys, hdrops⟩ := registerAction_eq_some hregister
  refine ⟨fun e he => ?_, hdestroys.trans h.destroys, hdrops.trans h.drops⟩
  rw [htable] at he
  rcases KeyedList.mem_of_mem_set he with rfl | hold
  · exact ⟨callback, rfl, hafd⟩
  · exact h.linked e hold

theorem replaceAction_cases (m : LoopMemory) (token : CancellationToken) (callback : Captured) :
    m.replaceAction token callback = (false, m) ∨ ∃ key keeper,
      KeyedList.get token m.cancelMap = some key ∧
      KeyedList.get key m.fdToCallback = some keeper ∧
      m.replaceAction token callback = (true, { m with
        fdToCallback := KeyedList.set key { keeper with callback := some callback } m.fdToCallback
        removeQueue := m.removeQueue ++ [keeper.callback] }) := by
  cases htoken : KeyedList.get token m.cancelMap with
  | none =>
      left
      simp only [replaceAction, htoken]
  | some key =>
      cases hget : KeyedList.get key m.fdToCallback with
      | none =>
          left
          simp only [replaceAction, htoken, hget]
      | some keeper =>
          refine .inr ⟨key, keeper, rfl, hget, ?_⟩
          simp [replaceAction, htoken, hget, moveCallback_eq hget, utilizeCallback,
            assignCallback, KeyedList.get_set, destroyCallback, KeyedList.set_set]

theorem Sound.replaceAction (h : m.Sound) {token : CancellationToken} {callback : Captured}
    (hlink : ∀ key keeper, KeyedList.get token m.cancelMap = some key →
      KeyedList.get key m.fdToCallback = some keeper →
      ∀ object, keeper.keepLink = some object → object ∈ callback) :
    (m.replaceAction token callback).2.Sound := by
  rcases m.replaceAction_cases token callback with heq | ⟨key, keeper, htoken, hget, heq⟩
  · rwa [heq]
  · rw [heq]
    refine ⟨fun e he => ?_, h.destroys, h.drops⟩
    rcases KeyedList.mem_of_mem_set he with rfl | hold
    · exact ⟨callback, rfl, hlink key keeper htoken hget⟩
    · exact h.linked e hold

/-! ### The same tables -/

/-- A call on the tables, with the references outside of them. -/
def call (m : LoopMemory) (outside : List ObjectId) : LoopCall Captured ObjectId → LoopMemory
  | .registerAction fd dir callback afd ok =>
      ((m.registerAction fd dir callback afd ok).map Prod.snd).getD m
  | .replaceAction token callback => (m.replaceAction token callback).2
  | .deregisterAction token ok => (m.deregisterAction outside token ok).2
  | .deregisterFd fd ok => m.deregisterFd outside fd ok

theorem Sound.tables_of_get (h : m.Sound) {key : FdDirection} {keeper : KeeperMemory}
    (hget : KeyedList.get key m.fdToCallback = some keeper) :
    ∃ callback, keeper.callback = some callback ∧
      m.tables.fdToCallback key = some ⟨callback, keeper.keepLink⟩ := by
  obtain ⟨callback, hcallback, -⟩ := h.of_get hget
  refine ⟨callback, hcallback, ?_⟩
  simp only [tables, hget, Option.bind_some, hcallback, Option.map_some]

theorem tables_of_get_none {key : FdDirection} (hget : KeyedList.get key m.fdToCallback = none) :
    m.tables.fdToCallback key = none := by
  simp only [tables, hget, Option.bind_none]

theorem Sound.contains_tables (h : m.Sound) (key : FdDirection) :
    m.tables.fdToCallback.contains key = (KeyedList.get key m.fdToCallback).isSome := by
  cases hget : KeyedList.get key m.fdToCallback with
  | none => rw [PartialMap.contains, tables_of_get_none hget]; rfl
  | some keeper =>
      obtain ⟨callback, -, htables⟩ := h.tables_of_get hget
      rw [PartialMap.contains, htables]
      rfl

theorem tables_set (m : LoopMemory) (key : FdDirection) (callback : Captured)
    (link : Option ObjectId) :
    { m with fdToCallback := KeyedList.set key ⟨some callback, link⟩ m.fdToCallback }.tables
      = { m.tables with fdToCallback := m.tables.fdToCallback.set key ⟨callback, link⟩ } := by
  simp only [tables, EpollLoop.mk.injEq, and_true]
  funext key'
  rw [KeyedList.get_set, PartialMap.set_apply]
  split <;> rfl

theorem tables_without (m : LoopMemory) (key : FdDirection) (callback : Captured) :
    (m.without key (some callback)).tables
      = { m.tables with
          fdToCallback := m.tables.fdToCallback.erase key
          removeQueue := m.tables.removeQueue ++ [callback] } := by
  simp only [tables, without, EpollLoop.mk.injEq, and_true, true_and]
  constructor
  · funext key'
    rw [KeyedList.get_erase, PartialMap.erase_apply]
    split <;> rfl
  · simp [List.reduceOption_append]

theorem tables_ctl (m : LoopMemory) (fd : Fd) (cmd : EpollCmd) (ev : EpollEvents) (ok : Bool) :
    m.tables.ctl fd cmd ev ok
      = if (m.ctl fd cmd ev ok).1 then some (m.ctl fd cmd ev ok).2.tables else none := by
  unfold EpollLoop.ctl ctl
  cases hctl : epollCtl m.interest fd cmd ev ok with
  | none => simp [tables, hctl]
  | some interest => simp [tables, hctl]

theorem tables_ctl_snd (m : LoopMemory) (fd : Fd) (cmd : EpollCmd) (ev : EpollEvents)
    (ok : Bool) :
    (m.ctl fd cmd ev ok).2.tables = (m.tables.ctl fd cmd ev ok).getD m.tables := by
  rw [tables_ctl]
  unfold ctl
  split <;> rfl

theorem Sound.tables_registerAction (h : m.Sound) (fd : Fd) (dir : IoDirection)
    (callback : Captured) (afd : Option ObjectId) (ok : Bool) :
    m.tables.registerAction fd dir callback afd ok
      = (m.registerAction fd dir callback afd ok).map fun result =>
          (result.1, result.2.tables) := by
  unfold EpollLoop.registerAction LoopMemory.registerAction
  rw [h.contains_tables]
  cases hget : KeyedList.get ⟨fd, dir⟩ m.fdToCallback with
  | some keeper => rfl
  | none =>
      simp only [Option.isSome_none, Bool.false_eq_true, if_false, h.contains_tables, tables_ctl]
      generalize hctl : m.ctl fd _ _ ok = answer
      obtain ⟨interest, hinterest⟩ := ctl_snd m fd _ _ ok
      rw [hctl] at hinterest
      obtain ⟨done, m₁⟩ := answer
      obtain rfl : m₁ = { m with interest := interest } := hinterest
      cases done with
      | false => rfl
      | true =>
          have htable : m.tables.fdToCallback ⟨fd, dir⟩ = none := tables_of_get_none hget
          simp only [if_true, Option.map_some, Option.some.injEq, Prod.mk.injEq]
          refine ⟨rfl, ?_⟩
          rw [KeyedList.insert_of_none hget]
          have hset := congrArg EpollLoop.fdToCallback (tables_set m ⟨fd, dir⟩ callback afd)
          have hinsert := PartialMap.insert_of_none m.tables.fdToCallback htable ⟨callback, afd⟩
          have hcancel : m.tables.cancelMap.insert m.nextToken ⟨fd, dir⟩ = fun token =>
              KeyedList.get token (KeyedList.insert m.nextToken ⟨fd, dir⟩ m.cancelMap) := by
            funext token
            rw [KeyedList.get_insert]
            unfold PartialMap.insert PartialMap.contains
            split <;> simp_all [tables, PartialMap.set_apply]
          unfold tables at hset hinsert hcancel ⊢
          simp only at hset hinsert hcancel ⊢
          rw [hinsert, hset, hcancel]

theorem Sound.tables_replaceAction (h : m.Sound) (token : CancellationToken)
    (callback : Captured) :
    (m.replaceAction token callback).2.tables = (m.tables.replaceAction token callback).2 := by
  have htoken : m.tables.cancelMap token = KeyedList.get token m.cancelMap := rfl
  unfold EpollLoop.replaceAction LoopMemory.replaceAction
  rw [htoken]
  cases KeyedList.get token m.cancelMap with
  | none => rfl
  | some key =>
      simp only
      cases hget : KeyedList.get key m.fdToCallback with
      | none => rw [tables_of_get_none hget]
      | some keeper =>
          obtain ⟨old, hold, htables⟩ := h.tables_of_get hget
          rw [htables]
          simp only [moveCallback_eq hget, utilizeCallback, assignCallback, KeyedList.get_set,
            if_true, destroyCallback, KeyedList.set_set, hold, Option.toList_none, List.append_nil]
          have hset := tables_set m key callback keeper.keepLink
          simp only [tables, EpollLoop.mk.injEq, and_true] at hset
          simp only [tables, hset, EpollLoop.utilizeCallback, List.reduceOption_append,
            List.reduceOption_singleton, Option.toList_some]

theorem Sound.tables_dropAction (h : m.Sound) (outside : List ObjectId) (key : FdDirection) :
    (m.dropAction outside key).1 = (m.tables.dropAction key).1 ∧
      (m.dropAction outside key).2.tables = (m.tables.dropAction key).2 := by
  unfold EpollLoop.dropAction
  rcases h.dropAction_cases outside key with ⟨hget, heq⟩ | ⟨keeper, hget, heq⟩
  · rw [tables_of_get_none hget, heq]
    exact ⟨rfl, rfl⟩
  · obtain ⟨old, hold, htables⟩ := h.tables_of_get hget
    rw [htables, heq, hold]
    exact ⟨rfl, tables_without m key old⟩

theorem Sound.tables_deregisterAction (h : m.Sound) (outside : List ObjectId)
    (token : CancellationToken) (ok : Bool) :
    (m.deregisterAction outside token ok).2.tables
      = (m.tables.deregisterAction token ok).2 := by
  have htoken : m.tables.cancelMap token = KeyedList.get token m.cancelMap := rfl
  cases hkey : KeyedList.get token m.cancelMap with
  | none => simp only [EpollLoop.deregisterAction, LoopMemory.deregisterAction, htoken, hkey]
  | some key =>
      have herase : m.tables.cancelMap.erase token
          = fun token' => KeyedList.get token' (KeyedList.erase token m.cancelMap) := by
        funext token'
        rw [KeyedList.get_erase, PartialMap.erase_apply]
        rfl
      cases hget : KeyedList.get key m.fdToCallback with
      | none =>
          simp only [EpollLoop.deregisterAction, LoopMemory.deregisterAction, htoken, hkey, hget,
            tables_of_get_none hget, herase]
          rfl
      | some keeper =>
          obtain ⟨old, hold, htables⟩ := h.tables_of_get hget
          obtain ⟨mid, hmid⟩ : ∃ mid : LoopMemory, mid = { m.without key keeper.callback with
              cancelMap := KeyedList.erase token (m.without key keeper.callback).cancelMap } :=
            ⟨_, rfl⟩
          have htablesMid : mid.tables = { m.tables.utilizeCallback old with
              fdToCallback := (m.tables.utilizeCallback old).fdToCallback.erase key
              cancelMap := (m.tables.utilizeCallback old).cancelMap.erase token } := by
            have hwithout := tables_without m key old
            rw [hmid, hold]
            change _ = { m.tables with
              fdToCallback := m.tables.fdToCallback.erase key
              removeQueue := m.tables.removeQueue ++ [old]
              cancelMap := m.tables.cancelMap.erase token }
            rw [herase]
            unfold tables at hwithout ⊢
            simp only [EpollLoop.mk.injEq] at hwithout ⊢
            exact ⟨hwithout.1, rfl, hwithout.2.2.1, hwithout.2.2.2.1, hwithout.2.2.2.2⟩
          have hsound : mid.Sound := by
            rw [hmid]
            exact (h.without key keeper.callback).of_tables (fun _ he => he) rfl rfl
          have hcontains := hsound.contains_tables ⟨key.fd, key.direction.opposite⟩
          simp only [EpollLoop.deregisterAction, LoopMemory.deregisterAction, htoken, hkey, hget,
            htables, moveCallback_eq hget, h.eraseKeeper_queued outside hget]
          simp only [← hmid, ← htablesMid]
          have hother : KeyedList.get ⟨key.fd, key.direction.opposite⟩
              (m.without key keeper.callback).fdToCallback
                = KeyedList.get ⟨key.fd, key.direction.opposite⟩ mid.fdToCallback := by
            rw [hmid]
          have hrest : (m.tables.utilizeCallback old).fdToCallback.erase key
              = mid.tables.fdToCallback := by
            rw [htablesMid]
          rw [tables_ctl_snd, hother, hrest, hcontains]
          generalize mid.tables.ctl key.fd _ _ ok = answer
          cases answer <;> rfl

theorem Sound.tables_deregisterFd (h : m.Sound) (outside : List ObjectId) (fd : Fd) (ok : Bool) :
    (m.deregisterFd outside fd ok).tables = m.tables.deregisterFd fd ok := by
  have hin := h.tables_dropAction outside ⟨fd, .input⟩
  have hout := (h.dropAction outside ⟨fd, .input⟩).tables_dropAction outside ⟨fd, .output⟩
  unfold EpollLoop.deregisterFd LoopMemory.deregisterFd
  simp only [← hin.1, ← hin.2, ← hout.1, ← hout.2]
  split
  · exact tables_ctl_snd _ fd .del 0 ok
  · rfl

/-- Each call comes to what `EpollLoop` says it does to the tables. -/
theorem Sound.tables_call (h : m.Sound) (outside : List ObjectId)
    (request : LoopCall Captured ObjectId) :
    (m.call outside request).tables = m.tables.call request := by
  cases request with
  | registerAction fd dir callback afd ok =>
      unfold call EpollLoop.call
      simp only
      rw [h.tables_registerAction]
      cases m.registerAction fd dir callback afd ok <;> rfl
  | replaceAction token callback => exact h.tables_replaceAction token callback
  | deregisterAction token ok => exact h.tables_deregisterAction outside token ok
  | deregisterFd fd ok => exact h.tables_deregisterFd outside fd ok

/-! ### What is left to destroy -/

/-- At most two steps for each object that a callback has captured, and two for itself. -/
def callbackWork (callback : Option Captured) : Nat := 2 * (callback.getD []).length + 2

/-- The actions count as much as the callbacks that wait. -/
def work (m : LoopMemory) : Nat :=
  (m.fdToCallback.map fun e => callbackWork e.2.callback).sum
    + (m.removeQueue.map callbackWork).sum

theorem without_work_le {key : FdDirection} {keeper : KeeperMemory}
    (hget : KeyedList.get key m.fdToCallback = some keeper) :
    (m.without key keeper.callback).work ≤ m.work := by
  have hle := KeyedList.sum_erase_add_le (fun e => callbackWork e.2.callback) hget
  dsimp only at hle
  simp only [work, without, List.map_append, List.sum_append, List.map_cons, List.map_nil,
    List.sum_cons, List.sum_nil]
  omega

theorem Sound.deregisterAction_work_le (h : m.Sound) (outside : List ObjectId)
    (token : CancellationToken) (ok : Bool) :
    (m.deregisterAction outside token ok).2.work ≤ m.work := by
  rcases h.deregisterAction_cases outside token ok with heq | heq | ⟨key, keeper, _, hget, heq⟩
  · rw [heq]
  · rw [heq]
    exact le_rfl
  · rw [heq]
    exact without_work_le hget

theorem Sound.deregisterFd_work_le (h : m.Sound) (outside : List ObjectId) (fd : Fd) (ok : Bool) :
    (m.deregisterFd outside fd ok).work ≤ m.work := by
  have hdrop {m : LoopMemory} (h : m.Sound) (key : FdDirection) :
      (m.dropAction outside key).2.work ≤ m.work := by
    rcases h.dropAction_cases outside key with ⟨_, heq⟩ | ⟨keeper, hget, heq⟩
    · rw [heq]
    · rw [heq]
      exact without_work_le hget
  have hboth := (hdrop (h.dropAction outside ⟨fd, .input⟩) ⟨fd, .output⟩).trans
    (hdrop h ⟨fd, .input⟩)
  unfold LoopMemory.deregisterFd
  simp only
  split
  · obtain ⟨interest, hctl⟩ := ctl_snd
      ((m.dropAction outside ⟨fd, .input⟩).2.dropAction outside ⟨fd, .output⟩).2 fd .del 0 ok
    rw [hctl]
    exact hboth
  · exact hboth

end LoopMemory

/-- How much of the drain the thread has left of the callback in its hands. -/
def LockThread.work : LockThread → Nat
  | .draining => 1
  | .destroying captured => 2 * captured.length + 2
  | .destructing _ captured => 2 * captured.length + 3
  | _ => 0

def LockThread.inDrain : LockThread → Bool
  | .draining | .destroying _ | .destructing _ _ => true
  | _ => false

/-- Whether an event registers an action, or starts another drain. -/
def LockEvent.adds : LockEvent → Bool
  | .registerAction .. | .registerOther .. | .beginDrain => true
  | _ => false

def LockEvent.drains : LockEvent → Bool
  | .drain _ => true
  | _ => false

namespace LockRun

variable {s s' : LockRun}

/-! ### The lock is free where it is taken -/

/-- The action that `ReplaceAction` finds under the object's token keeps nothing alive that the new
callback does not. -/
def ReplacesOwn (s : LockRun) : LockEvent → Prop
  | .replaceAction object captured => ∀ key keeper,
      KeyedList.get (s.tokenOf object) s.memory.cancelMap = some key →
      KeyedList.get key s.memory.fdToCallback = some keeper →
      ∀ link, keeper.keepLink = some link → link ∈ object :: captured
  | _ => True

theorem blocked_eq (h : s.memory.Sound) : s.blocked = false := by
  rw [blocked, h.drops, List.any_nil]

theorem destructor_eq_some {object : ObjectId} {ok : Bool}
    (hdestructor : s.destructor object ok = some s') :
    s' = { s with objects := KeyedList.erase object s.objects } ∨
      s' = { s with
        objects := KeyedList.erase object s.objects
        memory := (s.memory.deregisterAction s.outside (s.tokenOf object) ok).2 } := by
  unfold destructor at hdestructor
  simp only at hdestructor
  split at hdestructor
  · exact .inl (Option.some.inj hdestructor).symm
  · split at hdestructor
    · simp at hdestructor
    · exact .inr (Option.some.inj hdestructor).symm

theorem destructor_isSome (h : s.memory.Sound) (object : ObjectId) (ok : Bool) :
    (s.destructor object ok).isSome = true := by
  unfold destructor
  simp only [blocked_eq h]
  split <;> rfl

theorem of_destructor (h : s.memory.Sound) {object : ObjectId} {ok : Bool}
    (hdestructor : s.destructor object ok = some s') :
    s'.memory.Sound ∧ s'.memory.work ≤ s.memory.work ∧ s'.thread = s.thread := by
  rcases destructor_eq_some hdestructor with rfl | rfl
  · exact ⟨h, le_rfl, rfl⟩
  · exact ⟨h.deregisterAction _ _ _, h.deregisterAction_work_le _ _ _, rfl⟩

/-- What is left of the drain: nothing outside of it. -/
def work (s : LockRun) : Nat := if s.thread.inDrain then s.memory.work + s.thread.work else 0

theorem of_drainStep (h : s.memory.Sound) {ok : Bool} (hstep : s.drainStep ok = some s') :
    s'.memory.Sound ∧ s'.work + 1 ≤ s.work := by
  unfold drainStep at hstep
  split at hstep
  · rename_i hthread
    split at hstep
    · simp at hstep
    · split at hstep
      · obtain rfl := Option.some.inj hstep
        refine ⟨h, ?_⟩
        simp only [work, hthread, LockThread.inDrain, LockThread.work]
        simp
      · rename_i callback queue hqueue
        obtain rfl := Option.some.inj hstep
        refine ⟨h.of_tables (fun _ he => he) rfl rfl, ?_⟩
        simp only [work, hthread, LockThread.inDrain, LockThread.work, LoopMemory.work, hqueue,
          List.map_cons, List.sum_cons, LoopMemory.callbackWork, if_true]
        omega
  · rename_i hthread
    obtain rfl := Option.some.inj hstep
    refine ⟨h, ?_⟩
    simp only [work, hthread, LockThread.inDrain, LockThread.work, if_true, List.length_nil]
    omega
  · rename_i object captured hthread
    simp only at hstep
    split at hstep
    · obtain rfl := Option.some.inj hstep
      refine ⟨h, ?_⟩
      simp only [work, hthread, LockThread.inDrain, LockThread.work, if_true, List.length_cons]
      omega
    · obtain rfl := Option.some.inj hstep
      refine ⟨h, ?_⟩
      simp only [work, hthread, LockThread.inDrain, LockThread.work, if_true, List.length_cons]
      omega
  · rename_i object captured hthread
    obtain ⟨s₁, hdestructor, rfl⟩ := Option.map_eq_some_iff.mp hstep
    obtain ⟨hsound, hle, _⟩ := of_destructor h hdestructor
    refine ⟨hsound, ?_⟩
    simp only [work, hthread, LockThread.inDrain, LockThread.work, if_true]
    omega
  · simp at hstep

/-- While the thread is in the drain, it can go on. -/
theorem drainStep_isSome (h : s.memory.Sound) (hdrain : s.thread.inDrain = true) (ok : Bool) :
    (s.drainStep ok).isSome = true := by
  unfold drainStep
  split
  · rw [blocked_eq h]
    simp only [Bool.false_eq_true, if_false]
    split <;> rfl
  · rfl
  · simp only
    split <;> rfl
  · rw [Option.isSome_map]
    exact destructor_isSome h _ ok
  · rename_i hnone hdestroying hcons hdestructing
    cases hthread : s.thread with
    | draining => exact absurd hthread hnone
    | destroying captured =>
        cases captured with
        | nil => exact absurd hthread hdestroying
        | cons object captured => exact absurd hthread (hcons object captured)
    | destructing object captured => exact absurd hthread (hdestructing object captured)
    | _ => simp [hthread, LockThread.inDrain] at hdrain

/-! ### Any order of steps -/

theorem work_le (hthread : s'.thread = s.thread) (hle : s'.memory.work ≤ s.memory.work) :
    s'.work ≤ s.work := by
  unfold work
  rw [hthread]
  split <;> omega

theorem of_step (h : s.memory.Sound) {event : LockEvent} (hok : s.ReplacesOwn event)
    (hstep : s.step event = some s') :
    s'.memory.Sound ∧ (event.adds = false →
      s'.work + (if event.drains then 1 else 0) ≤ s.work) := by
  cases event with
  | create fd =>
      obtain rfl := Option.some.inj hstep
      exact ⟨h, fun _ => work_le rfl le_rfl⟩
  | share object =>
      obtain ⟨-, hstep⟩ := Option.ite_none_right_eq_some.mp hstep
      obtain rfl := Option.some.inj hstep
      exact ⟨h, fun _ => work_le rfl le_rfl⟩
  | drop object =>
      simp only [step] at hstep
      split at hstep
      · split at hstep <;> obtain rfl := Option.some.inj hstep
        · exact ⟨h, fun _ => work_le rfl le_rfl⟩
        · exact ⟨h, fun _ => work_le rfl le_rfl⟩
      · simp at hstep
  | destruct object ok =>
      obtain ⟨-, hstep⟩ := Option.ite_none_right_eq_some.mp hstep
      obtain ⟨s₁, hdestructor, rfl⟩ := Option.map_eq_some_iff.mp hstep
      obtain ⟨hsound, hle, hthread⟩ := of_destructor h hdestructor
      exact ⟨hsound, fun _ => work_le hthread hle⟩
  | registerAction object dir captured ok =>
      refine ⟨?_, fun hadds => by simp [LockEvent.adds] at hadds⟩
      simp only [step] at hstep
      split at hstep
      · simp at hstep
      · split at hstep
        · simp at hstep
        · split at hstep
          · obtain rfl := Option.some.inj hstep
            exact h
          · rename_i hregister
            obtain rfl := Option.some.inj hstep
            apply h.registerAction _ hregister
            rintro _ ⟨⟩
            exact List.mem_cons_self
  | replaceAction object captured =>
      simp only [step] at hstep
      split at hstep
      · simp at hstep
      · rename_i a hobject
        obtain ⟨hguard, hstep⟩ := Option.ite_none_left_eq_some.mp hstep
        obtain rfl := Option.some.inj hstep
        have htoken : s.tokenOf object = a.token := by rw [tokenOf, hobject]; rfl
        have hrunning : s.thread.inDrain = false := by
          cases hthread : s.thread <;> simp_all [LockThread.lent, LockThread.inDrain]
        refine ⟨h.replaceAction ?_, fun _ => ?_⟩
        · intro key keeper
          rw [← htoken]
          exact hok key keeper
        · simp [work, hrunning, LockEvent.drains]
  | deregister object ok =>
      simp only [step] at hstep
      split at hstep
      · simp at hstep
      · obtain ⟨-, hstep⟩ := Option.ite_none_left_eq_some.mp hstep
        obtain rfl := Option.some.inj hstep
        exact ⟨h.deregisterAction _ _ _, fun _ => work_le rfl (h.deregisterAction_work_le _ _ _)⟩
  | registerOther fd dir captured ok =>
      refine ⟨?_, fun hadds => by simp [LockEvent.adds] at hadds⟩
      obtain ⟨-, hstep⟩ := Option.ite_none_left_eq_some.mp hstep
      split at hstep
      · obtain rfl := Option.some.inj hstep
        exact h
      · rename_i hregister
        obtain rfl := Option.some.inj hstep
        exact h.registerAction (fun _ hnone => by simp at hnone) hregister
  | deregisterOther token ok =>
      obtain ⟨-, hstep⟩ := Option.ite_none_left_eq_some.mp hstep
      obtain rfl := Option.some.inj hstep
      exact ⟨h.deregisterAction _ _ _, fun _ => work_le rfl (h.deregisterAction_work_le _ _ _)⟩
  | deregisterFd fd ok =>
      obtain ⟨-, hstep⟩ := Option.ite_none_left_eq_some.mp hstep
      obtain rfl := Option.some.inj hstep
      exact ⟨h.deregisterFd _ _ _, fun _ => work_le rfl (h.deregisterFd_work_le _ _ _)⟩
  | closeFd fd =>
      obtain rfl := Option.some.inj hstep
      exact ⟨h.of_tables (fun _ he => he) rfl rfl, fun _ => work_le rfl le_rfl⟩
  | fetch key =>
      obtain ⟨hguard, hstep⟩ := Option.ite_none_left_eq_some.mp hstep
      split at hstep
      · obtain rfl := Option.some.inj hstep
        exact ⟨h, fun _ => work_le rfl le_rfl⟩
      · obtain rfl := Option.some.inj hstep
        exact ⟨h, fun _ => by simp [work, LockThread.inDrain, LockEvent.drains]⟩
  | finish =>
      simp only [step] at hstep
      split at hstep
      · obtain rfl := Option.some.inj hstep
        exact ⟨h, fun _ => by simp [work, LockThread.inDrain, LockEvent.drains]⟩
      · simp at hstep
  | beginDrain =>
      obtain ⟨-, hstep⟩ := Option.ite_none_right_eq_some.mp hstep
      obtain rfl := Option.some.inj hstep
      exact ⟨h, fun hadds => by simp [LockEvent.adds] at hadds⟩
  | drain ok =>
      obtain ⟨hsound, hle⟩ := of_drainStep h hstep
      exact ⟨hsound, fun _ => by simpa [LockEvent.drains] using hle⟩

/-- The drain ends, whatever the others do meanwhile but register actions: its steps are bounded by
the work there is, and until it has ended there is one more that it can make. -/
def DrainEnds (s : LockRun) : Prop :=
  ∀ events s', machine.EachStep ReplacesOwn s events → machine.exec s events = some s' →
    (∀ event ∈ events, event.adds = false) →
    events.countP LockEvent.drains + s'.work ≤ s.work ∧
      (s'.thread.inDrain = true → ∀ ok, (s'.step (.drain ok)).isSome = true)

theorem drainEnds (h : s.memory.Sound) : s.DrainEnds := by
  intro events
  induction events generalizing s with
  | nil =>
      intro s' _ hexec _
      obtain rfl := Option.some.inj hexec
      exact ⟨by simp, drainStep_isSome h⟩
  | cons event rest ih =>
      intro s' heach hexec hadds
      obtain ⟨mid, hmid, hrest⟩ := Option.bind_eq_some_iff.mp hexec
      obtain ⟨hok, hokrest⟩ := heach mid hmid
      obtain ⟨hsound, hle⟩ := of_step h hok hmid
      obtain ⟨hcount, hgo⟩ := ih hsound s' hokrest hrest
        fun event hevent => hadds event (List.mem_cons_of_mem _ hevent)
      refine ⟨?_, hgo⟩
      have hfirst := hle (hadds event List.mem_cons_self)
      rw [List.countP_cons]
      omega

/-- Nothing was destroyed and no last reference dropped under the lock, and a drain ends. -/
theorem lock_taken_once (h : machine.Reach ReplacesOwn init s) :
    s.memory.lockedDestroys = [] ∧ s.memory.lockedDrops = [] ∧ s.DrainEnds := by
  have hsound : s.memory.Sound :=
    h.invariant LoopMemory.init_sound fun _ _ _ hsound hok hstep => (of_step hsound hok hstep).1
  exact ⟨hsound.destroys, hsound.drops, drainEnds hsound⟩

/-- A message is awaited, and after its length the body: the running callback replaces its action.
Then the object is released while its callbacks wait in the queue, and the loop begins to drain. -/
theorem lock_taken_once_of_release :
    ∃ s : LockRun, s.thread = .draining ∧ s.memory.removeQueue = [some [0], some [0]] ∧
      s.memory.lockedDestroys = [] ∧ s.memory.lockedDrops = [] ∧ s.DrainEnds := by
  have hstart : machine.Reach ReplacesOwn init init := .refl
  have hcreate := hstart.tail (i := LockEvent.create 5) trivial rfl
  have hregister := hcreate.tail (i := LockEvent.registerAction 0 .input [] true) trivial rfl
  have hfetch := hregister.tail (i := LockEvent.fetch ⟨5, .input⟩) trivial rfl
  have hreplace := hfetch.tail (i := LockEvent.replaceAction 0 [])
    (fun key keeper hkey hslot link hlink => by
      obtain rfl := Option.some.inj hkey
      obtain rfl := Option.some.inj hslot
      obtain rfl := Option.some.inj hlink
      exact List.mem_cons_self) rfl
  have hfinish := hreplace.tail (i := LockEvent.finish) trivial rfl
  have hrelease := hfinish.tail (i := LockEvent.deregister 0 true) trivial rfl
  have hbegin := hrelease.tail (i := LockEvent.beginDrain) trivial rfl
  exact ⟨_, rfl, rfl, lock_taken_once hbegin⟩

/-- While the first object's callback runs, its descriptor is deregistered and used again by the
second one. The first replaces its action, which is the second's now; the second's own callback is
destroyed, its user lets go of it, and the first one is done. -/
def staleReplace : List LockEvent :=
  [.create 5, .registerAction 0 .input [] true, .fetch ⟨5, .input⟩, .deregisterFd 5 true,
    .create 5, .registerAction 1 .input [] true, .replaceAction 0 [], .finish,
    .beginDrain, .drain true, .drain true, .drain true, .drain true, .drain true, .drain true,
    .drain true, .drop 1, .deregister 0 true]

/-- The last reference to the second object is the link that is dropped under the lock, and its
destructor waits for the lock. -/
theorem stale_replace_blocks :
    ∃ s, machine.Reach (fun _ _ => True) init s ∧ s.memory.lockedDrops = [1] ∧
      s.blocked = true := by
  have hrun : ∃ s, machine.exec init staleReplace = some s ∧ s.memory.lockedDrops = [1] ∧
      s.blocked = true := ⟨_, rfl, rfl, rfl⟩
  obtain ⟨s, hexec, hblocked⟩ := hrun
  exact ⟨s, Machine.reach_of_exec hexec, hblocked⟩

end LockRun

end Diplom
