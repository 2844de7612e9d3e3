import Diplom.Lib.Custody
import Diplom.Proof.LoopRun
import Mathlib.Data.List.Nodup

/-!
# Who owns a callback

A callback object is in one place of `fdToCallback_` until an operation takes it out, and from then
on in `removeQueue_`, in the hands of the drain, or destroyed. The callback that the thread is
running is not destroyed, since only the thread itself destroys, so it is in one of the first two.
-/

namespace Diplom

namespace EpollLoop

variable {Keep : Type} {loop : EpollLoop CallbackId Keep} {key : FdDirection} {created : CallbackId}

/-- Which callback object is registered in a place. -/
def callbacks (loop : EpollLoop CallbackId Keep) : PartialMap FdDirection CallbackId := fun key =>
  (loop.fdToCallback key).map CallbackKeeper.callback

/-- The objects behind the loop; `before` are those that have left `removeQueue_`. -/
def custody (loop : EpollLoop CallbackId Keep) (before : List CallbackId) (created : CallbackId) :
    Custody FdDirection :=
  ⟨loop.callbacks, before ++ loop.removeQueue, created⟩

variable {before : List CallbackId}

theorem callbacks_set {loop' : EpollLoop CallbackId Keep} {keeper : CallbackKeeper CallbackId Keep}
    (h : loop'.fdToCallback = loop.fdToCallback.set key keeper) :
    loop'.callbacks = loop.callbacks.set key keeper.callback := by
  funext key'
  rw [callbacks, h, PartialMap.set_apply, PartialMap.set_apply]
  split <;> rfl

theorem callbacks_erase {loop' : EpollLoop CallbackId Keep}
    (h : loop'.fdToCallback = loop.fdToCallback.erase key) :
    loop'.callbacks = loop.callbacks.erase key := by
  funext key'
  rw [callbacks, h, PartialMap.erase_apply, PartialMap.erase_apply]
  split <;> rfl

theorem callbacks_of_slot {keeper : CallbackKeeper CallbackId Keep}
    (hslot : loop.fdToCallback key = some keeper) : loop.callbacks key = some keeper.callback := by
  rw [callbacks, hslot, Option.map_some]

theorem callbacks_of_free (hslot : loop.fdToCallback key = none) : loop.callbacks key = none := by
  rw [callbacks, hslot, Option.map_none]

theorem custody_retire {loop' : EpollLoop CallbackId Keep} {keeper : CallbackKeeper CallbackId Keep}
    (hslot : loop.fdToCallback key = some keeper)
    (hactions : loop'.fdToCallback = loop.fdToCallback.erase key)
    (hqueue : loop'.removeQueue = loop.removeQueue ++ [keeper.callback]) :
    loop'.custody before created = (loop.custody before created).retire key := by
  have hid : (loop.custody before created).table key = some keeper.callback :=
    callbacks_of_slot hslot
  rw [Custody.retire, hid, custody, callbacks_erase hactions, hqueue, ← List.append_assoc]
  rfl

theorem custody_none (hslot : loop.fdToCallback key = none) :
    (loop.custody before created).retire key = loop.custody before created := by
  have hid : (loop.custody before created).table key = none := callbacks_of_free hslot
  rw [Custody.retire, hid]

theorem registerAction_custody (before : List CallbackId) {fd : Fd} {dir : IoDirection}
    {afd : Option Keep} {ok : Bool} {token : CancellationToken} {loop' : EpollLoop CallbackId Keep}
    (h : loop.registerAction fd dir created afd ok = some (token, loop')) :
    loop'.custody before (created + 1) = (loop.custody before created).create ⟨fd, dir⟩ ∧
      (loop.custody before created).table ⟨fd, dir⟩ = none := by
  obtain ⟨hslot, -, hactions, -, -, hqueue⟩ := registerAction_eq_some h
  refine ⟨?_, ?_⟩
  · rw [Custody.create, custody, callbacks_set hactions, hqueue]
    rfl
  · exact callbacks_of_free hslot

theorem replaceAction_custody (before : List CallbackId) {token : CancellationToken}
    {loop' : EpollLoop CallbackId Keep} (h : loop.replaceAction token created = (true, loop')) :
    ∃ key, loop'.custody before (created + 1)
      = ((loop.custody before created).retire key).create key := by
  rcases replaceAction_cases loop token
      created with ⟨hfailed, -⟩ | ⟨key, keeper, -, hslot, hreplaced⟩
  · exact absurd (hfailed.symm.trans h) (by simp)
  · obtain ⟨-, rfl⟩ := Prod.mk.inj (hreplaced.symm.trans h)
    have hid : (loop.custody before created).table key = some keeper.callback :=
      callbacks_of_slot hslot
    refine ⟨key, ?_⟩
    rw [Custody.retire, hid, Custody.create, custody, callbacks_set rfl, ← List.append_assoc,
      PartialMap.set_erase]
    rfl

theorem deregisterAction_custody (token : CancellationToken) (ok : Bool) :
    (loop.deregisterAction token ok).2.custody before created = loop.custody before created ∨ ∃ key,
      (loop.deregisterAction token ok).2.custody before created
        = (loop.custody before created).retire key := by
  rcases deregisterAction_cases loop token
      ok with ⟨-, heq⟩ | ⟨key, -, -, heq⟩ | ⟨key, keeper, -, hslot, done, interest, heq⟩
  · exact .inl (by rw [heq])
  · exact .inl (by rw [heq]; rfl)
  · exact .inr ⟨key, by rw [heq]; exact custody_retire hslot rfl rfl⟩

theorem dropAction_custody (loop : EpollLoop CallbackId Keep) (key : FdDirection) :
    (loop.dropAction key).2.custody before created = (loop.custody before created).retire key := by
  unfold dropAction
  split
  · rename_i hnone
    exact (custody_none hnone).symm
  · rename_i keeper hslot
    exact custody_retire hslot rfl rfl

theorem deregisterFd_custody (loop : EpollLoop CallbackId Keep) (fd : Fd) (ok : Bool) :
    (loop.deregisterFd fd ok).custody before created =
      ((loop.custody before created).retire ⟨fd, .input⟩).retire ⟨fd, .output⟩ := by
  rw [← dropAction_custody loop, ← dropAction_custody]
  unfold deregisterFd
  dsimp only
  split
  · cases hctl : ((loop.dropAction ⟨fd, .input⟩).2.dropAction ⟨fd, .output⟩).2.ctl fd .del 0 ok with
    | none => rfl
    | some loop' =>
        obtain ⟨interest, rfl⟩ := ctl_eq_some hctl
        rfl
  · rfl

end EpollLoop

def Thread.runs : Thread → Option CallbackId
  | .running callback _ _ => some callback
  | _ => none

def Thread.inHand : Thread → List CallbackId
  | .destroying callback _ => [callback]
  | _ => []

namespace LoopRun

variable {Keep : Type} {s t : LoopRun Keep}

/-- The callbacks that have been taken out of `fdToCallback_`, wherever they are now. -/
def retired (s : LoopRun Keep) : List CallbackId :=
  s.destroyed ++ s.thread.inHand ++ s.loop.removeQueue

/-- The running callback has an owner, a registered one is in one place only, and a retired one is
once in `removeQueue_`, in the hands of the drain, or destroyed. -/
structure Owned (s : LoopRun Keep) : Prop where
  running : ∀ id, s.thread.runs = some id → (∃ key, s.loop.callbacks key = some id) ∨
    id ∈ s.loop.removeQueue
  registered : ∀ key id, s.loop.callbacks key = some id →
    s.retired.count id = 0 ∧ ∀ key', s.loop.callbacks key' = some id → key' = key
  retired : ∀ id, id < s.created → (∀ key, s.loop.callbacks key ≠ some id) → s.retired.count id = 1

/-- A step destroys a callback only as the drain, while no callback runs, and then the one that the
drain took out. -/
def DrainDestroys (s : LoopRun Keep) (event : LoopEvent Keep) : Prop :=
  ∀ t, s.step event = some t → t.destroyed = s.destroyed ∨ event = .destroyed ∧
    s.thread.runs = none ∧ ∃ callback, s.thread.inHand = [callback] ∧
    t.destroyed = s.destroyed ++ [callback]

def custody (s : LoopRun Keep) : Custody FdDirection :=
  s.loop.custody (s.destroyed ++ s.thread.inHand) s.created

structure Inv (s : LoopRun Keep) : Prop where
  kept : s.custody.Kept
  running : ∀ id, s.thread.runs = some id → id < s.created ∧ id ∉ s.destroyed

theorem init_inv : (init : LoopRun Keep).Inv where
  kept := Custody.kept_empty
  running id h := absurd h (by simp [init, Thread.runs])

theorem Inv.owned (h : s.Inv) : s.Owned where
  running id hruns := by
    obtain ⟨hcreated, hdestroyed⟩ := h.running id hruns
    have hhand : s.thread.inHand = [] := by
      cases hthread : s.thread <;> simp [Thread.inHand, Thread.runs, hthread] at hruns ⊢
    rcases (h.kept.known id).mp hcreated with hretired | hheld
    · simp only [custody, EpollLoop.custody, hhand, List.append_nil, List.mem_append] at hretired
      exact .inr (hretired.resolve_left hdestroyed)
    · exact .inl hheld
  registered key id hkey :=
    ⟨List.count_eq_zero.mpr (h.kept.apart key id hkey),
      fun key' hkey' => h.kept.one key' key id hkey' hkey⟩
  retired id hid hnowhere :=
    List.count_eq_one_of_mem h.kept.once
      (((h.kept.known id).mp hid).resolve_right fun ⟨key, hkey⟩ => hnowhere key hkey)

/-- A call on the tables moves objects as the table of its kind says, and leaves the thread alone.
-/
theorem Inv.callStep (h : s.Inv) (call : LoopCall Unit Keep) : (s.callStep call).Inv := by
  have hkeep : ∀ {t : LoopRun Keep}, t.thread = s.thread → t.destroyed = s.destroyed →
      s.created ≤ t.created → t.custody.Kept → t.Inv := by
    intro t hthread hdestroyed hcreated hkept
    refine ⟨hkept, fun id hruns => ?_⟩
    rw [hthread] at hruns
    obtain ⟨hid, hid'⟩ := h.running id hruns
    exact ⟨Nat.lt_of_lt_of_le hid hcreated, hdestroyed ▸ hid'⟩
  cases call with
  | registerAction fd dir callback afd ok =>
      simp only [LoopRun.callStep]
      split
      · exact h
      · split
        · exact h
        · rename_i token loop hregister
          obtain ⟨hcustody, hfree⟩ :=
              EpollLoop.registerAction_custody (s.destroyed ++ s.thread.inHand) hregister
          refine hkeep rfl rfl (Nat.le_succ _) ?_
          rw [custody, hcustody]
          exact h.kept.create hfree
  | replaceAction token callback =>
      simp only [LoopRun.callStep]
      split
      · rename_i loop hreplace
        obtain ⟨key, hcustody⟩ :=
            EpollLoop.replaceAction_custody (s.destroyed ++ s.thread.inHand) hreplace
        refine hkeep rfl rfl (Nat.le_succ _) ?_
        rw [custody, hcustody]
        refine (h.kept.retire key).create ?_
        rw [Custody.retire_table, PartialMap.erase_self]
      · exact h
  | deregisterAction token ok =>
      refine hkeep rfl rfl (Nat.le_refl _) ?_
      change ((s.loop.deregisterAction token ok).2.custody (s.destroyed ++ s.thread.inHand)
        s.created).Kept
      rcases EpollLoop.deregisterAction_custody token ok with hcustody | ⟨key, hcustody⟩
      · rw [hcustody]
        exact h.kept
      · rw [hcustody]
        exact h.kept.retire key
  | deregisterFd fd ok =>
      refine hkeep rfl rfl (Nat.le_refl _) ?_
      change ((s.loop.deregisterFd fd ok).custody (s.destroyed ++ s.thread.inHand) s.created).Kept
      rw [EpollLoop.deregisterFd_custody]
      exact (h.kept.retire _).retire _

theorem Inv.idle (h : s.Inv) (hloop : t.loop = s.loop) (hcreated : t.created = s.created)
    (hgone : t.destroyed ++ t.thread.inHand = s.destroyed ++ s.thread.inHand)
    (hruns : t.thread.runs = none) : t.Inv := by
  refine ⟨?_, fun id hid => absurd hid (by simp [hruns])⟩
  rw [custody, hloop, hcreated, hgone]
  exact h.kept

theorem Inv.step (h : s.Inv) {event : LoopEvent Keep} (hstep : s.step event = some t) : t.Inv := by
  cases step_cases hstep with
  | pollFailed hthread => exact h.idle rfl rfl (by simp [Thread.inHand, hthread]) rfl
  | polled hthread hreports => exact h.idle rfl rfl (by simp [Thread.inHand, hthread]) rfl
  | batchDone hthread => exact h.idle rfl rfl (by simp [Thread.inHand, hthread]) rfl
  | stopped hthread => exact h.idle rfl rfl (by simp [Thread.inHand, hthread]) rfl
  | removing hthread => exact h.idle rfl rfl (by simp [Thread.inHand, hthread]) rfl
  | event hthread => exact h.idle rfl rfl (by simp [Thread.inHand, hthread]) rfl
  | eventDone hthread => exact h.idle rfl rfl (by simp [Thread.inHand, hthread]) rfl
  | @found d calls rest keeper hthread hslot =>
      -- what the thread finds is registered, so it is not among the retired ones
      have hid : s.custody.table d.key = some keeper.callback := EpollLoop.callbacks_of_slot hslot
      refine ⟨?_, fun id hruns => ?_⟩
      · simpa [custody, Thread.inHand, hthread] using h.kept
      · obtain rfl := Option.some.inj hruns
        refine ⟨(h.kept.known _).mpr (.inr ⟨_, hid⟩), fun hgone => h.kept.apart _ _ hid ?_⟩
        exact List.mem_append_left _ (List.mem_append_left _ hgone)
  | notFound hthread hslot => exact h.idle rfl rfl (by simp [Thread.inHand, hthread]) rfl
  | finished hthread => exact h.idle rfl rfl (by simp [Thread.inHand, hthread]) rfl
  | drained hthread hqueue => exact h.idle rfl rfl (by simp [Thread.inHand, hthread]) rfl
  | @takenOut callback queue rest hthread hqueue =>
      refine ⟨?_, fun id hruns => absurd hruns (by simp [Thread.runs])⟩
      have hkept := h.kept
      rw [custody, EpollLoop.custody, hthread, hqueue] at hkept
      change Custody.Kept ⟨s.loop.callbacks, s.destroyed ++ [callback] ++ queue, s.created⟩
      simpa only [Thread.inHand, List.append_nil, List.append_assoc, List.singleton_append]
        using hkept
  | destroyed hthread => exact h.idle rfl rfl (by simp [Thread.inHand, hthread]) rfl
  | call call => exact h.callStep call
  | opened hfree => exact ⟨h.kept, h.running⟩
  | closed fd => exact ⟨h.kept, h.running⟩

theorem callStep_destroyed (s : LoopRun Keep) (call : LoopCall Unit Keep) :
    (s.callStep call).destroyed = s.destroyed := by
  cases call <;> simp only [callStep] <;> (repeat' split) <;> rfl

/-- Only the drain adds to what has been destroyed. -/
theorem drainDestroys (s : LoopRun Keep) (event : LoopEvent Keep) : s.DrainDestroys event := by
  intro t hstep
  cases step_cases hstep with
  | @destroyed callback rest hthread =>
      exact .inr ⟨rfl, by simp [Thread.runs, hthread], callback,
        by simp [Thread.inHand, hthread], rfl⟩
  | call call => exact .inl (callStep_destroyed s call)
  | _ => exact .inl rfl

/-- However the calls on the loop fall between the steps of its thread, the running callback has an
owner, no callback is in two places, and only the drain destroys. -/
theorem running_callback_owned (events : List (LoopEvent Keep)) :
    machine.Always Owned (init : LoopRun Keep) events ∧
      machine.EachStep DrainDestroys (init : LoopRun Keep) events := by
  constructor
  · exact (Machine.always_of_invariant (I := Inv) (fun _ _ _ h hstep => h.step hstep) events
      init_inv).mono fun _ h => h.owned
  · exact Machine.eachStep_of_invariant (I := fun _ => True)
      (fun s event _ _ _ => ⟨trivial, drainDestroys s event⟩) events trivial

end LoopRun

end Diplom
