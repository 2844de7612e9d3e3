import Diplom.Proof.AsyncLoop
import Diplom.Transport.AsyncRun

/-!
# Operations resolve at most once

A closure that is registered belongs to the operation its object has, and the object's token leads
to it. So a callback that runs is armed, and it gives up its place before it calls `resolve`.
Another user of the loop may take a registered closure away, and then its operation never resolves;
nobody can put it in another place, or a second time.
-/

namespace Diplom

namespace AsyncFd

variable {OnMessage OnSent : Type} {a : AsyncFd} {loop : AsyncLoop OnMessage OnSent}

/-- An object without an operation is as good as new. -/
theorem eq_create (h : a.token = 0) : a = create a.fd := by
  rw [create, ← h]

theorem procData_taken {fd : Fd} {closure : Closure OnMessage OnSent}
    (h : loop.fdToCallback ⟨fd, closure.dir⟩ ≠ none) (ok : Bool) :
    (create fd).procData loop closure ok = none := by
  have htaken : loop.fdToCallback.contains ⟨fd, closure.dir⟩ = true :=
    PartialMap.contains_eq_true.mpr h
  simp only [procData, create, if_true, EpollLoop.registerAction, htaken, Option.map_none]

/-- The first `ProcData` call of an operation arms it, or nothing changes. -/
theorem procData_start (hwf : loop.Wf) (htoken : a.token = 0) (closure : Closure OnMessage OnSent)
    (ok : Bool) :
    a.procData loop closure ok = none ∨ ∃ a' loop', a.procData loop closure ok = some (a', loop') ∧
      a'.fd = a.fd ∧ a'.Armed loop' closure ∧
      EpollLoop.SameElsewhere ⟨a.fd, closure.dir⟩ loop loop' := by
  rw [eq_create htoken]
  by_cases hslot : loop.fdToCallback ⟨a.fd, closure.dir⟩ = none
  · exact procData_create closure ⟨hwf, hslot⟩ ok
  · exact .inl (procData_taken hslot ok)

theorem recvMessage_start (hwf : loop.Wf) (htoken : a.token = 0) (resolve : OnMessage) (ok : Bool) :
    a.recvMessage loop resolve ok = .resolved a loop resolve (.err .error) ∨ ∃ a' loop',
      a.recvMessage loop resolve ok = .pending a' loop' ∧ a'.fd = a.fd ∧
      a'.Armed loop' (.recv .start resolve) ∧
      EpollLoop.SameElsewhere ⟨a.fd, .input⟩ loop loop' := by
  rcases procData_start hwf htoken (.recv .start resolve) ok with heq | ⟨a', loop', heq, hrest⟩
  · exact .inl (by simp only [recvMessage, htoken, ne_eq, not_true_eq_false, if_false, heq])
  · exact .inr ⟨a',
      loop', by simp only [recvMessage, htoken, ne_eq, not_true_eq_false, if_false, heq], hrest⟩

theorem sendMessage_start (order : ByteOrder) (hwf : loop.Wf) (htoken : a.token = 0)
    (data : Message) (resolve : OnSent) (ok : Bool) :
    a.sendMessage order loop data resolve ok = .aborted ∨
      a.sendMessage order loop data resolve ok = .resolved a loop resolve (.err .error) ∨
      ∃ a' loop', a.sendMessage order loop data resolve ok = .pending a' loop' ∧ a'.fd = a.fd ∧
      a'.Armed loop' (.send (.start order data) resolve) ∧
      EpollLoop.SameElsewhere ⟨a.fd, .output⟩ loop loop' := by
  by_cases hlen : SendOp.msgLen data = 0
  · exact .inl (by simp only [sendMessage, htoken, ne_eq, not_true_eq_false, if_false, if_pos hlen])
  · refine .inr ?_
    rcases procData_start hwf htoken (.send (.start order data) resolve)
        ok with heq | ⟨a', loop', heq, hrest⟩
    · exact .inl (by
        simp only [sendMessage, htoken, ne_eq, not_true_eq_false, if_false, if_neg hlen, heq])
    · refine .inr ⟨a', loop', ?_, hrest⟩
      simp only [sendMessage, htoken, ne_eq, not_true_eq_false, if_false, if_neg hlen, heq]

end AsyncFd

namespace AsyncRun

variable {s s' : AsyncRun}

/-! ### The invariant -/

/-- The call returned true, and its `resolve` was not called yet. -/
structure Live (s : AsyncRun) (call : AsyncCall) : Prop where
  made : call.number < s.nextCall
  unresolved : call ∉ s.resolved
  accepted : call ∉ s.refused

/-- What is registered in a place for a call is the operation of the call's object. -/
def ArmedAt (s : AsyncRun) (key : FdDirection)
    (closure : Closure (Option AsyncCall) (Option AsyncCall)) (call : AsyncCall) : Prop :=
  ∃ a, s.objects call.object = some a ∧ a.Armed s.loop closure ∧ key = ⟨a.fd, closure.dir⟩

structure Inv (s : AsyncRun) : Prop where
  wf : s.loop.Wf
  armed : ∀ key keeper call, s.loop.fdToCallback key = some keeper →
    keeper.callback.call = some call → s.Live call ∧ s.ArmedAt key keeper.callback call
  objects : ∀ object a, s.objects object = some a → object < s.nextObject
  numbers : ∀ call, call ∈ s.resolved ∨ call ∈ s.refused → call.number < s.nextCall
  resolvedOnce : s.ResolvedOnce

theorem init_inv (order : ByteOrder) : (init order).Inv where
  wf := EpollLoop.init_wf
  armed key keeper call h := absurd h (by simp [init])
  objects object a h := absurd h (by simp [init])
  numbers call h := absurd h (by simp [init])
  resolvedOnce := ⟨List.nodup_nil, fun call h => absurd h (by simp [init])⟩

variable {call : AsyncCall} {object : ObjectId} {a a' : AsyncFd} {loop' : SharedLoop}
  {key : FdDirection}

theorem Inv.disarmed (h : s.Inv) (hobject : s.objects object = some a) (htoken : a.token = 0) :
    s.Disarmed object := by
  refine ⟨⟨a, hobject, htoken⟩, fun key keeper call hslot hcall heq => ?_⟩
  obtain ⟨-, b, hb, harmed, -⟩ := h.armed key keeper call hslot hcall
  rw [heq, hobject] at hb
  obtain rfl := Option.some.inj hb
  exact harmed.token_ne htoken

/-- All that an object has registered stands in the place that its token leads to. -/
theorem Inv.key_eq (h : s.Inv) (hobject : s.objects object = some a)
    (htoken : s.loop.cancelMap a.token = some key) {key' : FdDirection}
    {keeper : CallbackKeeper (Closure (Option AsyncCall) (Option AsyncCall)) Unit}
    (hslot : s.loop.fdToCallback key' = some keeper) (hcall : keeper.callback.call = some call)
    (heq : call.object = object) : key' = key := by
  obtain ⟨-, b, hb, harmed, hkey⟩ := h.armed key' keeper call hslot hcall
  rw [heq, hobject] at hb
  obtain rfl := Option.some.inj hb
  rw [hkey]
  exact Option.some.inj (harmed.token_own.symm.trans htoken)

/-! ### What keeps it -/

/-- The calls of others leave an action of an `AsyncFd` in its place with its token, or take it
away. -/
structure Survives (loop loop' : SharedLoop) : Prop where
  wf : loop'.Wf
  stays : ∀ key keeper, loop'.fdToCallback key = some keeper → keeper.callback.call ≠ none →
    loop.fdToCallback key = some keeper ∧ ∀ token, loop.cancelMap token = some key →
    loop'.cancelMap token = some key

theorem Inv.survives (h : s.Inv) (hloop : Survives s.loop loop') :
    Inv { s with loop := loop' } := by
  refine ⟨hloop.wf, fun key keeper call hslot hcall => ?_, h.objects, h.numbers,
    ⟨h.resolvedOnce.once, h.resolvedOnce.refused⟩⟩
  obtain ⟨hold, htokens⟩ := hloop.stays key keeper hslot (by simp [hcall])
  obtain ⟨hlive, b, hb, harmed, rfl⟩ := h.armed key keeper call hold hcall
  refine ⟨⟨hlive.made, hlive.unresolved, hlive.accepted⟩, b, hb,
    ⟨hloop.wf, harmed.token_ne, htokens _ harmed.token_own, ?_⟩, rfl⟩
  rw [hslot, ← hold, harmed.slot]

private theorem Inv.objects_set (h : s.Inv) (hmade : object < s.nextObject) (o : ObjectId)
    (b : AsyncFd) (hb : (s.objects.set object a) o = some b) : o < s.nextObject := by
  by_cases ho : o = object
  · exact ho ▸ hmade
  · exact h.objects o b (by rwa [PartialMap.set_of_ne _ ho] at hb)

theorem Inv.setObject (h : s.Inv)
    (hfree : ∀ key keeper call, s.loop.fdToCallback key = some keeper →
      keeper.callback.call = some call → call.object ≠ object) (hmade : object < s.nextObject) :
    Inv { s with objects := s.objects.set object a } := by
  refine ⟨h.wf, fun key keeper call hslot hcall => ?_, h.objects_set hmade, h.numbers,
    ⟨h.resolvedOnce.once, h.resolvedOnce.refused⟩⟩
  obtain ⟨hlive, b, hb, harmed, hkey⟩ := h.armed key keeper call hslot hcall
  refine ⟨⟨hlive.made, hlive.unresolved, hlive.accepted⟩, b, ?_, harmed, hkey⟩
  rw [← hb]
  exact PartialMap.set_of_ne _ (hfree key keeper call hslot hcall) _

theorem Inv.create (h : s.Inv) (fd : Fd) :
    Inv { s with objects := s.objects.set s.nextObject (.create fd), nextObject :=
      s.nextObject + 1 } := by
  have hmore : Inv { s with nextObject := s.nextObject + 1 } := by
    refine ⟨h.wf, fun key keeper call hslot hcall => ?_,
      fun o b hb => Nat.lt_succ_of_lt (h.objects o b hb), h.numbers,
      ⟨h.resolvedOnce.once, h.resolvedOnce.refused⟩⟩
    obtain ⟨hlive, harmed⟩ := h.armed key keeper call hslot hcall
    exact ⟨⟨hlive.made, hlive.unresolved, hlive.accepted⟩, harmed⟩
  refine hmore.setObject (fun key keeper call hslot hcall heq => ?_) (Nat.lt_succ_self _)
  obtain ⟨-, b, hb, -⟩ := h.armed key keeper call hslot hcall
  exact Nat.lt_irrefl _ (h.objects _ b (heq ▸ hb))

/-- The place of an object's operation gets another closure of it, or becomes free; all else stays.
-/
theorem Inv.rearm (h : s.Inv) (hmade : object < s.nextObject) (hwf : loop'.Wf)
    (hsame : EpollLoop.SameElsewhere key s.loop loop')
    (hothers : ∀ key' keeper call, key' ≠ key → s.loop.fdToCallback key' = some keeper →
      keeper.callback.call = some call → call.object ≠ object)
    (hplace : ∀ keeper call, loop'.fdToCallback key = some keeper →
      keeper.callback.call = some call → s.Live call ∧ call.object = object ∧
        a'.Armed loop' keeper.callback ∧ key = ⟨a'.fd, keeper.callback.dir⟩) :
    Inv { s with loop := loop', objects := s.objects.set object a' } := by
  refine ⟨hwf, fun key' keeper call hslot hcall => ?_, h.objects_set hmade, h.numbers,
    ⟨h.resolvedOnce.once, h.resolvedOnce.refused⟩⟩
  by_cases hkey : key' = key
  · subst hkey
    obtain ⟨hlive, rfl, harmed, hkey⟩ := hplace keeper call hslot hcall
    exact ⟨⟨hlive.made, hlive.unresolved, hlive.accepted⟩, a',
      PartialMap.set_self _ _ _, harmed, hkey⟩
  · have hold : s.loop.fdToCallback key' = some keeper := (hsame.slots key' hkey).symm.trans hslot
    obtain ⟨hlive, b, hb, harmed, rfl⟩ := h.armed key' keeper call hold hcall
    refine ⟨⟨hlive.made, hlive.unresolved, hlive.accepted⟩, b, ?_,
      harmed.of_same hsame hwf hkey, rfl⟩
    rw [← hb]
    exact PartialMap.set_of_ne _ (hothers _ keeper call hkey hold hcall) _

/-- A `resolve` is called, for an operation whose object is disarmed. -/
theorem Inv.resolve (h : s.Inv) (hlive : s.Live call) (hfree : s.Disarmed call.object) :
    Inv { s with resolved := s.resolved ++ [call] } := by
  refine ⟨h.wf, fun key keeper call' hslot hcall => ?_, h.objects, fun call' hmem => ?_, ?_,
    fun call' hmem => ?_⟩
  · obtain ⟨hlive', harmed⟩ := h.armed key keeper call' hslot hcall
    refine ⟨⟨hlive'.made, ?_, hlive'.accepted⟩, harmed⟩
    simp only [List.mem_append, List.mem_singleton, not_or]
    refine ⟨hlive'.unresolved, fun heq => ?_⟩
    exact hfree.actions key keeper call' hslot hcall (by rw [heq])
  · simp only [List.mem_append, List.mem_singleton] at hmem
    rcases hmem with (hmem | rfl) | hmem
    · exact h.numbers call' (.inl hmem)
    · exact hlive.made
    · exact h.numbers call' (.inr hmem)
  · refine List.nodup_append.mpr ⟨h.resolvedOnce.once, by simp, fun x hx y hy hxy => ?_⟩
    rw [List.mem_singleton.mp hy] at hxy
    exact hlive.unresolved (hxy ▸ hx)
  · simp only [List.mem_append, List.mem_singleton, not_or]
    refine ⟨h.resolvedOnce.refused call' hmem, fun heq => ?_⟩
    exact hlive.accepted (heq ▸ hmem)

/-! ### What an object's function comes to -/

/-- A function of the call's object has come to its end: the invariant holds, and a `resolve` that
was called was the call's own, of an object that is disarmed. -/
structure Settled (s : AsyncRun) (call : AsyncCall) (s' : AsyncRun) : Prop where
  inv : s'.Inv
  resolved : s'.resolved = s.resolved ∨ s'.resolved = s.resolved ++ [call] ∧ s'.Disarmed call.object
  refused : s'.refused = s.refused

variable {closure : Closure (Option AsyncCall) (Option AsyncCall)}

theorem Inv.pending (h : s.Inv) (hobject : s.objects call.object = some a) (hlive : s.Live call)
    (hwhere : ∀ key keeper call', s.loop.fdToCallback key = some keeper →
      keeper.callback.call = some call' → call'.object = call.object → key = ⟨a.fd, closure.dir⟩)
    (hclosure : closure.call = some call) (hfd : a'.fd = a.fd) (harmed : a'.Armed loop' closure)
    (hsame : EpollLoop.SameElsewhere ⟨a.fd, closure.dir⟩ s.loop loop') :
    Settled s call { s with loop := loop', objects := s.objects.set call.object a' } := by
  refine ⟨h.rearm (h.objects _ a hobject) harmed.wf hsame ?_ ?_, .inl rfl, rfl⟩
  · intro key' keeper call' hne hslot hcall heq
    exact hne (hwhere key' keeper call' hslot hcall heq)
  · intro keeper call' hslot hcall
    rw [← hfd, harmed.slot] at hslot
    obtain rfl := Option.some.inj hslot
    obtain rfl := Option.some.inj (hcall.symm.trans hclosure)
    exact ⟨hlive, rfl, harmed, by rw [hfd]⟩

/-- An operation has failed before anything was registered for it. -/
theorem Inv.failed (h : s.Inv) (hobject : s.objects call.object = some a) (hlive : s.Live call)
    (htoken : a.token = 0) :
    Settled s call { s with objects := s.objects.set call.object a, resolved :=
      s.resolved ++ [call] } := by
  have hsame : s.objects.set call.object a = s.objects := PartialMap.set_of_some _ hobject
  rw [hsame]
  have hfree := h.disarmed hobject htoken
  exact ⟨h.resolve hlive hfree, .inr ⟨rfl, hfree.token, hfree.actions⟩, rfl⟩

/-- A callback has given up its place and calls its `resolve`. -/
theorem Inv.finished (h : s.Inv) (hobject : s.objects call.object = some a) (hlive : s.Live call)
    (htoken : s.loop.cancelMap a.token = some key) (hwf : loop'.Wf)
    (hslot : loop'.fdToCallback key = none) (hsame : EpollLoop.SameElsewhere key s.loop loop') :
    Settled s call { s with
      loop := loop'
      objects := s.objects.set call.object (.create a.fd)
      resolved := s.resolved ++ [call] } := by
  have hinv :
      Inv { s with loop := loop', objects := s.objects.set call.object (.create a.fd) } := by
    refine h.rearm (h.objects _ a hobject) hwf hsame ?_ fun keeper call' hkeeper =>
      absurd hkeeper (by simp [hslot])
    intro key' keeper call' hne hkeeper hcall heq
    exact hne (h.key_eq hobject htoken hkeeper hcall heq)
  have hfree := hinv.disarmed (PartialMap.set_self _ _ _) rfl
  exact ⟨hinv.resolve ⟨hlive.made, hlive.unresolved, hlive.accepted⟩ hfree,
    .inr ⟨rfl, hfree.token, hfree.actions⟩, rfl⟩

/-! ### One step -/

theorem Inv.event {Op Result : Type} (h : s.Inv)
    (toClosure : Op → Closure (Option AsyncCall) (Option AsyncCall)) {op : Op}
    (hdir : ∀ op', (toClosure op').dir = (toClosure op).dir)
    (hcall : ∀ op', (toClosure op').call = some call) (hobject : s.objects call.object = some a)
    (hlive : s.Live call) (harmed : a.Armed s.loop (toClosure op)) {progress : Progress Op Result}
    {ok : Bool}
    (hstep : s.settle call (a.finish s.loop toClosure (some call) ok progress) = some s') :
    Settled s call s' ∧
      (s'.resolved = s.resolved ∨ s'.loop.fdToCallback ⟨a.fd, (toClosure op).dir⟩ = none) := by
  have hwhere : ∀ key keeper call', s.loop.fdToCallback key = some keeper →
      keeper.callback.call = some call' → call'.object = call.object →
      key = ⟨a.fd, (toClosure op).dir⟩ :=
    fun key keeper call' hslot hcall' heq =>
    h.key_eq hobject harmed.token_own hslot hcall' heq
  have hfinish := harmed.finish toClosure hdir (some call) ok progress
  cases progress with
  | waiting op' | next op' =>
      obtain ⟨loop', heq, harmed', hsame⟩ := hfinish
      rw [heq] at hstep
      rw [← Option.some.inj hstep]
      rw [← hdir op'] at hwhere hsame
      exact ⟨h.pending hobject hlive hwhere (hcall op') rfl harmed' hsame, .inl rfl⟩
  | resolved result =>
      obtain ⟨loop', heq, hfree, hsame⟩ := hfinish
      rw [heq] at hstep
      rw [← Option.some.inj hstep]
      exact ⟨h.finished hobject hlive harmed.token_own hfree.wf hfree.slot hsame, .inr hfree.slot⟩
  | aborted =>
      rw [hfinish] at hstep
      exact absurd hstep (by simp [settle])

theorem Inv.numbered (h : s.Inv) (object : ObjectId) :
    Inv { s with nextCall := s.nextCall + 1 } ∧
      Live { s with nextCall := s.nextCall + 1 } ⟨object, s.nextCall⟩ := by
  refine ⟨⟨h.wf, fun key keeper call hslot hcall => ?_, h.objects,
    fun call hmem => Nat.lt_succ_of_lt (h.numbers call hmem),
    ⟨h.resolvedOnce.once, h.resolvedOnce.refused⟩⟩, Nat.lt_succ_self _, fun hmem => ?_,
    fun hmem => ?_⟩
  · obtain ⟨hlive, harmed⟩ := h.armed key keeper call hslot hcall
    exact ⟨⟨Nat.lt_succ_of_lt hlive.made, hlive.unresolved, hlive.accepted⟩, harmed⟩
  · exact Nat.lt_irrefl _ (h.numbers _ (.inl hmem))
  · exact Nat.lt_irrefl _ (h.numbers _ (.inr hmem))

theorem Inv.refuse (h : s.Inv) (hlive : s.Live call)
  (hfree : ∀ key keeper, s.loop.fdToCallback key = some keeper → keeper.callback.call ≠ some call) :
  Inv { s with refused := s.refused ++ [call] } := by
  refine ⟨h.wf, fun key keeper call' hslot hcall => ?_, h.objects, fun call' hmem => ?_,
    h.resolvedOnce.once, fun call' hmem => ?_⟩
  · obtain ⟨hlive', harmed⟩ := h.armed key keeper call' hslot hcall
    refine ⟨⟨hlive'.made, hlive'.unresolved, ?_⟩, harmed⟩
    simp only [List.mem_append, List.mem_singleton, not_or]
    exact ⟨hlive'.accepted, fun heq => hfree key keeper hslot (heq ▸ hcall)⟩
  · simp only [List.mem_append, List.mem_singleton] at hmem
    rcases hmem with hmem | hmem | rfl
    · exact h.numbers call' (.inl hmem)
    · exact h.numbers call' (.inr hmem)
    · exact hlive.made
  · simp only [List.mem_append, List.mem_singleton] at hmem
    rcases hmem with hmem | rfl
    · exact h.resolvedOnce.refused call' hmem
    · exact hlive.unresolved

/-! ### The calls of others -/

theorem survives_deregisterAction (hwf : s.loop.Wf) (token : CancellationToken) (ok : Bool) :
    Survives s.loop (s.loop.deregisterAction token ok).2 := by
  have hkept : ∀ key key' token', key' ≠ key → s.loop.cancelMap token = some key →
      s.loop.cancelMap token' = some key' → (s.loop.cancelMap.erase token) token' = some key' := by
    intro key key' token' hne htoken htoken'
    refine (PartialMap.erase_eq_some _).mpr ⟨fun heq => hne ?_, htoken'⟩
    rw [heq, htoken] at htoken'
    exact (Option.some.inj htoken').symm
  refine ⟨hwf.deregisterAction token ok, fun key' keeper' hslot _ => ?_⟩
  rcases EpollLoop.deregisterAction_cases s.loop token ok with
    ⟨-, heq⟩ | ⟨key, htoken, hnone, heq⟩ | ⟨key, keeper, htoken, -, done, interest, heq⟩
  · rw [heq] at hslot ⊢
    exact ⟨hslot, fun _ h => h⟩
  · rw [heq] at hslot ⊢
    have hne : key' ≠ key := fun hkey => by
      subst hkey
      exact absurd hslot (by simp [hnone])
    exact ⟨hslot, fun token' => hkept key key' token' hne htoken⟩
  · rw [heq] at hslot ⊢
    obtain ⟨hne, hold⟩ := (PartialMap.erase_eq_some _).mp hslot
    exact ⟨hold, fun token' => hkept key key' token' hne htoken⟩

theorem survives_foreign (hwf : s.loop.Wf) (call : LoopCall Unit Unit) :
    Survives s.loop (s.loop.call (foreign call)) := by
  cases call with
  | registerAction fd dir callback afd ok =>
      simp only [foreign, EpollLoop.call]
      cases hreg : s.loop.registerAction fd dir (.recv .start none) none ok with
      | none => exact ⟨hwf, fun _ _ hslot _ => ⟨hslot, fun _ h => h⟩⟩
      | some pair =>
          obtain ⟨token, loop'⟩ := pair
          have hsame := hwf.registerAction_same hreg
          refine ⟨hwf.registerAction hreg, fun key keeper hslot hcall => ?_⟩
          have hslots := (EpollLoop.registerAction_eq_some hreg).2.2.1
          have hne : key ≠ ⟨fd, dir⟩ := fun hkey => by
            simp only [Option.map_some, Option.getD_some, hslots, hkey, PartialMap.set_self,
              Option.some.injEq] at hslot
            exact hcall (by rw [← hslot]; rfl)
          exact ⟨(hsame.slots key hne).symm.trans hslot, hsame.tokens key hne⟩
  | replaceAction token callback =>
      simp only [foreign, EpollLoop.call]
      rcases EpollLoop.replaceAction_cases s.loop token
          (.recv .start none) with ⟨heq, -⟩ | ⟨key, keeper, -, -, heq⟩
      · rw [heq]
        exact ⟨hwf, fun _ _ hslot _ => ⟨hslot, fun _ h => h⟩⟩
      · rw [heq]
        refine ⟨⟨hwf.next_pos, hwf.issued⟩, fun key' keeper' hslot hcall => ⟨?_, fun _ h => h⟩⟩
        simp only [PartialMap.set_apply] at hslot
        split at hslot
        · rw [← Option.some.inj hslot] at hcall
          exact absurd rfl hcall
        · exact hslot
  | deregisterAction token ok => exact survives_deregisterAction hwf token ok
  | deregisterFd fd ok =>
      obtain ⟨hslots, htokens, hnext⟩ := EpollLoop.deregisterFd_tables s.loop fd ok
      simp only [foreign, EpollLoop.call]
      refine ⟨⟨by rw [hnext]; exact hwf.next_pos, by rw [htokens, hnext]; exact hwf.issued⟩,
        fun key keeper hslot _ => ?_⟩
      rw [hslots, PartialMap.erase_eq_some, PartialMap.erase_eq_some] at hslot
      exact ⟨hslot.2.2, fun token h => by rwa [htokens]⟩

theorem Inv.release (h : s.Inv) (hobject : s.objects object = some a) (ok : Bool) :
    Inv { s with loop := (a.release s.loop ok).2.2, objects :=
      s.objects.set object (a.release s.loop ok).2.1 } := by
  by_cases htoken : a.token = 0
  · have hfree := h.disarmed hobject htoken
    simp only [AsyncFd.release, AsyncFd.deregister, if_pos htoken]
    exact h.setObject hfree.actions (h.objects _ a hobject)
  · simp only [AsyncFd.release, AsyncFd.deregister, if_neg htoken]
    have hinv := h.survives (survives_deregisterAction h.wf a.token ok)
    refine hinv.setObject (fun key keeper call hslot hcall heq => ?_) (h.objects _ a hobject)
    -- what the object had registered is what its token led to, and that is gone
    obtain ⟨-, b, hb, harmed, hkey⟩ := hinv.armed key keeper call hslot hcall
    rw [heq] at hb
    obtain rfl := Option.some.inj (hobject.symm.trans hb)
    have hgone : (s.loop.deregisterAction a.token ok).2.cancelMap a.token = none := by
      rcases EpollLoop.deregisterAction_cases s.loop a.token
          ok with ⟨hnone, heq⟩ | ⟨_, -, -, heq⟩ | ⟨_, _, -, -, _, _, heq⟩
      · rw [heq]
        exact hnone
      · rw [heq]
        exact PartialMap.erase_self _ _
      · rw [heq]
        exact PartialMap.erase_self _ _
    exact absurd harmed.token_own (by simp [hgone])

/-! ### Every run -/

private theorem disarmsFirst_of_quiet {event : Event} (hresolved : s'.resolved = s.resolved)
    (hrefused : s'.refused = s.refused) : DisarmsFirst s event s' :=
  ⟨.inl hresolved, fun hne => absurd hrefused hne⟩

private theorem disarmsFirst_of_started {event : Event} {number : Nat}
    (h : Settled { s with nextCall := number } call s')
    (hevent : ∀ key res received sent ok, event ≠ .runCallback key res received sent ok) :
    DisarmsFirst s event s' := by
  refine ⟨?_, fun hne => absurd h.refused hne⟩
  rcases h.resolved with hresolved | ⟨hresolved, hfree⟩
  · exact .inl hresolved
  · exact .inr ⟨call, hresolved, hfree,
      fun key res received sent ok heq => absurd heq (hevent key res received sent ok)⟩

private theorem disarmsFirst_of_ran {res : EpollResult} {received : RecvReturn} {sent : SendReturn}
    {ok : Bool} (h : Settled s call s')
    (hplace : s'.resolved = s.resolved ∨ s'.loop.fdToCallback key = none) :
    DisarmsFirst s (.runCallback key res received sent ok) s' := by
  refine ⟨?_, fun hne => absurd h.refused hne⟩
  rcases hplace with hquiet | hplace
  · exact .inl hquiet
  · rcases h.resolved with hresolved | ⟨hresolved, hfree⟩
    · exact .inl hresolved
    · refine .inr ⟨call, hresolved, hfree, fun key' res' received' sent' ok' heq => ?_⟩
      cases heq
      exact hplace

private theorem Inv.start {Result : Type} (h : s.Inv) (hobject : s.objects call.object = some a)
    (htoken : a.token = 0) (hlive : s.Live call) (hclosure : closure.call = some call)
    {outcome : AsyncFd.Outcome SharedLoop (Option AsyncCall) Result} {err : IoResult Result}
    (houtcome : outcome = .resolved a s.loop (some call) err ∨ ∃ a' loop',
      outcome = .pending a' loop' ∧ a'.fd = a.fd ∧ a'.Armed loop' closure ∧
      EpollLoop.SameElsewhere ⟨a.fd, closure.dir⟩ s.loop loop')
    (hstep : s.settle call outcome = some s') : Settled s call s' := by
  rcases houtcome with rfl | ⟨a', loop', rfl, hfd, harmed, hsame⟩
  · rw [← Option.some.inj hstep]
    exact h.failed hobject hlive htoken
  · rw [← Option.some.inj hstep]
    refine h.pending hobject hlive (fun key keeper call' hslot hcall heq => ?_) hclosure
      hfd harmed hsame
    exact absurd heq ((h.disarmed hobject htoken).actions key keeper call' hslot hcall)

private theorem Inv.refuses {Result : Type} (h : s.Inv) {event : Event}
    {outcome : AsyncFd.Outcome SharedLoop (Option AsyncCall) Result} (houtcome : outcome = .refused)
    (hstep : settle { s with nextCall := s.nextCall + 1 } ⟨object, s.nextCall⟩ outcome = some s') :
    s'.Inv ∧ DisarmsFirst s event s' := by
  obtain ⟨hnumbered, hlive⟩ := h.numbered object
  subst houtcome
  rw [← Option.some.inj hstep]
  refine ⟨hnumbered.refuse hlive fun key keeper hslot hcall => ?_, .inl rfl,
    fun _ => ⟨rfl, rfl, rfl⟩⟩
  obtain ⟨hold, -⟩ := h.armed key keeper _ hslot hcall
  exact Nat.lt_irrefl _ hold.made

theorem Inv.step (h : s.Inv) {event : Event} (hstep : s.step event = some s') :
    s'.Inv ∧ DisarmsFirst s event s' := by
  cases event with
  | create fd =>
      rw [← Option.some.inj hstep]
      exact ⟨h.create fd, disarmsFirst_of_quiet rfl rfl⟩
  | recvMessage object ok =>
      simp only [AsyncRun.step] at hstep
      split at hstep
      · exact absurd hstep (by simp)
      · rename_i a hobject
        by_cases htoken : a.token = 0
        · obtain ⟨hnumbered, hlive⟩ := h.numbered object
          have hsettled :=
            hnumbered.start hobject htoken hlive rfl
              (AsyncFd.recvMessage_start h.wf htoken _ ok) hstep
          exact ⟨hsettled.inv, disarmsFirst_of_started hsettled (by simp)⟩
        · exact h.refuses
            (by simp only [AsyncFd.recvMessage, ne_eq, htoken, not_false_eq_true, if_true]) hstep
  | sendMessage object data ok =>
      simp only [AsyncRun.step] at hstep
      split at hstep
      · exact absurd hstep (by simp)
      · rename_i a hobject
        by_cases htoken : a.token = 0
        · obtain ⟨hnumbered, hlive⟩ := h.numbered object
          rcases AsyncFd.sendMessage_start s.order h.wf htoken data (some ⟨object, s.nextCall⟩)
              ok with haborted | hstart
          · rw [haborted] at hstep
            exact absurd hstep (by simp [settle])
          · have hsettled := hnumbered.start hobject htoken hlive rfl hstart hstep
            exact ⟨hsettled.inv, disarmsFirst_of_started hsettled (by simp)⟩
        · exact h.refuses
            (by simp only [AsyncFd.sendMessage, ne_eq, htoken, not_false_eq_true, if_true]) hstep
  | runCallback key res received sent ok =>
      simp only [AsyncRun.step] at hstep
      split at hstep
      · rename_i op call hcallback
        obtain ⟨keeper, hkeeper, hclosure⟩ := Option.map_eq_some_iff.mp hcallback
        obtain ⟨hlive, a, hobject, harmed, hkey⟩ :=
            h.armed key keeper call hkeeper (by rw [hclosure]; rfl)
        rw [hclosure] at harmed hkey
        simp only [hobject] at hstep
        obtain ⟨hsettled, hplace⟩ :=
            h.event (.recv · (some call)) (fun _ => rfl) (fun _ => rfl) hobject hlive harmed hstep
        exact ⟨hsettled.inv, disarmsFirst_of_ran hsettled (by rwa [hkey])⟩
      · rename_i op call hcallback
        obtain ⟨keeper, hkeeper, hclosure⟩ := Option.map_eq_some_iff.mp hcallback
        obtain ⟨hlive, a, hobject, harmed, hkey⟩ :=
            h.armed key keeper call hkeeper (by rw [hclosure]; rfl)
        rw [hclosure] at harmed hkey
        simp only [hobject] at hstep
        obtain ⟨hsettled, hplace⟩ :=
            h.event (.send · (some call)) (fun _ => rfl) (fun _ => rfl) hobject hlive harmed hstep
        exact ⟨hsettled.inv, disarmsFirst_of_ran hsettled (by rwa [hkey])⟩
      · rw [← Option.some.inj hstep]
        exact ⟨h, disarmsFirst_of_quiet rfl rfl⟩
  | release object ok =>
      simp only [AsyncRun.step] at hstep
      split at hstep
      · exact absurd hstep (by simp)
      · rename_i a hobject
        rw [← Option.some.inj hstep]
        exact ⟨h.release hobject ok, disarmsFirst_of_quiet rfl rfl⟩
  | other call =>
      rw [← Option.some.inj hstep]
      exact ⟨h.survives (survives_foreign h.wf call), disarmsFirst_of_quiet rfl rfl⟩

/-- Whatever happens on the loop, no operation resolves twice, one that was refused never does, and
each that resolves has disarmed its object before. -/
theorem resolvedOnce_and_disarms (order : ByteOrder) (events : List Event) :
    machine.Always ResolvedOnce (init order) events ∧
      machine.EachStep Disarms (init order) events := by
  have hinv := init_inv order
  constructor
  · have hkept : machine.Always Inv (init order) events :=
      Machine.always_of_invariant (fun _ _ _ h hstep => (Inv.step h hstep).1) events hinv
    exact hkept.mono fun _ h => h.resolvedOnce
  · refine Machine.eachStep_of_invariant (fun s event s' (h : s.Inv) hstep => ?_) events hinv
    exact ⟨(h.step hstep).1, fun t ht => (h.step ht).2⟩

end AsyncRun

end Diplom
