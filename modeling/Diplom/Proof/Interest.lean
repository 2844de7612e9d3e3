import Diplom.Lib.Machine
import Diplom.Transport.EpollLoop

/-!
# The interest set and the registered actions

Which command an operation gives `epoll_ctl`, and with which mask, it works out from `fdToCallback_`
alone. So the kernel's set stays in step as long as it refuses nothing but new registrations, and
then no command ever finds a descriptor the kernel does not expect.
-/

namespace Diplom

namespace EpollLoop

variable {Callback Keep : Type} (loop : EpollLoop Callback Keep)

/-- The directions registered for a descriptor, as a mask. -/
def directions (fd : Fd) : EpollEvents :=
  (if loop.fdToCallback.contains ⟨fd, .input⟩ then epollIn else 0) |||
    (if loop.fdToCallback.contains ⟨fd, .output⟩ then epollOut else 0)

/-- The mask without what every descriptor is watched for. -/
def ownEvents (ev : EpollEvents) : EpollEvents := ev &&& ~~~(epollHup ||| epollErr)

/-- The kernel watches the descriptors with an action, each for the directions of its actions. -/
def Mirrors : Prop :=
  ∀ fd, (loop.interest fd ≠ none ↔ ∃ dir, loop.fdToCallback ⟨fd, dir⟩ ≠ none) ∧
    ∀ ev, loop.interest fd = some ev → ownEvents ev = loop.directions fd

/-- The command that a call gives `epoll_ctl`, if it comes to one. -/
def ctlCall : LoopCall Callback Keep → Option (Fd × EpollCmd)
  | .registerAction fd dir _ _ _ =>
      if loop.fdToCallback.contains ⟨fd, dir⟩ then none
      else some (fd, if loop.fdToCallback.contains ⟨fd, dir.opposite⟩ then .mod else .add)
  | .replaceAction _ _ => none
  | .deregisterAction token _ =>
      (loop.cancelMap token).bind fun key =>
        if loop.fdToCallback.contains key then
          some (key.fd,
            if loop.fdToCallback.contains ⟨key.fd, key.direction.opposite⟩ then .mod else .del)
        else none
  | .deregisterFd fd _ =>
      if loop.fdToCallback.contains ⟨fd, .input⟩ || loop.fdToCallback.contains ⟨fd, .output⟩ then
        some (fd, .del)
      else none

/-- `EEXIST` for a descriptor that is added, `ENOENT` for one that is changed or deleted. -/
def Unexpected (fd : Fd) : EpollCmd → Prop
  | .add => loop.interest fd ≠ none
  | .mod => loop.interest fd = none
  | .del => loop.interest fd = none

end EpollLoop

/-- A call on the loop, or the `close` of a descriptor. -/
inductive InterestEvent (Callback Keep : Type)
  | call (call : LoopCall Callback Keep)
  | close (fd : Fd)

namespace EpollLoop

variable {Callback Keep : Type} {loop : EpollLoop Callback Keep}

/-- Of the calls only a registration is refused for a reason of the kernel's own; a descriptor is
closed without an action, and leaves the interest set with that. -/
def interestStep (loop : EpollLoop Callback Keep) :
    InterestEvent Callback Keep → Option (EpollLoop Callback Keep)
  | .call (.deregisterAction _ false) => none
  | .call (.deregisterFd _ false) => none
  | .call call => some (loop.call call)
  | .close fd =>
      if loop.fdToCallback.contains ⟨fd, .input⟩ || loop.fdToCallback.contains ⟨fd, .output⟩ then
        none
      else some { loop with interest := loop.interest.erase fd }

def interestMachine : Machine (EpollLoop Callback Keep) (InterestEvent Callback Keep) :=
  ⟨interestStep⟩

/-- No command is unexpected, and a registration that returns false changes nothing. -/
def Expected (loop : EpollLoop Callback Keep) : InterestEvent Callback Keep → Prop
  | .call call =>
      (∀ command ∈ loop.ctlCall call, ¬ loop.Unexpected command.1 command.2) ∧
        ∀ fd dir callback afd ok, call = .registerAction fd dir callback afd ok →
          loop.registerAction fd dir callback afd ok = none → loop.call call = loop
  | .close _ => True

/-! ### One descriptor -/

/-- What the kernel should hold for a descriptor, from whether it has an action for input and for
output. -/
def watched (input output : Bool) : Option EpollEvents :=
  if input || output then some
    ((if input then epollIn else 0) ||| (if output then epollOut else 0)) else none

theorem mirrors_iff :
    loop.Mirrors ↔ ∀ fd,
      (loop.interest fd).map ownEvents = watched (loop.fdToCallback.contains ⟨fd, .input⟩)
        (loop.fdToCallback.contains ⟨fd, .output⟩) := by
  refine forall_congr' fun fd => ?_
  have hactions : (∃ dir, loop.fdToCallback ⟨fd, dir⟩ ≠ none) ↔
      loop.fdToCallback.contains ⟨fd, .input⟩ || loop.fdToCallback.contains ⟨fd, .output⟩ := by
    rw [Bool.or_eq_true, PartialMap.contains_eq_true, PartialMap.contains_eq_true]
    constructor
    · rintro ⟨dir, hdir⟩
      cases dir with
      | input => exact .inl hdir
      | output => exact .inr hdir
    · rintro (hin | hout)
      · exact ⟨.input, hin⟩
      · exact ⟨.output, hout⟩
  rw [hactions, watched, directions]
  cases hold : loop.interest fd with
  | none =>
      cases (loop.fdToCallback.contains ⟨fd, .input⟩ || loop.fdToCallback.contains ⟨fd, .output⟩)
        <;> simp
  | some ev =>
      cases (loop.fdToCallback.contains ⟨fd, .input⟩ || loop.fdToCallback.contains ⟨fd, .output⟩)
        <;> simp

/-- With an action for one direction, the mask is that of the other one's action, if there is one,
and this. -/
theorem watched_added (registered : IoDirection → Bool) {dir : IoDirection}
    (h : registered dir = true) :
    some (ownEvents
      ((if registered dir.opposite then IoDirection.input.events ||| IoDirection.output.events
      else dir.events) ||| epollHup ||| epollErr))
        = watched (registered .input) (registered .output) := by
  cases dir with
  | input =>
      rw [h, IoDirection.opposite]
      cases registered .output <;> decide
  | output =>
      rw [h, IoDirection.opposite]
      cases registered .input <;> decide

/-- With no action for one direction, the mask is that of the other one's action. -/
theorem watched_removed (registered : IoDirection → Bool) (dir : IoDirection)
    (h : registered dir = false) :
    (if registered dir.opposite then some (ownEvents dir.opposite.events) else none)
      = watched (registered .input) (registered .output) := by
  cases dir with
  | input =>
      rw [h, IoDirection.opposite]
      cases registered .output <;> decide
  | output =>
      rw [h, IoDirection.opposite]
      cases registered .input <;> decide

theorem mirrors_init : (init : EpollLoop Callback Keep).Mirrors :=
  mirrors_iff.mpr fun fd => by simp [init, watched, PartialMap.contains]

/-- The kernel knows a descriptor exactly if one of a direction and its opposite has an action. -/
theorem Mirrors.known (h : loop.Mirrors) (fd : Fd) (dir : IoDirection) :
    loop.interest fd ≠ none ↔ loop.fdToCallback ⟨fd, dir⟩ ≠ none ∨
      loop.fdToCallback ⟨fd, dir.opposite⟩ ≠ none := by
  rw [(h fd).1]
  constructor
  · rintro ⟨dir', hdir'⟩
    by_cases hsame : dir' = dir
    · exact .inl (hsame ▸ hdir')
    · refine .inr ?_
      have hopposite : dir' = dir.opposite := by
        cases dir <;> cases dir' <;> simp_all [IoDirection.opposite]
      exact hopposite ▸ hdir'
  · rintro (h | h)
    · exact ⟨dir, h⟩
    · exact ⟨dir.opposite, h⟩

/-- A change at one descriptor keeps the set in step if it does so there. -/
theorem Mirrors.change (h : loop.Mirrors) {loop' : EpollLoop Callback Keep} (fd : Fd)
    (hinterest : ∀ fd', fd' ≠ fd → loop'.interest fd' = loop.interest fd')
    (hactions : ∀ fd' dir, fd' ≠ fd → loop'.fdToCallback ⟨fd', dir⟩ = loop.fdToCallback ⟨fd', dir⟩)
    (hhere : (loop'.interest fd).map ownEvents = watched (loop'.fdToCallback.contains ⟨fd, .input⟩)
      (loop'.fdToCallback.contains ⟨fd, .output⟩)) : loop'.Mirrors := by
  rw [mirrors_iff] at h ⊢
  intro fd'
  by_cases hfd : fd' = fd
  · exact hfd ▸ hhere
  · have hsame := h fd'
    simp only [PartialMap.contains] at hsame ⊢
    rw [hinterest fd' hfd, hactions fd' .input hfd, hactions fd' .output hfd]
    exact hsame

/-! ### The operations -/

theorem registerAction_interest {fd : Fd} {dir : IoDirection} {callback : Callback}
    {afd : Option Keep} {ok : Bool} {token : CancellationToken} {loop' : EpollLoop Callback Keep}
    (h : loop.registerAction fd dir callback afd ok = some (token, loop')) :
    loop'.interest = loop.interest.set fd
      ((if loop.fdToCallback.contains ⟨fd, dir.opposite⟩ then IoDirection.input.events |||
        IoDirection.output.events
        else dir.events) ||| epollHup ||| epollErr) := by
  unfold registerAction at h
  split at h
  · exact absurd h (by simp)
  · dsimp only at h
    split at h
    · exact absurd h (by simp)
    · rename_i loop₁ hctl
      obtain ⟨-, rfl⟩ := Prod.mk.inj (Option.some.inj h)
      obtain ⟨interest, hset, rfl⟩ := Option.map_eq_some_iff.mp hctl
      dsimp only
      unfold epollCtl at hset
      split at hset
      · exact absurd hset (by simp)
      · by_cases hother : loop.fdToCallback.contains ⟨fd, dir.opposite⟩ = true
        · simp only [if_pos hother] at hset ⊢
          split at hset
          · exact (Option.some.inj hset).symm
          · exact absurd hset (by simp)
        · simp only [if_neg hother] at hset ⊢
          split at hset
          · exact absurd hset (by simp)
          · exact (Option.some.inj hset).symm

theorem Mirrors.registerAction (h : loop.Mirrors) {fd : Fd} {dir : IoDirection}
    {callback : Callback} {afd : Option Keep} {ok : Bool} {token : CancellationToken}
    {loop' : EpollLoop Callback Keep}
    (hregister : loop.registerAction fd dir callback afd ok = some (token, loop')) :
    loop'.Mirrors := by
  obtain ⟨hslot, -, hactions, -⟩ := registerAction_eq_some hregister
  have hinterest := registerAction_interest hregister
  refine h.change fd (fun fd' hne => ?_) (fun fd' dir' hne => ?_) ?_
  · rw [hinterest, PartialMap.set_of_ne _ hne]
  · rw [hactions, PartialMap.set_of_ne _ (by simp [hne])]
  · have hother :
        loop'.fdToCallback.contains ⟨fd, dir.opposite⟩
          = loop.fdToCallback.contains ⟨fd, dir.opposite⟩ := by
      rw [hactions, PartialMap.contains_set_of_ne _ (by simp)]
    rw [hinterest, PartialMap.set_self, ← hother]
    exact watched_added (fun dir => loop'.fdToCallback.contains ⟨fd, dir⟩) (by rw [hactions]; simp)

theorem Mirrors.registerAction_expected (h : loop.Mirrors) {fd : Fd} {dir : IoDirection}
    (hslot : loop.fdToCallback ⟨fd, dir⟩ = none) :
    ¬ loop.Unexpected fd
      (if loop.fdToCallback.contains ⟨fd, dir.opposite⟩ then .mod else .add) := by
  have hknown := h.known fd dir
  rw [hslot] at hknown
  cases hother : loop.fdToCallback.contains ⟨fd, dir.opposite⟩ with
  | true =>
      rw [PartialMap.contains_eq_true] at hother
      exact hknown.mpr (.inr hother)
  | false =>
      rw [PartialMap.contains_eq_false] at hother
      simpa [Unexpected, hother] using hknown

/-- The command after an action has been removed is the one the kernel expects. -/
theorem Mirrors.deregisterAction_expected (h : loop.Mirrors) {key : FdDirection}
    (hslot : loop.fdToCallback key ≠ none) :
    ¬ loop.Unexpected key.fd
      (if loop.fdToCallback.contains ⟨key.fd, key.direction.opposite⟩ then .mod else .del) := by
  have hknown : loop.interest key.fd ≠ none := (h.known key.fd key.direction).mpr (.inl hslot)
  split
  · exact hknown
  · exact hknown

theorem deregisterAction_mask {token : CancellationToken} {key : FdDirection}
    (htoken : loop.cancelMap token = some key) (hslot : loop.fdToCallback key ≠ none)
    (hknown : loop.interest key.fd ≠ none) :
    (loop.deregisterAction token true).2.fdToCallback = loop.fdToCallback.erase key ∧
      (loop.deregisterAction token true).2.interest =
        if loop.fdToCallback.contains ⟨key.fd, key.direction.opposite⟩ then
          loop.interest.set key.fd key.direction.opposite.events
        else loop.interest.erase key.fd := by
  obtain ⟨keeper, hkeeper⟩ := Option.ne_none_iff_exists'.mp hslot
  have hne : (⟨key.fd, key.direction.opposite⟩ : FdDirection) ≠ key := fun heq =>
    IoDirection.opposite_ne key.direction (congrArg FdDirection.direction heq)
  have hcontains : loop.interest.contains key.fd = true := PartialMap.contains_eq_true.mpr hknown
  cases hother :
    loop.fdToCallback.contains ⟨key.fd, key.direction.opposite⟩ <;>
      simp [deregisterAction, htoken, hkeeper, utilizeCallback,
        PartialMap.contains_erase_of_ne _ hne, hother, ctl, epollCtl, hcontains]

theorem Mirrors.deregisterAction (h : loop.Mirrors) {token : CancellationToken} {key : FdDirection}
    (htoken : loop.cancelMap token = some key) (hslot : loop.fdToCallback key ≠ none) :
    (loop.deregisterAction token true).2.Mirrors := by
  have hknown : loop.interest key.fd ≠ none := (h.known key.fd key.direction).mpr (.inl hslot)
  obtain ⟨hactions, hinterest⟩ := deregisterAction_mask htoken hslot hknown
  refine h.change key.fd (fun fd' hne => ?_) (fun fd' dir' hne => ?_) ?_
  · rw [hinterest]
    split
    · exact PartialMap.set_of_ne _ hne _
    · exact PartialMap.erase_of_ne _ hne
  · rw [hactions]
    exact PartialMap.erase_of_ne _ fun heq => hne (congrArg FdDirection.fd heq)
  · have hother :
        (loop.deregisterAction token true).2.fdToCallback.contains ⟨key.fd, key.direction.opposite⟩
          = loop.fdToCallback.contains ⟨key.fd, key.direction.opposite⟩ := by
      rw [hactions, PartialMap.contains_erase_of_ne]
      exact fun heq => IoDirection.opposite_ne key.direction (congrArg FdDirection.direction heq)
    rw [hinterest, ← hother,
      ← watched_removed
        (fun dir => (loop.deregisterAction token true).2.fdToCallback.contains ⟨key.fd, dir⟩)
        key.direction (by rw [hactions]; simp)]
    split
    · rw [PartialMap.set_self, Option.map_some]
    · rw [PartialMap.erase_self, Option.map_none]

/-- `DeregisterFd` takes out the descriptor with its actions. -/
theorem Mirrors.deregisterFd_interest (h : loop.Mirrors) (fd : Fd) :
    (loop.deregisterFd fd true).interest = loop.interest.erase fd := by
  have hknown := h.known fd .input
  have hne : (⟨fd, .output⟩ : FdDirection) ≠ ⟨fd, .input⟩ := by simp
  cases hin : loop.fdToCallback ⟨fd, .input⟩ <;> cases hout : loop.fdToCallback ⟨fd, .output⟩
  · have hunknown : loop.interest fd = none := by
      simpa [hin, hout, IoDirection.opposite] using hknown
    simp [EpollLoop.deregisterFd, dropAction, hin, hout, PartialMap.erase_of_none _ hunknown]
  all_goals
    have hcontains : loop.interest.contains fd = true :=
      PartialMap.contains_eq_true.mpr (hknown.mpr (by simp [hin, hout, IoDirection.opposite]))
    simp [EpollLoop.deregisterFd, dropAction, utilizeCallback, hin, hout,
      PartialMap.erase_of_ne _ hne, ctl, epollCtl, hcontains]

theorem Mirrors.deregisterFd (h : loop.Mirrors) (fd : Fd) :
    (loop.deregisterFd fd true).Mirrors := by
  obtain ⟨hactions, -⟩ := deregisterFd_tables loop fd true
  have hinterest := h.deregisterFd_interest fd
  refine h.change fd (fun fd' hne => ?_) (fun fd' dir' hne => ?_) ?_
  · rw [hinterest, PartialMap.erase_of_ne _ hne]
  · rw [hactions, PartialMap.erase_of_ne _ (by simp [hne]),
      PartialMap.erase_of_ne _ (by simp [hne])]
  · rw [hinterest, hactions, PartialMap.erase_self, PartialMap.contains_erase_self,
      PartialMap.contains_erase_of_ne _ (by simp), PartialMap.contains_erase_self]
    rfl

theorem Mirrors.replaceAction (h : loop.Mirrors) (token : CancellationToken) (callback : Callback) :
    (loop.replaceAction token callback).2.Mirrors := by
  rcases replaceAction_cases loop token
      callback with ⟨hsame, -⟩ | ⟨key, keeper, -, hslot, hreplaced⟩
  · rw [hsame]
    exact h
  · have hcontains : ∀ key',
        (loop.fdToCallback.set key { keeper with callback := callback }).contains key'
          = loop.fdToCallback.contains key' := by
      intro key'
      by_cases hkey : key' = key
      · rw [hkey, PartialMap.contains_set_self, eq_comm, PartialMap.contains_eq_true, hslot]
        simp
      · exact PartialMap.contains_set_of_ne _ hkey _
    rw [hreplaced]
    rw [mirrors_iff] at h ⊢
    intro fd
    simp only [hcontains]
    exact h fd

theorem Mirrors.expected (h : loop.Mirrors) (call : LoopCall Callback Keep)
    {command : Fd × EpollCmd} (hcommand : command ∈ loop.ctlCall call) :
    ¬ loop.Unexpected command.1 command.2 := by
  cases call with
  | registerAction fd dir callback afd ok =>
      rw [ctlCall] at hcommand
      split at hcommand
      · exact absurd hcommand (by simp)
      · rename_i hslot
        obtain rfl := Option.some.inj hcommand
        exact h.registerAction_expected (by simpa using hslot)
  | replaceAction token callback => exact absurd hcommand (by simp [ctlCall])
  | deregisterAction token ok =>
      obtain ⟨key, -, hkey⟩ := Option.bind_eq_some_iff.mp hcommand
      split at hkey
      · rename_i hslot
        obtain rfl := Option.some.inj hkey
        exact h.deregisterAction_expected (PartialMap.contains_eq_true.mp hslot)
      · exact absurd hkey (by simp)
  | deregisterFd fd ok =>
      rw [ctlCall] at hcommand
      split at hcommand
      · rename_i hslot
        obtain rfl := Option.some.inj hcommand
        rw [Bool.or_eq_true, PartialMap.contains_eq_true, PartialMap.contains_eq_true] at hslot
        exact (h.known fd .input).mpr hslot
      · exact absurd hcommand (by simp)

/-! ### The commands are those of the code -/

/-- `epoll_ctl` refuses an unexpected command, and without another reason no other. -/
theorem unexpected_iff (loop : EpollLoop Callback Keep) (fd : Fd) (cmd : EpollCmd)
    (ev : EpollEvents) : loop.Unexpected fd cmd ↔ epollCtl loop.interest fd cmd ev true = none := by
  cases cmd <;> cases hknown :
    loop.interest fd <;> simp [Unexpected, epollCtl, PartialMap.contains, hknown]

/-- A call changes the interest set by its command, and only if the kernel accepts it. -/
theorem call_interest (loop : EpollLoop Callback Keep) (call : LoopCall Callback Keep) :
    (loop.call call).interest = loop.interest ∨
      ∃ command ev ok, loop.ctlCall call = some command ∧
        epollCtl loop.interest command.1 command.2 ev ok = some (loop.call call).interest := by
  have hctl : ∀ {loop₁ loop₂ : EpollLoop Callback Keep} {fd cmd ev ok},
      loop₁.interest = loop.interest → loop₁.ctl fd cmd ev ok = some loop₂ →
      epollCtl loop.interest fd cmd ev ok = some loop₂.interest := by
    intro loop₁ loop₂ fd cmd ev ok hsame h
    obtain ⟨interest, hset, rfl⟩ := Option.map_eq_some_iff.mp h
    rw [← hsame, hset]
  cases call with
  | registerAction fd dir callback afd ok =>
      cases hregister : loop.registerAction fd dir callback afd ok with
      | none => exact .inl (by rw [EpollLoop.call, hregister]; rfl)
      | some result =>
          refine .inr ?_
          simp only [EpollLoop.registerAction] at hregister
          split at hregister
          · exact absurd hregister (by simp)
          · rename_i hslot
            split at hregister
            · exact absurd hregister (by simp)
            · rename_i loop₁ hset
              have hinterest :
                  (loop.call (.registerAction fd dir callback afd ok)).interest
                    = loop₁.interest := by
                simp only [EpollLoop.call, EpollLoop.registerAction, if_neg hslot, hset,
                  Option.map_some, Option.getD_some]
              exact ⟨_, _, _, if_neg hslot, (hctl rfl hset).trans (congrArg some hinterest.symm)⟩
  | replaceAction token callback =>
      rcases replaceAction_cases loop token
          callback with ⟨hsame, -⟩ | ⟨key, keeper, -, -, hreplaced⟩
      · exact .inl (by rw [EpollLoop.call, hsame])
      · exact .inl (by rw [EpollLoop.call, hreplaced])
  | deregisterAction token ok =>
      cases htoken : loop.cancelMap token with
      | none => exact .inl (by simp only [EpollLoop.call, EpollLoop.deregisterAction, htoken])
      | some key =>
          cases hslot : loop.fdToCallback key with
          | none =>
              exact .inl (by simp only [EpollLoop.call, EpollLoop.deregisterAction, htoken, hslot])
          | some keeper =>
              have hne : (⟨key.fd, key.direction.opposite⟩ : FdDirection) ≠ key := fun heq =>
                IoDirection.opposite_ne key.direction (congrArg FdDirection.direction heq)
              simp only [EpollLoop.call, EpollLoop.deregisterAction, htoken, hslot, utilizeCallback,
                PartialMap.contains_erase_of_ne _ hne]
              split
              · exact .inl rfl
              · rename_i loop₁ hset
                have haccepted := hctl (by rfl) hset
                have hregistered : loop.fdToCallback.contains key = true :=
                  PartialMap.contains_eq_true.mpr (by simp [hslot])
                have hcommand : loop.ctlCall (.deregisterAction token ok) = some (key.fd,
                    if loop.fdToCallback.contains ⟨key.fd, key.direction.opposite⟩ then .mod
                    else .del) := by
                  rw [ctlCall, htoken, Option.bind_some, if_pos hregistered]
                exact .inr ⟨_, _, _, hcommand, haccepted⟩
  | deregisterFd fd ok =>
      have hdrop : ∀ (l : EpollLoop Callback Keep) key, (l.dropAction key).2.interest = l.interest ∧
          (l.dropAction key).1 = l.fdToCallback.contains key := by
        intro l key
        unfold dropAction
        cases hslot : l.fdToCallback key <;> simp [utilizeCallback, PartialMap.contains, hslot]
      have hout : (loop.dropAction ⟨fd, .input⟩).2.fdToCallback.contains ⟨fd, .output⟩ =
          loop.fdToCallback.contains ⟨fd, .output⟩ := by
        rw [(dropAction_snd loop ⟨fd, .input⟩).1, PartialMap.contains_erase_of_ne _ (by simp)]
      have hsame : ((loop.dropAction ⟨fd, .input⟩).2.dropAction ⟨fd, .output⟩).2.interest
          = loop.interest := by
        rw [(hdrop _ _).1, (hdrop _ _).1]
      simp only [EpollLoop.call, EpollLoop.deregisterFd, (hdrop _ _).2, hout]
      split
      · rename_i hgot
        cases hset : ((loop.dropAction ⟨fd, .input⟩).2.dropAction ⟨fd, .output⟩).2.ctl fd
          .del 0 ok with
        | none => exact .inl hsame
        | some loop₁ => exact .inr ⟨_, _, _, if_pos hgot, hctl hsame hset⟩
      · exact .inl hsame

/-! ### Whole histories -/

theorem Mirrors.step (h : loop.Mirrors) {event : InterestEvent Callback Keep}
    {loop' : EpollLoop Callback Keep} (hstep : loop.interestStep event = some loop') :
    loop'.Mirrors := by
  cases event with
  | close fd =>
      simp only [interestStep] at hstep
      split at hstep
      · exact absurd hstep (by simp)
      · rename_i hnone
        obtain rfl := Option.some.inj hstep
        have hunknown : loop.interest fd = none := by
          by_contra hknown
          rw [Bool.or_eq_true, PartialMap.contains_eq_true, PartialMap.contains_eq_true] at hnone
          exact hnone ((h.known fd .input).mp hknown)
        rwa [PartialMap.erase_of_none _ hunknown]
  | call call =>
      cases call with
      | registerAction fd dir callback afd ok =>
          obtain rfl := Option.some.inj hstep
          rw [EpollLoop.call]
          cases hregister : loop.registerAction fd dir callback afd ok with
          | none => exact h
          | some result => exact h.registerAction hregister
      | replaceAction token callback =>
          obtain rfl := Option.some.inj hstep
          exact h.replaceAction token callback
      | deregisterAction token ok =>
          cases ok with
          | false => exact absurd hstep (by simp [interestStep])
          | true =>
              obtain rfl := Option.some.inj hstep
              rw [EpollLoop.call]
              rcases deregisterAction_cases loop token
                  true with ⟨-, heq⟩ | ⟨key, -, -, heq⟩ | ⟨key, keeper, htoken, hslot, -⟩
              · rw [heq]
                exact h
              · rw [heq]
                exact h
              · exact h.deregisterAction htoken (by simp [hslot])
      | deregisterFd fd ok =>
          cases ok with
          | false => exact absurd hstep (by simp [interestStep])
          | true =>
              obtain rfl := Option.some.inj hstep
              exact h.deregisterFd fd

theorem Mirrors.expects (h : loop.Mirrors) (event : InterestEvent Callback Keep) :
    loop.Expected event := by
  cases event with
  | close fd => trivial
  | call call =>
      refine ⟨fun command hcommand => h.expected call hcommand, ?_⟩
      rintro fd dir callback afd ok rfl hrefused
      rw [EpollLoop.call, hrefused, Option.map_none, Option.getD_none]

/-- In every history the kernel's interest set mirrors the registered actions, every command is one
the kernel expects, and a registration that returns false changes nothing. -/
theorem interest_mirrors_actions (events : List (InterestEvent Callback Keep)) :
    interestMachine.Always Mirrors init events ∧ interestMachine.EachStep Expected init events := by
  constructor
  · exact Machine.always_of_invariant (fun _ _ _ h hstep => Mirrors.step h hstep)
      events mirrors_init
  · exact Machine.eachStep_of_invariant (I := Mirrors)
      (fun _ event _ h hstep => ⟨h.step hstep, h.expects event⟩) events mirrors_init

end EpollLoop

end Diplom
