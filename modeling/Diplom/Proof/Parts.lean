import Diplom.Proof.Incarnations

/-!
# Who is at work on a descriptor

What goes on on a descriptor is held together by few hands: one that makes the hello exchange and
fills the tables, or else one that reads and one that sends from the queue. A hand is a section that
is still to be run, or a registered action, or a running callback whose action `DeregisterFd` has
taken away. The steps of the process pass it on, and `tally` counts it.
-/

namespace Diplom

/-- The exchange up to the entry in `activeConns`, the other two entries, reading, and sending from
the queue. -/
inductive Role
  | hello
  | filling
  | reading
  | sending
deriving DecidableEq, Repr

def OnMessage.role : OnMessage → Role
  | .incomingHello => .hello
  | .outgoingAnswer _ => .hello
  | .readMessage => .reading

def OnSent.role : OnSent → Role
  | .helloAnswer _ => .hello
  | .helloNotify _ => .hello
  | .queued _ => .sending

def Closure.role : Closure OnMessage OnSent → Role
  | .recv _ resolve => resolve.role
  | .send _ resolve => resolve.role

theorem Closure.Alike.role {c c' : Closure OnMessage OnSent} (h : c.Alike c') :
    c.role = c'.role := by
  cases h <;> rfl

/-- After the exchange the direction of an operation says what it is for. -/
theorem Closure.role_of_dir {c c' : Closure OnMessage OnSent} (hdir : c.dir = c'.dir)
    (h : c.role ≠ .hello) (h' : c'.role ≠ .hello) : c.role = c'.role := by
  cases c with
  | recv op resolve =>
      cases c' with
      | recv op' resolve' =>
          cases resolve <;> cases resolve' <;>
            first | rfl | exact absurd rfl h | exact absurd rfl h'
      | send op' resolve' => exact absurd hdir (by simp [Closure.dir])
  | send op resolve =>
      cases c' with
      | recv op' resolve' => exact absurd hdir (by simp [Closure.dir])
      | send op' resolve' =>
          cases resolve <;> cases resolve' <;>
            first | rfl | exact absurd rfl h | exact absurd rfl h'

/-- The role of a section, and the descriptor it is played on. -/
def Section.part : Section → Option (Role × Fd)
  | .recvMessage h resolve | .received h resolve _ => some (resolve.role, h.fd)
  | .sendMessage h _ resolve | .sent h resolve _ => some (resolve.role, h.fd)
  | .insertActive h _ => some (.hello, h.fd)
  | .insertConnToFd h _ | .insertQueue h _ => some (.filling, h.fd)
  | .takeFront h | .popFront h => some (.sending, h.fd)
  | _ => none

theorem Section.part_of_handle_none {sec : Section} (h : sec.handle = none) : sec.part = none := by
  cases sec with
  | recvMessage _ _ | received _ _ _ | sendMessage _ _ _ | sent _ _ _ | insertActive _ _
    | insertConnToFd _ _ | insertQueue _ _
    | takeFront _ | popFront _ => exact absurd h (by simp [Section.handle])
  | _ => rfl

theorem Section.handle_of_part {sec : Section} {role : Role} {fd : Fd}
    (h : sec.part = some (role, fd)) : ∃ hd, sec.handle = some hd ∧ hd.fd = fd := by
  cases sec with
  | recvMessage hd _ | received hd _ _ | sendMessage hd _ _ | sent hd _ _ | insertActive hd _
    | insertConnToFd hd _
    | insertQueue hd _ | takeFront hd | popFront hd =>
        exact ⟨hd, rfl, (Prod.mk.inj (Option.some.inj h)).2⟩
  | _ => exact absurd h (by simp [Section.part])

def Section.plays (role : Role) (fd : Fd) (sec : Section) : Bool := sec.part = some (role, fd)

/-- How many sections of a list play a role on a descriptor. -/
def cast (role : Role) (fd : Fd) (secs : List Section) : Nat := secs.countP (Section.plays role fd)

@[simp] theorem cast_nil (role : Role) (fd : Fd) : cast role fd [] = 0 := rfl

theorem cast_append (role : Role) (fd : Fd) (secs secs' : List Section) :
    cast role fd (secs ++ secs') = cast role fd secs + cast role fd secs' := List.countP_append

theorem cast_cons (role : Role) (fd : Fd) (sec : Section) (secs : List Section) :
    cast role fd (sec :: secs) = cast role fd [sec] + cast role fd secs := by
  rw [← List.singleton_append, cast_append]

theorem cast_singleton (role : Role) (fd : Fd) (sec : Section) :
    cast role fd [sec] = if sec.part = some (role, fd) then 1 else 0 := by
  simp [cast, Section.plays, List.countP_cons]

theorem cast_pos {role : Role} {sec : Section} {fd : Fd} (h : sec.part = some (role, fd)) :
    cast role fd [sec] = 1 := by
  rw [cast_singleton, if_pos h]

theorem cast_of_part_none (sec : Section) (h : sec.part = none) (role : Role) (fd : Fd) :
    cast role fd [sec] = 0 := by
  rw [cast_singleton, h, if_neg (by simp)]

theorem cast_of_part (sec : Section) {role' : Role} {fd' : Fd} (h : sec.part = some (role', fd'))
    (role : Role) (fd : Fd) : cast role fd [sec] = if role = role' ∧ fd = fd' then 1 else 0 := by
  rw [cast_singleton, h]
  simp [eq_comm]

theorem cast_at (sec : Section) {role' : Role} {fd : Fd} (h : sec.part = some (role', fd))
    (role : Role) : cast role fd [sec] = if role = role' then 1 else 0 := by
  simp [cast_of_part sec h]

theorem cast_elsewhere (sec : Section) {role' : Role} {fd fd' : Fd}
    (h : sec.part = some (role', fd)) (hne : fd' ≠ fd) (role : Role) : cast role fd' [sec] = 0 := by
  simp [cast_of_part sec h, hne]

theorem cast_le_of_part {sec sec' : Section} (h : sec'.part = none ∨ sec'.part = sec.part)
    (role : Role) (fd : Fd) : cast role fd [sec'] ≤ cast role fd [sec] := by
  rcases h with hnone | hsame
  · rw [cast_of_part_none sec' hnone]
    exact Nat.zero_le _
  · rw [cast_singleton, cast_singleton, hsame]

theorem cast_of_handle_none {secs : List Section} (h : ∀ sec ∈ secs, sec.handle = none)
    (role : Role) (fd : Fd) : cast role fd secs = 0 := by
  apply List.countP_eq_zero.mpr
  intro sec hmem hplays
  have hpart := of_decide_eq_true hplays
  rw [Section.part_of_handle_none (h sec hmem)] at hpart
  exact absurd hpart (by simp)

namespace Process

variable (p : Process)

/-- The closure of a running callback, seen at its place. -/
def runningAt (key : FdDirection) : Option (Closure OnMessage OnSent) :=
  (p.running.filter fun r => r.key = key).map Running.closure

/-- The operation of a place: the registered one, or one that runs without being registered any
more. -/
def closureAt (key : FdDirection) : Option (Closure OnMessage OnSent) :=
  (p.shared.manager.io.actionAt key).or (p.runningAt key)

/-- How often a role is played in a place of the loop. -/
def onStage (role : Role) (key : FdDirection) : Nat :=
  if (p.closureAt key).map Closure.role = some role then 1 else 0

/-- How often a role is played on a descriptor. -/
def tally (role : Role) (fd : Fd) : Nat :=
  cast role fd (p.work .manager) + cast role fd (p.work .eventLoop)
    + (p.onStage role ⟨fd, .input⟩ + p.onStage role ⟨fd, .output⟩)

variable {p} {p' : Process}

theorem runningAt_self {r : Running} (h : p.running = some r) :
    p.runningAt r.key = some r.closure := by
  simp [runningAt, h]

theorem runningAt_none (h : p.running = none) (key : FdDirection) : p.runningAt key = none := by
  simp [runningAt, h]

theorem runningAt_of_ne {r : Running} (h : p.running = some r) {key : FdDirection}
    (hne : key ≠ r.key) : p.runningAt key = none := by
  simp [runningAt, h, Ne.symm hne]

theorem runningAt_outcome {r : Running} {outcome : Option Outcome} (h : p.running = some r)
    (h' : p'.running = some { r with outcome := outcome }) (key : FdDirection) :
    p'.runningAt key = p.runningAt key := by
  by_cases hkey : r.key = key
  · subst hkey
    have hself := runningAt_self h'
    rw [runningAt_self h]
    exact hself
  · rw [runningAt_of_ne h (Ne.symm hkey), runningAt_of_ne h' (Ne.symm hkey)]

theorem tally_setWork (p : Process) {t : ThreadId} {sec : Section} {rest : List Section}
    (hwork : p.work t = sec :: rest) (next : List Section) (role : Role) (fd : Fd) :
    (p.setWork t (next ++ rest)).tally role fd + cast role fd [sec] = p.tally role fd
      + cast role fd next := by
  have hstage : ∀ key, (p.setWork t (next ++ rest)).onStage role key = p.onStage role key :=
    fun _ => rfl
  have hsplit : cast role fd (p.work t) = cast role fd [sec] + cast role fd rest := by
    rw [hwork]
    exact cast_cons role fd sec rest
  have hsame := setWork_self p t (next ++ rest)
  cases t with
  | manager =>
      have hother := setWork_of_ne p (show ThreadId.eventLoop ≠ .manager by decide) (next ++ rest)
      simp only [tally, hsame, hother, hstage, cast_append]
      omega
  | eventLoop =>
      have hother := setWork_of_ne p (show ThreadId.manager ≠ .eventLoop by decide) (next ++ rest)
      simp only [tally, hsame, hother, hstage, cast_append]
      omega

/-! ### Places of the loop -/

/-- A running callback whose place is taken has left its own operation there. -/
def Alike (p : Process) : Prop :=
  ∀ r closure, p.running = some r → p.shared.manager.io.actionAt r.key = some closure →
    closure.Alike r.closure

theorem onStage_congr {key : FdDirection}
    (h : (p'.closureAt key).map Closure.role = (p.closureAt key).map Closure.role) (role : Role) :
    p'.onStage role key = p.onStage role key := by
  rw [onStage, onStage, h]

theorem onStage_of_none {key : FdDirection} (h : p.closureAt key = none) (role : Role) :
    p.onStage role key = 0 := by
  simp [onStage, h]

theorem onStage_of_closureAt {key : FdDirection} {closure : Closure OnMessage OnSent}
    (h : p.closureAt key = some closure) (role : Role) :
    p.onStage role key = if closure.role = role then 1 else 0 := by
  simp [onStage, h]

theorem Alike.onStage (h : p.Alike) {r : Running} (hrunning : p.running = some r) (role : Role) :
    p.onStage role r.key = if r.closure.role = role then 1 else 0 := by
  cases hat : p.shared.manager.io.actionAt r.key with
  | none =>
      apply onStage_of_closureAt
      rw [closureAt, hat, Option.none_or, runningAt_self hrunning]
  | some closure =>
      rw [← (h r closure hrunning hat).role]
      apply onStage_of_closureAt
      rw [closureAt, hat, Option.some_or]

/-- Where an action is taken away, at most what runs there is still at work. -/
theorem Alike.onStage_taken (h : p.Alike) (hrunning : p'.running = p.running) {key : FdDirection}
    (hat : p'.shared.manager.io.actionAt key = p.shared.manager.io.actionAt key ∨
      p'.shared.manager.io.actionAt key = none) (role : Role) :
    p'.onStage role key ≤ p.onStage role key := by
  have hrun : ∀ key, p'.runningAt key = p.runningAt key :=
    fun key => by rw [runningAt, runningAt, hrunning]
  rcases hat with hsame | hnone
  · apply Nat.le_of_eq
    apply onStage_congr
    rw [closureAt, closureAt, hsame, hrun]
  · cases hr : p.runningAt key with
    | none =>
        have hempty : p'.closureAt key = none := by rw [closureAt, hnone, hrun, hr, Option.none_or]
        rw [onStage_of_none hempty]
        exact Nat.zero_le _
    | some closure =>
        obtain ⟨r, hfilter, rfl⟩ := Option.map_eq_some_iff.mp hr
        obtain ⟨hr', hkey⟩ := Option.filter_eq_some_iff.mp hfilter
        obtain rfl := of_decide_eq_true hkey
        have hleft : p'.closureAt r.key = some r.closure := by
          rw [closureAt, hnone, hrun, hr, Option.none_or]
        rw [onStage_of_closureAt hleft, h.onStage hr']

theorem stage_sum (key : FdDirection) (role' role : Role) (fd : Fd) :
    (if (⟨fd, .input⟩ : FdDirection) = key ∧ role' = role then 1 else 0)
      + (if (⟨fd, .output⟩ : FdDirection) = key ∧ role' = role then 1 else 0) = if role = role' ∧
      fd = key.fd then 1 else 0 := by
  obtain ⟨kfd, dir⟩ := key
  by_cases hfd : fd = kfd
  · subst hfd
    cases dir <;> simp [eq_comm]
  · simp [hfd]

theorem onStage_registered (hrunning : p'.running = p.running) {key : FdDirection}
    {closure : Closure OnMessage OnSent}
    (hactions : p'.shared.manager.io.actionAt = p.shared.manager.io.actionAt.set key closure)
    (role : Role) (key' : FdDirection) :
    p'.onStage role key' ≤
      p.onStage role key' + if key' = key ∧ closure.role = role then 1 else 0 := by
  by_cases hkey : key' = key
  · subst hkey
    have hat : p'.closureAt key' = some closure := by
      rw [closureAt, hactions, PartialMap.set_self, Option.some_or]
    rw [onStage_of_closureAt hat]
    split <;> simp_all
  · apply Nat.le_add_right_of_le
    apply Nat.le_of_eq
    apply onStage_congr
    rw [closureAt, closureAt, hactions, PartialMap.set_of_ne _ hkey, runningAt, runningAt, hrunning]

def went (p : Process) (t : ThreadId) (next rest : List Section) (shared : Shared) : Process :=
  { p.setWork t (next ++ rest) with shared := shared }

theorem tally_went (p : Process) {t : ThreadId} {sec : Section} {rest : List Section}
  (hwork : p.work t = sec :: rest) (next : List Section) (shared : Shared) (role : Role) (fd : Fd) :
  (p.went t next rest shared).tally role fd + cast role fd [sec]
    + (p.onStage role ⟨fd, .input⟩ + p.onStage role ⟨fd, .output⟩) = p.tally role fd
    + cast role fd next
    + ((p.went t next rest shared).onStage role ⟨fd, .input⟩ + (p.went t next rest shared).onStage
      role ⟨fd, .output⟩) := by
  have hset := p.tally_setWork hwork next role fd
  have hstage : ∀ key, (p.setWork t (next ++ rest)).onStage role key = p.onStage role key :=
    fun _ => rfl
  simp only [tally, hstage] at hset
  have hwork' : ∀ t', (p.went t next rest shared).work t' = (p.setWork t (next ++ rest)).work t' :=
    fun _ => rfl
  simp only [tally, hwork']
  omega

theorem tally_went_of_same (p : Process) {t : ThreadId} {sec : Section} {rest : List Section}
    (hwork : p.work t = sec :: rest) (next : List Section) (shared : Shared)
    (hactions : shared.manager.io.actionAt = p.shared.manager.io.actionAt) (role : Role) (fd : Fd) :
    (p.went t next rest shared).tally role fd + cast role fd [sec] = p.tally role fd
      + cast role fd next := by
  have hstage : ∀ key, (p.went t next rest shared).onStage role key = p.onStage role key := by
    intro key
    apply onStage_congr
    have hat : (p.went t next rest shared).closureAt key
        = (shared.manager.io.actionAt key).or (p.runningAt key) :=
      rfl
    rw [hat, hactions, closureAt]
  have hwent := p.tally_went hwork next shared role fd
  rw [hstage, hstage] at hwent
  omega

theorem tally_went_of_registered (p : Process) {t : ThreadId} {sec : Section} {rest : List Section}
    (hwork : p.work t = sec :: rest) {shared : Shared} {key : FdDirection}
    {closure : Closure OnMessage OnSent}
    (hactions : shared.manager.io.actionAt = p.shared.manager.io.actionAt.set key closure)
    (hpart : sec.part = some (closure.role, key.fd)) (role : Role) (fd : Fd) :
    (p.went t [] rest shared).tally role fd ≤ p.tally role fd := by
  have hwent := p.tally_went hwork [] shared role fd
  have hrunning : (p.went t [] rest shared).running = p.running := rfl
  have hstage : ∀ dir, (p.went t [] rest shared).onStage role ⟨fd, dir⟩ ≤
      p.onStage role ⟨fd, dir⟩ + if ⟨fd, dir⟩ = key ∧ closure.role = role then 1 else 0 :=
    fun dir => onStage_registered hrunning hactions role ⟨fd, dir⟩
  have hin := hstage .input
  have hout := hstage .output
  have hsum := stage_sum key closure.role role fd
  rw [← cast_of_part sec hpart] at hsum
  rw [cast_nil] at hwent
  omega

theorem Alike.tally_went_of_taken (h : p.Alike) {t : ThreadId} {sec : Section} {rest : List Section}
    (hwork : p.work t = sec :: rest) (next : List Section) (shared : Shared)
    (hactions : ∀ key, shared.manager.io.actionAt key = p.shared.manager.io.actionAt key ∨
      shared.manager.io.actionAt key = none) (role : Role) (fd : Fd) :
    (p.went t next rest shared).tally role fd + cast role fd [sec] ≤ p.tally role fd
      + cast role fd next := by
  have hwent := p.tally_went hwork next shared role fd
  have hrunning : (p.went t next rest shared).running = p.running := rfl
  have hstage : ∀ key, (p.went t next rest shared).onStage role key ≤ p.onStage role key :=
    fun key => h.onStage_taken hrunning (hactions key) role
  have hin := hstage ⟨fd, .input⟩
  have hout := hstage ⟨fd, .output⟩
  omega

end Process

/-! ### One hand for each job -/

/-- What the tallies of a descriptor have to do with its entries. -/
structure PartsAt (hello filling reading sending : Nat) (queue : Option (List Parcel))
    (active : Option Conn) : Prop where
  one : hello + filling ≤ 1
  apart : 1 ≤ hello + filling → reading = 0 ∧ sending = 0 ∧ queue = none
  bare : 1 ≤ hello → active = none
  reader : reading ≤ 1
  single : sending ≤ 1
  idle : queue = some [] → sending = 0

namespace PartsAt

variable {hello filling reading sending hello' filling' reading' sending' : Nat}
  {queue queue' : Option (List Parcel)} {active active' : Option Conn}

/-- Fewer hands, and an entry that stays, goes, or is a queue that still has messages. -/
theorem mono (h : PartsAt hello filling reading sending queue active) (hhello : hello' ≤ hello)
    (hfilling : hello' + filling' ≤ hello + filling) (hreading : reading' ≤ reading)
    (hsending : sending' ≤ sending)
    (hqueue : queue' = queue ∨ queue' = none ∨ queue ≠ none ∧ queue' ≠ some [])
    (hactive : active' = active ∨ active' = none) :
    PartsAt hello' filling' reading' sending' queue' active' := by
  refine ⟨Nat.le_trans hfilling h.one, fun hpos => ?_, fun hpos => ?_,
    Nat.le_trans hreading h.reader, Nat.le_trans hsending h.single, fun hempty => ?_⟩
  · obtain ⟨hr, hs, hq⟩ := h.apart (Nat.le_trans hpos hfilling)
    refine ⟨by omega, by omega, ?_⟩
    rcases hqueue with rfl | rfl | ⟨hsome, -⟩
    · exact hq
    · rfl
    · exact absurd hq hsome
  · rcases hactive with rfl | rfl
    · exact h.bare (Nat.le_trans hpos hhello)
    · rfl
  · rcases hqueue with rfl | rfl | ⟨-, hne⟩
    · have := h.idle hempty
      omega
    · exact absurd hempty (by simp)
    · exact absurd hempty hne

end PartsAt

namespace Process

variable {p p' : Process} {input : Input}

/-- Every descriptor has one hand for each job. -/
structure Parts (p : Process) : Prop where
  at_fd : ∀ fd, PartsAt (p.tally .hello fd) (p.tally .filling fd) (p.tally .reading fd)
    (p.tally .sending fd) (p.shared.manager.sendQueues fd) (p.shared.manager.activeConns fd)
  alike : p.Alike

/-- How many hands are at work on a descriptor before it has its queue. -/
def early (p : Process) (fd : Fd) : Nat := p.tally .hello fd + p.tally .filling fd

theorem init_parts (self : PeerId) (order : ByteOrder) : (init self order).Parts := by
  have hclosure : ∀ key, (init self order).closureAt key = none := fun _ => rfl
  have htally : ∀ role fd, (init self order).tally role fd = 0 := by
    intro role fd
    rw [tally, onStage_of_none (hclosure _), onStage_of_none (hclosure _)]
    rfl
  refine ⟨fun fd => ?_, fun r _ hrunning => absurd hrunning (by simp [init])⟩
  rw [htally, htally, htally, htally]
  exact ⟨by omega, by omega, by omega, by omega, by omega, fun _ => rfl⟩

theorem Parts.of_le (h : p.Parts) (htally : ∀ role fd, p'.tally role fd ≤ p.tally role fd)
    (hqueue : ∀ fd, p'.shared.manager.sendQueues fd = p.shared.manager.sendQueues fd ∨
      p'.shared.manager.sendQueues fd = none ∨ p.shared.manager.sendQueues fd ≠ none ∧
      p'.shared.manager.sendQueues fd ≠ some [])
    (hactive : ∀ fd, p'.shared.manager.activeConns fd = p.shared.manager.activeConns fd ∨
      p'.shared.manager.activeConns fd = none) (halike : p'.Alike) :
    p'.Parts ∧ ∀ fd, p'.early fd ≤ p.early fd := by
  have hearly : ∀ fd, p'.early fd ≤ p.early fd :=
    fun fd => Nat.add_le_add (htally .hello fd) (htally .filling fd)
  refine ⟨⟨fun fd => ?_, halike⟩, hearly⟩
  exact (h.at_fd fd).mono (htally .hello fd) (hearly fd) (htally .reading fd) (htally .sending fd)
    (hqueue fd) (hactive fd)

/-- The operation of a running callback stays alike where actions only go. -/
theorem Parts.alike_of_fewer (h : p.Parts) {t : ThreadId} {next rest : List Section}
    {shared : Shared}
    (hactions : ∀ key, shared.manager.io.actionAt key = p.shared.manager.io.actionAt key ∨
      shared.manager.io.actionAt key = none) : (p.went t next rest shared).Alike := by
  intro r closure hrunning hat
  exact h.alike r closure hrunning (PartialMap.eq_some_of_kept (hactions r.key) hat)

theorem cast_le_tally {t : ThreadId} {sec : Section} (hmem : sec ∈ p.work t) (role : Role)
  (fd : Fd) : cast role fd [sec] + (p.onStage role ⟨fd, .input⟩ + p.onStage role ⟨fd, .output⟩)
  ≤ p.tally role fd := by
  have hle : cast role fd [sec] ≤ cast role fd (p.work t) := by
    obtain ⟨before, after, heq⟩ := List.append_of_mem hmem
    have hcons := cast_cons role fd sec after
    rw [heq, cast_append]
    omega
  unfold tally
  cases t with
  | manager => omega
  | eventLoop => omega

theorem onStage_le (p : Process) (role : Role) (key : FdDirection) :
    p.onStage role key ≤ p.onStage role ⟨key.fd, .input⟩ + p.onStage role ⟨key.fd, .output⟩ := by
  obtain ⟨fd, dir⟩ := key
  cases dir with
  | input => exact Nat.le_add_right _ _
  | output => exact Nat.le_add_left _ _

theorem onStage_le_tally (p : Process) (role : Role) (key : FdDirection) :
    p.onStage role key ≤ p.tally role key.fd := by
  have hplace := p.onStage_le role key
  unfold tally
  omega

theorem tally_pos_of_action {role : Role} {fd : Fd} {dir : IoDirection}
    {closure : Closure OnMessage OnSent}
    (hat : p.shared.manager.io.actionAt ⟨fd, dir⟩ = some closure) (hrole : closure.role = role) :
    1 ≤ p.tally role fd := by
  have hclosure : p.closureAt ⟨fd, dir⟩ = some closure := Option.or_eq_some_iff.mpr (.inl hat)
  have hstage := onStage_of_closureAt hclosure role
  rw [if_pos hrole] at hstage
  exact hstage.symm.trans_le (p.onStage_le_tally role ⟨fd, dir⟩)

theorem Alike.tally_pos (h : p.Alike) {r : Running} (hrunning : p.running = some r) :
    1 ≤ p.tally r.closure.role r.handle.fd := by
  have hstage := h.onStage hrunning r.closure.role
  rw [if_pos rfl] at hstage
  exact hstage.symm.trans_le (p.onStage_le_tally r.closure.role r.key)

/-- A section and an operation are at work on a descriptor at the same time only if one of them
reads and the other one sends. -/
theorem Parts.both (h : p.Parts) {t : ThreadId} {sec : Section} (hmem : sec ∈ p.work t)
    {key : FdDirection} {role role' : Role} (hpart : sec.part = some (role, key.fd))
    (hstage : p.onStage role' key = 1) : role ≠ .hello ∧ role' ≠ .hello ∧ role ≠ role' := by
  have hsec : cast role key.fd [sec] = 1 := cast_pos hpart
  have hplace := p.onStage_le role' key
  have hown := cast_le_tally hmem role key.fd
  have hother := cast_le_tally hmem role' key.fd
  have hparts := h.at_fd key.fd
  have hone := hparts.one
  have hreader := hparts.reader
  have hsingle := hparts.single
  have hapart := hparts.apart
  refine ⟨?_, ?_, ?_⟩
  · rintro rfl
    obtain ⟨hr, hs, -⟩ := hapart (by omega)
    cases role' <;> omega
  · rintro rfl
    obtain ⟨hr, hs, -⟩ := hapart (by omega)
    cases role <;> omega
  · rintro rfl
    cases role <;> omega

/-- Where an action is registered, no other operation runs. -/
theorem Parts.alike_of_registered (h : p.Parts) {t : ThreadId} {sec : Section}
    {rest : List Section} (hwork : p.work t = sec :: rest)
    {key : FdDirection} {closure : Closure OnMessage OnSent} (hdir : closure.dir = key.direction)
    (hpart : sec.part = some (closure.role, key.fd)) {shared : Shared}
    (hactions : shared.manager.io.actionAt = p.shared.manager.io.actionAt.set key closure) :
    (p.went t [] rest shared).Alike := by
  intro r closure' hrunning hat
  have hrunning : p.running = some r := hrunning
  have hat : shared.manager.io.actionAt r.key = some closure' := hat
  rw [hactions] at hat
  have hkey : r.key ≠ key := by
    intro hkey
    have hstage := h.alike.onStage hrunning r.closure.role
    rw [if_pos rfl, hkey] at hstage
    have hmem : sec ∈ p.work t := by simp [hwork]
    obtain ⟨hhello, hhello', hne⟩ := h.both hmem hpart hstage
    have hsame : closure.dir = r.closure.dir := by rw [hdir, ← hkey, Running.key]
    exact hne (Closure.role_of_dir hsame hhello hhello')
  rw [PartialMap.set_of_ne _ hkey] at hat
  exact h.alike r closure' hrunning hat

theorem Parts.went_of_one (h : p.Parts) {t : ThreadId} {next rest : List Section} {shared : Shared}
    (fd : Fd)
    (hself : PartsAt ((p.went t next rest shared).tally .hello fd)
      ((p.went t next rest shared).tally .filling fd)
      ((p.went t next rest shared).tally .reading fd)
      ((p.went t next rest shared).tally .sending fd) (shared.manager.sendQueues fd)
      (shared.manager.activeConns fd)) (hearly : (p.went t next rest shared).early fd ≤ p.early fd)
    (htally : ∀ role fd', fd' ≠ fd → (p.went t next rest shared).tally role fd' = p.tally role fd')
    (hqueue : ∀ fd', fd' ≠ fd → shared.manager.sendQueues fd' = p.shared.manager.sendQueues fd')
    (hactive : ∀ fd', fd' ≠ fd → shared.manager.activeConns fd' = p.shared.manager.activeConns fd')
    (halike : (p.went t next rest shared).Alike) :
    (p.went t next rest shared).Parts ∧ ∀ fd',
      (p.went t next rest shared).early fd' ≤ p.early fd' := by
  refine ⟨⟨fun fd' => ?_, halike⟩, fun fd' => ?_⟩
  all_goals by_cases hfd : fd' = fd
  · rw [hfd]
    exact hself
  · have hold := h.at_fd fd'
    rw [← htally .hello fd' hfd, ← htally .filling fd' hfd, ← htally .reading fd' hfd,
      ← htally .sending fd' hfd, ← hqueue fd' hfd, ← hactive fd' hfd] at hold
    exact hold
  · rw [hfd]
    exact hearly
  · rw [early, early, htally .hello fd' hfd, htally .filling fd' hfd]

end Process

namespace Shared

variable {s s' : Shared} {sec : Section} {next : List Section}

theorem Leads.cast_le (h : s.Leads sec next) (role : Role) (fd : Fd) :
    cast role fd next ≤ cast role fd [sec] := by
  have hpart : ∀ {sec' : Section}, sec'.part = none ∨ sec'.part = sec.part →
      cast role fd [sec'] ≤ cast role fd [sec] :=
    fun h' => cast_le_of_part h' role fd
  have hpair : ∀ {note : Notification} {sec' : Section}, sec'.part = none ∨ sec'.part = sec.part →
      cast role fd [.notify note, sec'] ≤ cast role fd [sec] := by
    intro note sec' h'
    rw [cast_cons, cast_of_part_none _ rfl, Nat.zero_add]
    exact hpart h'
  have hnil : cast role fd [] ≤ cast role fd [sec] := Nat.zero_le _
  cases h with
  | noSession => exact hnil
  | notActive => exact hnil
  | noConnection => exact hnil
  | noQueue _ => exact hnil
  | nothingWaits _ => exact hnil
  | queueGone _ => exact hnil
  | senderInactive _ => exact hnil
  | readerInactive => exact hnil
  | messageRead => exact hpair (.inr rfl)
  | notifyUnsent => exact hpair (.inl rfl)
  | helloTaken => exact hpart (.inr rfl)
  | answerSent => exact hpart (.inr rfl)
  | notifySent => exact hpart (.inr rfl)
  | answerTaken => exact hpart (.inr rfl)
  | queuedSent _ => exact hpart (.inr rfl)
  | _ => exact hpart (.inl rfl)

end Shared

namespace Process

variable {p p' : Process} {input : Input}

private theorem erase_keeps {α : Type} (m : PartialMap Fd α) (fd fd' : Fd) :
    (m.erase fd) fd' = m fd' ∨ (m.erase fd) fd' = none := by
  by_cases hfd : fd' = fd
  · rw [hfd]
    exact .inr (PartialMap.erase_self _ _)
  · exact .inl (PartialMap.erase_of_ne _ hfd)

private theorem set_keeps {queues : PartialMap Fd (List Parcel)} {fd : Fd} {old new : List Parcel}
    (hold : queues fd = some old) (hnew : new ≠ []) (fd' : Fd) :
    (queues.set fd new) fd' = queues fd' ∨ (queues.set fd new) fd' = none ∨ queues fd' ≠ none ∧
      (queues.set fd new) fd' ≠ some [] := by
  by_cases hfd : fd' = fd
  · rw [hfd, PartialMap.set_self, hold]
    exact .inr (.inr ⟨by simp, by simpa using hnew⟩)
  · exact .inl (PartialMap.set_of_ne _ hfd _)

section Cases

variable {t : ThreadId} {rest next : List Section} {shared : Shared} {h : Handle} {conn : Conn}

theorem Parts.tally_of_same (hparts : p.Parts) {sec : Section} (hwork : p.work t = sec :: rest)
    (next : List Section) (shared : Shared)
    (hactions : shared.manager.io.actionAt = p.shared.manager.io.actionAt) :
    (∀ role fd, (p.went t next rest shared).tally role fd + cast role fd [sec] =
      p.tally role fd + cast role fd next) ∧ (p.went t next rest shared).Alike := by
  refine ⟨p.tally_went_of_same hwork next shared hactions, hparts.alike_of_fewer fun key => ?_⟩
  rw [hactions]
  exact .inl rfl

/-- The tables lose entries at most, and so do the roles. -/
theorem Parts.of_fewer (hparts : p.Parts) {sec : Section} (hwork : p.work t = sec :: rest)
    (hcast : ∀ role fd, cast role fd next ≤ cast role fd [sec])
    (hactions : shared.manager.io.actionAt = p.shared.manager.io.actionAt)
    (hqueue : ∀ fd, shared.manager.sendQueues fd = p.shared.manager.sendQueues fd ∨
      shared.manager.sendQueues fd = none ∨ p.shared.manager.sendQueues fd ≠ none ∧
      shared.manager.sendQueues fd ≠ some [])
    (hactive : ∀ fd, shared.manager.activeConns fd = p.shared.manager.activeConns fd ∨
      shared.manager.activeConns fd = none) :
    (p.went t next rest shared).Parts ∧ ∀ fd,
      (p.went t next rest shared).early fd ≤ p.early fd := by
  obtain ⟨htally, halike⟩ := hparts.tally_of_same hwork next shared hactions
  refine hparts.of_le (fun role fd => ?_) hqueue hactive halike
  have hle := hcast role fd
  have heq := htally role fd
  omega

theorem Parts.of_taken (hparts : p.Parts) {sec : Section} (hwork : p.work t = sec :: rest)
    (hcast : ∀ role fd, cast role fd next ≤ cast role fd [sec])
    (hactions : ∀ key, shared.manager.io.actionAt key = p.shared.manager.io.actionAt key ∨
      shared.manager.io.actionAt key = none)
    (hqueue : shared.manager.sendQueues = p.shared.manager.sendQueues)
    (hactive : shared.manager.activeConns = p.shared.manager.activeConns) :
    (p.went t next rest shared).Parts ∧ ∀ fd,
      (p.went t next rest shared).early fd ≤ p.early fd := by
  refine hparts.of_le (fun role fd => ?_) (fun fd => .inl (congrFun hqueue fd))
    (fun fd => .inl (congrFun hactive fd)) (hparts.alike_of_fewer hactions)
  have htaken := hparts.alike.tally_went_of_taken hwork next shared hactions role fd
  have hle := hcast role fd
  omega

theorem Parts.pushes_first (hparts : p.Parts) {parcel : Parcel}
    (hwork : p.work t = .pushBack h parcel :: rest)
    (hqueue : p.shared.manager.sendQueues h.fd = some []) :
    (p.went t [.takeFront h] rest (p.shared.pushed h [] parcel)).Parts ∧ ∀ fd,
      (p.went t [.takeFront h] rest (p.shared.pushed h [] parcel)).early fd ≤ p.early fd := by
  obtain ⟨htally, halike⟩ := hparts.tally_of_same hwork [.takeFront h]
    (p.shared.pushed h [] parcel) rfl
  have hat := hparts.at_fd h.fd
  have hnone : p.tally .hello h.fd + p.tally .filling h.fd = 0 := by
    by_contra hpos
    obtain ⟨-, -, hbare⟩ := hat.apart (by omega)
    exact absurd (hqueue.symm.trans hbare) (by simp)
  have hidle := hat.idle hqueue
  have hself := fun role => htally role h.fd
  simp only [cast_at (.takeFront h) rfl, cast_of_part_none (.pushBack h parcel) rfl,
    Nat.add_zero] at hself
  have hreader := hat.reader
  have hhello := hself .hello
  have hfilling := hself .filling
  have hreading := hself .reading
  have hsending := hself .sending
  simp only [if_true, reduceCtorEq, if_false, Nat.add_zero] at hhello hfilling hreading hsending
  refine hparts.went_of_one h.fd
    ⟨by omega, fun hpos => ?_, fun hpos => ?_, by omega, by omega, fun hqueue' => ?_⟩
    (by rw [early, early]; omega) (fun role fd' hne => ?_)
    (fun fd' hne => PartialMap.set_of_ne _ hne _) (fun _ _ => rfl) halike
  · omega
  · omega
  · exact absurd hqueue' (by simp [Shared.pushed])
  · have heq := htally role fd'
    rw [cast_elsewhere (.takeFront h) rfl hne, cast_of_part_none _ rfl] at heq
    exact heq

theorem Parts.pops_last (hparts : p.Parts) (hwork : p.work t = .popFront h :: rest) :
    (p.went t [] rest (p.shared.setQueue h [])).Parts ∧ ∀ fd,
      (p.went t [] rest (p.shared.setQueue h [])).early fd ≤ p.early fd := by
  obtain ⟨htally, halike⟩ := hparts.tally_of_same hwork []
    (p.shared.setQueue h []) rfl
  have hat := hparts.at_fd h.fd
  have hone := hat.one
  have hreader := hat.reader
  have hsingle := hat.single
  have hself := fun role => htally role h.fd
  simp only [cast_at (.popFront h) rfl, cast_nil] at hself
  have hhello := hself .hello
  have hfilling := hself .filling
  have hreading := hself .reading
  have hsending := hself .sending
  simp only [if_true, reduceCtorEq, if_false] at hhello hfilling hreading hsending
  refine hparts.went_of_one h.fd
    ⟨by omega, fun hpos => ?_, fun hpos => hat.bare (by omega), by omega, by omega,
      fun _ => by omega⟩
    (by rw [early, early]; omega) (fun role fd' hne => ?_)
    (fun fd' hne => PartialMap.set_of_ne _ hne _) (fun _ _ => rfl) halike
  · have happart := (hat.apart (by omega)).2.1
    omega
  · have heq := htally role fd'
    rw [cast_nil, cast_elsewhere _ rfl hne] at heq
    exact heq

theorem Parts.inserts_active (hparts : p.Parts)
    (hwork : p.work t = .insertActive h conn :: rest) :
    (p.went t [.insertConnToFd h conn] rest (p.shared.insertActive h conn)).Parts ∧ ∀ fd,
      (p.went t [.insertConnToFd h conn] rest (p.shared.insertActive h conn)).early fd ≤
        p.early fd := by
  obtain ⟨htally, halike⟩ := hparts.tally_of_same hwork [.insertConnToFd h conn]
    (p.shared.insertActive h conn) rfl
  have hat := hparts.at_fd h.fd
  have hone := hat.one
  have hself := fun role => htally role h.fd
  simp only [cast_at (.insertConnToFd h conn) rfl, cast_at (.insertActive h conn) rfl] at hself
  have hhello := hself .hello
  have hfilling := hself .filling
  have hreading := hself .reading
  have hsending := hself .sending
  simp only [if_true, reduceCtorEq, if_false, Nat.add_zero] at hhello hfilling hreading hsending
  obtain ⟨hreads, hsends, hbare⟩ := hat.apart (by omega)
  refine hparts.went_of_one h.fd
    ⟨by omega, fun _ => ⟨by omega, by omega, hbare⟩, fun hpos => by omega, by omega, by omega,
      fun _ => by omega⟩
    (by rw [early, early]; omega) (fun role fd' hne => ?_) (fun _ _ => rfl)
    (fun fd' hne => PartialMap.insert_of_ne _ hne _) halike
  have heq := htally role fd'
  rw [cast_elsewhere _ rfl hne, cast_elsewhere _ rfl hne] at heq
  exact heq

private theorem cast_opened (role : Role) (fd : Fd) :
    cast role fd (Shared.opened h conn) = cast role fd [.recvMessage h .readMessage] := by
  unfold Shared.opened
  split
  · rw [cast_cons, cast_of_part_none (.notify _) rfl, Nat.add_zero]
  · rw [cast_cons, cast_of_part_none (.notify _) rfl, Nat.zero_add]

theorem Parts.inserts_queue (hparts : p.Parts)
    (hwork : p.work t = .insertQueue h conn :: rest) :
    (p.went t (Shared.opened h conn) rest (p.shared.insertQueue h)).Parts ∧ ∀ fd,
      (p.went t (Shared.opened h conn) rest (p.shared.insertQueue h)).early fd ≤ p.early fd := by
  obtain ⟨htally, halike⟩ := hparts.tally_of_same hwork (Shared.opened h conn)
    (p.shared.insertQueue h) rfl
  have hreader : (Section.recvMessage h .readMessage).part = some (.reading, h.fd) := rfl
  have hat := hparts.at_fd h.fd
  have hone := hat.one
  have hself := fun role => htally role h.fd
  simp only [cast_opened, cast_at _ hreader, cast_at (.insertQueue h conn) rfl] at hself
  have hhello := hself .hello
  have hfilling := hself .filling
  have hreading := hself .reading
  have hsending := hself .sending
  simp only [if_true, reduceCtorEq, if_false, Nat.add_zero] at hhello hfilling hreading hsending
  obtain ⟨hreads, hsends, -⟩ := hat.apart (by omega)
  refine hparts.went_of_one h.fd
    ⟨by omega, fun hpos => by omega, fun hpos => by omega, by omega, by omega, fun _ => by omega⟩
    (by rw [early, early]; omega) (fun role fd' hne => ?_)
    (fun fd' hne => PartialMap.insert_of_ne _ hne _) (fun _ _ => rfl) halike
  have heq := htally role fd'
  rw [cast_opened, cast_elsewhere (.insertQueue h conn) rfl hne,
    cast_elsewhere _ hreader hne] at heq
  exact heq

end Cases

/-- A section that is run where no socket is opened keeps one hand for each job. -/
theorem Parts.run (hwf : p.Wf) (h : p.Parts) {t : ThreadId} {sec : Section}
    {rest next : List Section} {shared : Shared} (hwork : p.work t = sec :: rest)
    (hruns : p.shared.Runs sec shared next) (hsec : ∀ peer, sec ≠ .dial peer) :
    (p.went t next rest shared).Parts ∧ ∀ fd,
      (p.went t next rest shared).early fd ≤ p.early fd := by
  have hpart : ∀ {sec' : Section}, sec'.part = none ∨ sec'.part = sec.part →
      ∀ role fd, cast role fd [sec'] ≤ cast role fd [sec] :=
    fun h' => cast_le_of_part h'
  have hzero : ∀ role fd, cast role fd [] ≤ cast role fd [sec] := fun _ _ => Nat.zero_le _
  have hkeep : ∀ {α : Type} (m : PartialMap Fd α) (fd : Fd), m fd = m fd ∨ m fd = none :=
    fun _ _ => .inl rfl
  have hkept : ∀ fd, p.shared.manager.sendQueues fd = p.shared.manager.sendQueues fd ∨
      p.shared.manager.sendQueues fd = none ∨ p.shared.manager.sendQueues fd ≠ none ∧
      p.shared.manager.sendQueues fd ≠ some [] :=
    fun _ => .inl rfl
  cases hruns with
  | leads hleads => exact h.of_fewer hwork hleads.cast_le rfl hkept (hkeep _)
  | @notify note calls =>
      refine h.of_fewer hwork (fun role fd => ?_) rfl hkept (hkeep _)
      rw [cast_of_handle_none fun _ hmem => Call.handle_none_of_mem hmem]
      exact Nat.zero_le _
  | opens _ _ => exact absurd rfl (hsec _)
  | @deregisterFd hd ok =>
      exact h.of_taken hwork (hpart (.inl rfl))
        (p.shared.manager.io.deregisterFd_taken hd.fd ok) rfl rfl
  | closeFd => exact h.of_fewer hwork (hpart (.inl rfl)) rfl hkept (hkeep _)
  | closeHello => exact h.of_fewer hwork hzero rfl hkept (hkeep _)
  | eraseActive _ => exact h.of_fewer hwork (hpart (.inl rfl)) rfl hkept (erase_keeps _ _)
  | eraseConnToFd => exact h.of_fewer hwork (hpart (.inl rfl)) rfl hkept (hkeep _)
  | eraseQueue =>
      refine h.of_fewer hwork (hpart (.inl rfl)) rfl (fun fd => ?_) (hkeep _)
      rcases erase_keeps p.shared.manager.sendQueues _ fd with hsame | hnone
      · exact .inl hsame
      · exact .inr (.inl hnone)
  | @pushBack hd parcel queue hqueue =>
      by_cases hempty : queue = []
      · subst hempty
        exact h.pushes_first hwork hqueue
      · refine h.of_fewer hwork ?_ rfl (set_keeps hqueue (by simp)) (hkeep _)
        rw [if_neg hempty]
        exact hzero
  | takeFront hqueue =>
      exact h.of_fewer hwork (hpart (.inr rfl)) rfl (set_keeps hqueue (by simp)) (hkeep _)
  | @popFront hd front queue hqueue =>
      by_cases hempty : queue = []
      · subst hempty
        exact h.pops_last hwork
      · refine h.of_fewer hwork ?_ rfl (set_keeps hqueue hempty) (hkeep _)
        rw [if_neg hempty]
        exact hpart (.inr rfl)
  | popEmpty _ => exact h.of_fewer hwork hzero rfl hkept (hkeep _)
  | @recvStarted hd resolve ok io hstart =>
      have hreg := Io.registered_of_recvMessage hwf.io hstart
      have hplays :
          (Section.recvMessage hd resolve).part
            = some ((Closure.recv .start resolve).role, hd.fd) :=
        rfl
      exact h.of_le (p.tally_went_of_registered hwork hreg.actionAt hplays) hkept (hkeep _)
        (h.alike_of_registered hwork rfl hplays hreg.actionAt)
  | recvRefused => exact h.of_fewer hwork (hpart (.inr rfl)) rfl hkept (hkeep _)
  | @sendStarted hd data resolve ok io hstart =>
      have hreg := Io.registered_of_sendMessage hwf.io hstart
      have hplays : (Section.sendMessage hd data resolve).part =
        some ((Closure.send (.start p.shared.manager.io.order data) resolve).role, hd.fd) := rfl
      exact h.of_le (p.tally_went_of_registered hwork hreg.actionAt hplays) hkept (hkeep _)
        (h.alike_of_registered hwork rfl hplays hreg.actionAt)
  | sendRefused => exact h.of_fewer hwork (hpart (.inr rfl)) rfl hkept (hkeep _)
  | sendAborted _ => exact h.of_fewer hwork hzero rfl hkept (hkeep _)
  | insertActive => exact h.inserts_active hwork
  | insertConnToFd => exact h.of_fewer hwork (hpart (.inr rfl)) rfl hkept (hkeep _)
  | insertQueue => exact h.inserts_queue hwork

/-! ### Steps -/

theorem tally_of_part_none (p : Process) {t : ThreadId} {sec : Section} {rest : List Section}
    (hwork : p.work t = sec :: rest) (hpart : sec.part = none) (role : Role) (fd : Fd) :
    (p.setWork t rest).tally role fd = p.tally role fd := by
  have hset := p.tally_setWork hwork [] role fd
  rw [List.nil_append, cast_of_part_none sec hpart, cast_nil] at hset
  exact hset

theorem tally_of_unnamed {fd : Fd} (hfd : ¬ p.Named fd) (role : Role) : p.tally role fd = 0 := by
  have hwork : ∀ t, cast role fd (p.work t) = 0 := by
    intro t
    apply List.countP_eq_zero.mpr
    intro sec hmem hplays
    have hpart := of_decide_eq_true hplays
    cases sec with
    | recvMessage h _ | received h _ _ | sendMessage h _ _ | sent h _ _ | insertActive h _
      | insertConnToFd h _ | insertQueue h _
      | takeFront h | popFront h =>
        obtain ⟨-, rfl⟩ := Prod.mk.inj (Option.some.inj hpart)
        exact hfd (.work hmem rfl)
    | _ => exact absurd hpart (by simp [Section.part])
  have hstage : ∀ dir, p.onStage role ⟨fd, dir⟩ = 0 := by
    intro dir
    apply onStage_of_none
    cases hat : p.closureAt ⟨fd, dir⟩ with
    | none => rfl
    | some closure =>
        rw [closureAt, Option.or_eq_some_iff] at hat
        rcases hat with hreg | ⟨-, hrun⟩
        · exact absurd (Named.action hreg) hfd
        · obtain ⟨r, hfilter, rfl⟩ := Option.map_eq_some_iff.mp hrun
          obtain ⟨hr, hkey⟩ := Option.filter_eq_some_iff.mp hfilter
          have hfd' : r.handle.fd = fd := congrArg FdDirection.fd (of_decide_eq_true hkey)
          exact absurd (hfd' ▸ Named.running hr) hfd
  rw [tally, hwork, hwork, hstage, hstage]

theorem tally_setWork_of_idle (p : Process) {t : ThreadId} (hwork : p.work t = [])
    (next : List Section) (role : Role) (fd : Fd) :
    (p.setWork t next).tally role fd = p.tally role fd + cast role fd next := by
  have hstage : ∀ key, (p.setWork t next).onStage role key = p.onStage role key := fun _ => rfl
  have hsame := setWork_self p t next
  cases t with
  | manager =>
      have hother := setWork_of_ne p (show ThreadId.eventLoop ≠ .manager by decide) next
      simp only [tally, hsame, hother, hstage, hwork, cast_nil]
      omega
  | eventLoop =>
      have hother := setWork_of_ne p (show ThreadId.manager ≠ .eventLoop by decide) next
      simp only [tally, hsame, hother, hstage, hwork, cast_nil]
      omega

theorem Parts.opened (h : p.Parts) {fd : Fd} (hfd : ¬ p.Named fd)
    (htally : ∀ role fd', p'.tally role fd' =
      p.tally role fd' + if role = .hello ∧ fd' = fd then 1 else 0)
    (hqueue : p'.shared.manager.sendQueues = p.shared.manager.sendQueues)
    (hactive : p'.shared.manager.activeConns = p.shared.manager.activeConns) (halike : p'.Alike) :
    p'.Parts ∧ ∀ fd', fd' ≠ fd → p'.early fd' ≤ p.early fd' := by
  refine ⟨⟨fun fd' => ?_, halike⟩, fun fd' hne => ?_⟩
  rotate_left
  · rw [early, early, htally, htally]
    simp [hne]
  rw [hqueue, hactive, htally, htally, htally, htally]
  by_cases heq : fd' = fd
  · subst heq
    have hnone : p.shared.manager.sendQueues fd' = none := by
      by_contra hsome
      obtain ⟨queue, hqueue'⟩ := Option.ne_none_iff_exists'.mp hsome
      exact hfd (.queue hqueue')
    have hbare : p.shared.manager.activeConns fd' = none := by
      by_contra hsome
      obtain ⟨conn, hconn⟩ := Option.ne_none_iff_exists'.mp hsome
      exact hfd (.active hconn)
    simp only [tally_of_unnamed hfd, hnone, hbare, reduceCtorEq, and_true, if_true, if_false]
    exact ⟨by omega, fun _ => ⟨rfl, rfl, rfl⟩, fun _ => rfl, by omega, by omega, fun _ => rfl⟩
  · simp only [heq, and_false, if_false, Nat.add_zero]
    exact h.at_fd fd'

theorem Parts.goOn (h : p.Parts) (hwork : p'.work = p.work)
    (hstage : ∀ role key, p'.onStage role key ≤ p.onStage role key)
    (hqueue : p'.shared.manager.sendQueues = p.shared.manager.sendQueues)
    (hactive : p'.shared.manager.activeConns = p.shared.manager.activeConns) (halike : p'.Alike) :
    p'.Parts ∧ ∀ fd, p'.early fd ≤ p.early fd := by
  refine h.of_le (fun role fd => ?_) (fun fd => .inl (by rw [hqueue]))
    (fun fd => .inl (by rw [hactive])) halike
  have hin := hstage role ⟨fd, .input⟩
  have hout := hstage role ⟨fd, .output⟩
  unfold tally
  rw [hwork]
  omega

theorem alike_of_idle (hrunning : p.running = none) : p.Alike :=
  fun _ _ hr => absurd (hrunning.symm.trans hr) (by simp)

/-- The operation of a running callback, put back in its place or taken from it. -/
theorem Alike.onStage_finished (h : p.Alike) {r : Running} (hrunning : p.running = some r)
    (hrunning' : p'.running = none)
    (hself : ∀ closure, p'.shared.manager.io.actionAt r.key = some closure →
      closure.role = r.closure.role)
    (hother : ∀ key, key ≠ r.key →
      p'.shared.manager.io.actionAt key = p.shared.manager.io.actionAt key) (role : Role)
    (key : FdDirection) : p'.onStage role key ≤ p.onStage role key := by
  by_cases hkey : key = r.key
  · rw [hkey, h.onStage hrunning]
    cases hat : p'.shared.manager.io.actionAt r.key with
    | none =>
        rw [onStage_of_none (by rw [closureAt, hat, Option.none_or, runningAt_none hrunning'])]
        exact Nat.zero_le _
    | some closure =>
        rw [onStage_of_closureAt (by rw [closureAt, hat, Option.some_or]), hself closure hat]
  · apply Nat.le_of_eq
    apply onStage_congr
    rw [closureAt, closureAt, hother key hkey, runningAt_none hrunning',
      runningAt_of_ne hrunning hkey]

theorem Alike.onStage_put (h : p.Alike) {r : Running} (hrunning : p.running = some r)
    (hrunning' : p'.running = none) {next : Closure OnMessage OnSent}
    (hactions : p'.shared.manager.io.actionAt = p.shared.manager.io.actionAt.set r.key next)
    (hnext : next.Alike r.closure) (role : Role) (key : FdDirection) :
    p'.onStage role key = p.onStage role key := by
  by_cases hkey : key = r.key
  · rw [hkey, h.onStage hrunning, ← hnext.role]
    apply onStage_of_closureAt
    rw [closureAt, hactions, PartialMap.set_self, Option.some_or]
  · apply onStage_congr
    rw [closureAt, closureAt, hactions, PartialMap.set_of_ne _ hkey, runningAt_none hrunning',
      runningAt_of_ne hrunning hkey]

theorem Alike.onStage_resolved (h : p.Alike) {r : Running} (hrunning : p.running = some r)
    (hrunning' : p'.running = none)
    (hactions : p'.shared.manager.io.actionAt = p.shared.manager.io.actionAt.erase r.key)
    (role : Role) (key : FdDirection) :
    p'.onStage role key + (if key = r.key ∧ r.closure.role = role then 1 else 0)
      = p.onStage role key := by
  by_cases hkey : key = r.key
  · subst hkey
    rw [h.onStage hrunning,
      onStage_of_none
        (by rw [closureAt, hactions, PartialMap.erase_self, Option.none_or,
          runningAt_none hrunning'])]
    simp
  · rw [if_neg (fun heq => hkey heq.1), Nat.add_zero]
    apply onStage_congr
    rw [closureAt, closureAt, hactions, PartialMap.erase_of_ne _ hkey, runningAt_none hrunning',
      runningAt_of_ne hrunning hkey]

theorem resolves_part {r : Running} {next : Section} (h : r.Resolves next) :
    next.part = some (r.closure.role, r.handle.fd) := by
  unfold Running.Resolves at h
  cases hc : r.closure with
  | recv op resolve =>
      rw [hc] at h
      obtain ⟨_, rfl⟩ := h
      rfl
  | send op resolve =>
      rw [hc] at h
      obtain ⟨_, rfl⟩ := h
      rfl

theorem Alike.tally_resolved (hwf : p.Wf) (h : p.Alike) {r : Running} {next : Section}
    (hrunning : p.running = some r) (houtcome : r.outcome = some (.resolve next)) (ok : Bool)
    (role : Role) (fd : Fd) :
    ({ (p.setIo (p.shared.manager.io.handBack r.afd ok)).setWork .eventLoop [next] with running :=
      none } : Process).tally role fd = p.tally role fd := by
  have hr := hwf.running r hrunning
  have hplays := resolves_part (hr.fits _ houtcome)
  obtain ⟨-, hactions, -⟩ := Io.handBack_handed hwf.io hr.token ok
  have hidle : p.work .eventLoop = [] := hwf.alone (by simp [hrunning])
  let q : Process := { p.setIo (p.shared.manager.io.handBack r.afd ok) with running := none }
  have hstage : ∀ dir,
      q.onStage role ⟨fd, dir⟩ + (if ⟨fd, dir⟩ = r.key ∧ r.closure.role = role then 1 else 0)
        = p.onStage role ⟨fd, dir⟩ :=
    fun dir => h.onStage_resolved hrunning rfl hactions role ⟨fd, dir⟩
  have hin := hstage .input
  have hout := hstage .output
  have hsum := stage_sum r.key r.closure.role role fd
  have hkey : r.key.fd = r.handle.fd := rfl
  rw [hkey] at hsum
  have hset : (q.setWork .eventLoop [next]).tally role fd = q.tally role fd + cast role fd [next] :=
    q.tally_setWork_of_idle hidle [next] role fd
  rw [cast_of_part next hplays] at hset
  have htally : q.tally role fd + (p.onStage role ⟨fd, .input⟩ + p.onStage role ⟨fd, .output⟩) =
      p.tally role fd + (q.onStage role ⟨fd, .input⟩ + q.onStage role ⟨fd, .output⟩) := by
    have hwork : q.work = p.work := rfl
    simp only [tally, hwork]
    omega
  refine hset.trans ?_
  omega

theorem Parts.dial (h : p.Parts) {t : ThreadId} {answer : Answer} {peer : PeerId}
    {rest next : List Section} {shared : Shared} (hok : p.OpensUnnamed (.run t answer))
    (hwork : p.work t = .dial peer :: rest)
    (hrun : p.shared.run answer (.dial peer) = some (shared, next)) :
    (p.went t next rest shared).Parts ∧ ∀ fd, p.opens (.run t answer) ≠ some fd →
      (p.went t next rest shared).early fd ≤ p.early fd := by
  rcases dial_cases hwork hrun with ⟨-, rfl, hnone⟩ | ⟨fd, told, hopens, rfl, htold, rfl⟩
  · have htally : ∀ role fd, (p.went t next rest p.shared).tally role fd ≤ p.tally role fd := by
      intro role fd
      have hsame := p.tally_went_of_same hwork next p.shared rfl role fd
      rw [cast_of_handle_none hnone, cast_of_part_none _ rfl] at hsame
      exact Nat.le_of_eq hsame
    obtain ⟨hparts, hearly⟩ := h.of_le htally (fun _ => .inl rfl) (fun _ => .inl rfl) h.alike
    exact ⟨hparts, fun fd _ => hearly fd⟩
  · rw [hopens]
    have hother : ∀ {P : Fd → Prop}, (∀ fd', fd' ≠ fd → P fd') →
        ∀ fd', some fd ≠ some fd' → P fd' :=
      fun hall fd' hne => hall fd' fun heq => hne (congrArg some heq.symm)
    refine And.imp_right hother (h.opened (hok fd hopens) (fun role fd' => ?_) rfl rfl h.alike)
    have hplays :
        (Section.sendMessage (p.shared.newHandle fd)
          (HelloMsg.make p.shared.manager.self helloNotify).serialize (.helloNotify peer)).part
        = some (.hello, fd) :=
      rfl
    have htally := p.tally_went_of_same hwork (told ++ [.sendMessage (p.shared.newHandle fd)
      (HelloMsg.make p.shared.manager.self helloNotify).serialize (.helloNotify peer)])
      (p.shared.setIo (p.shared.manager.io.openFd fd)) rfl role fd'
    rw [cast_append, cast_of_handle_none htold, cast_of_part_none _ rfl, cast_of_part _ hplays,
      Nat.zero_add] at htally
    exact htally

theorem closureAt_fetched (hwf : p.Wf) {fd : Fd} {dir : IoDirection}
    {closure : Closure OnMessage OnSent} {a : AsyncFd} (hidle : p.Idle .eventLoop)
    (hat : p.shared.manager.io.actionAt ⟨fd, dir⟩ = some closure) (key : FdDirection) :
    ({ p with running := some ⟨⟨fd, p.shared.actionOf ⟨fd, dir⟩⟩, a, closure, none⟩ } :
      Process).closureAt key = p.closureAt key := by
  have hkey : Running.key ⟨⟨fd, p.shared.actionOf ⟨fd, dir⟩⟩, a, closure, none⟩ = ⟨fd, dir⟩ := by
    rw [Running.key, hwf.io.dir_of_actionAt hat]
  rw [closureAt, closureAt, runningAt_none (hidle.2 rfl)]
  by_cases heq : key = ⟨fd, dir⟩
  · rw [heq, hat, Option.some_or, Option.some_or]
  · rw [runningAt_of_ne rfl (hkey ▸ heq)]

/-- A step keeps one hand for each job, and no descriptor but a new one goes back to its exchange.
-/
theorem Parts.passes (hwf : p.Wf) (h : p.Parts) (hok : p.OpensUnnamed input)
    (hstep : Step p input p') :
    p'.Parts ∧ ∀ fd, p.opens input ≠ some fd → p'.early fd ≤ p.early fd := by
  have hall : (p'.Parts ∧ ∀ fd, p'.early fd ≤ p.early fd) →
      p'.Parts ∧ ∀ fd, p.opens input ≠ some fd → p'.early fd ≤ p.early fd :=
    And.imp_right fun hearly fd _ => hearly fd
  cases hstep with
  | lock hwork _ =>
      have htally := fun role fd => Nat.le_of_eq (p.tally_of_part_none hwork rfl role fd)
      exact hall (h.of_le htally (fun _ => .inl rfl) (fun _ => .inl rfl) h.alike)
  | unlock hwork =>
      have htally := fun role fd => Nat.le_of_eq (p.tally_of_part_none hwork rfl role fd)
      exact hall (h.of_le htally (fun _ => .inl rfl) (fun _ => .inl rfl) h.alike)
  | @run t answer sec rest next shared hwork hrun =>
      by_cases hdial : ∃ peer, sec = .dial peer
      · obtain ⟨peer, rfl⟩ := hdial
        exact h.dial hok hwork hrun
      · exact hall (h.run hwf hwork (Shared.run_cases hrun) fun peer heq => hdial ⟨peer, heq⟩)
  | @call t call hidle =>
      refine hall (h.of_le (fun role fd => ?_) (fun _ => .inl rfl) (fun _ => .inl rfl) h.alike)
      rw [p.tally_setWork_of_idle hidle.1,
        cast_of_handle_none fun _ hmem => Call.handle_none hmem, Nat.add_zero]
  | @accept fd hidle hfd =>
      refine And.imp_right
        (fun hearly fd' hne => hearly fd' fun heq => hne (congrArg some heq.symm))
        (h.opened (hok fd rfl) (fun role fd' => ?_) rfl rfl (alike_of_idle (hidle.2 rfl)))
      have hplays :
          (Section.recvMessage (p.shared.newHandle fd) .incomingHello).part = some (.hello, fd) :=
        rfl
      have hset :=
        (p.setIo (p.shared.manager.io.openFd fd)).tally_setWork_of_idle (t := .eventLoop) hidle.1
        [.recvMessage (p.shared.newHandle fd) .incomingHello] role fd'
      rw [cast_of_part _ hplays] at hset
      exact hset
  | openOther _ => exact hall (h.goOn rfl (fun _ _ => Nat.le_refl _) rfl rfl h.alike)
  | closeOther _ => exact hall (h.goOn rfl (fun _ _ => Nat.le_refl _) rfl rfl h.alike)
  | @fetch fd dir closure a hidle hat hobj =>
      have hkey : Running.key ⟨⟨fd, p.shared.actionOf ⟨fd, dir⟩⟩, a, closure, none⟩
          = ⟨fd, dir⟩ := by
        rw [Running.key, hwf.io.dir_of_actionAt hat]
      refine hall (h.goOn rfl (fun role key => Nat.le_of_eq (onStage_congr ?_ role)) rfl rfl
        fun r closure' hr hat' => ?_)
      · rw [closureAt_fetched hwf hidle hat]
      · obtain rfl := Option.some.inj hr
        have hsame := hat.symm.trans (hkey ▸ hat')
        obtain rfl := Option.some.inj hsame
        exact Closure.Alike.refl _
  | @transfer res recv send r hrunning _ =>
      obtain ⟨hloop, -, -⟩ := p.shared.transfer_io r res recv send
      have htables := p.shared.transfer_tables r res recv send
      have hactions := Io.actionAt_of_loop hloop
      refine hall (h.goOn rfl (fun role key => Nat.le_of_eq (onStage_congr ?_ role))
        (by rw [htables]) (by rw [htables]) fun r' closure hr' hat => ?_)
      · rw [closureAt, closureAt, hactions, runningAt_outcome hrunning rfl]
      · obtain rfl := Option.some.inj hr'
        exact h.alike r closure hrunning (hactions ▸ hat)
  | @kept ok r next hrunning houtcome hholds =>
      have hr := hwf.running r hrunning
      have hfits : next.Alike r.closure := hr.fits _ houtcome
      obtain ⟨-, hactions, -⟩ := Io.keep_kept hwf.io hr.fd hfits hholds
      exact hall (h.goOn rfl
        (fun role key => Nat.le_of_eq (h.alike.onStage_put hrunning rfl hactions hfits role key))
        rfl rfl (alike_of_idle rfl))
  | @dropped ok r next hrunning _ hholds =>
      refine hall (h.goOn rfl
        (h.alike.onStage_finished hrunning rfl (fun closure hat => ?_) fun _ _ => rfl) rfl rfl
        (alike_of_idle rfl))
      exact (h.alike r closure hrunning hat).role
  | @replaced ok r next loop hrunning houtcome hreplace =>
      have hr := hwf.running r hrunning
      have hfits : next.Alike r.closure := hr.fits _ houtcome
      obtain ⟨-, -, hactions, -⟩ := Io.replaceAction_replaced hwf.io hr.token hfits hreplace
      exact hall (h.goOn rfl
        (fun role key => Nat.le_of_eq (h.alike.onStage_put hrunning rfl hactions hfits role key))
        rfl rfl (alike_of_idle rfl))
  | @unreplaced ok r next hrunning _ _ =>
      refine hall (h.goOn rfl (fun role key => Nat.le_of_eq (onStage_congr ?_ role)) rfl rfl
        fun r' closure hr' hat => ?_)
      · rw [closureAt, closureAt, runningAt_outcome hrunning rfl]
      · obtain rfl := Option.some.inj hr'
        exact h.alike r closure hrunning hat
  | @resolved ok r next hrunning houtcome =>
      have htally :=
        fun role fd => Nat.le_of_eq (h.alike.tally_resolved hwf hrunning houtcome ok role fd)
      exact hall (h.of_le htally (fun _ => .inl rfl) (fun _ => .inl rfl) (alike_of_idle rfl))
  | aborted _ _ => exact hall (h.goOn rfl (fun _ _ => Nat.le_refl _) rfl rfl h.alike)
  | @destroy token ok hidle _ =>
      have hrunning : (p.setIo (p.shared.manager.io.destroy token ok)).running = p.running := rfl
      exact hall (h.goOn rfl
        (fun role key => h.alike.onStage_taken hrunning
          (p.shared.manager.io.destroy_taken token ok key) role) rfl rfl
        (alike_of_idle (hidle.2 rfl)))

theorem Parts.step (hwf : p.Wf) (h : p.Parts) (hok : p.OpensUnnamed input)
  (hstep : Step p input p') : p'.Parts :=
  (h.passes hwf hok hstep).1

end Process

end Diplom
