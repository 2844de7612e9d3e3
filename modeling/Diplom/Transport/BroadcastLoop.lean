import Diplom.Transport.Broadcast

/-!
# The broadcast manager under its event loop

`epoll_wait` fills an array with events, and `Run` handles one after another. So a timer that has
expired waits for its turn while the events before it are handled, and these may be hellos. The
handler of a socket may process any number of hellos: `ReceiveBroadcasts` reads until nothing is
left.

A timer has expired when the kernel says so, again and again, until it is set anew. What it has not
been read for since then makes it readable.
-/

namespace Diplom

/-- An event that concerns the broadcast manager: of a timer of a peer, of a socket that hellos come
from, or of the netlink socket. -/
inductive BatchEvent
  | timer (fd : Fd)
  | socket
  | netlink
deriving DecidableEq

structure BroadcastLoop where
  manager : BroadcastManager
  /-- The timers with an expiry that was not read. `set_timer` discards it. -/
  readable : Fd → Bool
  /-- What is left of the array that `epoll_wait` filled. -/
  batch : List BatchEvent
  /-- The timers that have expired since they were set, and since their peer was heard of. -/
  silent : Fd → Bool
  /-- The timers whose peer was heard of since `epoll_wait` returned, and that have not expired
  after that. -/
  heard : Fd → Bool
  /-- Every peer that was removed by its timer, and whether the timer was silent. -/
  losses : List (PeerId × Bool)

namespace BroadcastLoop

variable (s : BroadcastLoop)

def init (self : PeerId) : BroadcastLoop where
  manager := .init self
  readable := fun _ => false
  batch := []
  silent := fun _ => false
  heard := fun _ => false
  losses := []

inductive Event
  /-- The kernel: a timer expires. -/
  | expire (fd : Fd)
  /-- `epoll_wait` returns. -/
  | poll (events : List BatchEvent)
  /-- `ProcessHello`, called from the handler of the event whose turn it is. -/
  | hello (sender : InAddr) (id : PeerId) (needNotify : Bool)
      (answers : BroadcastManager.TimerAnswers)
  /-- The event whose turn it is, with what `epoll_ctl` and `get_interfaces` answer, or the end of
  its handler. -/
  | next (ok : Bool) (ifs : List String)

/-- The timer that a hello sets: the one of a peer that has one, or a new one. -/
def setsTimer (id : PeerId) (answers : BroadcastManager.TimerAnswers) (fd : Fd) : Bool :=
  let (tfd, _) := s.manager.readTimer id
  decide (id ≠ s.manager.self) && (if tfd ≠ 0 then fd = tfd else fd = answers.timer)

/-- The timers whose peer is heard of with a hello. -/
def isHeard (id : PeerId) (answers : BroadcastManager.TimerAnswers) (fd : Fd) : Bool :=
  s.setsTimer id answers fd
    || (decide (id ≠ s.manager.self) && (s.manager.fdToPeer fd).map Prod.fst = some id)

/-- `ProcessPeerLost`. What `read` returns is not looked at. -/
def processPeerLost (fd : Fd) (ok : Bool) : BroadcastLoop :=
  { s with
    manager := s.manager.processPeerLost fd ok
    readable := fun fd' => s.readable fd' && fd' ≠ fd
    losses := s.losses ++ ((s.manager.fdToPeer fd).map fun entry => (entry.1, s.silent fd)).toList }

/-- `epoll_wait` reports a timer that is watched and readable. -/
def Reports : BatchEvent → Prop
  | .timer fd => s.manager.loop.interest.contains fd = true ∧ s.readable fd = true
  | _ => True

instance (e : BatchEvent) : Decidable (s.Reports e) := by
  cases e <;> unfold Reports <;> infer_instance

def step : Event → Option BroadcastLoop
  | .expire fd =>
      if fd ∈ s.manager.timers then
        some { s with
          readable := fun fd' => s.readable fd' || fd' = fd
          silent := fun fd' => s.silent fd' || fd' = fd
          heard := fun fd' => s.heard fd' && fd' ≠ fd }
      else none
  | .poll events =>
      if s.batch = [] ∧ ∀ e ∈ events, s.Reports e then
        some { s with batch := events, heard := fun _ => false }
      else none
  | .hello sender id needNotify answers =>
      match s.batch with
      | .socket :: _ =>
          (s.manager.step (.hello sender id needNotify answers)).map fun manager =>
            { s with
              manager := manager
              readable := fun fd => s.readable fd && !s.setsTimer id answers fd
              silent := fun fd => s.silent fd && !s.isHeard id answers fd
              heard := fun fd => s.heard fd || s.isHeard id answers fd }
      | _ => none
  | .next ok ifs =>
      match s.batch with
      | [] => none
      | .socket :: rest => some { s with batch := rest }
      | .netlink :: rest =>
        some { s with batch := rest, manager := s.manager.processNetworkUpdate ifs }
      | .timer fd :: rest =>
          -- the lookup in `RunCallback`
          match s.manager.loop.callbackAt fd .input with
          | none => some { s with batch := rest }
          | some tfd => some ({ s with batch := rest }.processPeerLost tfd ok)

def machine : Machine BroadcastLoop Event := ⟨step⟩

/-- Whoever was removed by a timer had not been heard of since the timer expired. -/
def OnlySilentLost : Prop := ∀ loss ∈ s.losses, loss.2 = true

/-- The peer of a timer was not heard of since the timer's event got into the array, unless the
timer has expired once more. -/
def Unheard : BatchEvent → Prop
  | .timer fd => s.manager.fdToPeer fd ≠ none → s.heard fd = false
  | _ => True

/-- No timer gets the descriptor zero; and when it is the turn of a timer's event, its peer has not
been heard of since `epoll_wait` returned, unless the timer has expired once more. -/
def Timely : Event → Prop
  | .hello _ _ _ answers => answers.timer ≠ 0
  | .next _ _ => ∀ e ∈ s.batch.head?, s.Unheard e
  | _ => True

instance (e : BatchEvent) : Decidable (s.Unheard e) := by
  cases e <;> unfold Unheard <;> infer_instance

instance (event : Event) : Decidable (s.Timely event) := by
  cases event <;> unfold Timely <;> infer_instance

end BroadcastLoop

end Diplom
