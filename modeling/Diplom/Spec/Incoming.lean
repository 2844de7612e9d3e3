import Diplom.Transport.ConnManager

/-!
# One incoming hello exchange

An exchange begins with an accepted descriptor and waits for events of this descriptor alone. While
it waits, the manager does other things: it goes on with other connections, sends, opens and closes
sessions, and destroys what is left of earlier operations. `Waits` follows an exchange through all
of this and keeps its own steps apart; `Ends` adds the step in which it ceases to wait, its own or
one of others. `OneEnd` is what is promised of it.
-/

namespace Diplom

namespace ConnectionManager

/-- An operation of an incoming exchange is registered. -/
def Exchanging (w : ConnectionManager) (fd : Fd) : Prop :=
  (∃ op, w.io.recvAt fd = some (op, .incomingHello)) ∨ ∃ op peer,
  w.io.sendAt fd = some (op, .helloAnswer peer)

/-- The events of a descriptor. -/
def Event.Concerns (fd : Fd) : Event → Prop
  | .accept fd' _ | .readable fd' _ _ _ | .writable fd' _ _ _ => fd' = fd
  | _ => False

/-- A step, with what was there before and after. -/
structure ExchangeStep where
  before : ConnectionManager
  event : Event
  after : ConnectionManager

/-- The exchange that begins when `w₀` accepts `fd` waits, after these steps of its own. -/
inductive Waits (w₀ : ConnectionManager) (fd : Fd) : List ExchangeStep → ConnectionManager → Prop
  | accepted {register : Bool} {w : ConnectionManager}
      (hstep : w₀.step (.accept fd register) = some w) (hwaits : w.Exchanging fd) :
      Waits w₀ fd [⟨w₀, .accept fd register, w⟩] w
  | own {steps : List ExchangeStep} {event : Event} {w w' : ConnectionManager}
      (h : Waits w₀ fd steps w) (hown : event.Concerns fd) (hstep : w.step event = some w')
      (hwaits : w'.Exchanging fd) : Waits w₀ fd (steps ++ [⟨w, event, w'⟩]) w'
  | other {steps : List ExchangeStep} {event : Event} {w w' : ConnectionManager}
      (h : Waits w₀ fd steps w) (hother : ¬ event.Concerns fd) (hstep : w.step event = some w')
      (hwaits : w'.Exchanging fd) : Waits w₀ fd steps w'

/-- The exchange has ended, after these steps of its own, in one more step. -/
inductive Ends (w₀ : ConnectionManager) (fd : Fd) : List ExchangeStep → ExchangeStep → Prop
  | atOnce {register : Bool} {w : ConnectionManager}
      (hstep : w₀.step (.accept fd register) = some w) (hends : ¬ w.Exchanging fd) :
      Ends w₀ fd [] ⟨w₀, .accept fd register, w⟩
  | later {steps : List ExchangeStep} {event : Event} {w w' : ConnectionManager}
      (h : Waits w₀ fd steps w) (hown : event.Concerns fd) (hstep : w.step event = some w')
      (hends : ¬ w'.Exchanging fd) : Ends w₀ fd steps ⟨w, event, w'⟩
  | byOther {steps : List ExchangeStep} {event : Event} {w w' : ConnectionManager}
      (h : Waits w₀ fd steps w) (hother : ¬ event.Concerns fd) (hstep : w.step event = some w')
      (hends : ¬ w'.Exchanging fd) : Ends w₀ fd steps ⟨w, event, w'⟩

namespace ExchangeStep

variable (step : ExchangeStep)

/-- An object that was left over is destroyed, and its token leads to an action of the descriptor.
-/
def Strikes (fd : Fd) : Prop :=
  ∃ token ok dir, step.event = .destroy token ok ∧
    step.before.io.loop.cancelMap token = some ⟨fd, dir⟩

/-- The tables are as before, nobody has been told anything, and nothing has been closed. -/
structure Silent : Prop where
  activeConns : step.after.activeConns = step.before.activeConns
  connToFd : step.after.connToFd = step.before.connToFd
  sendQueues : step.after.sendQueues = step.before.sendQueues
  notes : step.after.notes = step.before.notes
  closes : step.after.io.closes = step.before.io.closes

/-- `RecvMessage` has given this message to the exchange. -/
def Receives (fd : Fd) (msg : Message) : Prop :=
  ∃ res ret answers op, step.event = .readable fd res ret answers ∧
    step.before.io.recvAt fd = some (op, .incomingHello) ∧
    op.event step.before.io.order res ret = .resolved (.ok msg)

/-- Nothing is registered for the descriptor. -/
def Free (w : ConnectionManager) (fd : Fd) : Prop := ∀ dir, w.io.loop.fdToCallback ⟨fd, dir⟩ = none

/-- The descriptor has become a connection: a new entry, the notification, and then `ReadMessage` on
a descriptor that is open, never was closed, and is free. -/
structure Opens (fd : Fd) (sock : Sock) (peer : PeerId) : Prop where
  vacant : step.before.activeConns fd = none
  handed : ∃ w register deregister, step.after = w.readMessage fd register deregister ∧
    w.activeConns = step.before.activeConns.set fd (peer, .incoming) ∧
    w.notes = step.before.notes ++ [.sessionOpened peer .incoming] ∧ w.io.fds fd = some sock ∧
    w.io.closes = step.before.io.closes ∧ sock ∉ w.io.closes.filterMap Prod.snd ∧ Free w fd

/-- The descriptor has been closed, its socket for the only time, and nothing else has happened. -/
structure Closes (fd : Fd) (sock : Sock) : Prop where
  closes : step.after.io.closes = step.before.io.closes ++ [(fd, some sock)]
  once : (step.after.io.closes.filterMap Prod.snd).count sock = 1
  free : Free step.after fd
  activeConns : step.after.activeConns = step.before.activeConns
  connToFd : step.after.connToFd = step.before.connToFd
  sendQueues : step.after.sendQueues = step.before.sendQueues
  notes : step.after.notes = step.before.notes

end ExchangeStep

/-- All steps but the last were silent, and the last has either opened a session, with the peer
whose hello was received, or closed the descriptor. -/
structure OneEnd (w₀ : ConnectionManager) (fd : Fd) (steps : List ExchangeStep)
    (last : ExchangeStep) : Prop where
  silent : ∀ step ∈ steps, step.Silent
  ended : (∃ peer, last.Opens fd w₀.io.nextSock peer ∧ ∃ step ∈ steps, ∃ msg hello,
    step.Receives fd msg ∧ HelloMsg.deserialize msg = some hello ∧ hello.type = helloNotify ∧
    hello.id = peer) ∨ last.Closes fd w₀.io.nextSock
  one : ∀ peer, ¬ (last.Opens fd w₀.io.nextSock peer ∧ last.Closes fd w₀.io.nextSock)

end ConnectionManager

end Diplom
