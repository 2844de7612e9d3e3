import Diplom.Transport.ConnManager

/-!
# One call of `EstablishConnection`

An attempt runs through four callbacks of its own descriptor. `Attempt` follows it from the call to
its end, whatever its steps return: the results of the system calls, of the registrations, and of
the two asynchronous operations, each after any number of events. `OneOutcome` is what is promised
of it.
-/

namespace Diplom

namespace ConnectionManager

/-- The events of a sending operation up to the one that resolves it, when its lambda is called. -/
inductive SendResolves (fd : Fd) (result : IoResult Unit) :
    ConnectionManager → ConnectionManager → Prop
  | now {w : ConnectionManager} (res : EpollResult) (ret : SendReturn) (ok : Bool) {io resolve}
      (h : w.io.sendEvent fd res ret ok = some (.resolved io resolve result)) :
      SendResolves fd result w { w with io := io }
  | later {w w' : ConnectionManager} (res : EpollResult) (ret : SendReturn) (ok : Bool) {io}
      (h : w.io.sendEvent fd res ret ok = some (.pending io))
      (rest : SendResolves fd result { w with io := io } w') : SendResolves fd result w w'

/-- The same for a receiving operation. -/
inductive RecvResolves (fd : Fd) (result : IoResult Message) :
    ConnectionManager → ConnectionManager → Prop
  | now {w : ConnectionManager} (res : EpollResult) (ret : RecvReturn) (ok : Bool) {io resolve}
      (h : w.io.recvEvent fd res ret ok = some (.resolved io resolve result)) :
      RecvResolves fd result w { w with io := io }
  | later {w w' : ConnectionManager} (res : EpollResult) (ret : RecvReturn) (ok : Bool) {io}
      (h : w.io.recvEvent fd res ret ok = some (.pending io))
      (rest : RecvResolves fd result { w with io := io } w') : RecvResolves fd result w w'

/-- How far an attempt came. -/
inductive Course
  /-- There is a session, no address or no socket. -/
  | notDialed
  /-- The sender of the hello was not registered. -/
  | notSending
  | unsent (e : IoError)
  /-- The hello was sent, and the receiver of the answer was not registered. -/
  | notReceiving
  /-- An answer or an error was received; `reader` says whether a reader was registered after it. -/
  | answered (answer : IoResult Message) (reader : Bool)
deriving DecidableEq

/-- `EstablishConnection` comes to a socket. -/
def Dials (w : ConnectionManager) (peer : PeerId) (dial : Dial) (fd : Fd) : Prop :=
  w.connToFd (peer, .outgoing) = none ∧ dial.address = true ∧ dial.socket = some fd

/-- A whole attempt, from the state of the call to the state at its end. -/
inductive Attempt (w : ConnectionManager) (peer : PeerId) (dial : Dial) :
    Course → ConnectionManager → Prop
  | notDialed (h : ∀ fd, ¬ w.Dials peer dial fd) :
      Attempt w peer dial .notDialed (w.establishConnection peer dial)
  | notSending {fd : Fd} (h : w.Dials peer dial fd)
      (hrefused : (w.establishConnection peer dial).io.sendAt fd = none) :
      Attempt w peer dial .notSending (w.establishConnection peer dial)
  | unsent {fd : Fd} {e : IoError} {w₁ : ConnectionManager} (h : w.Dials peer dial fd)
      (hsent : SendResolves fd (.err e) (w.establishConnection peer dial) w₁) (register : Bool) :
      Attempt w peer dial (.unsent e) (w₁.helloNotifySent fd peer (.err e) register)
  | notReceiving {fd : Fd} {w₁ : ConnectionManager} (h : w.Dials peer dial fd)
      (hsent : SendResolves fd (.ok ()) (w.establishConnection peer dial) w₁) (register : Bool)
      (hrefused : w₁.io.recvMessage fd (.outgoingAnswer peer) register = none) :
      Attempt w peer dial .notReceiving (w₁.helloNotifySent fd peer (.ok ()) register)
  | answered {fd : Fd} {answer : IoResult Message} {w₁ w₂ : ConnectionManager}
      (h : w.Dials peer dial fd)
      (hsent : SendResolves fd (.ok ()) (w.establishConnection peer dial) w₁) (register : Bool)
      (hwaits : w₁.io.recvMessage fd (.outgoingAnswer peer) register ≠ none)
      (hanswer : RecvResolves fd answer (w₁.helloNotifySent fd peer (.ok ()) register) w₂)
      (register' deregister : Bool) :
      Attempt w peer dial (.answered answer (w₂.io.recvMessage fd .readMessage register').isSome)
        (w₂.outgoingAnswer fd peer answer register' deregister)

/-- The attempt has given one notification: the session on its descriptor, or an error, with its
descriptor closed once and the tables as they were. -/
def OneOutcome (w : ConnectionManager) (peer : PeerId) (dial : Dial) (w' : ConnectionManager) :
    Prop :=
  (w'.notes = w.notes ++ [.sessionOpened peer .outgoing] ∧ ∃ fd, w.Dials peer dial fd ∧
    w'.activeConns fd = some (peer, .outgoing)) ∨
  ((∃ kind, w'.notes = w.notes ++ [.error peer ⟨kind, .outgoing⟩]) ∧
    ((∀ fd, ¬ w.Dials peer dial fd) ∧ w'.io.closes = w.io.closes ∨
      ∃ fd, w.Dials peer dial fd ∧ w'.io.closes = w.io.closes ++ [(fd, some w.io.nextSock)]) ∧
    w'.activeConns = w.activeConns ∧ w'.connToFd = w.connToFd ∧ w'.sendQueues = w.sendQueues)

/-- The courses on which one notification is given. `connect` failing at once gives one of its own.
-/
def Course.Notifies (peer : PeerId) (dial : Dial) : Course → Prop
  | .notDialed => True
  | .notSending => dial.connect ≠ .failed
  | .unsent _ => dial.connect ≠ .failed
  | .notReceiving => dial.connect = .failed
  | .answered answer reader =>
      if answer = .ok (HelloMsg.make peer helloAnswer).serialize then dial.connect ≠ .failed ∧
        reader = true
      else dial.connect = .failed

instance (peer : PeerId) (dial : Dial) (course : Course) :
    Decidable (course.Notifies peer dial) := by
  cases course <;> unfold Course.Notifies <;> infer_instance

end ConnectionManager

end Diplom
