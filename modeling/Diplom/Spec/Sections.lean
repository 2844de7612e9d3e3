import Diplom.Transport.Threads

/-!
# What a section can do

Every way through a section, once. `Leads` has the sections that only look at the tables and choose
what follows; `Runs` has all of them. `Proof/Sections.lean` shows that the code does nothing else.
-/

namespace Diplom

namespace Shared

variable (s : Shared)

/-- The sections that leave everything as it is. -/
inductive Leads (s : Shared) : Section → List Section → Prop
  /- a session is opened or closed -/
  | sessionExists {peer : PeerId} :
      Leads s (.checkSession peer) [.notify (.error peer ⟨.sessionExists, .outgoing⟩)]
  | dials {peer : PeerId} : Leads s (.checkSession peer) [.dial peer]
  | undialed {peer : PeerId} {kind : OpenSessionErrorKind} :
      Leads s (.dial peer) [.notify (.error peer ⟨kind, .outgoing⟩)]
  | noSession {conn : Conn} : Leads s (.closeConnDir conn) []
  | closes {conn : Conn} {fd : Fd} (hentry : s.manager.connToFd conn = some fd) :
      Leads s (.closeConnDir conn) [.deregisterFd ⟨fd, s.entryOf conn⟩]
  | notActive {h : Handle} : Leads s (.eraseActive h) []
  /- a message is sent -/
  | noConnection {peer : PeerId} {msg : Message} : Leads s (.lookupFd peer msg) []
  | found {peer : PeerId} {msg : Message} {dir : LinkDirection} {fd : Fd}
      (hentry : s.manager.connToFd (peer, dir) = some fd) :
      Leads s (.lookupFd peer msg) [.pushBack ⟨fd, s.entryOf (peer, dir)⟩ ⟨peer, msg⟩]
  | noQueue {h : Handle} {parcel : Parcel} (hqueue : s.manager.sendQueues h.fd = none) :
      Leads s (.pushBack h parcel) []
  | nothingWaits {h : Handle}
      (hqueue : ∀ queue, s.manager.sendQueues h.fd = some queue → queue = []) :
      Leads s (.takeFront h) []
  | queueGone {h : Handle} (hqueue : s.manager.sendQueues h.fd = none) : Leads s (.popFront h) []
  | senderInactive {h : Handle} {parcel : Parcel} {res : IoResult Unit}
      (hactive : s.manager.activeConns h.fd = none) : Leads s (.sent h (.queued parcel) res) []
  | queuedSent {h : Handle} {parcel : Parcel} {res : IoResult Unit} {conn : Conn}
      (hactive : s.manager.activeConns h.fd = some conn) :
      Leads s (.sent h (.queued parcel) res) [.popFront h]
  /- a message has come -/
  | readerInactive {h : Handle} {res : IoResult Message} : Leads s (.received h .readMessage res) []
  | readFailed {h : Handle} {res : IoResult Message} :
      Leads s (.received h .readMessage res) [.deregisterFd h]
  | messageRead {h : Handle} {conn : Conn} {msg : Message}
      (hactive : s.manager.activeConns h.fd = some conn) :
      Leads s (.received h .readMessage (.ok msg))
        [.notify (.receivedMessage conn.1 msg), .recvMessage h .readMessage]
  /- the hello exchanges -/
  | helloRefused {h : Handle} {res : IoResult Message} :
      Leads s (.received h .incomingHello res) [.closeHello h]
  | helloTaken {h : Handle} {msg : Message} {peer : PeerId} :
      Leads s (.received h .incomingHello (.ok msg))
        [.sendMessage h (HelloMsg.make s.manager.self helloAnswer).serialize (.helloAnswer peer)]
  | answerUnsent {h : Handle} {peer : PeerId} {res : IoResult Unit} :
      Leads s (.sent h (.helloAnswer peer) res) [.closeHello h]
  | answerSent {h : Handle} {peer : PeerId} {u : Unit} :
      Leads s (.sent h (.helloAnswer peer) (.ok u)) [.insertActive h (peer, .incoming)]
  | notifyUnsent {h : Handle} {peer : PeerId} {res : IoResult Unit} :
      Leads s (.sent h (.helloNotify peer) res)
        [.notify (.error peer ⟨.error, .outgoing⟩), .closeHello h]
  | notifySent {h : Handle} {peer : PeerId} {u : Unit} :
      Leads s (.sent h (.helloNotify peer) (.ok u)) [.recvMessage h (.outgoingAnswer peer)]
  | answerRefused {h : Handle} {peer : PeerId} {res : IoResult Message} :
      Leads s (.received h (.outgoingAnswer peer) res) [.closeHello h]
  | answerTaken {h : Handle} {peer : PeerId} {msg : Message} :
      Leads s (.received h (.outgoingAnswer peer) (.ok msg)) [.insertActive h (peer, .outgoing)]

/-- A message has joined a queue. -/
def pushed (h : Handle) (queue : List Parcel) (parcel : Parcel) : Shared :=
  { s with
    manager := { s.manager with
      sendQueues := s.manager.sendQueues.set h.fd (queue ++ [parcel])
      pushed := appendTo s.manager.pushed (s.manager.io.fds h.fd) [parcel] }
    placed := s.placed ++ [(s.queueOf h.fd, parcel)] }

/-- A queue has changed at its front. -/
def setQueue (h : Handle) (queue : List Parcel) : Shared :=
  s.setManager { s.manager with sendQueues := s.manager.sendQueues.set h.fd queue }

/-- What follows an exchange that is through. -/
def opened (h : Handle) (conn : Conn) : List Section :=
  if conn.2 = .outgoing then [.recvMessage h .readMessage, .notify (.sessionOpened conn.1 conn.2)]
  else [.notify (.sessionOpened conn.1 conn.2), .recvMessage h .readMessage]

/-- Every way through a section. -/
inductive Runs (s : Shared) : Section → Shared → List Section → Prop
  | leads {sec : Section} {next : List Section} (h : s.Leads sec next) : Runs s sec s next
  | notify {note : Notification} {calls : List Call} :
      Runs s (.notify note) (s.setManager (s.manager.notify note)) (calls.flatMap Call.sections)
  | opens {peer : PeerId} {fd : Fd} {told : List Section} (hfd : s.manager.Unused fd)
      (htold : told = [] ∨ told = [.notify (.error peer ⟨.error, .outgoing⟩)]) :
      Runs s (.dial peer) (s.setIo (s.manager.io.openFd fd))
        (told ++ [.sendMessage (s.newHandle fd) (HelloMsg.make s.manager.self helloNotify).serialize
          (.helloNotify peer)])
  | deregisterFd {h : Handle} {ok : Bool} :
      Runs s (.deregisterFd h)
        ((s.touch .deregisterFd h (s.socketAt h.fd ++ s.actionSockets h.fd)).setIo
          (s.manager.io.deregisterFd h.fd ok)) [.closeFd h]
  | closeFd {h : Handle} :
      Runs s (.closeFd h) ((s.touch .close h (s.socketAt h.fd)).setIo (s.manager.io.close h.fd))
        [.eraseActive h]
  | closeHello {h : Handle} :
      Runs s (.closeHello h)
        ((s.touch .close h (s.socketAt h.fd)).setIo (s.manager.io.close h.fd)) []
  | eraseActive {h : Handle} {conn : Conn} (hactive : s.manager.activeConns h.fd = some conn) :
      Runs s (.eraseActive h)
        (s.setManager { s.manager with activeConns := s.manager.activeConns.erase h.fd })
        [.eraseConnToFd h conn]
  | eraseConnToFd {h : Handle} {conn : Conn} :
      Runs s (.eraseConnToFd h conn) (s.setManager (s.manager.eraseConnToFd conn))
        [.eraseQueue h conn]
  | eraseQueue {h : Handle} {conn : Conn} :
      Runs s (.eraseQueue h conn) (s.setManager (s.manager.eraseQueue h.fd))
        [.notify (.sessionLost conn.1 conn.2)]
  | pushBack {h : Handle} {parcel : Parcel} {queue : List Parcel}
      (hqueue : s.manager.sendQueues h.fd = some queue) :
      Runs s (.pushBack h parcel) (s.pushed h queue parcel)
        (if queue = [] then [.takeFront h] else [])
  | takeFront {h : Handle} {parcel : Parcel} {rest : List Parcel}
      (hqueue : s.manager.sendQueues h.fd = some (parcel :: rest)) :
      Runs s (.takeFront h) (s.setQueue h (parcel.movedOut :: rest))
        [.sendMessage h parcel.body (.queued parcel)]
  | popFront {h : Handle} {front : Parcel} {rest : List Parcel}
      (hqueue : s.manager.sendQueues h.fd = some (front :: rest)) :
      Runs s (.popFront h) (s.setQueue h rest) (if rest = [] then [] else [.takeFront h])
  | popEmpty {h : Handle} (hqueue : s.manager.sendQueues h.fd = some []) :
      Runs s (.popFront h) (s.setManager s.manager.abort) []
  | recvStarted {h : Handle} {resolve : OnMessage} {ok : Bool} {io : Io OnMessage OnSent}
      (hstart : s.manager.io.recvMessage h.fd resolve ok = some io) :
      Runs s (.recvMessage h resolve)
        (((s.touch .registerAction h (s.socketAt h.fd)).setIo io).claim h .input) []
  | recvRefused {h : Handle} {resolve : OnMessage} :
      Runs s (.recvMessage h resolve) (s.touch .registerAction h (s.socketAt h.fd))
        [.received h resolve (.err .error)]
  | sendStarted {h : Handle} {data : Message} {resolve : OnSent} {ok : Bool}
      {io : Io OnMessage OnSent}
      (hstart : s.manager.io.sendMessage h.fd data resolve ok = .pending io) :
      Runs s (.sendMessage h data resolve)
        ((((s.hand h data resolve).touch .registerAction h (s.socketAt h.fd)).setIo io).claim h
          .output) []
  | sendRefused {h : Handle} {data : Message} {resolve : OnSent} :
      Runs s (.sendMessage h data resolve)
        ((s.hand h data resolve).touch .registerAction h (s.socketAt h.fd))
        [.sent h resolve (.err .error)]
  | sendAborted {h : Handle} {data : Message} {resolve : OnSent} {ok : Bool}
      (haborted : s.manager.io.sendMessage h.fd data resolve ok = .aborted) :
      Runs s (.sendMessage h data resolve) ((s.hand h data resolve).setManager s.manager.abort) []
  | insertActive {h : Handle} {conn : Conn} :
      Runs s (.insertActive h conn) (s.insertActive h conn) [.insertConnToFd h conn]
  | insertConnToFd {h : Handle} {conn : Conn} :
      Runs s (.insertConnToFd h conn) (s.insertConnToFd h conn) [.insertQueue h conn]
  | insertQueue {h : Handle} {conn : Conn} :
      Runs s (.insertQueue h conn) (s.insertQueue h) (opened h conn)

end Shared

end Diplom
