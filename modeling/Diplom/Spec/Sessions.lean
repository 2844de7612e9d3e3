import Diplom.Lib.Brackets
import Diplom.Spec.Sections
import Diplom.Spec.Tables

/-!
# What the manager is told of sessions

Between the first change of the tables and the notification that tells of it, a thread runs several
sections. What it is in the middle of can be read off its stack: a connection that it enters or
takes out, or a message that it reports. `Sessions` is what matters of the process, the tables and
what each thread is in the middle of, and `Turn` how it changes while the two threads keep out of
each other's way.
-/

namespace Diplom

open Brackets

/-- What a notification says about sessions: which one, and whether it has been opened. -/
def Notification.sessionMark : Notification → Option (Conn × Bool)
  | .sessionOpened peer dir => some ((peer, dir), true)
  | .sessionLost peer dir => some ((peer, dir), false)
  | _ => none

/-- Every session is opened and lost in turns, and messages come from peers with an open session. -/
structure WellBracketed (notes : List Notification) : Prop where
  alternates : ∀ conn, Alternates Notification.sessionMark conn notes
  inside : ∀ before peer msg after, notes = before ++ .receivedMessage peer msg :: after →
    ∃ dir, IsOpen Notification.sessionMark (peer, dir) before

/-- What a thread is in the middle of. -/
inductive Doing
  /- the connection is in `activeConns`, and not in `connToFd` yet -/
  | entering (fd : Fd) (conn : Conn)
  | opening (conn : Conn)
  | closing (conn : Conn)
  | reporting (peer : PeerId)
deriving DecidableEq

/-- The connection that is opened or closed. -/
def Doing.conn : Doing → Option Conn
  | .entering _ conn => some conn
  | .opening conn => some conn
  | .closing conn => some conn
  | .reporting _ => none

/-- The connection that will be announced. -/
def Doing.opens : Doing → Option Conn
  | .entering _ conn => some conn
  | .opening conn => some conn
  | _ => none

def Section.doing : Section → Option Doing
  | .insertConnToFd h conn => some (.entering h.fd conn)
  | .insertQueue _ conn => some (.opening conn)
  | .eraseConnToFd _ conn => some (.closing conn)
  | .eraseQueue _ conn => some (.closing conn)
  | .notify (.sessionOpened peer dir) => some (.opening (peer, dir))
  | .notify (.sessionLost peer dir) => some (.closing (peer, dir))
  | .notify (.receivedMessage peer _) => some (.reporting peer)
  | _ => none

def ThreadId.other : ThreadId → ThreadId
  | .manager => .eventLoop
  | .eventLoop => .manager

structure Sessions where
  tables : Tables
  doing : ThreadId → Option Doing

namespace Sessions

variable (v : Sessions)

/-- A connection is in `activeConns`. -/
def Stands (conn : Conn) : Prop := ∃ fd, v.tables.activeConns fd = some conn

/-- A thread is in the middle of something. -/
def Midst (P : Doing → Prop) : Prop := ∃ t d, v.doing t = some d ∧ P d

def Opening (conn : Conn) : Prop := v.Midst (·.opens = some conn)

def Closing (conn : Conn) : Prop := v.Midst (· = .closing conn)

/-- What the manager should take for an open session. -/
def Open (conn : Conn) : Prop := v.Stands conn ∧ ¬ v.Opening conn ∨ v.Closing conn

/-- The other thread neither opens nor closes this connection. -/
def LeftTo (t : ThreadId) (conn : Conn) : Prop := ∀ d ∈ v.doing t.other, d.conn ≠ some conn

instance (t : ThreadId) (conn : Conn) : Decidable (v.LeftTo t conn) := by
  unfold LeftTo
  infer_instance

/-- A thread enters only new connections; and it enters, takes out or looks up a connection only
while the other one is not in the middle of opening or closing it, nor, when it takes one out, of
reporting a message of its peer. -/
def Permits (t : ThreadId) : Section → Prop
  | .insertActive h conn =>
      v.tables.activeConns h.fd = none ∧ v.tables.connToFd conn = none ∧ v.LeftTo t conn
  | .eraseActive h =>
      ∀ conn ∈ v.tables.activeConns h.fd,
        v.LeftTo t conn ∧ v.doing t.other ≠ some (.reporting conn.1)
  | .received h .readMessage (.ok _) => ∀ conn ∈ v.tables.activeConns h.fd, v.LeftTo t conn
  | _ => True

instance (t : ThreadId) (sec : Section) : Decidable (v.Permits t sec) := by
  unfold Permits
  split <;> infer_instance

/-- A thread has gone on. -/
def go (t : ThreadId) (doing : Option Doing) (tables : Tables) : Sessions :=
  ⟨tables, Function.update v.doing t doing⟩

inductive Turn (v : Sessions) : Sessions → Prop
  | aside {n : Notification} (hmark : n.sessionMark = none)
      (hmessage : ∀ peer msg, n ≠ .receivedMessage peer msg) :
      Turn v ⟨v.tables.note n, v.doing⟩
  | entered {t : ThreadId} {fd : Fd} {conn : Conn} (hidle : v.doing t = none)
      (hactive : v.tables.activeConns fd = none) (hconn : v.tables.connToFd conn = none)
      (hleft : v.LeftTo t conn) :
      Turn v (v.go t (some (.entering fd conn))
        ⟨v.tables.activeConns.set fd conn, v.tables.connToFd, v.tables.notes⟩)
  | indexed {t : ThreadId} {fd : Fd} {conn : Conn} (hdoing : v.doing t = some (.entering fd conn)) :
      Turn v (v.go t (some (.opening conn))
        ⟨v.tables.activeConns, v.tables.connToFd.insert conn fd, v.tables.notes⟩)
  | announced {t : ThreadId} {conn : Conn} (hdoing : v.doing t = some (.opening conn)) :
      Turn v (v.go t none (v.tables.note (.sessionOpened conn.1 conn.2)))
  | taken {t : ThreadId} {fd : Fd} {conn : Conn} (hidle : v.doing t = none)
      (hactive : v.tables.activeConns fd = some conn) (hleft : v.LeftTo t conn)
      (hunread : v.doing t.other ≠ some (.reporting conn.1)) :
      Turn v (v.go t (some (.closing conn))
        ⟨v.tables.activeConns.erase fd, v.tables.connToFd, v.tables.notes⟩)
  | unindexed {t : ThreadId} {conn : Conn} (hdoing : v.doing t = some (.closing conn)) :
      Turn v ⟨⟨v.tables.activeConns, v.tables.connToFd.erase conn, v.tables.notes⟩, v.doing⟩
  | lost {t : ThreadId} {conn : Conn} (hdoing : v.doing t = some (.closing conn)) :
      Turn v (v.go t none (v.tables.note (.sessionLost conn.1 conn.2)))
  | looked {t : ThreadId} {fd : Fd} {conn : Conn} (hidle : v.doing t = none)
      (hactive : v.tables.activeConns fd = some conn) (hleft : v.LeftTo t conn) :
      Turn v (v.go t (some (.reporting conn.1)) v.tables)
  | reported {t : ThreadId} {peer : PeerId} {msg : Message}
      (hdoing : v.doing t = some (.reporting peer)) :
      Turn v (v.go t none (v.tables.note (.receivedMessage peer msg)))

end Sessions

def Shared.tables (s : Shared) : Tables :=
  ⟨s.manager.activeConns, s.manager.connToFd, s.manager.notes⟩

namespace Process

variable (p : Process)

def sessions : Sessions := ⟨p.shared.tables, fun t => (p.work t).findSome? Section.doing⟩

/-- The two threads keep out of each other's way, and a thread gets the reader that it starts before
it announces a connection. -/
def TakesTurns : Input → Prop
  | .run t answer =>
      match p.work t with
      | [] => True
      | .recvMessage h .readMessage :: .notify (.sessionOpened _ _) :: _ =>
          (p.shared.manager.io.recvMessage h.fd .readMessage answer.ok).isSome
      | sec :: _ => p.sessions.Permits t sec
  | _ => True

instance : (input : Input) → Decidable (p.TakesTurns input)
  | .run t answer => by
      unfold TakesTurns
      dsimp only
      split <;> infer_instance
  | .call _ _ | .accept _ | .openOther _ | .closeOther _ | .fetch _ _ | .transfer _ _ _ | .finish _
  | .destroy _ _ => .isTrue trivial

end Process

end Diplom
