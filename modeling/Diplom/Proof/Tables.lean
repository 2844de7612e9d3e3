import Diplom.Proof.Refinement
import Diplom.Spec.Tables

/-!
# When the three tables agree

`activeConns` and `connToFd` are filled with `insert`, which keeps an entry that is already there,
and emptied by key. They hold the same pairs exactly as long as no hello exchange is completed for a
connection that `connToFd` knows already. `EstablishConnection` looks for such an entry before it
dials, and the two exchanges do not look again when they come to their end.
-/

namespace Diplom

open ConnectionManager (Event)

/-! ### Moves, seen in the tables -/

namespace Snapshot

variable {s s' : Snapshot} {fd : Fd}

@[simp] theorem tables_note (s : Snapshot) (n : Notification) :
    (s.note n).tables = s.tables.note n := rfl

@[simp] theorem tables_established (s : Snapshot) (fd : Fd) (conn : Conn) :
    (s.established fd conn).tables = s.tables.established fd conn := rfl

@[simp] theorem tables_closeFD (s : Snapshot) (fd : Fd) :
    (s.closeFD fd).tables = s.tables.closeFD fd := by
  cases hactive :
    s.activeConns fd <;>
      simp [Snapshot.closeFD, Tables.closeFD, tables, hactive, Tables.note, Snapshot.note]

@[simp] theorem tables_reader (s : Snapshot) (fd : Fd) (registered : Bool) :
    (s.reader fd registered).tables = s.tables.reader fd registered := by
  cases registered
  · exact tables_closeFD s fd
  · rfl

theorem QueueRun.tables {queue : List Parcel} (h : QueueRun s fd queue s') :
    s'.tables = s.tables := by
  obtain ⟨_, _, _, rfl⟩ := h.eq
  rfl

theorem quiet_notesIf {t : Tables} (h : t.Quiet s.tables) (given : Bool) (peer : PeerId)
    (err : OpenSessionError) : t.Quiet (s.notesIf given (.error peer err)).tables := by
  cases given
  · exact h
  · exact h.failed peer err

theorem quiet_closeConnDir {t : Tables} (h : t.Quiet s.tables) (conn : Conn) :
    t.Quiet (s.closeConnDir conn).tables := by
  unfold closeConnDir
  split
  · exact h
  · exact tables_closeFD s _ ▸ h.closed _

theorem quiet_closeConn {t : Tables} (h : t.Quiet s.tables) (peer : PeerId) (dir : LinkDirection) :
    t.Quiet (s.closeConn peer dir).tables := by
  unfold closeConn
  dsimp only
  split <;> split
  · exact quiet_closeConnDir (quiet_closeConnDir h _) _
  · exact quiet_closeConnDir h _
  · exact quiet_closeConnDir h _
  · exact h

/-- An event that completes a hello exchange enters its connection in the tables. -/
structure Completed (s : Snapshot) (event : Event) (s' : Snapshot) (fd : Fd) (conn : Conn)
    (registered : Bool) : Prop where
  completes : s.completes event = some (fd, conn)
  free : s.activeConns fd = none
  directed : conn.2 ≠ .all
  tables : s'.tables = s.tables.completed fd conn registered

theorem Ok.move_tables (h : s.Ok) {event : Event} (hmove : Move s event s') :
    (s.completes event = none ∧ s.tables.Quiet s'.tables) ∨ ∃ fd conn registered,
      Completed s event s' fd conn registered := by
  have hquiet : s.tables.Quiet s.tables := .refl
  cases hmove with
  | accepted hfree => exact .inl ⟨rfl, hquiet⟩
  | acceptUnwatched hfree => exact .inl ⟨rfl, hquiet⟩
  | @recvGoesOn fd res ret answers op op' resolve hat hevent =>
      refine .inl ⟨?_, hquiet⟩
      cases resolve with
      | outgoingAnswer peer => rcases hevent with hevent | hevent <;> simp [completes, hat, hevent]
      | _ => simp [completes, hat]
  | @recvAborts fd res ret answers op resolve hat hevent =>
      refine .inl ⟨?_, hquiet⟩
      cases resolve with
      | outgoingAnswer peer => simp [completes, hat, hevent]
      | _ => simp [completes, hat]
  | @helloDropped fd res ret answers op resolve result hat hhello hevent hbad =>
      refine .inl ⟨?_, hquiet⟩
      cases resolve with
      | outgoingAnswer peer => simp [completes, hat, hevent, hbad peer rfl]
      | _ => simp [completes, hat]
  | helloAnswered hat hevent => exact .inl ⟨by simp [completes, hat], hquiet⟩
  | @sessionOut fd res ret answers op peer hat hevent registered _ =>
      refine .inr ⟨fd, (peer, .outgoing), registered, by simp [completes, hat, hevent],
        (h.hello_recv hat (by simp)).1, by simp, by simp [Tables.completed]; rfl⟩
  | @messageRead fd res ret answers op conn msg hat hconn hevent registered =>
      refine .inl ⟨by simp [completes, hat], ?_⟩
      have hread : s.tables.Quiet (s.tables.note (.receivedMessage conn.1 msg)) :=
        hquiet.received (show s.tables.activeConns fd = some conn from hconn) msg
      rw [tables_reader, tables_note]
      cases registered
      · exact hread.closed fd
      · exact hread
  | @readFailed fd res ret answers op e hat hevent =>
      refine .inl ⟨by simp [completes, hat], ?_⟩
      rw [tables_closeFD]
      exact hquiet.closed fd
  | @sendGoesOn fd res ret answers op op' resolve hat hevent =>
      refine .inl ⟨?_, hquiet⟩
      cases resolve with
      | helloAnswer peer => rcases hevent with hevent | hevent <;> simp [completes, hat, hevent]
      | _ => simp [completes, hat]
  | @sendAborts fd res ret answers op resolve hat hevent =>
      refine .inl ⟨?_, hquiet⟩
      cases resolve with
      | helloAnswer peer => simp [completes, hat, hevent]
      | _ => simp [completes, hat]
  | answerUnsent hat hevent => exact .inl ⟨by simp [completes, hat, hevent], hquiet⟩
  | @sessionIn fd res ret answers op peer hat hevent registered =>
      refine .inr ⟨fd, (peer, .incoming), registered, by simp [completes, hat, hevent],
        (h.hello_send hat trivial).1, by simp, by simp [Tables.completed]; rfl⟩
  | @notifyUnsent fd res ret answers op peer e hat hevent =>
      exact .inl ⟨by simp [completes, hat], hquiet.failed peer _⟩
  | notifySent hat hevent => exact .inl ⟨by simp [completes, hat], hquiet⟩
  | notifyUnanswered hat hevent => exact .inl ⟨by simp [completes, hat], hquiet⟩
  | queueAdvances hat hqueue hevent hrun =>
      refine .inl ⟨by simp [completes, hat], ?_⟩
      rw [hrun.tables]
      exact hquiet
  | sendNowhere => exact .inl ⟨rfl, hquiet⟩
  | sendQueued hqueue hwaits => exact .inl ⟨rfl, hquiet⟩
  | sendAlone hqueue hrun =>
      refine .inl ⟨rfl, ?_⟩
      rw [hrun.tables]
      exact hquiet
  | @notDialed peer dial kind => exact .inl ⟨rfl, hquiet.failed peer _⟩
  | @dialed peer dial fd hfree early =>
      exact .inl ⟨rfl, quiet_notesIf (s := (s.openFd fd).setSend fd _ _) hquiet early peer _⟩
  | @dialUnwatched peer dial fd hfree early =>
      exact .inl ⟨rfl,
        (quiet_notesIf (s := (s.openFd fd).closeFd fd) hquiet early peer _).failed peer _⟩
  | closed => exact .inl ⟨rfl, quiet_closeConn hquiet _ _⟩
  | destroyed hrecv hsend => exact .inl ⟨rfl, hquiet⟩

end Snapshot

/-! ### Agreement -/

namespace Tables

variable {t t' : Tables} {fd : Fd} {conn : Conn}

/-- The two tables hold the same pairs. -/
def Agree (t : Tables) : Prop := t.activeConns.Inverse t.connToFd

/-- Every connection has one of the two directions. -/
def Directed (t : Tables) : Prop := ∀ fd conn, t.activeConns fd = some conn → conn.2 ≠ .all

@[simp] theorem closeFD_activeConns (t : Tables) (fd : Fd) :
    (t.closeFD fd).activeConns = t.activeConns.erase fd := by
  unfold closeFD
  split
  · rename_i hnone
    exact (PartialMap.erase_of_none _ hnone).symm
  · rfl

theorem Agree.closeFD (h : t.Agree) (fd : Fd) : (t.closeFD fd).Agree := by
  unfold Tables.closeFD
  split
  · exact h
  · rename_i conn hconn
    exact PartialMap.Inverse.erase h hconn

theorem Agree.reader (h : t.Agree) (fd : Fd) (registered : Bool) :
    (t.reader fd registered).Agree := by
  cases registered
  · exact h.closeFD fd
  · exact h

theorem Agree.quiet (h : t.Agree) (hquiet : t.Quiet t') : t'.Agree := by
  induction hquiet with
  | refl => exact h
  | failed _ _ _ ih => exact ih
  | received _ _ _ ih => exact ih
  | closed _ fd ih => exact ih.closeFD fd

theorem Agree.established (h : t.Agree) (hactive : t.activeConns fd = none)
    (hconn : t.connToFd conn = none) : (t.established fd conn).Agree := by
  simp only [Agree, Tables.established, PartialMap.insert_of_none _ hactive,
    PartialMap.insert_of_none _ hconn]
  exact PartialMap.Inverse.set h hactive hconn

theorem Agree.completed (h : t.Agree) (hactive : t.activeConns fd = none)
    (hconn : t.connToFd conn = none) (registered : Bool) :
    (t.completed fd conn registered).Agree := by
  have hestablished := h.established hactive hconn
  unfold Tables.completed
  split
  · exact Agree.reader hestablished fd registered
  · exact Agree.reader (show ((t.established fd conn).note _).Agree from hestablished) fd registered

/-- A second connection of the same peer and direction parts the tables, whether it gets a reader or
not. -/
theorem Agree.not_completed (h : t.Agree) (hactive : t.activeConns fd = none) {fd' : Fd}
    (hconn : t.connToFd conn = some fd') (registered : Bool) :
    ¬ (t.completed fd conn registered).Agree := by
  have hold : t.activeConns fd' = some conn := (h fd' conn).mpr hconn
  have hne : fd' ≠ fd := by
    rintro rfl
    exact absurd (hold.symm.trans hactive) (by simp)
  have hparted : ∀ u : Tables, u.activeConns = t.activeConns.set fd conn → u.connToFd = t.connToFd →
      ¬ (u.reader fd registered).Agree := by
    intro u hu hu' hagree
    cases registered with
    | true =>
        have hnew : u.activeConns fd = some conn := by rw [hu, PartialMap.set_self]
        have hstill : u.activeConns fd' = some conn := by rw [hu, PartialMap.set_of_ne _ hne, hold]
        exact hne (PartialMap.Inverse.unique hagree hstill hnew)
    | false =>
        have hclosed : u.closeFD fd = { u with
            activeConns := u.activeConns.erase fd
            connToFd := u.connToFd.erase conn }.note (.sessionLost conn.1 conn.2) := by
          simp only [Tables.closeFD, hu, PartialMap.set_self]
        have hstill : (u.closeFD fd).activeConns fd' = some conn := by
          rw [closeFD_activeConns, PartialMap.erase_of_ne _ hne, hu,
            PartialMap.set_of_ne _ hne, hold]
        have hgone : (u.closeFD fd).connToFd conn = none := by
          rw [hclosed]
          exact PartialMap.erase_self _ _
        exact absurd ((hagree fd' conn).mp hstill)
          (by rw [show (u.reader fd false) = u.closeFD fd from rfl, hgone]; simp)
  unfold Tables.completed
  split
  · exact hparted (t.established fd conn) (PartialMap.insert_of_none _ hactive _)
      (PartialMap.insert_of_some _ hconn _)
  · exact hparted ((t.established fd conn).note _) (PartialMap.insert_of_none _ hactive _)
      (PartialMap.insert_of_some _ hconn _)

theorem Directed.closeFD (h : t.Directed) (fd : Fd) : (t.closeFD fd).Directed := by
  intro fd' conn hconn
  rw [closeFD_activeConns, PartialMap.erase_eq_some] at hconn
  exact h fd' conn hconn.2

theorem Directed.reader (h : t.Directed) (fd : Fd) (registered : Bool) :
    (t.reader fd registered).Directed := by
  cases registered
  · exact h.closeFD fd
  · exact h

theorem Directed.quiet (h : t.Directed) (hquiet : t.Quiet t') : t'.Directed := by
  induction hquiet with
  | refl => exact h
  | failed _ _ _ ih => exact ih
  | received _ _ _ ih => exact ih
  | closed _ fd ih => exact ih.closeFD fd

theorem Directed.completed (h : t.Directed) (hdir : conn.2 ≠ .all) (fd : Fd) (registered : Bool) :
    (t.completed fd conn registered).Directed := by
  have hestablished : (t.established fd conn).Directed := by
    intro fd' conn' hconn'
    by_cases hnew : t.activeConns fd = none
    · simp only [Tables.established, PartialMap.insert_of_none _ hnew,
        PartialMap.set_apply] at hconn'
      split at hconn'
      · exact Option.some.inj hconn' ▸ hdir
      · exact h fd' conn' hconn'
    · obtain ⟨other, hother⟩ := Option.ne_none_iff_exists'.mp hnew
      simp only [Tables.established, PartialMap.insert_of_some _ hother] at hconn'
      exact h fd' conn' hconn'
  unfold Tables.completed
  split
  · exact Directed.reader hestablished fd registered
  · exact Directed.reader
      (show ((t.established fd conn).note _).Directed from hestablished) fd registered

end Tables

/-! ### Runs -/

namespace ConnectionManager

variable {w w' : ConnectionManager}

/-- What is expected of the tables between steps. -/
structure TablesAgree (w : ConnectionManager) : Prop where
  inverse : ∀ fd conn, w.activeConns fd = some conn ↔ w.connToFd conn = some fd
  queues : ∀ fd, w.sendQueues fd ≠ none ↔ w.activeConns fd ≠ none
  unique : ∀ fd fd' conn, w.activeConns fd = some conn → w.activeConns fd' = some conn → fd = fd'
  closes : ∀ peer ok fd dir, (w.closeConn peer .all ok).activeConns fd ≠ some (peer, dir)

/-- The event completes no hello exchange for a peer and direction that have a connection already.
-/
def NoDuplicate (w : ConnectionManager) (event : Event) : Prop :=
  ∀ session ∈ w.snapshot.completes event, w.connToFd session.2 = none

/-- Sound, and every connection with one of the two directions. -/
structure Orderly (w : ConnectionManager) : Prop where
  sound : w.Sound
  directed : w.snapshot.tables.Directed

theorem init_orderly (self : PeerId) (order : ByteOrder) : (init self order).Orderly :=
  ⟨init_sound self order, fun _ _ h => absurd h (by simp [Snapshot.tables, snapshot, init])⟩

theorem init_agree (self : PeerId) (order : ByteOrder) : (init self order).snapshot.tables.Agree :=
  PartialMap.inverse_empty

theorem Orderly.step (h : w.Orderly) {event : Event} (hstep : w.step event = some w') :
    w'.Orderly := by
  obtain ⟨hsound, hmove⟩ := h.sound.step hstep
  refine ⟨hsound, ?_⟩
  rcases h.sound.ok.move_tables hmove with ⟨_, hquiet⟩ | ⟨fd, conn, registered, hcompleted⟩
  · exact h.directed.quiet hquiet
  · rw [hcompleted.tables]
    exact h.directed.completed hcompleted.directed fd registered

private theorem closeConnDir_gone {s : Snapshot} (hagree : s.tables.Agree) (conn : Conn) (fd : Fd) :
    (s.closeConnDir conn).tables.Agree ∧ (s.closeConnDir conn).activeConns fd ≠ some conn ∧ ∀ conn',
      (s.closeConnDir conn).activeConns fd = some conn' → s.activeConns fd = some conn' := by
  unfold Snapshot.closeConnDir
  split
  · rename_i hnone
    refine ⟨hagree, fun hconn => ?_, fun _ h => h⟩
    exact absurd ((hagree fd conn).mp hconn)
      (by rw [show s.tables.connToFd conn = none from hnone]; simp)
  · rename_i fd' hfd'
    rw [Snapshot.tables_closeFD]
    refine ⟨hagree.closeFD fd', fun hconn => ?_, fun conn' hconn' => ?_⟩
    · rw [Snapshot.closeFD_activeConns, PartialMap.erase_eq_some] at hconn
      exact hconn.1 (PartialMap.Inverse.unique hagree hconn.2 ((hagree fd' conn).mpr hfd'))
    · rw [Snapshot.closeFD_activeConns, PartialMap.erase_eq_some] at hconn'
      exact hconn'.2

theorem Orderly.tablesAgree_iff (h : w.Orderly) : w.TablesAgree ↔ w.snapshot.tables.Agree := by
  refine ⟨fun hagree => hagree.inverse,
    fun hagree => ⟨hagree, fun fd => (h.sound.ok.stage fd).queued, ?_, ?_⟩⟩
  · intro fd fd' conn hfd hfd'
    exact PartialMap.Inverse.unique hagree hfd hfd'
  · intro peer ok fd dir hconn
    have hclosed : (w.closeConn peer .all ok).snapshot = w.snapshot.closeConn peer .all :=
      (Shows.closeConn ⟨h.sound.io, rfl⟩ peer .all ok).eq
    have hconn' : (w.snapshot.closeConn peer .all).activeConns fd = some (peer, dir) := by
      rw [← hclosed]
      exact hconn
    simp only [Snapshot.closeConn, true_or, if_true] at hconn'
    obtain ⟨hagree₁, hin, hkept₁⟩ := closeConnDir_gone hagree (peer, .incoming) fd
    obtain ⟨-, hout, hkept₂⟩ := closeConnDir_gone hagree₁ (peer, .outgoing) fd
    cases dir with
    | incoming => exact hin (hkept₂ _ hconn')
    | outgoing => exact hout hconn'
    | all => exact h.directed fd _ (hkept₁ _ (hkept₂ _ hconn')) rfl

/-- One step keeps the tables in agreement exactly if it completes no exchange for a connection that
exists. -/
theorem Orderly.step_agree (h : w.Orderly) (hagree : w.snapshot.tables.Agree) {event : Event}
    (hstep : w.step event = some w') : w'.snapshot.tables.Agree ↔ w.NoDuplicate event := by
  obtain ⟨-, hmove⟩ := h.sound.step hstep
  rcases h.sound.ok.move_tables hmove with ⟨hcompletes, hquiet⟩ | ⟨fd, conn, registered, hcompleted⟩
  · refine iff_of_true (hagree.quiet hquiet) fun session hsession => ?_
    exact absurd (hcompletes.symm.trans hsession) (by simp)
  · rw [hcompleted.tables]
    constructor
    · intro hagree' session hsession
      obtain rfl := Option.some.inj (hcompleted.completes.symm.trans hsession)
      rw [Option.eq_none_iff_forall_ne_some]
      intro other hother
      exact hagree.not_completed hcompleted.free hother registered hagree'
    · intro hnew
      exact hagree.completed hcompleted.free (hnew (fd, conn) hcompleted.completes) registered

/-- The tables agree in every state of a run exactly if the run completes no hello exchange for a
peer and direction that have a connection already. -/
theorem tables_agree_iff_no_duplicate (self : PeerId) (order : ByteOrder) (events : List Event) :
    machine.Always TablesAgree (init self order) events ↔
      machine.EachStep NoDuplicate (init self order) events := by
  refine Machine.always_iff_eachStep (I := Orderly) (fun _ _ _ h hstep => h.step hstep) ?_ events
    (init_orderly self order)
    ((init_orderly self order).tablesAgree_iff.mpr (init_agree self order))
  intro w event w' h hagree hstep
  rw [(h.step hstep).tablesAgree_iff]
  exact h.step_agree (h.tablesAgree_iff.mp hagree) hstep

/-- `epoll_ctl` and `getpeername` do as they are asked. -/
def Answers.granted : Answers := ⟨true, true, []⟩

/-- A whole incoming exchange on a little-endian machine, with every transfer made in one piece. -/
def incomingHandshake (fd : Fd) (peer : PeerId) : List Event :=
  [.accept fd true,
    .readable fd (.ok ()) (.moved [13, 0, 0, 0]) .granted,
    .readable fd (.ok ()) (.moved (HelloMsg.make peer helloNotify).serialize) .granted,
    .writable fd (.ok ()) (.moved 4) .granted,
    .writable fd (.ok ()) (.moved 13) .granted]

/-- A peer that connects twice has two active descriptors, and one entry in `connToFd`. -/
theorem second_incoming_parts_tables :
    ¬ ∀ (self : PeerId) (order : ByteOrder) (events : List Event) (w : ConnectionManager),
      machine.exec (init self order) events = some w → w.TablesAgree := by
  intro h
  let peer : PeerId := ⟨[1, 1, 1, 1, 1, 1], rfl⟩
  have hrun : (machine.exec (init ⟨[2, 2, 2, 2, 2, 2], rfl⟩ .little)
      (incomingHandshake 5 peer ++ incomingHandshake 7 peer)).map
      (fun w => (w.activeConns 7, w.connToFd (peer, .incoming)))
      = some (some (peer, .incoming), some 5) := by
    decide +kernel
  obtain ⟨w, hexec, hw⟩ := Option.map_eq_some_iff.mp hrun
  obtain ⟨hactive, hfd⟩ := Prod.mk.inj hw
  have := ((h _ _ _ w hexec).inverse 7 (peer, .incoming)).mp hactive
  exact absurd (hfd.symm.trans this) (by decide)

end ConnectionManager

end Diplom
