import Diplom.Proof.Frames

/-!
# The two parties of a hello exchange

What the life of a socket says about the exchange: the socket that has been accepted receives a
hello, answers it, and is entered when the answer is out; the socket that has been dialed sends a
hello, receives the answer, and is entered then. Neither party says anything else before it is
entered. Nothing here looks at the other end.
-/

namespace Diplom

open ConnectionManager (Event)

def bytesTaken : Event → List Byte
  | .readable _ res ret _ => ret.bytes res
  | _ => []

/-- An event that makes a hello exchange call `recv` is not answered with `EAGAIN`. -/
def NotAgainFor (recv : Option (RecvOp × OnMessage)) : Event → Prop
  | .readable _ res ret _ => ∀ op resolve, recv = some (op, resolve) → resolve ≠ .readMessage →
    (res, ret) ≠ (.ok (), .failed .eagain)
  | _ => True

def helloFrame (node : PeerId) (order : ByteOrder) (type : Byte) : List Byte :=
  frame order (HelloMsg.make node type).serialize

theorem length_helloFrame (node : PeerId) (order : ByteOrder) (type : Byte) :
    (helloFrame node order type).length = 17 := by
  rw [helloFrame, LengthCode.length_frame, HelloMsg.length_serialize, uint32_width]
  rfl

theorem helloFrame_ne_nil (node : PeerId) (order : ByteOrder) (type : Byte) :
    helloFrame node order type ≠ [] := by
  intro hnil
  have hlength := length_helloFrame node order type
  rw [hnil] at hlength
  exact absurd hlength (by decide)

/-- Machines of different byte orders do not understand each other at all, so frames that are equal
are of one hello. -/
theorem helloFrame_injective {node node' : PeerId} {order order' : ByteOrder} {type type' : Byte}
    (h : helloFrame node order type = helloFrame node' order' type') :
    node = node' ∧ type = type' := by
  obtain ⟨-, hbody⟩ := List.append_inj h (by simp only [LengthCode.length_encode, uint32_width])
  exact HelloMsg.make_injective hbody

/-- A stream that begins with a hello, or is not long enough to show it, begins with no other. -/
theorem helloFrame_unique {node node' : PeerId} {order order' : ByteOrder} {type type' : Byte}
    {stream : List Byte} (h : helloFrame node order type <+: stream)
    (h' : stream <+: helloFrame node' order' type' ∨ helloFrame node' order' type' <+: stream) :
    helloFrame node order type = helloFrame node' order' type' := by
  have hlength : (helloFrame node order type).length = (helloFrame node' order' type').length := by
    rw [length_helloFrame, length_helloFrame]
  rcases h' with h' | h'
  · exact (h.trans h').eq_of_length hlength
  · rcases List.prefix_or_prefix_of_prefix h h' with hpre | hpre
    · exact hpre.eq_of_length hlength
    · exact (hpre.eq_of_length hlength.symm).symm

namespace Life

variable {node : PeerId} {order : ByteOrder} {l l' : Life} {event : Event}

/-! ### Steps and logs -/

theorem Step.taken (h : Step node order l event l') : l'.taken = l.taken ++ bytesTaken event := by
  cases h <;> simp [bytesTaken]

theorem Step.written (h : Step node order l event l') : l.written <+: l'.written := by
  cases h <;> first | exact List.prefix_append _ _ | exact List.prefix_rfl

theorem Born.taken (h : Born node order l event l') : l'.taken = l.taken := by
  cases h <;> rfl

theorem Staged.hello_alone (h : l.Staged) {op : SendOp} {resolve : OnSent}
    (hsend : l.send = some (op, resolve)) (hhello : resolve.IsHello) : l.recv = none := by
  obtain ⟨sock, hstage⟩ := h
  have hactive := (hstage.sends op resolve hsend).mp hhello
  exact (hstage.one hactive).resolve_right (by rw [hsend]; simp)

theorem Staged.queued_active (h : l.Staged) {op : SendOp} {parcel : Parcel}
    (hsend : l.send = some (op, .queued parcel)) : ∃ conn, l.active = some conn := by
  obtain ⟨sock, hstage⟩ := h
  exact Option.ne_none_iff_exists'.mp fun hnone => (hstage.sends op _ hsend).mpr hnone

theorem Staged.connected (h : l.Staged) {queue : List Parcel} (hqueue : l.queue = some queue) :
    ∃ conn, l.active = some conn ∧ ∀ op resolve, l.recv = some (op, resolve) →
      resolve = .readMessage := by
  obtain ⟨sock, hstage⟩ := h
  have hactive := hstage.queued.mp (by rw [hqueue]; simp)
  obtain ⟨conn, hconn⟩ := Option.ne_none_iff_exists'.mp hactive
  exact ⟨conn, hconn, fun op resolve hrecv => (hstage.reads op resolve hrecv).mpr hactive⟩

theorem Starts.not_hello {rest queue : List Parcel} {send : Option (SendOp × OnSent)}
    (h : Starts order rest queue send) {op : SendOp} {resolve : OnSent}
    (hsend : send = some (op, resolve)) : ¬ resolve.IsHello := by
  cases h with
  | idle => exact absurd hsend (by simp)
  | starts skipped parcel rest hlength =>
      obtain ⟨-, rfl⟩ := Prod.mk.inj (Option.some.inj hsend)
      exact id
  | aborts => exact absurd hsend (by simp)

/-- A socket is entered in one direction, and not before the hello of the other end has come and its
own is out. -/
def Entered (own expected : Byte) (dir : LinkDirection) (node : PeerId) (order : ByteOrder)
    (l : Life) : Prop :=
  ∀ conn ∈ l.recorded, conn.2 = dir ∧ helloFrame conn.1 order expected <+: l.taken ∧
    helloFrame node order own <+: l.written

theorem Entered.mono {own expected : Byte} {dir : LinkDirection}
    (h : l.Entered own expected dir node order) (hrecorded : l'.recorded = l.recorded)
    (htaken : l.taken <+: l'.taken) (hwritten : l.written <+: l'.written) :
    l'.Entered own expected dir node order := by
  intro conn hconn
  obtain ⟨hdir, hheard, hsaid⟩ := h conn (hrecorded ▸ hconn)
  exact ⟨hdir, hheard.trans htaken, hsaid.trans hwritten⟩

/-! ### The accepted socket -/

structure Acceptor (node : PeerId) (order : ByteOrder) (l : Life) : Prop where
  waits : ∀ op, l.recv = some (op, .incomingHello) →
    op.Wf ∧ l.taken = op.consumed order ∧ l.written = []
  noAnswer : ∀ op peer, l.recv ≠ some (op, .outgoingAnswer peer)
  answers : ∀ op peer, l.send = some (op, .helloAnswer peer) →
    op.Wf ∧ l.taken = helloFrame peer order helloNotify ∧
      l.written ++ op.remaining = helloFrame node order helloAnswer
  noNotify : ∀ op peer, l.send ≠ some (op, .helloNotify peer)
  /-- Until it is entered, the answer is not out in whole. -/
  unanswered : l.recorded = [] →
    ∃ rest, rest ≠ [] ∧ l.written ++ rest = helloFrame node order helloAnswer
  entered : l.Entered helloAnswer helloNotify .incoming node order
  active : ∀ conn, l.active = some conn → conn ∈ l.recorded

theorem new_acceptor (node : PeerId) (order : ByteOrder) : new.Acceptor node order := by
  refine ⟨?_, ?_, ?_, ?_, fun _ => ⟨_, helloFrame_ne_nil _ _ _, rfl⟩, ?_, ?_⟩ <;>
    simp [new, Entered]

theorem Acceptor.closed (h : l.Acceptor node order) : l.closed.Acceptor node order := by
  refine ⟨?_, ?_, ?_, ?_, h.unanswered, h.entered, ?_⟩ <;> simp [Life.closed]

theorem Born.acceptor {fd : Fd} {register : Bool}
  (h : Born node order new (.accept fd register) l) : l.Acceptor node order := by
  have hnew := new_acceptor node order
  cases h with
  | accepted =>
      refine ⟨?_, by simp, hnew.answers, hnew.noNotify, hnew.unanswered, hnew.entered, hnew.active⟩
      intro op hat
      obtain ⟨rfl, -⟩ := Prod.mk.inj (Option.some.inj hat)
      exact ⟨RecvOp.start_wf, by simp [new], rfl⟩
  | acceptUnwatched => exact hnew

theorem Acceptor.recv (h : l.Acceptor node order) (hstaged : l.Staged) {old : RecvOp × OnMessage}
    (hat : l.recv = some old) {recv : Option (RecvOp × OnMessage)} (bytes : List Byte)
    (hnoAnswer : ∀ op peer, recv ≠ some (op, .outgoingAnswer peer))
    (hwaits : ∀ op, recv = some (op, .incomingHello) →
      op.Wf ∧ l.taken ++ bytes = op.consumed order ∧ l.written = []) :
    { l with recv := recv, taken := l.taken ++ bytes }.Acceptor node order := by
  refine ⟨hwaits, hnoAnswer, ?_, h.noNotify, h.unanswered,
    h.entered.mono rfl (List.prefix_append _ _) List.prefix_rfl, h.active⟩
  intro op peer hsend
  exact absurd (hat.symm.trans (hstaged.hello_alone hsend trivial)) (by simp)

/-- What is sent from a queue is sent after the answer. -/
theorem Acceptor.send (h : l.Acceptor node order) {conn : Conn} (hactive : l.active = some conn)
    {send : Option (SendOp × OnSent)}
    (hsend : ∀ op resolve, send = some (op, resolve) → ¬ resolve.IsHello)
    (hrecv : ∀ op resolve, l.recv = some (op, resolve) → resolve = .readMessage) (bytes : List Byte)
    (queue : Option (List Parcel)) (pushed : List Parcel) :
    { l with send := send, written := l.written ++ bytes, queue := queue, pushed :=
      pushed }.Acceptor node order := by
  refine ⟨?_, h.noAnswer, ?_, ?_, ?_,
    h.entered.mono rfl List.prefix_rfl (List.prefix_append _ _), h.active⟩
  · intro op hat
    exact absurd (hrecv op _ hat) (by simp)
  · intro op peer hat
    exact absurd trivial (hsend op _ hat)
  · intro op peer hat
    exact absurd trivial (hsend op _ hat)
  · intro hnone
    have hmem := h.active conn hactive
    rw [show l.recorded = [] from hnone] at hmem
    exact absurd hmem List.not_mem_nil

theorem Acceptor.step (h : l.Acceptor node order) (hstaged : l.Staged)
    (hstep : Step node order l event l') (hagain : NotAgainFor l.recv event) :
    l'.Acceptor node order := by
  cases hstep with
  | @recvGoesOn fd res ret answers op op' resolve hat hevent =>
      refine h.recv hstaged hat _ ?_ ?_
      · intro op'' peer hat'
        obtain ⟨rfl, rfl⟩ := Prod.mk.inj (Option.some.inj hat')
        exact h.noAnswer op peer hat
      · intro op'' hat'
        obtain ⟨rfl, rfl⟩ := Prod.mk.inj (Option.some.inj hat')
        obtain ⟨hwf, htaken, hwritten⟩ := h.waits op hat
        obtain ⟨hwf', hconsumed⟩ := hwf.goes_on (hagain op _ hat (by simp)) hevent
        exact ⟨hwf', by rw [htaken, hconsumed], hwritten⟩
  | recvEnds op hat => exact h.recv hstaged hat _ (by simp) (by simp)
  | @helloAnswered fd res ret answers op peer hat hevent =>
      obtain ⟨hwf, htaken, hwritten⟩ := h.waits op hat
      have hframe := hwf.completes (hagain op _ hat (by simp)) hevent
      refine ⟨by simp, by simp, ?_, by simp, h.unanswered,
        h.entered.mono rfl (List.prefix_append _ _) List.prefix_rfl, h.active⟩
      intro op' peer' hat'
      obtain ⟨rfl, hpeer⟩ := Prod.mk.inj (Option.some.inj hat')
      obtain rfl := OnSent.helloAnswer.inj hpeer
      refine ⟨SendOp.start_wf order (hello_ne_nil _ _), ?_, ?_⟩
      · rw [helloFrame, hframe, htaken]
      · rw [SendOp.start_remaining, hwritten, List.nil_append]
        rfl
  | sessionOut hat => exact absurd hat (h.noAnswer _ _)
  | messageRead hat hevent => exact h.recv hstaged hat _ (by simp) (by simp)
  | @sendGoesOn fd res ret answers op op' resolve hat hevent =>
      have hreads : ∀ op resolve, l.recv = some (op, resolve) → resolve = .readMessage :=
        fun op resolve hrecv => hstaged.reads_only hat hrecv
      cases resolve with
      | helloNotify peer => exact absurd hat (h.noNotify _ _)
      | queued parcel =>
          obtain ⟨conn, hactive⟩ := hstaged.queued_active hat
          refine h.send hactive (fun op'' resolve hat' => ?_) hreads _ l.queue l.pushed
          obtain ⟨-, rfl⟩ := Prod.mk.inj (Option.some.inj hat')
          exact id
      | helloAnswer peer =>
          obtain ⟨hwf, htaken, hwritten⟩ := h.answers op peer hat
          obtain ⟨hwf', hrest⟩ := hwf.goes_on hevent
          have hwhole :
              l.written ++ op.put res ret ++ op'.remaining = helloFrame node order helloAnswer := by
            rw [List.append_assoc, hrest, hwritten]
          refine ⟨?_, h.noAnswer, ?_, by simp, fun _ => ⟨_, hwf'.remaining_ne_nil, hwhole⟩,
            h.entered.mono rfl List.prefix_rfl (List.prefix_append _ _), h.active⟩
          · intro op'' hrecv
            exact absurd (hreads _ _ hrecv) (by simp)
          · intro op'' peer' hat'
            obtain ⟨rfl, hpeer⟩ := Prod.mk.inj (Option.some.inj hat')
            obtain rfl := OnSent.helloAnswer.inj hpeer
            exact ⟨hwf', htaken, hwhole⟩
  | @helloUnsent fd res ret answers op resolve hat hhello e hevent =>
      cases resolve with
      | queued parcel => exact absurd hhello id
      | helloNotify peer => exact absurd hat (h.noNotify _ _)
      | helloAnswer peer =>
          obtain ⟨hwf, htaken, hwritten⟩ := h.answers op peer hat
          have hput : op.put res ret = [] := by
            rcases hwf.ends hevent with ⟨hok, -⟩ | ⟨-, hput⟩
            · exact absurd hok (by simp)
            · exact hput
          refine ⟨?_, h.noAnswer, by simp, by simp, ?_,
            h.entered.mono rfl List.prefix_rfl (List.prefix_append _ _), h.active⟩
          · intro op' hrecv
            exact absurd (hstaged.reads_only hat hrecv) (by simp)
          · intro hnone
            obtain ⟨rest, hrest, hwhole⟩ := h.unanswered hnone
            exact ⟨rest, hrest, by rw [hput, List.append_nil, hwhole]⟩
  | @sessionIn fd res ret answers op peer hat hevent =>
      obtain ⟨hwf, htaken, hwritten⟩ := h.answers op peer hat
      have hsaid : l.written ++ op.put res ret = helloFrame node order helloAnswer := by
        rcases hwf.ends hevent with ⟨-, hput⟩ | ⟨⟨e, he⟩, -⟩
        · rw [hput, hwritten]
        · exact absurd he (by simp)
      refine ⟨by simp, by simp, by simp, by simp, by simp, ?_, by simp⟩
      intro conn hconn
      rcases List.mem_append.mp hconn with hold | hnew
      · obtain ⟨hdir, hheard, hout⟩ := h.entered conn hold
        exact ⟨hdir, hheard, hout.trans (List.prefix_append _ _)⟩
      · obtain rfl := List.mem_singleton.mp hnew
        exact ⟨rfl, htaken ▸ List.prefix_rfl, hsaid ▸ List.prefix_rfl⟩
  | notifySent hat hevent => exact absurd hat (h.noNotify _ _)
  | @queueAdvances fd res ret answers op parcel front rest queue result send hat hqueue
      hevent hstarts =>
      obtain ⟨conn, hactive⟩ := hstaged.queued_active hat
      exact h.send hactive (fun _ _ hsend => hstarts.not_hello hsend)
        (fun _ _ hrecv => hstaged.reads_only hat hrecv) _ _ _
  | sendQueued hqueue hwaits =>
      exact ⟨h.waits, h.noAnswer, h.answers, h.noNotify, h.unanswered, h.entered, h.active⟩
  | @sendAlone peer msg registers queue send hqueue hstarts =>
      obtain ⟨conn, hactive, hreads⟩ := hstaged.connected hqueue
      have hsent :=
        h.send hactive (fun _ _ hsend => hstarts.not_hello hsend) hreads [] (some queue)
          (l.pushed ++ [⟨peer, msg⟩])
      rwa [List.append_nil] at hsent
  | @destroyed token ok recv send hrecv hsend =>
      have hrecv' : ∀ op resolve, recv = some (op, resolve) → l.recv = some (op, resolve) :=
        fun _ _ => PartialMap.eq_some_of_kept hrecv
      have hsend' : ∀ op resolve, send = some (op, resolve) → l.send = some (op, resolve) :=
        fun _ _ => PartialMap.eq_some_of_kept hsend
      exact ⟨fun op hat => h.waits op (hrecv' _ _ hat),
        fun op peer hat => h.noAnswer op peer (hrecv' _ _ hat),
        fun op peer hat => h.answers op peer (hsend' _ _ hat),
        fun op peer hat => h.noNotify op peer (hsend' _ _ hat), h.unanswered, h.entered, h.active⟩

/-! ### The dialed socket -/

structure Dialer (node : PeerId) (order : ByteOrder) (l : Life) : Prop where
  notifies : ∀ op peer, l.send = some (op, .helloNotify peer) →
    op.Wf ∧ l.taken = [] ∧ l.written ++ op.remaining = helloFrame node order helloNotify
  noAnswer : ∀ op peer, l.send ≠ some (op, .helloAnswer peer)
  waits : ∀ op peer, l.recv = some (op, .outgoingAnswer peer) →
    op.Wf ∧ l.taken = op.consumed order ∧ l.written = helloFrame node order helloNotify
  noNotify : ∀ op, l.recv ≠ some (op, .incomingHello)
  /-- The hello comes first. -/
  opens : l.written <+: helloFrame node order helloNotify ∨
    helloFrame node order helloNotify <+: l.written
  entered : l.Entered helloNotify helloAnswer .outgoing node order
  active : ∀ conn, l.active = some conn → conn ∈ l.recorded

theorem new_dialer (node : PeerId) (order : ByteOrder) : new.Dialer node order := by
  refine ⟨?_, ?_, ?_, ?_, .inl List.nil_prefix, ?_, ?_⟩ <;> simp [new, Entered]

theorem Dialer.closed (h : l.Dialer node order) : l.closed.Dialer node order := by
  refine ⟨?_, ?_, ?_, ?_, h.opens, h.entered, ?_⟩ <;> simp [Life.closed]

theorem Born.dialer (h : Born node order new event l)
    (hdials : ∀ fd register, event ≠ .accept fd register) : l.Dialer node order := by
  have hnew := new_dialer node order
  cases h with
  | accepted => exact absurd rfl (hdials _ _)
  | acceptUnwatched => exact absurd rfl (hdials _ _)
  | dialed =>
      refine ⟨?_, by simp, hnew.waits, hnew.noNotify, hnew.opens, hnew.entered, hnew.active⟩
      intro op peer hat
      obtain ⟨rfl, -⟩ := Prod.mk.inj (Option.some.inj hat)
      refine ⟨SendOp.start_wf order (hello_ne_nil _ _), rfl, ?_⟩
      rw [SendOp.start_remaining]
      rfl
  | dialUnwatched => exact hnew

theorem Dialer.recv (h : l.Dialer node order) (hstaged : l.Staged) {old : RecvOp × OnMessage}
  (hat : l.recv = some old) {recv : Option (RecvOp × OnMessage)} (bytes : List Byte)
  (hnoNotify : ∀ op, recv ≠ some (op, .incomingHello))
  (hwaits : ∀ op peer, recv = some (op, .outgoingAnswer peer) →
    op.Wf ∧ l.taken ++ bytes = op.consumed order ∧ l.written = helloFrame node order helloNotify) :
  { l with recv := recv, taken := l.taken ++ bytes }.Dialer node order := by
  refine ⟨?_, h.noAnswer, hwaits, hnoNotify, h.opens,
    h.entered.mono rfl (List.prefix_append _ _) List.prefix_rfl, h.active⟩
  intro op peer hsend
  exact absurd (hat.symm.trans (hstaged.hello_alone hsend trivial)) (by simp)

/-- What is sent from a queue is sent after the hello. -/
theorem Dialer.send (h : l.Dialer node order) {conn : Conn} (hactive : l.active = some conn)
    {send : Option (SendOp × OnSent)}
    (hsend : ∀ op resolve, send = some (op, resolve) → ¬ resolve.IsHello)
    (hrecv : ∀ op resolve, l.recv = some (op, resolve) → resolve = .readMessage) (bytes : List Byte)
    (queue : Option (List Parcel)) (pushed : List Parcel) :
    { l with send := send, written := l.written ++ bytes, queue := queue, pushed := pushed }.Dialer
      node order := by
  have hsaid := (h.entered conn (h.active conn hactive)).2.2
  refine ⟨?_, ?_, ?_, h.noNotify, .inr (hsaid.trans (List.prefix_append _ _)),
    h.entered.mono rfl List.prefix_rfl (List.prefix_append _ _), h.active⟩
  · intro op peer hat
    exact absurd trivial (hsend op _ hat)
  · intro op peer hat
    exact absurd trivial (hsend op _ hat)
  · intro op peer hat
    exact absurd (hrecv op _ hat) (by simp)

theorem Dialer.step (h : l.Dialer node order) (hstaged : l.Staged)
    (hstep : Step node order l event l') (hagain : NotAgainFor l.recv event) :
    l'.Dialer node order := by
  cases hstep with
  | @recvGoesOn fd res ret answers op op' resolve hat hevent =>
      refine h.recv hstaged hat _ ?_ ?_
      · intro op'' hat'
        obtain ⟨rfl, rfl⟩ := Prod.mk.inj (Option.some.inj hat')
        exact h.noNotify op hat
      · intro op'' peer hat'
        obtain ⟨rfl, rfl⟩ := Prod.mk.inj (Option.some.inj hat')
        obtain ⟨hwf, htaken, hwritten⟩ := h.waits op peer hat
        obtain ⟨hwf', hconsumed⟩ := hwf.goes_on (hagain op _ hat (by simp)) hevent
        exact ⟨hwf', by rw [htaken, hconsumed], hwritten⟩
  | recvEnds op hat => exact h.recv hstaged hat _ (by simp) (by simp)
  | helloAnswered hat => exact absurd hat (h.noNotify _)
  | @sessionOut fd res ret answers op peer hat hevent =>
      obtain ⟨hwf, htaken, hwritten⟩ := h.waits op peer hat
      have hframe := hwf.completes (hagain op _ hat (by simp)) hevent
      refine ⟨?_, h.noAnswer, by simp, by simp, h.opens, ?_, by simp⟩
      · intro op' peer' hsend
        exact absurd (hat.symm.trans (hstaged.hello_alone hsend trivial)) (by simp)
      · intro conn hconn
        rcases List.mem_append.mp hconn with hold | hnew
        · obtain ⟨hdir, hheard, hsaid⟩ := h.entered conn hold
          exact ⟨hdir, hheard.trans (List.prefix_append _ _), hsaid⟩
        · obtain rfl := List.mem_singleton.mp hnew
          refine ⟨rfl, ?_, hwritten ▸ List.prefix_rfl⟩
          rw [helloFrame, hframe, htaken]
  | messageRead hat hevent => exact h.recv hstaged hat _ (by simp) (by simp)
  | @sendGoesOn fd res ret answers op op' resolve hat hevent =>
      have hreads : ∀ op resolve, l.recv = some (op, resolve) → resolve = .readMessage :=
        fun op resolve hrecv => hstaged.reads_only hat hrecv
      cases resolve with
      | helloAnswer peer => exact absurd hat (h.noAnswer _ _)
      | queued parcel =>
          obtain ⟨conn, hactive⟩ := hstaged.queued_active hat
          refine h.send hactive (fun op'' resolve hat' => ?_) hreads _ l.queue l.pushed
          obtain ⟨-, rfl⟩ := Prod.mk.inj (Option.some.inj hat')
          exact id
      | helloNotify peer =>
          obtain ⟨hwf, htaken, hwritten⟩ := h.notifies op peer hat
          obtain ⟨hwf', hrest⟩ := hwf.goes_on hevent
          have hwhole :
              l.written ++ op.put res ret ++ op'.remaining = helloFrame node order helloNotify := by
            rw [List.append_assoc, hrest, hwritten]
          refine ⟨?_, by simp, ?_, h.noNotify, .inl ⟨_, hwhole⟩,
            h.entered.mono rfl List.prefix_rfl (List.prefix_append _ _), h.active⟩
          · intro op'' peer' hat'
            obtain ⟨rfl, hpeer⟩ := Prod.mk.inj (Option.some.inj hat')
            obtain rfl := OnSent.helloNotify.inj hpeer
            exact ⟨hwf', htaken, hwhole⟩
          · intro op'' peer' hrecv
            exact absurd (hreads _ _ hrecv) (by simp)
  | @helloUnsent fd res ret answers op resolve hat hhello e hevent =>
      cases resolve with
      | queued parcel => exact absurd hhello id
      | helloAnswer peer => exact absurd hat (h.noAnswer _ _)
      | helloNotify peer =>
          obtain ⟨hwf, htaken, hwritten⟩ := h.notifies op peer hat
          have hput : op.put res ret = [] := by
            rcases hwf.ends hevent with ⟨hok, -⟩ | ⟨-, hput⟩
            · exact absurd hok (by simp)
            · exact hput
          refine ⟨by simp, by simp, ?_, h.noNotify, ?_,
            h.entered.mono rfl List.prefix_rfl (List.prefix_append _ _), h.active⟩
          · intro op' peer' hrecv
            exact absurd (hstaged.reads_only hat hrecv) (by simp)
          · rw [hput, List.append_nil]
            exact h.opens
  | sessionIn hat hevent => exact absurd hat (h.noAnswer _ _)
  | @notifySent fd res ret answers op peer hat hevent =>
      obtain ⟨hwf, htaken, hwritten⟩ := h.notifies op peer hat
      have hsaid : l.written ++ op.put res ret = helloFrame node order helloNotify := by
        rcases hwf.ends hevent with ⟨-, hput⟩ | ⟨⟨e, he⟩, -⟩
        · rw [hput, hwritten]
        · exact absurd he (by simp)
      refine ⟨by simp, by simp, ?_, by simp, .inr (hsaid ▸ List.prefix_rfl),
        h.entered.mono rfl List.prefix_rfl (List.prefix_append _ _), h.active⟩
      intro op' peer' hat'
      obtain ⟨rfl, -⟩ := Prod.mk.inj (Option.some.inj hat')
      exact ⟨RecvOp.start_wf, by rw [RecvOp.start_consumed, htaken], hsaid⟩
  | @queueAdvances fd res ret answers op parcel front rest queue result send hat hqueue
      hevent hstarts =>
      obtain ⟨conn, hactive⟩ := hstaged.queued_active hat
      exact h.send hactive (fun _ _ hsend => hstarts.not_hello hsend)
        (fun _ _ hrecv => hstaged.reads_only hat hrecv) _ _ _
  | sendQueued hqueue hwaits =>
      exact ⟨h.notifies, h.noAnswer, h.waits, h.noNotify, h.opens, h.entered, h.active⟩
  | @sendAlone peer msg registers queue send hqueue hstarts =>
      obtain ⟨conn, hactive, hreads⟩ := hstaged.connected hqueue
      have hsent :=
        h.send hactive (fun _ _ hsend => hstarts.not_hello hsend) hreads [] (some queue)
          (l.pushed ++ [⟨peer, msg⟩])
      rwa [List.append_nil] at hsent
  | @destroyed token ok recv send hrecv hsend =>
      have hrecv' : ∀ op resolve, recv = some (op, resolve) → l.recv = some (op, resolve) :=
        fun _ _ => PartialMap.eq_some_of_kept hrecv
      have hsend' : ∀ op resolve, send = some (op, resolve) → l.send = some (op, resolve) :=
        fun _ _ => PartialMap.eq_some_of_kept hsend
      exact ⟨fun op peer hat => h.notifies op peer (hsend' _ _ hat),
        fun op peer hat => h.noAnswer op peer (hsend' _ _ hat),
        fun op peer hat => h.waits op peer (hrecv' _ _ hat),
        fun op hat => h.noNotify op (hrecv' _ _ hat), h.opens, h.entered, h.active⟩

end Life

end Diplom
