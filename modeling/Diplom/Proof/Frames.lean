import Diplom.Proof.Life
import Diplom.Proof.Refinement
import Diplom.Proof.Tables
import Diplom.Spec.Frames

/-!
# Whole frames on a socket

As long as each operation comes to its end a socket carries whole frames: a hello, then messages of
its queue, less those that fail before their first byte. After a message that failed later, the next
one goes out where the rest of it should have been. Here a call or a callback is one event, for what
is said of the messages of a connection in `Delivery.lean`; `Written.lean` has the two threads.
-/

namespace Diplom

open ConnectionManager (Event Answers)

theorem Unbroken.pushed {node : PeerId} {order : ByteOrder} {written : List Byte}
    {pushed : List Parcel} (h : Unbroken node order written pushed) (more : List Parcel) :
    Unbroken node order written (pushed ++ more) := by
  obtain ⟨hello, hmem, messages, hsub, hpre⟩ := h
  refine ⟨hello, hmem, messages, hsub.trans ?_, hpre⟩
  rw [List.map_append]
  exact List.sublist_append_left _ _

namespace Life

variable {node : PeerId} {order : ByteOrder} {torn : Bool} {l l' : Life} {event : Event}

/-- The next byte of the socket is where the next operation expects it. -/
structure Ready (node : PeerId) (order : ByteOrder) (l : Life) : Prop where
  wf : ∀ op resolve, l.send = some (op, resolve) → op.Wf
  hello : ∀ op resolve, l.send = some (op, resolve) → resolve.IsHello →
    ∃ hello ∈ hellos node, l.written ++ op.remaining = frame order hello
  queued : ∀ op parcel, l.send = some (op, .queued parcel) → ∃ hello ∈ hellos node, ∃ done rest,
    l.queue = some (parcel.movedOut :: rest) ∧
    l.written ++ op.remaining = (uint32 order).frames (hello :: (done ++ [parcel.body])) ∧
    (done ++ (parcel :: rest).map Parcel.body).Sublist (l.pushed.map Parcel.body)
  incoming : ∀ op, l.recv = some (op, .incomingHello) → l.written = []
  outgoing : ∀ op peer, l.recv = some (op, .outgoingAnswer peer) → ∃ hello ∈ hellos node,
    l.written = frame order hello
  idle : l.queue = some [] → l.send = none → ∃ hello ∈ hellos node, ∃ done,
    l.written = (uint32 order).frames (hello :: done) ∧ done.Sublist (l.pushed.map Parcel.body)

/-- What has been written is unbroken, and goes on in the right place unless it is torn. -/
structure Framed (node : PeerId) (order : ByteOrder) (torn : Bool) (l : Life) : Prop where
  unbroken : Unbroken node order l.written l.pushed
  ready : torn = false → l.Ready node order

/-- The operations of a life belong to its stage. -/
def Staged (l : Life) : Prop := ∃ sock, Snapshot.Stage sock l.active l.recv l.send l.queue

theorem Ready.whole (h : l.Ready node order) {op : SendOp} {resolve : OnSent}
    (hat : l.send = some (op, resolve)) :
    ∃ hello ∈ hellos node, ∃ messages, messages.Sublist (l.pushed.map Parcel.body) ∧
      l.written ++ op.remaining = (uint32 order).frames (hello :: messages) := by
  by_cases hhello : resolve.IsHello
  · obtain ⟨hello, hmem, heq⟩ := h.hello op resolve hat hhello
    exact ⟨hello, hmem, [], List.nil_sublist _, by simpa [frame] using heq⟩
  · cases resolve with
    | helloAnswer peer => exact absurd trivial hhello
    | helloNotify peer => exact absurd trivial hhello
    | queued parcel =>
        obtain ⟨hello, hmem, done, rest, -, heq, hsub⟩ := h.queued op parcel hat
        refine ⟨hello, hmem, done ++ [parcel.body], List.Sublist.trans ?_ hsub, heq⟩
        exact List.Sublist.append_left (by simp) done

/-- An event that puts on the socket what is due, or nothing where that would be torn. -/
theorem Framed.put (h : l.Framed node order torn) {op : SendOp} {resolve : OnSent}
    (hat : l.send = some (op, resolve)) {bytes : List Byte} (hspare : torn = true → bytes = [])
    (hdue : torn = false → bytes <+: op.remaining) :
    Unbroken node order (l.written ++ bytes) l.pushed := by
  cases htorn : torn with
  | true =>
      rw [hspare htorn, List.append_nil]
      exact h.unbroken
  | false =>
      obtain ⟨hello, hmem, messages, hsub, heq⟩ := (h.ready htorn).whole hat
      exact ⟨hello, hmem, messages, hsub, heq ▸ (List.prefix_append_right_inj _).mpr (hdue htorn)⟩

/-- The last event of an operation puts on the socket what was left, or nothing. -/
theorem Framed.resolved (h : l.Framed node order torn) {op : SendOp} {resolve : OnSent}
    (hat : l.send = some (op, resolve)) {fd : Fd} {res : EpollResult} {ret : SendReturn}
    {answers : Answers} {result : IoResult Unit} (hevent : op.event res ret = .resolved result)
    (hspare : torn = true → bytesPut l.send (.writable fd res ret answers) = []) :
    Unbroken node order (l.written ++ op.put res ret) l.pushed := by
  refine h.put hat (fun htorn => ?_) (fun htorn => ?_)
  · simpa [bytesPut, hat] using hspare htorn
  · rcases ((h.ready htorn).wf _ _ hat).ends hevent with ⟨-, hput⟩ | ⟨-, hput⟩
    · rw [hput]
    · rw [hput]
      exact List.nil_prefix

theorem Ready.hello_sent (h : l.Ready node order) {op : SendOp} {resolve : OnSent}
    (hat : l.send = some (op, resolve)) (hhello : resolve.IsHello) {res : EpollResult}
    {ret : SendReturn} (hevent : op.event res ret = .resolved (.ok ())) :
    ∃ hello ∈ hellos node, l.written ++ op.put res ret = frame order hello := by
  obtain ⟨hello, hmem, hwhole⟩ := h.hello op resolve hat hhello
  rcases (h.wf _ _ hat).ends hevent with ⟨-, hput⟩ | ⟨⟨e, he⟩, -⟩
  · exact ⟨hello, hmem, hput ▸ hwhole⟩
  · exact absurd he (by simp)

theorem Framed.closed (h : l.Framed node order torn) : l.closed.Framed node order torn := by
  refine ⟨h.unbroken, fun _ => ⟨?_, ?_, ?_, ?_, ?_, ?_⟩⟩ <;> simp [Life.closed]

theorem new_framed (node : PeerId) (order : ByteOrder) (torn : Bool) :
    new.Framed node order torn := by
  refine ⟨⟨_, List.mem_cons_self, [], List.nil_sublist _, List.nil_prefix⟩,
    fun _ => ⟨?_, ?_, ?_, ?_, ?_, ?_⟩⟩ <;> simp [new]

theorem hello_ne_nil (id : PeerId) (type : Byte) : (HelloMsg.make id type).serialize ≠ [] := by
  intro hnil
  have hlength := HelloMsg.length_serialize (HelloMsg.make id type)
  rw [hnil] at hlength
  exact absurd hlength (by decide)

theorem Born.framed (h : Born node order new event l) : l.Framed node order false := by
  have hnew := new_framed node order false
  cases h with
  | accepted =>
      refine ⟨hnew.unbroken, fun _ => ⟨?_, ?_, ?_, ?_, ?_, ?_⟩⟩ <;> simp [new]
  | acceptUnwatched => exact hnew
  | dialUnwatched => exact hnew
  | dialed =>
      refine ⟨hnew.unbroken, fun _ => ⟨?_, ?_, ?_, ?_, ?_, ?_⟩⟩
      · intro op resolve hat
        obtain ⟨rfl, -⟩ := Prod.mk.inj (Option.some.inj hat)
        exact SendOp.start_wf order (hello_ne_nil _ _)
      · intro op resolve hat _
        obtain ⟨rfl, -⟩ := Prod.mk.inj (Option.some.inj hat)
        exact ⟨_, List.mem_cons_self, by simp [new]⟩
      · simp
      · simp [new]
      · simp [new]
      · simp [new]

/-- The front of a queue is started when everything before it has gone out whole, or not at all. -/
theorem Starts.ready {rest queue : List Parcel} {send : Option (SendOp × OnSent)}
    (h : Starts order rest queue send) (hqueue : l.queue = some queue) (hsend : l.send = send)
    (hrecv : ∀ op resolve, l.recv = some (op, resolve) → resolve = .readMessage) {hello : Message}
    (hmem : hello ∈ hellos node) {done : List Message}
    (hwritten : l.written = (uint32 order).frames (hello :: done))
    (hsub : (done ++ rest.map Parcel.body).Sublist (l.pushed.map Parcel.body)) :
    l.Ready node order := by
  have hincoming : ∀ op, l.recv = some (op, .incomingHello) → l.written = [] :=
    fun op hat => absurd (hrecv op _ hat) (by simp)
  have houtgoing : ∀ op peer, l.recv = some (op, .outgoingAnswer peer) → ∃ hello ∈ hellos node,
      l.written = frame order hello :=
    fun op peer hat => absurd (hrecv op _ hat) (by simp)
  cases h with
  | idle skipped =>
      refine ⟨?_, ?_, ?_, hincoming, houtgoing, fun _ _ => ⟨hello, hmem, done, hwritten, ?_⟩⟩
      · simp [hsend]
      · simp [hsend]
      · simp [hsend]
      · exact (List.sublist_append_left _ _).trans hsub
  | aborts skipped parcel rest =>
      refine ⟨?_, ?_, ?_, hincoming, houtgoing, ?_⟩
      · simp [hsend]
      · simp [hsend]
      · simp [hsend]
      · simp [hqueue]
  | starts skipped parcel rest hlength =>
      have hbody : parcel.body ≠ [] := by
        intro hnil
        exact hlength (by rw [hnil]; rfl)
      refine ⟨?_, ?_, ?_, hincoming, houtgoing, ?_⟩
      · intro op resolve hat
        obtain ⟨rfl, -⟩ := Prod.mk.inj (Option.some.inj (hsend.symm.trans hat))
        exact SendOp.start_wf order hbody
      · intro op resolve hat hhello
        obtain ⟨-, rfl⟩ := Prod.mk.inj (Option.some.inj (hsend.symm.trans hat))
        exact absurd hhello id
      · intro op parcel' hat
        obtain ⟨rfl, hparcel⟩ := Prod.mk.inj (Option.some.inj (hsend.symm.trans hat))
        obtain rfl := OnSent.queued.inj hparcel
        refine ⟨hello, hmem, done, rest, hqueue, ?_, List.Sublist.trans ?_ hsub⟩
        · rw [SendOp.start_remaining, hwritten, ← List.cons_append, LengthCode.frames_append]
          simp [frame]
        · rw [List.map_append]
          exact List.Sublist.append_left (List.sublist_append_right _ _) done
      · simp [hsend]

theorem Ready.recv (h : l.Ready node order) {recv : Option (RecvOp × OnMessage)} (taken : List Byte)
    (hrecv : ∀ op resolve, recv = some (op, resolve) → resolve = .readMessage ∨ ∃ op',
      l.recv = some (op', resolve)) : { l with recv := recv, taken := taken }.Ready node order := by
  refine ⟨h.wf, h.hello, h.queued, fun op hat => ?_, fun op peer hat => ?_, h.idle⟩
  · rcases hrecv op _ hat with hread | ⟨op', hold⟩
    · exact absurd hread (by simp)
    · exact h.incoming op' hold
  · rcases hrecv op _ hat with hread | ⟨op', hold⟩
    · exact absurd hread (by simp)
    · exact h.outgoing op' peer hold

theorem Staged.idle (h : l.Staged) (hqueue : l.queue = some []) : l.send = none := by
  obtain ⟨sock, hstage⟩ := h
  have hactive := hstage.queued.mp (by rw [hqueue]; simp)
  rw [Option.eq_none_iff_forall_ne_some]
  rintro ⟨op, resolve⟩ hsend
  by_cases hhello : resolve.IsHello
  · exact hactive ((hstage.sends op resolve hsend).mp hhello)
  · cases resolve with
    | helloAnswer peer => exact hhello trivial
    | helloNotify peer => exact hhello trivial
    | queued parcel =>
        obtain ⟨rest, hfront⟩ := hstage.front op parcel hsend
        exact absurd (hqueue.symm.trans hfront) (by simp)

theorem staged {s : Snapshot} (h : s.Ok) (sock : Sock) : (s.life sock).Staged := by
  by_cases hheld : ∃ fd, s.fds fd = some sock
  · obtain ⟨fd, hfd⟩ := hheld
    rw [h.life_of_held hfd]
    exact ⟨_, h.stage fd⟩
  · rw [Snapshot.life_of_closed fun fd hfd => hheld ⟨fd, hfd⟩]
    exact ⟨none, .nothing none⟩

theorem Staged.unqueued (h : l.Staged) (hactive : l.active = none) : l.queue = none := by
  obtain ⟨sock, hstage⟩ := h
  by_contra hqueue
  exact hstage.queued.mp hqueue hactive

/-- Nothing but a message is waited for while something is being sent. -/
theorem Staged.reads_only (h : l.Staged) {send : SendOp × OnSent} (hsend : l.send = some send)
    {op : RecvOp} {resolve : OnMessage} (hrecv : l.recv = some (op, resolve)) :
    resolve = .readMessage := by
  obtain ⟨sock, hstage⟩ := h
  refine (hstage.reads op resolve hrecv).mpr fun hactive => ?_
  rcases hstage.one hactive with hnone | hnone
  · exact absurd (hrecv.symm.trans hnone) (by simp)
  · exact absurd (hsend.symm.trans hnone) (by simp)

theorem Ready.answers (h : l.Ready node order) {op : RecvOp}
    (hat : l.recv = some (op, .incomingHello)) (hqueue : l.queue = none) (peer : PeerId)
    (taken : List Byte) :
    { l with
      recv := none
      taken := taken
      send := some (.start order (HelloMsg.make node helloAnswer).serialize,
        .helloAnswer peer) }.Ready node order := by
  refine ⟨?_, ?_, ?_, by simp, by simp, ?_⟩
  · intro op' resolve hat'
    obtain ⟨rfl, -⟩ := Prod.mk.inj (Option.some.inj hat')
    exact SendOp.start_wf order (hello_ne_nil _ _)
  · intro op' resolve hat' _
    obtain ⟨rfl, -⟩ := Prod.mk.inj (Option.some.inj hat')
    refine ⟨_, List.mem_cons_of_mem _ List.mem_cons_self, ?_⟩
    rw [SendOp.start_remaining, h.incoming _ hat, List.nil_append]
  · simp
  · simp [hqueue]

theorem ready_of_entered (hrecv : l.recv = some (.start, .readMessage)) (hsend : l.send = none)
    (hqueue : l.queue = some []) {hello : Message} (hmem : hello ∈ hellos node)
    (hwritten : l.written = frame order hello) : l.Ready node order := by
  have hwhole : l.written = (uint32 order).frames [hello] := by simpa [frame] using hwritten
  refine (Starts.idle []).ready hqueue hsend (fun op resolve hat => ?_) hmem hwhole (by simp)
  exact (Prod.mk.inj (Option.some.inj (hrecv.symm.trans hat))).2.symm

theorem Ready.goes_on (h : l.Ready node order) (hstaged : l.Staged) {op op' : SendOp}
    {resolve : OnSent} (hat : l.send = some (op, resolve)) (hwf : op'.Wf) {bytes : List Byte}
    (hrest : bytes ++ op'.remaining = op.remaining) :
    { l with send := some (op', resolve), written := l.written ++ bytes }.Ready node order := by
  refine ⟨?_, ?_, ?_, ?_, ?_, by simp⟩
  · intro op'' resolve' hat'
    obtain ⟨rfl, -⟩ := Prod.mk.inj (Option.some.inj hat')
    exact hwf
  · intro op'' resolve' hat' hhello
    obtain ⟨rfl, rfl⟩ := Prod.mk.inj (Option.some.inj hat')
    rw [List.append_assoc, hrest]
    exact h.hello _ _ hat hhello
  · intro op'' parcel hat'
    obtain ⟨rfl, rfl⟩ := Prod.mk.inj (Option.some.inj hat')
    rw [List.append_assoc, hrest]
    exact h.queued _ _ hat
  · intro op'' hrecv
    exact absurd (hstaged.reads_only hat hrecv) (by simp)
  · intro op'' peer hrecv
    exact absurd (hstaged.reads_only hat hrecv) (by simp)

/-- The front of a queue is through, or failed before its first byte, and the next message
starts. -/
theorem Ready.advances (h : l.Ready node order) (hstaged : l.Staged) {op : SendOp}
    {parcel front : Parcel} {rest queue : List Parcel} {send : Option (SendOp × OnSent)}
    (hat : l.send = some (op, .queued parcel)) (hqueue : l.queue = some (front :: rest))
    {fd : Fd} {res : EpollResult} {ret : SendReturn} {answers : Answers} {result : IoResult Unit}
    (hevent : op.event res ret = .resolved result) (hstarts : Starts order rest queue send)
    (htears : tears order l.send (.writable fd res ret answers) = false) :
    { l with send := send, written := l.written ++ op.put res ret, queue := some queue }.Ready node
      order := by
  obtain ⟨hello, hmem, done, rest', hqueue', hwhole, hsub⟩ := h.queued op parcel hat
  obtain ⟨-, rfl⟩ := List.cons.inj (Option.some.inj (hqueue.symm.trans hqueue'))
  have hreads : ∀ op' resolve, l.recv = some (op', resolve) → resolve = .readMessage :=
    fun op' resolve hrecv => hstaged.reads_only hat hrecv
  rcases (h.wf _ _ hat).ends hevent with ⟨rfl, hput⟩ | ⟨⟨e, rfl⟩, hput⟩
  · have hwritten :
        l.written ++ op.put res ret = (uint32 order).frames (hello :: (done ++ [parcel.body])) := by
      rw [hput, hwhole]
    refine hstarts.ready rfl rfl hreads hmem hwritten ?_
    rw [List.append_assoc]
    exact hsub
  · -- nothing of the frame has gone out before this event either
    have hfresh : op.remaining = frame order parcel.body := by
      simpa [tears, hat, hevent] using htears
    have hwritten : l.written ++ op.put res ret = (uint32 order).frames (hello :: done) := by
      refine List.append_cancel_right
        (show _ ++ frame order parcel.body = _ ++ frame order parcel.body from ?_)
      rw [hput, List.append_nil, ← hfresh, hwhole, ← List.cons_append,
        LengthCode.frames_append, hfresh]
      simp [frame]
    refine hstarts.ready rfl rfl hreads hmem hwritten (List.Sublist.trans ?_ hsub)
    exact List.Sublist.append_left (List.sublist_cons_self _ _) done

theorem Ready.pushes (h : l.Ready node order) {queue : List Parcel}
    (hqueue : l.queue = some queue) (parcel : Parcel) :
    { l with
      queue := some (queue ++ [parcel])
      pushed := l.pushed ++ [parcel] }.Ready node order := by
  refine ⟨h.wf, h.hello, ?_, h.incoming, h.outgoing, by simp⟩
  intro op first hat
  obtain ⟨hello, hmem, done, rest, hqueue', hwhole, hsub⟩ := h.queued op first hat
  obtain rfl := Option.some.inj (hqueue.symm.trans hqueue')
  refine ⟨hello, hmem, done, rest ++ [parcel], rfl, hwhole, ?_⟩
  simpa using hsub.append_right [parcel.body]

theorem Framed.step (h : l.Framed node order torn) (hstaged : l.Staged)
    (hstep : Step node order l event l') (hspare : torn = true → bytesPut l.send event = []) :
    l'.Framed node order (torn || tears order l.send event) := by
  obtain ⟨sock, hstage⟩ := hstaged
  have hstaged : l.Staged := ⟨sock, hstage⟩
  have hready : (torn || tears order l.send event) = false → l.Ready node order :=
    fun htorn => h.ready (Bool.or_eq_false_iff.mp htorn).1
  have hunqueued : ∀ {op resolve}, l.recv = some (op, resolve) → resolve ≠ .readMessage →
      l.active = none := by
    intro op resolve hat hexchange
    by_contra hactive
    exact hexchange ((hstage.reads _ _ hat).mpr hactive)
  cases hstep with
  | @recvGoesOn fd res ret answers op op' resolve hat hevent =>
      refine ⟨h.unbroken, fun htorn => (hready htorn).recv _ fun op'' resolve' hat' => ?_⟩
      obtain ⟨-, rfl⟩ := Prod.mk.inj (Option.some.inj hat')
      exact .inr ⟨op, hat⟩
  | recvEnds op hat => exact ⟨h.unbroken, fun htorn => (hready htorn).recv _ (by simp)⟩
  | helloAnswered hat hevent =>
      refine ⟨h.unbroken, fun htorn => (hready htorn).answers hat ?_ _ _⟩
      exact hstaged.unqueued (hunqueued hat (by simp))
  | sessionOut hat hevent =>
      have hsend : l.send = none :=
        (hstage.one (hunqueued hat (by simp))).resolve_left (by rw [hat]; simp)
      refine ⟨h.unbroken, fun htorn => ?_⟩
      obtain ⟨hello, hmem, hwritten⟩ := (hready htorn).outgoing _ _ hat
      exact ready_of_entered rfl hsend rfl hmem hwritten
  | messageRead hat hevent =>
      refine ⟨h.unbroken, fun htorn => (hready htorn).recv _ fun op' resolve hat' => ?_⟩
      exact .inl (Prod.mk.inj (Option.some.inj hat')).2.symm
  | @sendGoesOn fd res ret answers op op' resolve hat hevent =>
      have hwhole : torn = false → op'.Wf ∧ op.put res ret ++ op'.remaining = op.remaining :=
        fun htorn => ((h.ready htorn).wf _ _ hat).goes_on hevent
      refine ⟨h.put hat (fun htorn => ?_) (fun htorn => ⟨_, (hwhole htorn).2⟩), fun htorn => ?_⟩
      · simpa [bytesPut, hat] using hspare htorn
      · obtain ⟨hwf, hrest⟩ := hwhole (Bool.or_eq_false_iff.mp htorn).1
        exact (hready htorn).goes_on hstaged hat hwf hrest
  | @helloUnsent fd res ret answers op resolve hat hhello e hevent =>
      have hactive : l.active = none := (hstage.sends _ _ hat).mp hhello
      refine ⟨h.resolved hat hevent hspare, fun htorn => ?_⟩
      refine ⟨by simp, by simp, by simp, ?_, ?_, by simp [hstaged.unqueued hactive]⟩
      · intro op' hrecv
        exact absurd (hstaged.reads_only hat hrecv) (by simp)
      · intro op' peer hrecv
        exact absurd (hstaged.reads_only hat hrecv) (by simp)
  | sessionIn hat hevent =>
      refine ⟨h.resolved hat hevent hspare, fun htorn => ?_⟩
      obtain ⟨hello, hmem, hwritten⟩ := (hready htorn).hello_sent hat trivial hevent
      exact ready_of_entered rfl rfl rfl hmem hwritten
  | notifySent hat hevent =>
      have hactive : l.active = none := (hstage.sends _ _ hat).mp trivial
      refine ⟨h.resolved hat hevent hspare, fun htorn => ?_⟩
      exact ⟨by simp, by simp, by simp, by simp,
        fun _ _ _ => (hready htorn).hello_sent hat trivial hevent,
        by simp [hstaged.unqueued hactive]⟩
  | queueAdvances hat hqueue hevent hstarts =>
      exact ⟨h.resolved hat hevent hspare, fun htorn =>
        (hready htorn).advances hstaged hat hqueue hevent hstarts (Bool.or_eq_false_iff.mp htorn).2⟩
  | sendQueued hqueue hwaits =>
      exact ⟨h.unbroken.pushed _, fun htorn => (hready htorn).pushes hqueue _⟩
  | @sendAlone peer msg registers queue send hqueue hstarts =>
      refine ⟨h.unbroken.pushed _, fun htorn => ?_⟩
      obtain ⟨hello, hmem, done, hwritten, hsub⟩ :=
        (hready htorn).idle hqueue (hstaged.idle hqueue)
      refine hstarts.ready rfl rfl (fun op resolve hrecv => ?_) hmem hwritten ?_
      · exact (hstage.reads op resolve hrecv).mpr (hstage.queued.mp (by rw [hqueue]; simp))
      · simpa using hsub.append_right [msg]
  | @destroyed token ok recv send hrecv hsend =>
      have hrecv' : ∀ op resolve, recv = some (op, resolve) → l.recv = some (op, resolve) :=
        fun _ _ => PartialMap.eq_some_of_kept hrecv
      have hsend' : ∀ op resolve, send = some (op, resolve) → l.send = some (op, resolve) :=
        fun _ _ => PartialMap.eq_some_of_kept hsend
      refine ⟨h.unbroken, fun htorn => ?_⟩
      exact ⟨fun op resolve hat => (hready htorn).wf op resolve (hsend' _ _ hat),
        fun op resolve hat => (hready htorn).hello op resolve (hsend' _ _ hat),
        fun op parcel hat => (hready htorn).queued op parcel (hsend' _ _ hat),
        fun op hat => (hready htorn).incoming op (hrecv' _ _ hat),
        fun op peer hat => (hready htorn).outgoing op peer (hrecv' _ _ hat),
        fun hqueue _ => (hready htorn).idle hqueue (hstaged.idle hqueue)⟩

theorem Framed.mono (h : l.Framed node order torn) {torn' : Bool}
    (himp : torn' = false → torn = false) : l.Framed node order torn' :=
  ⟨h.unbroken, fun htorn => h.ready (himp htorn)⟩

end Life

namespace Sending

variable {s s' : Sending} {event : Event}

/-- Every socket is framed, and those to come are new. -/
structure Sound (s : Sending) : Prop where
  manager : s.manager.Sound
  fresh : ∀ sock, s.manager.io.nextSock ≤ sock → s.manager.snapshot.life sock = .new
  framed : ∀ sock,
    (s.manager.snapshot.life sock).Framed s.manager.self s.manager.io.order (s.torn sock)

theorem init_sound (self : PeerId) (order : ByteOrder) : (init self order).Sound := by
  have hnew : ∀ sock, (init self order).manager.snapshot.life sock = .new := fun sock =>
    Snapshot.life_of_closed fun fd hfd =>
      absurd hfd (by simp [init, ConnectionManager.snapshot, ConnectionManager.init, Io.init])
  refine ⟨ConnectionManager.init_sound self order, fun sock _ => hnew sock, fun sock => ?_⟩
  rw [hnew]
  exact Life.new_framed _ _ _

/-- A socket that an event takes a step on is the socket of the event, unless the event has none. -/
theorem Sound.own (h : s.Sound) {sock : Sock}
    (hheld : ∀ fd ∈ event.fd, s.manager.snapshot.fds fd = some sock) :
    (∀ send, bytesPut send event = [] ∧ tears s.manager.io.order send event = false) ∨
      s.manager.socketOf event = some sock ∧
      (s.manager.snapshot.life sock).send = s.manager.sendOf event := by
  cases hfd : event.fd with
  | none =>
      refine .inl fun send => ?_
      cases event with
      | writable => exact absurd hfd (by simp [Event.fd])
      | _ => exact ⟨rfl, rfl⟩
  | some fd =>
      have hsock := hheld fd (by rw [hfd]; rfl)
      refine .inr ⟨by rw [ConnectionManager.socketOf, hfd]; exact hsock, ?_⟩
      rw [h.manager.ok.life_of_held hsock, ConnectionManager.sendOf, hfd]
      rfl

theorem Sound.step (h : s.Sound) (hspares : s.Spares event) (hstep : s.step event = some s') :
    s'.Sound := by
  obtain ⟨w, hmanager, rfl⟩ := Option.map_eq_some_iff.mp hstep
  obtain ⟨hsound, hmove⟩ := h.manager.step hmanager
  have hmoves := h.manager.ok.move_life hmove
  have hself : w.self = s.manager.self := hmoves.self
  have horder : w.io.order = s.manager.io.order := hmoves.order
  refine ⟨hsound, fun sock => hmoves.fresh h.fresh, fun sock => ?_⟩
  dsimp only
  rw [hself, horder]
  rcases hmoves.life with ⟨-, hlives⟩ | ⟨-, hothers, hborn⟩
  · obtain ⟨l, hl, hlife⟩ := hlives sock
    have hframed :
        l.Framed s.manager.self s.manager.io.order
          (s.torn sock || (s.manager.socketOf event
            = some sock && tears s.manager.io.order (s.manager.sendOf event) event)) := by
      rcases hl with rfl | ⟨hlstep, hheld⟩
      · exact (h.framed sock).mono fun htorn => (Bool.or_eq_false_iff.mp htorn).1
      · have hstaged := Life.staged h.manager.ok sock
        rcases h.own hheld with hnone | ⟨hsocket, hsend⟩
        · have hdone := (h.framed sock).step hstaged hlstep fun _ => (hnone _).1
          exact hdone.mono fun htorn => by
            rw [(Bool.or_eq_false_iff.mp htorn).1, (hnone _).2]
            rfl
        · have hdone := (h.framed sock).step hstaged hlstep fun htorn => by
            rw [hsend]
            exact hspares sock hsocket htorn
          rw [hsend] at hdone
          simpa [hsocket] using hdone
    rcases hlife with hlife | hlife
    · rw [hlife]
      exact hframed
    · rw [hlife]
      exact hframed.closed
  · by_cases hsock : sock = s.manager.snapshot.nextSock
    · subst hsock
      rw [show s.manager.snapshot.life s.manager.snapshot.nextSock
        = .new from h.fresh _ (Nat.le_refl _)] at hborn
      exact hborn.framed.mono fun _ => rfl
    · rw [hothers sock hsock]
      exact (h.framed sock).mono fun htorn => (Bool.or_eq_false_iff.mp htorn).1

theorem Sound.intact (h : s.Sound) : s.FramesIntact := by
  intro sock
  obtain ⟨hwritten, -, hpushed, -⟩ := s.manager.snapshot.life_logs sock
  have hunbroken := (h.framed sock).unbroken
  rw [hwritten, hpushed] at hunbroken
  exact hunbroken

end Sending

end Diplom
