import Diplom.Proof.Delivery
import Diplom.Spec.Arrival

/-!
# All that is sent arrives

A sender reports a message with the event that puts the last byte of its frame on the socket. So the
bytes of a socket are a hello, the frames of what has been sent, and a part of at most one frame
more. A reader cuts the same bytes into a hello, the frames of what it has passed on, and a rest
that is no frame, and there is one way only to cut them. Here too a node's calls overlap none of
its callbacks.
-/

namespace Diplom

open ConnectionManager (Event Answers)

namespace Life

variable {node : PeerId} {order : ByteOrder} {hello : Message} {torn : Bool} {l l' : Life}
  {event : Event} {sent : List Message}

/-- A beginning of the hello, or the hello, the frames of what has been sent and a part of one that
is still queued. -/
inductive Trail (order : ByteOrder) (hello : Message) (written : List Byte) (pushed : List Parcel) :
    List Message → Prop
  | early (h : written <+: frame order hello) : Trail order hello written pushed []
  | later (sent rest : List Message) (part : List Byte)
      (hqueued : (sent ++ rest).Sublist (pushed.map Parcel.body))
      (hpart : (uint32 order).PartOf part rest)
      (h : written = (uint32 order).frames (hello :: sent) ++ part) :
      Trail order hello written pushed sent

theorem Trail.sublist {written : List Byte} {pushed : List Parcel}
    (h : Trail order hello written pushed sent) : sent.Sublist (pushed.map Parcel.body) := by
  cases h with
  | early => exact List.nil_sublist _
  | later _ rest part hqueued => exact (List.sublist_append_left _ _).trans hqueued

theorem Trail.pushed {written : List Byte} {pushed : List Parcel}
    (h : Trail order hello written pushed sent) (more : List Parcel) :
    Trail order hello written (pushed ++ more) sent := by
  cases h with
  | early h => exact .early h
  | later _ rest part hqueued hpart h =>
      refine .later sent rest part (hqueued.trans ?_) hpart h
      rw [List.map_append]
      exact List.sublist_append_left _ _

theorem trail_whole {written : List Byte} {pushed : List Parcel}
    (hqueued : sent.Sublist (pushed.map Parcel.body))
    (h : written = (uint32 order).frames (hello :: sent)) :
    Trail order hello written pushed sent := by
  refine .later sent [] [] ?_ rfl ?_
  · rwa [List.append_nil]
  · rw [h, List.append_nil]

/-- What a socket carries, with what is still to go out on it. -/
structure Posted (order : ByteOrder) (hello : Message) (torn : Bool) (l : Life)
    (sent : List Message) : Prop where
  trail : Trail order hello l.written l.pushed sent
  unentered : l.recorded = [] → sent = []
  wf : ∀ op resolve, l.send = some (op, resolve) → op.Wf
  greets : torn = false → ∀ op resolve, l.send = some (op, resolve) → resolve.IsHello →
    l.written ++ op.remaining = frame order hello
  awaits : torn = false → ∀ op peer, l.recv = some (op, .outgoingAnswer peer) →
    l.written = frame order hello
  queued : torn = false → ∀ op parcel, l.send = some (op, .queued parcel) → ∃ part rest,
    l.queue = some (parcel.movedOut :: rest) ∧
    l.written = (uint32 order).frames (hello :: sent) ++ part ∧
    part ++ op.remaining = frame order parcel.body ∧
    (sent ++ (parcel :: rest).map Parcel.body).Sublist (l.pushed.map Parcel.body)
  idle : torn = false → l.queue = some [] → l.send = none →
    l.written = (uint32 order).frames (hello :: sent)

theorem new_posted (order : ByteOrder) (hello : Message) (torn : Bool) :
    new.Posted order hello torn [] := by
  refine ⟨.early List.nil_prefix, ?_, ?_, ?_, ?_, ?_, ?_⟩ <;> simp [new]

theorem Posted.closed (h : l.Posted order hello torn sent) :
    l.closed.Posted order hello torn sent := by
  refine ⟨h.trail, h.unentered, ?_, ?_, ?_, ?_, ?_⟩ <;> simp [Life.closed]

theorem Posted.mono (h : l.Posted order hello torn sent) {torn' : Bool}
    (himp : torn' = false → torn = false) : l.Posted order hello torn' sent :=
  ⟨h.trail, h.unentered, h.wf, fun ht => h.greets (himp ht), fun ht => h.awaits (himp ht),
    fun ht => h.queued (himp ht), fun ht => h.idle (himp ht)⟩

theorem Born.fd_none (h : Born node order l event l') : event.fd = none := by
  cases h <;> rfl

theorem Born.posted (h : Born node order new event l) :
    ∃ hello ∈ hellos node, l.Posted order hello false [] := by
  refine ⟨_, List.mem_cons_self, ?_⟩
  have hnew := new_posted order (HelloMsg.make node helloNotify).serialize false
  cases h with
  | accepted =>
      exact ⟨hnew.trail, hnew.unentered, hnew.wf, hnew.greets, by simp, hnew.queued, hnew.idle⟩
  | acceptUnwatched => exact hnew
  | dialUnwatched => exact hnew
  | dialed =>
      refine ⟨hnew.trail, hnew.unentered, ?_, ?_, hnew.awaits, by simp, by simp⟩
      · intro op resolve hat
        obtain ⟨rfl, -⟩ := Prod.mk.inj (Option.some.inj hat)
        exact SendOp.start_wf order (hello_ne_nil _ _)
      · intro _ op resolve hat _
        obtain ⟨rfl, -⟩ := Prod.mk.inj (Option.some.inj hat)
        rw [SendOp.start_remaining]
        rfl

theorem Posted.recv (h : l.Posted order hello torn sent) {recv : Option (RecvOp × OnMessage)}
    (taken : List Byte)
    (hrecv : ∀ op resolve, recv = some (op, resolve) → resolve = .readMessage ∨ ∃ op',
      l.recv = some (op', resolve)) :
    { l with recv := recv, taken := taken }.Posted order hello torn sent := by
  refine ⟨h.trail, h.unentered, h.wf, h.greets, fun ht op peer hat => ?_, h.queued, h.idle⟩
  rcases hrecv op _ hat with hread | ⟨op', hold⟩
  · exact absurd hread (by simp)
  · exact h.awaits ht op' peer hold

theorem Starts.posted {rest queue : List Parcel} {send : Option (SendOp × OnSent)}
    (h : Starts order rest queue send) (hqueue : l.queue = some queue) (hsend : l.send = send)
    (hrecv : ∀ op resolve, l.recv = some (op, resolve) → resolve = .readMessage)
    (hentered : l.recorded = [] → sent = [])
    (htrail : torn = true → Trail order hello l.written l.pushed sent)
    (hwritten : torn = false → l.written = (uint32 order).frames (hello :: sent) ∧
      (sent ++ rest.map Parcel.body).Sublist (l.pushed.map Parcel.body)) :
    l.Posted order hello torn sent := by
  have htrail : Trail order hello l.written l.pushed sent := by
    cases htorn : torn with
    | true => exact htrail htorn
    | false =>
        obtain ⟨hframes, hsub⟩ := hwritten htorn
        exact trail_whole ((List.sublist_append_left _ _).trans hsub) hframes
  have hawaits : torn = false → ∀ op peer, l.recv = some (op, .outgoingAnswer peer) →
      l.written = frame order hello :=
    fun _ op peer hat => absurd (hrecv op _ hat) (by simp)
  cases h with
  | idle skipped =>
      refine ⟨htrail, hentered, ?_, ?_, hawaits, ?_, fun ht _ _ => (hwritten ht).1⟩
      · simp [hsend]
      · simp [hsend]
      · simp [hsend]
  | aborts skipped parcel rest =>
      refine ⟨htrail, hentered, ?_, ?_, hawaits, ?_, fun ht _ _ => (hwritten ht).1⟩
      · simp [hsend]
      · simp [hsend]
      · simp [hsend]
  | starts skipped parcel rest hlength =>
      have hbody : parcel.body ≠ [] := by
        intro hnil
        exact hlength (by rw [hnil]; rfl)
      refine ⟨htrail, hentered, ?_, ?_, hawaits, ?_, ?_⟩
      · intro op resolve hat
        obtain ⟨rfl, -⟩ := Prod.mk.inj (Option.some.inj (hsend.symm.trans hat))
        exact SendOp.start_wf order hbody
      · intro _ op resolve hat hhello
        obtain ⟨-, rfl⟩ := Prod.mk.inj (Option.some.inj (hsend.symm.trans hat))
        exact absurd hhello id
      · intro ht op parcel' hat
        obtain ⟨rfl, hparcel⟩ := Prod.mk.inj (Option.some.inj (hsend.symm.trans hat))
        obtain rfl := OnSent.queued.inj hparcel
        obtain ⟨hframes, hsub⟩ := hwritten ht
        refine ⟨[], rest, hqueue, ?_, ?_, List.Sublist.trans ?_ hsub⟩
        · rw [hframes, List.append_nil]
        · rw [SendOp.start_remaining, List.nil_append]
        · rw [List.map_append]
          exact List.Sublist.append_left (List.sublist_append_right _ _) sent
      · simp [hsend]

theorem sentBy_queued {fd : Fd} {res : EpollResult} {ret : SendReturn} {answers : Answers}
    {op : SendOp} {parcel : Parcel} (hat : l.send = some (op, .queued parcel)) :
    sentBy l.send (.writable fd res ret answers) =
      if op.event res ret = .resolved (.ok ()) then [parcel.body] else [] := by
  rw [hat]
  simp only [sentBy]
  split
  · rename_i hevent
    rw [if_pos hevent]
  · rename_i hnone
    rw [if_neg fun hevent => hnone () hevent]

theorem sentBy_hello {op : SendOp} {resolve : OnSent} (hat : l.send = some (op, resolve))
    (hhello : resolve.IsHello) (event : Event) : sentBy l.send event = [] := by
  rw [hat]
  cases event with
  | writable =>
      cases resolve with
      | queued => exact absurd hhello id
      | _ => rfl
  | _ => rfl

theorem Posted.greeted (h : l.Posted order hello torn sent) {op : SendOp} {resolve : OnSent}
    (hat : l.send = some (op, resolve)) (hhello : resolve.IsHello) (hnone : sent = [])
    {bytes : List Byte} (hspare : torn = true → bytes = []) (hdue : bytes <+: op.remaining) :
    Trail order hello (l.written ++ bytes) l.pushed sent := by
  cases htorn : torn with
  | true =>
      rw [hspare htorn, List.append_nil]
      exact h.trail
  | false =>
      subst hnone
      refine .early ?_
      rw [← h.greets htorn op resolve hat hhello]
      exact (List.prefix_append_right_inj _).mpr hdue

/-- The last event of an operation puts on the socket what was left, or nothing. -/
theorem Posted.due (h : l.Posted order hello torn sent) {op : SendOp} {resolve : OnSent}
    (hat : l.send = some (op, resolve)) {res : EpollResult} {ret : SendReturn}
    {result : IoResult Unit} (hevent : op.event res ret = .resolved result) :
    op.put res ret <+: op.remaining := by
  rcases (h.wf _ _ hat).ends hevent with ⟨-, hput⟩ | ⟨-, hput⟩
  · rw [hput]
  · rw [hput]
    exact List.nil_prefix

theorem Posted.fails (h : l.Posted order hello torn sent) {op : SendOp} {resolve : OnSent}
    (hat : l.send = some (op, resolve)) {fd : Fd} {res : EpollResult} {ret : SendReturn}
    {answers : Answers} (hspare : bytesPut l.send (.writable fd res ret answers) = []) :
    op.event res ret ≠ .resolved (.ok ()) ∧ op.put res ret = [] := by
  have hput : op.put res ret = [] := by simpa [bytesPut, hat] using hspare
  refine ⟨fun hevent => ?_, hput⟩
  rcases (h.wf _ _ hat).ends hevent with ⟨-, hall⟩ | ⟨⟨e, he⟩, -⟩
  · exact (h.wf _ _ hat).remaining_ne_nil (hall.symm.trans hput)
  · exact absurd he (by simp)

theorem Posted.unsent (h : l.Posted order hello torn sent) {got : List (PeerId × Message)}
    (hlistener : l.Listener order got) {op : SendOp} {resolve : OnSent}
    (hat : l.send = some (op, resolve)) (hhello : resolve.IsHello) : sent = [] := by
  apply h.unentered
  cases resolve with
  | helloAnswer peer => exact (hlistener.answers op peer hat).2
  | helloNotify peer => exact (hlistener.notifies op peer hat).2
  | queued parcel => exact absurd hhello id

theorem Posted.hello_goes_on (h : l.Posted order hello torn sent) (hstaged : l.Staged)
    {op op' : SendOp} {resolve : OnSent} (hat : l.send = some (op, resolve))
    (hhello : resolve.IsHello) (hnone : sent = []) (hwf : op'.Wf) {bytes : List Byte}
    (hspare : torn = true → bytes = []) (hrest : bytes ++ op'.remaining = op.remaining) :
    { l with send := some (op', resolve), written := l.written ++ bytes }.Posted order hello torn
      sent := by
  refine ⟨h.greeted hat hhello hnone hspare ⟨_, hrest⟩, h.unentered, ?_, ?_, ?_, ?_, by simp⟩
  · intro op'' resolve' hat'
    obtain ⟨rfl, -⟩ := Prod.mk.inj (Option.some.inj hat')
    exact hwf
  · intro ht op'' resolve' hat' _
    obtain ⟨rfl, -⟩ := Prod.mk.inj (Option.some.inj hat')
    rw [List.append_assoc, hrest]
    exact h.greets ht op resolve hat hhello
  · intro _ op'' peer hrecv
    exact absurd (hstaged.reads_only hat hrecv) (by simp)
  · intro _ op'' parcel hat'
    obtain ⟨-, rfl⟩ := Prod.mk.inj (Option.some.inj hat')
    exact absurd hhello id

theorem Posted.message_goes_on (h : l.Posted order hello torn sent) (hstaged : l.Staged)
    {op op' : SendOp} {parcel : Parcel} (hat : l.send = some (op, .queued parcel)) (hwf : op'.Wf)
    {bytes : List Byte} (hspare : torn = true → bytes = [])
    (hrest : bytes ++ op'.remaining = op.remaining) :
    { l with send := some (op', .queued parcel), written := l.written ++ bytes }.Posted order hello
      torn sent := by
  have hqueued : torn = false → ∃ part rest,
      l.queue = some (parcel.movedOut :: rest) ∧
      l.written ++ bytes = (uint32 order).frames (hello :: sent) ++ part ∧
      part ++ op'.remaining = frame order parcel.body ∧
      (sent ++ (parcel :: rest).map Parcel.body).Sublist (l.pushed.map Parcel.body) := by
    intro ht
    obtain ⟨part, rest, hqueue, hwritten, hpart, hsub⟩ := h.queued ht op parcel hat
    refine ⟨part ++ bytes, rest, hqueue, ?_, ?_, hsub⟩
    · rw [hwritten, List.append_assoc]
    · rw [List.append_assoc, hrest, hpart]
  refine ⟨?_, h.unentered, ?_, ?_, ?_, ?_, by simp⟩
  · cases htorn : torn with
    | true =>
        rw [hspare htorn, List.append_nil]
        exact h.trail
    | false =>
        obtain ⟨part, rest, -, hwritten, hpart, hsub⟩ := hqueued htorn
        refine .later sent _ part hsub ⟨⟨_, hpart⟩, fun heq => hwf.remaining_ne_nil ?_⟩ hwritten
        rw [show part = (uint32 order).frame parcel.body from heq] at hpart
        exact List.append_right_eq_self.mp hpart
  · intro op'' resolve' hat'
    obtain ⟨rfl, -⟩ := Prod.mk.inj (Option.some.inj hat')
    exact hwf
  · intro _ op'' resolve' hat' hhello
    obtain ⟨-, rfl⟩ := Prod.mk.inj (Option.some.inj hat')
    exact absurd hhello id
  · intro _ op'' peer hrecv
    exact absurd (hstaged.reads_only hat hrecv) (by simp)
  · intro ht op'' parcel' hat'
    obtain ⟨rfl, hparcel⟩ := Prod.mk.inj (Option.some.inj hat')
    obtain rfl := OnSent.queued.inj hparcel
    exact hqueued ht

theorem Posted.advances (h : l.Posted order hello torn sent) (hstaged : l.Staged) {op : SendOp}
    {parcel front : Parcel} {rest queue : List Parcel} {send : Option (SendOp × OnSent)}
    (hat : l.send = some (op, .queued parcel)) (hqueue : l.queue = some (front :: rest))
    {fd : Fd} {res : EpollResult} {ret : SendReturn} {answers : Answers} {result : IoResult Unit}
    (hevent : op.event res ret = .resolved result) (hstarts : Starts order rest queue send)
    (hspare : torn = true → bytesPut l.send (.writable fd res ret answers) = [])
    (hentered : l.recorded ≠ []) :
    { l with send := send, written := l.written ++ op.put res ret, queue := some queue }.Posted
      order hello (torn || tears order l.send (.writable fd res ret answers))
      (sent ++ sentBy l.send (.writable fd res ret answers)) := by
  have hreads : ∀ op' resolve, l.recv = some (op', resolve) → resolve = .readMessage :=
    fun op' resolve hrecv => hstaged.reads_only hat hrecv
  rw [sentBy_queued hat]
  by_cases hdone : op.event res ret = .resolved (.ok ())
  · rw [if_pos hdone]
    have htorn : torn = false := by
      by_contra htorn
      exact (h.fails hat (hspare (by simpa using htorn))).1 hdone
    obtain ⟨part, rest', hqueue', hwritten, hpart, hsub⟩ := h.queued htorn op parcel hat
    obtain ⟨-, rfl⟩ := List.cons.inj (Option.some.inj (hqueue.symm.trans hqueue'))
    have hput : op.put res ret = op.remaining := by
      rcases (h.wf _ _ hat).ends hdone with ⟨-, hput⟩ | ⟨⟨e, he⟩, -⟩
      · exact hput
      · exact absurd he (by simp)
    have hwhole : l.written ++ op.put res ret
        = (uint32 order).frames (hello :: (sent ++ [parcel.body])) := by
      rw [hput, hwritten, List.append_assoc, hpart, ← List.cons_append, LengthCode.frames_append]
      simp [frame]
    have hsub' : (sent ++ [parcel.body] ++ rest.map Parcel.body).Sublist
        (l.pushed.map Parcel.body) := by
      rw [List.append_assoc]
      exact hsub
    refine hstarts.posted rfl rfl hreads (fun hnone => absurd hnone hentered) ?_
      fun _ => ⟨hwhole, hsub'⟩
    intro _
    exact trail_whole ((List.sublist_append_left _ _).trans hsub') hwhole
  · rw [if_neg hdone, List.append_nil]
    have hput : op.put res ret = [] := by
      rcases (h.wf _ _ hat).ends hevent with ⟨rfl, -⟩ | ⟨-, hput⟩
      · exact absurd hevent hdone
      · exact hput
    obtain ⟨e, rfl⟩ : ∃ e, result = .err e := by
      rcases (h.wf _ _ hat).ends hevent with ⟨rfl, -⟩ | ⟨he, -⟩
      · exact absurd hevent hdone
      · exact he
    refine hstarts.posted rfl rfl hreads (fun hnone => absurd hnone hentered) ?_ fun ht => ?_
    · intro _
      dsimp only
      rw [hput, List.append_nil]
      exact h.trail
    · obtain ⟨htorn, htears⟩ := Bool.or_eq_false_iff.mp ht
      obtain ⟨part, rest', hqueue', hwritten, hpart, hsub⟩ := h.queued htorn op parcel hat
      obtain ⟨-, rfl⟩ := List.cons.inj (Option.some.inj (hqueue.symm.trans hqueue'))
      -- nothing of the frame has gone out before this event either
      have hfresh : op.remaining = frame order parcel.body := by
        simpa [tears, hat, hevent] using htears
      obtain rfl : part = [] := by
        rw [hfresh] at hpart
        exact List.append_left_eq_self.mp hpart
      dsimp only
      rw [hput, List.append_nil, hwritten, List.append_nil]
      refine ⟨rfl, List.Sublist.trans ?_ hsub⟩
      exact List.Sublist.append_left (List.sublist_cons_self _ _) sent

private theorem Posted.quiet {event : Event} (htears : tears order l.send event = false)
    (hsent : sentBy l.send event = []) (h : l'.Posted order hello torn sent) :
    l'.Posted order hello (torn || tears order l.send event) (sent ++ sentBy l.send event) := by
  rw [htears, hsent, Bool.or_false, List.append_nil]
  exact h

theorem Posted.answers (h : l.Posted order hello torn sent) (hmem : hello ∈ hellos node)
    (hqueue : l.queue = none) (hnone : sent = []) (hwritten : torn = false → l.written = [])
    (peer : PeerId) (taken : List Byte) :
    ∃ hello ∈ hellos node, { l with
      recv := none
      taken := taken
      send := some (.start order (HelloMsg.make node helloAnswer).serialize,
        .helloAnswer peer) }.Posted order hello torn sent := by
  have hnew : ∀ hello, Trail order hello l.written l.pushed sent →
      (torn = false → hello = (HelloMsg.make node helloAnswer).serialize) →
      { l with
        recv := none
        taken := taken
        send := some (.start order (HelloMsg.make node helloAnswer).serialize,
          .helloAnswer peer) }.Posted order hello torn sent := by
    intro hello htrail hanswer
    refine ⟨htrail, h.unentered, ?_, ?_, by simp, by simp, by simp [hqueue]⟩
    · intro op resolve hat
      obtain ⟨rfl, -⟩ := Prod.mk.inj (Option.some.inj hat)
      exact SendOp.start_wf order (hello_ne_nil _ _)
    · intro ht op resolve hat _
      obtain ⟨rfl, -⟩ := Prod.mk.inj (Option.some.inj hat)
      obtain rfl := hanswer ht
      rw [SendOp.start_remaining, hwritten ht, List.nil_append]
  cases htorn : torn with
  | true =>
      rw [htorn] at hnew
      exact ⟨hello, hmem, hnew hello h.trail (by simp)⟩
  | false =>
      rw [htorn] at hnew
      refine ⟨_, List.mem_cons_of_mem _ List.mem_cons_self, hnew _ ?_ fun _ => rfl⟩
      rw [hwritten htorn, hnone]
      exact .early List.nil_prefix

theorem Posted.enters_out (h : l.Posted order hello torn sent) {op : RecvOp} {peer : PeerId}
    (hat : l.recv = some (op, .outgoingAnswer peer)) (hsend : l.send = none) (hnone : sent = [])
    (taken : List Byte) :
    { l with
      recv := some (.start, .readMessage)
      taken := taken
      active := some (peer, .outgoing)
      queue := some []
      recorded := l.recorded ++ [(peer, LinkDirection.outgoing)] }.Posted order hello torn
        sent := by
  refine (Starts.idle []).posted rfl hsend ?_ (by simp) (fun _ => h.trail) fun ht => ?_
  · intro op' resolve hat'
    exact (Prod.mk.inj (Option.some.inj hat')).2.symm
  · rw [hnone]
    refine ⟨?_, List.nil_sublist _⟩
    dsimp only
    rw [h.awaits ht op peer hat]
    simp [frame]

theorem Posted.send_goes_on {got : List (PeerId × Message)} (h : l.Posted order hello torn sent)
    (hstaged : l.Staged) (hlistener : l.Listener order got) {op op' : SendOp} {resolve : OnSent}
    {fd : Fd} {res : EpollResult} {ret : SendReturn} {answers : Answers}
    (hat : l.send = some (op, resolve))
    (hevent : op.event res ret = .waiting op' ∨ op.event res ret = .next op')
    (hspare : torn = true → op.put res ret = []) :
    { l with send := some (op', resolve), written := l.written ++ op.put res ret }.Posted order
      hello (torn || tears order l.send (.writable fd res ret answers))
      (sent ++ sentBy l.send (.writable fd res ret answers)) := by
  obtain ⟨hwf, hrest⟩ := (h.wf _ _ hat).goes_on hevent
  have hnotDone : ∀ result, op.event res ret ≠ .resolved result := by
    intro result hresult
    rcases hevent with hevent | hevent <;> exact absurd (hevent.symm.trans hresult) (by simp)
  by_cases hhello : resolve.IsHello
  · have hnone := h.unsent hlistener hat hhello
    rw [sentBy_hello hat hhello, List.append_nil]
    exact (h.hello_goes_on hstaged hat hhello hnone hwf hspare hrest).mono
      fun ht => (Bool.or_eq_false_iff.mp ht).1
  · cases resolve with
    | helloAnswer peer => exact absurd trivial hhello
    | helloNotify peer => exact absurd trivial hhello
    | queued parcel =>
        rw [sentBy_queued hat, if_neg (hnotDone _), List.append_nil]
        exact (h.message_goes_on hstaged hat hwf hspare hrest).mono
          fun ht => (Bool.or_eq_false_iff.mp ht).1

theorem Posted.hello_ends (h : l.Posted order hello torn sent) (hstaged : l.Staged) {op : SendOp}
    {resolve : OnSent} {res : EpollResult} {ret : SendReturn} {result : IoResult Unit}
    (hat : l.send = some (op, resolve)) (hhello : resolve.IsHello) (hqueue : l.queue = none)
    (hnone : sent = []) (hevent : op.event res ret = .resolved result)
    (hspare : torn = true → op.put res ret = []) {recv : Option (RecvOp × OnMessage)}
    (hrecv : recv = l.recv ∨ result = .ok ()) :
    { l with send := none, written := l.written ++ op.put res ret, recv := recv }.Posted order hello
      torn sent := by
  refine ⟨h.greeted hat hhello hnone hspare (h.due hat hevent), h.unentered, by simp, by simp, ?_,
    by simp, by simp [hqueue]⟩
  intro ht op' peer hat'
  rcases hrecv with rfl | rfl
  · exact absurd (hstaged.reads_only hat hat') (by simp)
  · rcases (h.wf _ _ hat).ends hevent with ⟨-, hput⟩ | ⟨⟨e, he⟩, -⟩
    · rw [hput, h.greets ht _ _ hat hhello]
    · exact absurd he (by simp)

theorem Posted.enters_in (h : l.Posted order hello torn sent) {op : SendOp} {peer : PeerId}
    {res : EpollResult} {ret : SendReturn} (hat : l.send = some (op, .helloAnswer peer))
    (hnone : sent = []) (hevent : op.event res ret = .resolved (.ok ()))
    (hspare : torn = true → op.put res ret = []) :
    { l with
      send := none
      written := l.written ++ op.put res ret
      recv := some (.start, .readMessage)
      active := some (peer, .incoming)
      queue := some []
      recorded := l.recorded ++ [(peer, LinkDirection.incoming)] }.Posted order hello torn
        sent := by
  refine (Starts.idle []).posted rfl rfl ?_ (by simp) (fun _ => ?_) fun ht => ?_
  · intro op' resolve hat'
    exact (Prod.mk.inj (Option.some.inj hat')).2.symm
  · exact h.greeted hat trivial hnone hspare (h.due hat hevent)
  · have hput : op.put res ret = op.remaining := by
      rcases (h.wf _ _ hat).ends hevent with ⟨-, hput⟩ | ⟨⟨e, he⟩, -⟩
      · exact hput
      · exact absurd he (by simp)
    rw [hnone]
    refine ⟨?_, List.nil_sublist _⟩
    dsimp only
    rw [hput, h.greets ht _ _ hat trivial]
    simp [frame]

theorem Posted.pushes (h : l.Posted order hello torn sent) {queue : List Parcel}
    (hqueue : l.queue = some queue) (parcel : Parcel) :
    { l with
      queue := some (queue ++ [parcel])
      pushed := l.pushed ++ [parcel] }.Posted order hello torn sent := by
  refine ⟨h.trail.pushed _, h.unentered, h.wf, h.greets, h.awaits, ?_, by simp⟩
  intro ht op first hat
  obtain ⟨part, rest, hqueue', hwritten, hpart, hsub⟩ := h.queued ht op first hat
  obtain rfl := Option.some.inj (hqueue.symm.trans hqueue')
  refine ⟨part, rest ++ [parcel], rfl, hwritten, hpart, ?_⟩
  simpa using hsub.append_right [parcel.body]

theorem Posted.step {got : List (PeerId × Message)} (h : l.Posted order hello torn sent)
    (hmem : hello ∈ hellos node) (hstaged : l.Staged) (hframed : l.Framed node order torn)
    (hlistener : l.Listener order got) (hstep : Step node order l event l')
    (hspare : torn = true → bytesPut l.send event = []) :
    ∃ hello ∈ hellos node, l'.Posted order hello (torn || tears order l.send event)
      (sent ++ sentBy l.send event) := by
  obtain ⟨sock, hstage⟩ := hstaged
  have hstaged : l.Staged := ⟨sock, hstage⟩
  have hput : ∀ {op resolve fd res ret answers}, l.send = some (op, resolve) →
      event = .writable fd res ret answers → torn = true → op.put res ret = [] := by
    intro op resolve fd res ret answers hat hevent ht
    have hbytes := hspare ht
    rw [hevent] at hbytes
    simpa [bytesPut, hat] using hbytes
  cases hstep with
  | @recvGoesOn fd res ret answers op op' resolve hat hevent =>
      refine ⟨hello, hmem, .quiet rfl rfl (h.recv _ ?_)⟩
      intro op'' resolve' hat'
      obtain ⟨-, rfl⟩ := Prod.mk.inj (Option.some.inj hat')
      exact .inr ⟨op, hat⟩
  | recvEnds op hat => exact ⟨hello, hmem, .quiet rfl rfl (h.recv _ (by simp))⟩
  | messageRead hat hevent =>
      refine ⟨hello, hmem, .quiet rfl rfl (h.recv _ ?_)⟩
      intro op' resolve hat'
      exact .inl (Prod.mk.inj (Option.some.inj hat')).2.symm
  | @helloAnswered fd res ret answers op peer hat hevent =>
      have hqueue : l.queue = none := by
        apply hstaged.unqueued
        by_contra hactive
        exact absurd ((hstage.reads _ _ hat).mpr hactive) (by simp)
      obtain ⟨hello, hmem, hposted⟩ := h.answers hmem hqueue
        (h.unentered (hlistener.exchange op _ hat (by simp)).2.2)
        (fun ht => (hframed.ready ht).incoming _ hat) peer (l.taken ++ ret.bytes res)
      exact ⟨hello, hmem, .quiet rfl rfl hposted⟩
  | @sessionOut fd res ret answers op peer hat hevent =>
      have hnone : sent = [] := h.unentered (hlistener.exchange op _ hat (by simp)).2.2
      have hsend : l.send = none := hstaged.exchange_alone hat (by simp)
      exact ⟨hello, hmem, .quiet rfl rfl (h.enters_out hat hsend hnone _)⟩
  | sendGoesOn hat hevent =>
      exact ⟨hello, hmem, h.send_goes_on hstaged hlistener hat hevent (hput hat rfl)⟩
  | @helloUnsent fd res ret answers op resolve hat hhello e hevent =>
      have hnone := h.unsent hlistener hat hhello
      have hqueue := hstaged.unqueued ((hstage.sends _ _ hat).mp hhello)
      refine ⟨hello, hmem, ?_⟩
      rw [sentBy_hello hat hhello, List.append_nil]
      exact (h.hello_ends hstaged hat hhello hqueue hnone hevent (hput hat rfl) (.inl rfl)).mono
        fun ht => (Bool.or_eq_false_iff.mp ht).1
  | @sessionIn fd res ret answers op peer hat hevent =>
      have hnone := h.unsent hlistener hat trivial
      refine ⟨hello, hmem, ?_⟩
      rw [sentBy_hello hat trivial, List.append_nil]
      exact (h.enters_in hat hnone hevent (hput hat rfl)).mono
        fun ht => (Bool.or_eq_false_iff.mp ht).1
  | @notifySent fd res ret answers op peer hat hevent =>
      have hnone := h.unsent hlistener hat trivial
      have hqueue := hstaged.unqueued ((hstage.sends _ _ hat).mp trivial)
      refine ⟨hello, hmem, ?_⟩
      rw [sentBy_hello hat trivial, List.append_nil]
      exact (h.hello_ends hstaged hat trivial hqueue hnone hevent (hput hat rfl) (.inr rfl)).mono
        fun ht => (Bool.or_eq_false_iff.mp ht).1
  | @queueAdvances fd res ret answers op parcel front rest queue result send hat hqueue hevent
      hstarts =>
      refine ⟨hello, hmem, h.advances hstaged hat hqueue hevent hstarts hspare ?_⟩
      obtain ⟨conn, hactive⟩ := Option.ne_none_iff_exists'.mp
        (hstage.queued.mp (by rw [hqueue]; simp))
      intro hrecorded
      have hconn := hlistener.active conn hactive
      rw [hrecorded] at hconn
      exact absurd hconn List.not_mem_nil
  | @sendQueued peer msg registers queue hqueue hwaits =>
      exact ⟨hello, hmem, .quiet rfl rfl (h.pushes hqueue ⟨peer, msg⟩)⟩
  | @sendAlone peer msg registers queue send hqueue hstarts =>
      refine ⟨hello, hmem, .quiet rfl rfl (hstarts.posted rfl rfl (fun op resolve hrecv => ?_)
        h.unentered (fun _ => h.trail.pushed _) fun ht =>
          ⟨h.idle ht hqueue (hstaged.idle hqueue), ?_⟩)⟩
      · exact (hstage.reads op resolve hrecv).mpr (hstage.queued.mp (by rw [hqueue]; simp))
      · simpa using h.trail.sublist.append_right [msg]
  | @destroyed token ok recv send hrecv hsend =>
      have hrecv' : ∀ op resolve, recv = some (op, resolve) → l.recv = some (op, resolve) :=
        fun _ _ => PartialMap.eq_some_of_kept hrecv
      have hsend' : ∀ op resolve, send = some (op, resolve) → l.send = some (op, resolve) :=
        fun _ _ => PartialMap.eq_some_of_kept hsend
      exact ⟨hello, hmem, .quiet rfl rfl ⟨h.trail, h.unentered,
        fun op resolve hat => h.wf op resolve (hsend' _ _ hat),
        fun ht op resolve hat => h.greets ht op resolve (hsend' _ _ hat),
        fun ht op peer hat => h.awaits ht op peer (hrecv' _ _ hat),
        fun ht op parcel hat => h.queued ht op parcel (hsend' _ _ hat),
        fun ht hqueue _ => h.idle ht hqueue (hstaged.idle hqueue)⟩⟩

end Life

/-! ### Every socket of a manager -/

namespace Snapshot

variable {s s' : Snapshot} {fd : Fd}

theorem QueueRun.written {queue : List Parcel} (h : QueueRun s fd queue s') :
    s'.written = s.written := by
  induction h with
  | refused parcel _ ih => exact ih
  | _ => rfl

theorem Move.written_of_sent {res : EpollResult} {ret : SendReturn} {answers : Answers}
    {op : SendOp} {parcel : Parcel} (h : Move s (.writable fd res ret answers) s')
    (hat : s.sendAt fd = some (op, .queued parcel))
    (hevent : op.event res ret = .resolved (.ok ())) :
    s'.written = appendTo s.written (s.fds fd) (op.put res ret) := by
  cases h with
  | sendGoesOn hat' hevent' =>
      obtain ⟨rfl, rfl⟩ := Prod.mk.inj (Option.some.inj (hat.symm.trans hat'))
      rcases hevent' with hevent' | hevent' <;>
        exact absurd (hevent.symm.trans hevent') (by simp)
  | sendAborts hat' hevent' =>
      obtain ⟨rfl, rfl⟩ := Prod.mk.inj (Option.some.inj (hat.symm.trans hat'))
      exact absurd (hevent.symm.trans hevent') (by simp)
  | answerUnsent hat' => exact absurd (hat.symm.trans hat') (by simp)
  | sessionIn hat' => exact absurd (hat.symm.trans hat') (by simp)
  | notifyUnsent hat' => exact absurd (hat.symm.trans hat') (by simp)
  | notifySent hat' => exact absurd (hat.symm.trans hat') (by simp)
  | notifyUnanswered hat' => exact absurd (hat.symm.trans hat') (by simp)
  | queueAdvances hat' hqueue hevent' hrun =>
      obtain ⟨rfl, -⟩ := Prod.mk.inj (Option.some.inj (hat.symm.trans hat'))
      rw [hrun.written]
      rfl

end Snapshot

/-- Nothing is sent without an event of a sender. -/
theorem sentBy_ne_nil {send : Option (SendOp × OnSent)} {event : Event}
    (h : sentBy send event ≠ []) : ∃ fd res ret answers op parcel,
      event = .writable fd res ret answers ∧ send = some (op, .queued parcel) ∧
      op.event res ret = .resolved (.ok ()) := by
  cases event with
  | writable fd res ret answers =>
      simp only [sentBy] at h
      split at h
      · rename_i op parcel
        split at h
        · rename_i u hevent
          exact ⟨fd, res, ret, answers, op, parcel, rfl, rfl, hevent⟩
        · exact absurd rfl h
      · exact absurd rfl h
  | _ => exact absurd rfl h

namespace Sending

variable {s s' : Sending} {event : Event} {sent : Sock → List Message}

/-- What every socket carries. -/
def Posts (s : Sending) (sent : Sock → List Message) : Prop :=
  ∀ sock, ∃ hello ∈ hellos s.manager.self,
    (s.manager.snapshot.life sock).Posted s.manager.io.order hello (s.torn sock) (sent sock)

theorem init_posts (self : PeerId) (order : ByteOrder) :
    (init self order).Posts fun _ => [] := by
  intro sock
  refine ⟨_, List.mem_cons_self, ?_⟩
  rw [Snapshot.life_of_closed fun fd hfd =>
    absurd hfd (by simp [init, ConnectionManager.snapshot, ConnectionManager.init, Io.init])]
  exact Life.new_posted _ _ _

theorem Posts.idle (h : s.Posts sent) (hs : s.Sound) {w : ConnectionManager}
    (hmove : Snapshot.Move s.manager.snapshot event w.snapshot) {sock : Sock}
    (hwritten : w.io.written sock = s.manager.io.written sock) :
    appendTo sent (s.manager.socketOf event) (sentBy (s.manager.sendOf event) event) sock
      = sent sock := by
  by_cases hsocket : s.manager.socketOf event = some sock
  swap
  · exact appendTo_of_ne sent hsocket _
  rw [hsocket, appendTo_self]
  by_cases hnone : sentBy (s.manager.sendOf event) event = []
  · rw [hnone, List.append_nil]
  · exfalso
    obtain ⟨fd, res, ret, answers, op, parcel, rfl, hat, hevent⟩ := sentBy_ne_nil hnone
    have hsock : s.manager.io.fds fd = some sock := hsocket
    obtain ⟨hello, -, hposted⟩ := h sock
    have hwf : op.Wf := by
      apply hposted.wf op (.queued parcel)
      rw [hs.manager.ok.life_of_held hsock]
      exact hat
    have hmoved : w.io.written
        = appendTo s.manager.io.written (s.manager.io.fds fd) (op.put res ret) :=
      hmove.written_of_sent hat hevent
    rw [hmoved, hsock, appendTo_self] at hwritten
    have hput := List.append_right_eq_self.mp hwritten
    rcases hwf.ends hevent with ⟨-, hall⟩ | ⟨⟨e, he⟩, -⟩
    · exact hwf.remaining_ne_nil (hall.symm.trans hput)
    · exact absurd he (by simp)

theorem Posts.step {t : Listening} (h : s.Posts sent) (hs : s.Sound) (ht : t.Sound)
    (hsame : t.manager = s.manager) (hspares : s.Spares event) (hstep : s.step event = some s') :
    s'.Posts
      (appendTo sent (s.manager.socketOf event) (sentBy (s.manager.sendOf event) event)) := by
  obtain ⟨w, hmanager, rfl⟩ := Option.map_eq_some_iff.mp hstep
  obtain ⟨-, hmove⟩ := hs.manager.step hmanager
  have hmoves := hs.manager.ok.move_life hmove
  have hself : w.self = s.manager.self := hmoves.self
  have horder : w.io.order = s.manager.io.order := hmoves.order
  have hwritten : ∀ {sock : Sock} {l : Life}, w.snapshot.life sock = l →
      w.io.written sock = l.written := fun {sock} _ hl => hl ▸ (w.snapshot.life_logs sock).1.symm
  have hold : ∀ sock, s.manager.io.written sock = (s.manager.snapshot.life sock).written :=
    fun sock => (s.manager.snapshot.life_logs sock).1.symm
  intro sock
  dsimp only
  rw [hself, horder]
  obtain ⟨hello, hmem, hposted⟩ := h sock
  rcases hmoves.life with ⟨-, hlives⟩ | ⟨-, hothers, hborn⟩
  · obtain ⟨l, hl, hlife⟩ := hlives sock
    suffices hgoal : ∃ hello ∈ hellos s.manager.self,
        l.Posted s.manager.io.order hello
          (s.torn sock || (s.manager.socketOf event
            = some sock && tears s.manager.io.order (s.manager.sendOf event) event))
          (appendTo sent (s.manager.socketOf event) (sentBy (s.manager.sendOf event) event)
            sock) by
      obtain ⟨hello, hmem, hdone⟩ := hgoal
      rcases hlife with hlife | hlife
      · exact ⟨hello, hmem, hlife ▸ hdone⟩
      · exact ⟨hello, hmem, hlife ▸ hdone.closed⟩
    rcases hl with rfl | ⟨hlstep, hheld⟩
    · have hstays : w.io.written sock = s.manager.io.written sock := by
        rw [hold]
        rcases hlife with hlife | hlife <;> exact (hwritten hlife).trans rfl
      rw [h.idle hs hmove hstays]
      exact ⟨hello, hmem, hposted.mono fun htorn => (Bool.or_eq_false_iff.mp htorn).1⟩
    · have hlistens := ht.listens sock
      rw [hsame] at hlistens
      have hstaged := Life.staged hs.manager.ok sock
      cases hfd : event.fd with
      | none =>
          have hquiet : ∀ send, bytesPut send event = [] ∧ sentBy send event = [] := by
            intro send
            cases event with
            | writable => exact absurd hfd (by simp [Event.fd])
            | _ => exact ⟨rfl, rfl⟩
          have hsocket : s.manager.socketOf event = none := by
            rw [ConnectionManager.socketOf, hfd]
            rfl
          obtain ⟨hello', hmem', hdone⟩ := hposted.step hmem hstaged (hs.framed sock) hlistens
            hlstep fun _ => (hquiet _).1
          rw [(hquiet _).2, List.append_nil] at hdone
          refine ⟨hello', hmem', ?_⟩
          rw [hsocket]
          exact hdone.mono fun htorn => by
            have htears : tears s.manager.io.order (s.manager.snapshot.life sock).send event
                = false := by
              cases event with
              | writable => exact absurd hfd (by simp [Event.fd])
              | _ => rfl
            rw [(Bool.or_eq_false_iff.mp htorn).1, htears]
            rfl
      | some fd =>
          have hsock : s.manager.io.fds fd = some sock := hheld fd (by rw [hfd]; rfl)
          have hsocket : s.manager.socketOf event = some sock := by
            rw [ConnectionManager.socketOf, hfd]
            exact hsock
          have hsend : (s.manager.snapshot.life sock).send = s.manager.sendOf event := by
            rw [hs.manager.ok.life_of_held hsock, ConnectionManager.sendOf, hfd]
            rfl
          obtain ⟨hello', hmem', hdone⟩ := hposted.step hmem hstaged (hs.framed sock) hlistens
            hlstep fun htorn => by
              rw [hsend]
              exact hspares sock hsocket htorn
          rw [hsend] at hdone
          refine ⟨hello', hmem', ?_⟩
          rw [hsocket, appendTo_self]
          simpa using hdone
  · have hsocket : s.manager.socketOf event = none := by
      rw [ConnectionManager.socketOf, hborn.fd_none]
      rfl
    rw [hsocket]
    by_cases hsock : sock = s.manager.snapshot.nextSock
    · subst hsock
      have hnew : s.manager.snapshot.life s.manager.snapshot.nextSock = .new :=
        hs.fresh _ (Nat.le_refl _)
      have hnone : sent s.manager.snapshot.nextSock = [] :=
        hposted.unentered (by rw [hnew]; rfl)
      rw [hnew] at hborn
      obtain ⟨hello', hmem', hdone⟩ := hborn.posted
      refine ⟨hello', hmem', ?_⟩
      rw [show appendTo sent none (sentBy (s.manager.sendOf event) event)
        s.manager.snapshot.nextSock = [] from hnone]
      exact hdone.mono fun _ => rfl
    · rw [hothers sock hsock]
      exact ⟨hello, hmem, hposted.mono fun htorn => (Bool.or_eq_false_iff.mp htorn).1⟩

end Sending

/-! ### From one end to the other -/

/-- Of two streams of which one begins the other, each with a hello first, it is the same hello. -/
theorem helloFrame_eq {node node' : PeerId} {order order' : ByteOrder} {type type' : Byte}
    {messages others : List Message} {tail part : List Byte}
    (h : (uint32 order).frames ((HelloMsg.make node type).serialize :: messages) ++ tail
      <+: (uint32 order').frames ((HelloMsg.make node' type').serialize :: others) ++ part) :
    helloFrame node order type = helloFrame node' order' type' := by
  refine helloFrame_unique (List.IsPrefix.trans ?_ h) (.inr ?_)
  · rw [LengthCode.frames_cons, List.append_assoc]
    exact List.prefix_append _ _
  · rw [LengthCode.frames_cons, List.append_assoc]
    exact List.prefix_append _ _

theorem Life.Trail.cut {node node' : PeerId} {order order' : ByteOrder} {type : Byte}
    {hello : Message} {written rest : List Byte} {pushed : List Parcel}
    {sent messages : List Message}
    (h : Trail order' hello written pushed sent) (hmem : hello ∈ hellos node')
    (hpushed : ∀ parcel ∈ pushed, parcel.body.length < 2 ^ 32)
    (hmessages : ∀ m ∈ messages, m.length < 2 ^ 32)
    (hstream : (uint32 order).frames ((HelloMsg.make node type).serialize :: messages) ++ rest
      <+: written) :
    messages <+: sent ∧
      ((uint32 order).frames ((HelloMsg.make node type).serialize :: messages) ++ rest = written →
        (uint32 order).Incomplete rest → messages = sent) := by
  cases h with
  | early hearly =>
      have hwhole : written <+: (uint32 order').frames [hello] := by
        simpa [frame] using hearly
      obtain rfl : messages = [] := List.prefix_nil.mp (Delivery.bodies_prefix hmessages (by simp)
        hmem (((List.prefix_append _ _).trans hstream).trans hwhole))
      exact ⟨List.nil_prefix, fun _ _ => rfl⟩
  | later _ others part hqueued hpart heq =>
      have hothers : ∀ order : ByteOrder, (uint32 order).Fits (sent ++ others) := by
        intro order m hm
        rw [uint32_bound]
        obtain ⟨parcel, hparcel, rfl⟩ := List.mem_map.mp (hqueued.subset hm)
        exact hpushed parcel hparcel
      have hfits : ∀ order : ByteOrder, (uint32 order).Fits messages := by
        intro order m hm
        rw [uint32_bound]
        exact hmessages m hm
      obtain ⟨type', rfl⟩ : ∃ type', hello = (HelloMsg.make node' type').serialize := by
        rcases List.mem_pair.mp hmem with rfl | rfl
        · exact ⟨_, rfl⟩
        · exact ⟨_, rfl⟩
      rw [heq] at hstream
      have hsame := helloFrame_eq hstream
      obtain rfl := helloFrame_order hsame
      have hframe : (uint32 order).frame (HelloMsg.make node type).serialize
          = (uint32 order).frame (HelloMsg.make node' type').serialize := hsame
      rw [LengthCode.frames_cons, LengthCode.frames_cons, List.append_assoc, List.append_assoc,
        hframe] at hstream
      rw [List.prefix_append_right_inj] at hstream
      refine ⟨hpart.prefix_of_frames _ (hfits _) (hothers _)
        ((List.prefix_append _ _).trans hstream), fun hall hincomplete => ?_⟩
      rw [heq, LengthCode.frames_cons, LengthCode.frames_cons, List.append_assoc,
        List.append_assoc, hframe, List.append_cancel_left_eq] at hall
      exact hincomplete.eq_of_frames _ hpart (hfits _) (hothers _) hall

namespace Arrival

variable {Node : Type} {a a' : Arrival Node}

structure Sound (a : Arrival Node) : Prop where
  delivery : a.delivery.Sound
  posts : ∀ node, (a.delivery.sending node).Posts (a.sent node)

theorem init_sound (self : Node → PeerId) (order : Node → ByteOrder) : (init self order).Sound :=
  ⟨Delivery.init_sound self order, fun node => Sending.init_posts (self node) (order node)⟩

theorem Sound.step [DecidableEq Node] {event : Network.Event Node} (h : a.Sound)
    (hcareful : a.Careful event) (hstep : a.step event = some a') : a'.Sound := by
  obtain ⟨delivery, hdelivery, rfl⟩ := Option.map_eq_some_iff.mp hstep
  refine ⟨h.delivery.step hcareful hdelivery, fun node => ?_⟩
  obtain ⟨net, hnet, hrest⟩ := Option.bind_eq_some_iff.mp hdelivery
  obtain ⟨sending, hsending, hlast⟩ := Option.bind_eq_some_iff.mp hrest
  obtain ⟨listening, -, rfl⟩ := Option.map_eq_some_iff.mp hlast
  obtain ⟨w, hw, hmanagers⟩ := Network.step_manager hnet
  obtain rfl : sending.manager = w := by
    obtain ⟨v, hv, rfl⟩ := Option.map_eq_some_iff.mp hsending
    exact Option.some.inj (hv.symm.trans hw)
  unfold Delivery.sending
  dsimp only
  rw [hmanagers]
  by_cases hnode : node = (Delivery.ofNode event).1
  · subst hnode
    rw [Function.update_self, Function.update_self, Function.update_self]
    exact (h.posts _).step (h.delivery.sends _) (h.delivery.listens _) rfl hcareful.2.1 hsending
  · rw [Function.update_of_ne hnode, Function.update_of_ne hnode, Function.update_of_ne hnode]
    exact h.posts node

/-- What has been sent at the one end of a connection and what has been passed on at the other. -/
theorem Sound.arrives (h : a.Sound) : a.Arrives := by
  intro here there hfar
  obtain ⟨hello, hmem, hposted⟩ := h.posts there.1 there.2
  obtain ⟨hwritten, -, hpushed, -⟩ :=
    (a.delivery.net.managers there.1).snapshot.life_logs there.2
  have htrail : Life.Trail (a.delivery.net.managers there.1).io.order hello
      (a.delivery.net.written there) ((a.delivery.net.managers there.1).pushed there.2)
      (a.sent there.1 there.2) := by
    have htrail := hposted.trail
    rw [show ((a.delivery.sending there.1).manager.snapshot.life there.2).written = _ from hwritten,
      show ((a.delivery.sending there.1).manager.snapshot.life there.2).pushed = _ from hpushed]
      at htrail
    exact htrail
  refine ⟨htrail.sublist, ?_⟩
  have hlistens := (h.delivery.listens here.1).listens here.2
  have hears := (h.delivery.listens here.1).hears
  have htook : a.delivery.net.taken here <+: a.delivery.net.written there := by
    have htook := h.delivery.net.taken here
    rwa [Network.stream, hfar] at htook
  have hbodies : ∀ m ∈ (a.delivery.listening here.1).bodies here.2, m.length < 2 ^ 32 := by
    intro m hm
    obtain ⟨e, he, rfl⟩ := List.mem_map.mp hm
    exact hlistens.fits e he
  by_cases hentered : ∃ conn, (here.2, conn) ∈ (a.delivery.net.managers here.1).records
  swap
  · -- nothing is read on a socket that is not entered
    have hnone := hears.others here.2 fun conn hconn => hentered ⟨conn, hconn⟩
    have hempty : (a.delivery.listening here.1).bodies here.2 = [] := by
      rw [Listening.bodies, hnone]
      rfl
    refine ⟨hempty ▸ List.nil_prefix, fun _ hreads => absurd ?_ hentered⟩
    obtain ⟨fd, op, hfd, hat⟩ := hreads
    have hlife := (h.delivery.kept here.1).sound.ok.life_of_held hfd
    have hstaged := Life.staged (h.delivery.kept here.1).sound.ok here.2
    obtain ⟨conn, hactive⟩ := hstaged.reader_active ((congrArg Life.recv hlife).trans hat)
    exact ⟨conn, Network.mem_records.mp (hlistens.active conn hactive)⟩
  obtain ⟨conn, hconn⟩ := hentered
  obtain ⟨type, rest, htaken, -, hrest⟩ := hears.entered here.2 conn hconn
  have htaken' : a.delivery.net.taken here = _ := htaken
  obtain ⟨hahead, hwhole⟩ := htrail.cut hmem
    (fun parcel hparcel => (h.delivery.carried there.1 there.2 parcel hparcel).1) hbodies
    (htaken' ▸ htook)
  refine ⟨hahead, ?_⟩
  rintro hall ⟨fd, op, hfd, hat⟩
  exact hwhole (htaken'.symm.trans hall) (hrest fd op hfd hat)

/-- While no `recv` says `EAGAIN`, sockets with a part of a frame accept nothing more and messages
fit into frames, what is passed on at the one end of a connection is what has been sent at the
other, as far as it has come. -/
theorem arrives_of_careful [DecidableEq Node] (self : Node → PeerId) (order : Node → ByteOrder)
    (events : List (Network.Event Node)) (h : machine.EachStep Careful (init self order) events) :
    machine.Always Arrives (init self order) events :=
  Machine.always_of_eachStep (fun _ ha => ha.arrives)
    (fun _ _ _ ha hcareful hstep => ha.step hcareful hstep) events (init_sound self order) h

/-- The accepting end sends two messages, the second of them while the first is on its way, and both
arrive. -/
theorem arrives_of_exchange :
    let ann : PeerId := ⟨[9, 9, 9, 9, 9, 9], rfl⟩
    let bob : PeerId := ⟨[1, 2, 1, 1, 1, 1], rfl⟩
    let self : Bool → PeerId := fun node => if node then bob else ann
    let events := Network.exchange ann bob bob ++
      [.runs false (.readable 5 (.ok ())
          (.moved ((HelloMsg.make bob helloAnswer).serialize.drop 8)) .granted),
        .runs true (.sendMessage ann [7, 8] []), .runs true (.sendMessage ann [6] []),
        .runs true (.writable 7 (.ok ()) (.moved 4) .granted),
        .runs true (.writable 7 (.ok ()) (.moved 2) .granted),
        .runs true (.writable 7 (.ok ()) (.moved 4) .granted),
        .runs false (.readable 5 (.ok ()) (.moved [2, 0, 0, 0]) .granted),
        .runs true (.writable 7 (.ok ()) (.moved 1) .granted),
        .runs false (.readable 5 (.ok ()) (.moved [7, 8]) .granted),
        .runs false (.readable 5 (.ok ()) (.moved [1, 0, 0, 0]) .granted),
        .runs false (.readable 5 (.ok ()) (.moved [6]) .granted)]
    (machine.exec (init self fun _ => .little) events).map
        (fun a => (a.sent true 0, (a.delivery.listening false).bodies 0))
        = some ([[7, 8], [6]], [[7, 8], [6]]) ∧
      machine.Always Arrives (init self fun _ => .little) events :=
  ⟨by decide +kernel, arrives_of_careful _ _ _ (by decide +kernel)⟩

end Arrival

end Diplom
