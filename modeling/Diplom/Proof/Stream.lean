import Diplom.Lib.Machine
import Diplom.Proof.AsyncLoop
import Diplom.Proof.AsyncOps

/-!
# A framed stream, end to end

One end sends a list of messages, each after the one before it has resolved; the other end receives,
with a fresh `AsyncFd` for each frame on the same descriptor. The two ends are two processes with a
loop each, and between them lies a reliable stream of bytes. A step is one callback run on one end,
and the number of bytes its `send` or `recv` moves is anything from one to what it asked for.
-/

namespace Diplom

namespace Stream

/-- The sending end. The head of `todo` is the message under way. -/
structure Sender where
  afd : AsyncFd
  loop : AsyncLoop Unit Unit
  sent : List Message
  todo : List Message
  alive : Bool

/-- The receiving end. -/
structure Receiver where
  afd : AsyncFd
  loop : AsyncLoop Unit Unit
  got : List Message
  alive : Bool

structure State where
  sender : Sender
  /-- What the sender has put on the socket and the receiver has not taken from it. -/
  wire : List Byte
  receiver : Receiver
  /-- What the receiver has taken from the socket. -/
  taken : List Byte

/-- One event on one end: how many bytes its call moves, what `epoll_ctl` answers to `Deregister`,
and what it answers to the next operation, should one start. -/
inductive Input
  | send (count : Nat) (deregisters registers : Bool)
  | recv (count : Nat) (deregisters registers : Bool)

/-- Starts to send the next message, if there is one. An operation that resolves with an error ends
the sending. -/
def Sender.next (order : ByteOrder) (s : Sender) (ok : Bool) : Sender :=
  match s.todo with
  | [] => s
  | m :: _ =>
      match (AsyncFd.create s.afd.fd).sendMessage order s.loop m () ok with
      | .refused => s
      | .pending afd loop => { s with afd := afd, loop := loop }
      | .resolved afd loop _ _ => { s with afd := afd, loop := loop }
      | .aborted => { s with alive := false }

def Receiver.next (r : Receiver) (ok : Bool) : Receiver :=
  match (AsyncFd.create r.afd.fd).recvMessage r.loop () ok with
  | .refused => r
  | .pending afd loop => { r with afd := afd, loop := loop }
  | .resolved afd loop _ _ => { r with afd := afd, loop := loop }
  | .aborted => { r with alive := false }

/-- The sender's callback has run, and if its message is through, the next one starts. -/
def Sender.run (order : ByteOrder) (s : Sender) (op : SendOp) (count : Nat)
    (deregisters registers : Bool) : Sender :=
  match s.afd.sendEvent s.loop op () (.ok ()) (.moved count) deregisters with
  | .refused => s
  | .pending afd loop => { s with afd := afd, loop := loop }
  | .resolved afd loop _ (.err _) => { s with afd := afd, loop := loop }
  | .resolved afd loop _ (.ok _) =>
      { s with afd := afd, loop := loop, sent := s.sent ++ s.todo.take 1, todo :=
        s.todo.drop 1 }.next order registers
  | .aborted => { s with alive := false }

/-- The receiver's callback has run, and if it has a message, it starts to receive the next. -/
def Receiver.run (order : ByteOrder) (r : Receiver) (op : RecvOp) (bytes : List Byte)
    (deregisters registers : Bool) : Receiver :=
  match r.afd.recvEvent order r.loop op () (.ok ()) (.moved bytes) deregisters with
  | .refused => r
  | .pending afd loop => { r with afd := afd, loop := loop }
  | .resolved afd loop _ (.err _) => { r with afd := afd, loop := loop }
  | .resolved afd loop _ (.ok m) =>
    { r with afd := afd, loop := loop, got := r.got ++ [m] }.next registers
  | .aborted => { r with alive := false }

/-- The two ends before anything has been transferred. -/
def init (order : ByteOrder) (fdS fdR : Fd) (loopS loopR : AsyncLoop Unit Unit)
    (messages : List Message) (okS okR : Bool) : State where
  sender := Sender.next order ⟨AsyncFd.create fdS, loopS, [], messages, true⟩ okS
  wire := []
  receiver := Receiver.next ⟨AsyncFd.create fdR, loopR, [], true⟩ okR
  taken := []

def step (order : ByteOrder) (s : State) : Input → Option State
  | .send count deregisters registers =>
      match s.sender.loop.callbackAt s.sender.afd.fd .output with
      | some (.send op _) =>
          if s.sender.alive ∧ 1 ≤ count ∧ count ≤ op.left then
            some { s with
              sender := s.sender.run order op count deregisters registers
              wire := s.wire ++ op.put (.ok ()) (.moved count) }
          else none
      | _ => none
  | .recv count deregisters registers =>
      match s.receiver.loop.callbackAt s.receiver.afd.fd .input with
      | some (.recv op _) =>
          if s.receiver.alive ∧ 1 ≤ count ∧ count ≤ op.left ∧ count ≤ s.wire.length then
            some { s with
              receiver := s.receiver.run order op (s.wire.take count) deregisters registers
              wire := s.wire.drop count
              taken := s.taken ++ s.wire.take count }
          else none
      | _ => none

def machine (order : ByteOrder) : Machine State Input := ⟨step order⟩

/-! ### The two ends -/

/-- The sender against what it has written: whole frames of the messages that are through, and of
the message under way everything but what remains. -/
structure SenderInv (order : ByteOrder) (messages : List Message) (s : Sender)
  (written : List Byte) : Prop where
  alive : s.alive = true
  split : s.sent ++ s.todo = messages
  pending :
    (AsyncFd.Free s.loop s.afd.fd .output ∧ written = (uint32 order).frames s.sent) ∨
    ∃ op m rest, s.afd.Armed s.loop (.send op ()) ∧ op.Wf ∧ s.todo = m :: rest ∧
      written ++ op.remaining = (uint32 order).frames s.sent ++ frame order m

/-- The receiver against what it has taken: whole frames of the messages it has, and what its
operation has consumed. -/
structure ReceiverInv (order : ByteOrder) (r : Receiver) (taken : List Byte) : Prop where
  alive : r.alive = true
  fits : (uint32 order).Fits r.got
  pending : (AsyncFd.Free r.loop r.afd.fd .input ∧ taken = (uint32 order).frames r.got) ∨ ∃ op,
    r.afd.Armed r.loop (.recv op ()) ∧ op.Wf ∧
    taken = (uint32 order).frames r.got ++ op.consumed order

variable {order : ByteOrder} {messages : List Message}

private theorem msgLen_ne_zero {m : Message} (h : m ≠ [] ∧ m.length < 2 ^ 32) :
    SendOp.msgLen m ≠ 0 := by
  rw [SendOp.msgLen, Nat.mod_eq_of_lt h.2]
  exact fun hzero => h.1 (List.eq_nil_of_length_eq_zero hzero)

theorem Sender.next_inv {s : Sender} (hok : ∀ m ∈ messages, m ≠ [] ∧ m.length < 2 ^ 32)
    (halive : s.alive = true) (hsplit : s.sent ++ s.todo = messages)
    (hfree : AsyncFd.Free s.loop s.afd.fd .output) (ok : Bool) :
    SenderInv order messages (s.next order ok) ((uint32 order).frames s.sent) := by
  cases htodo : s.todo with
  | nil =>
      simp only [Sender.next, htodo]
      exact ⟨halive, hsplit, .inl ⟨hfree, rfl⟩⟩
  | cons m rest =>
      have hm := hok m (by rw [← hsplit, htodo]; simp)
      rcases AsyncFd.sendMessage_create order hfree (msgLen_ne_zero hm) () ok with
        heq | ⟨afd, loop, heq, hfd, harmed, _⟩
      · simp only [Sender.next, htodo, heq]
        exact ⟨halive, htodo ▸ hsplit, .inl ⟨hfree, rfl⟩⟩
      · simp only [Sender.next, htodo, heq]
        refine ⟨halive, htodo ▸ hsplit,
          .inr ⟨_, m, rest, harmed, SendOp.start_wf order hm.1, rfl, ?_⟩⟩
        rw [SendOp.start_remaining]

theorem Receiver.next_inv {r : Receiver} (halive : r.alive = true)
    (hfits : (uint32 order).Fits r.got) (hfree : AsyncFd.Free r.loop r.afd.fd .input) (ok : Bool) :
    ReceiverInv order (r.next ok) ((uint32 order).frames r.got) := by
  rcases AsyncFd.recvMessage_create hfree () ok with heq | ⟨afd, loop, heq, hfd, harmed, _⟩
  · simp only [Receiver.next, heq]
    exact ⟨halive, hfits, .inl ⟨hfree, rfl⟩⟩
  · simp only [Receiver.next, heq]
    exact ⟨halive, hfits, .inr ⟨_, harmed, RecvOp.start_wf, by simp⟩⟩

/-- A callback run of the sender: the bytes it puts on the socket are the next ones of its stream.
-/
theorem Sender.run_inv {s : Sender} {op : SendOp} {m : Message} {rest : List Message}
    {written : List Byte} (hok : ∀ m ∈ messages, m ≠ [] ∧ m.length < 2 ^ 32)
    (halive : s.alive = true) (hsplit : s.sent ++ s.todo = messages)
    (harmed : s.afd.Armed s.loop (.send op ())) (hwf : op.Wf) (htodo : s.todo = m :: rest)
    (hwritten : written ++ op.remaining = (uint32 order).frames s.sent ++ frame order m)
    {count : Nat} (hle : count ≤ op.left) (deregisters registers : Bool) :
    SenderInv order messages (s.run order op count deregisters registers)
      (written ++ op.put (.ok ()) (.moved count)) := by
  have hput := SendOp.put_moved hwf hle
  have hall : written ++ op.put (.ok ()) (.moved count) ++ op.remaining.drop count =
      (uint32 order).frames s.sent ++ frame order m := by
    rw [hput, List.append_assoc, List.take_append_drop, hwritten]
  have hfinish := harmed.finish (.send · ()) (fun _ => rfl) () deregisters
    (op.event (.ok ()) (.moved count))
  rcases SendOp.event_moved hwf hle with ⟨op', hevent | hevent, hwf', hrest⟩ | ⟨hevent, hnone⟩
  · rw [hevent] at hfinish
    obtain ⟨loop', heq, harmed', _⟩ := hfinish
    simp only [Sender.run, AsyncFd.sendEvent, hevent, heq]
    exact ⟨halive, hsplit, .inr ⟨op', m, rest, harmed', hwf', htodo, by rw [hrest, hall]⟩⟩
  · rw [hevent] at hfinish
    obtain ⟨loop', heq, harmed', _⟩ := hfinish
    simp only [Sender.run, AsyncFd.sendEvent, hevent, heq]
    exact ⟨halive, hsplit, .inr ⟨op', m, rest, harmed', hwf', htodo, by rw [hrest, hall]⟩⟩
  · rw [hevent] at hfinish
    obtain ⟨loop', heq, hfree, _⟩ := hfinish
    simp only [Sender.run, AsyncFd.sendEvent, hevent, heq]
    rw [hnone, List.append_nil] at hall
    have hframes :
        (uint32 order).frames (s.sent ++ s.todo.take 1) = (uint32 order).frames s.sent
          ++ frame order m := by
      rw [htodo, LengthCode.frames_append]
      simp
    rw [hall, ← hframes]
    refine Sender.next_inv (s := { s with
      afd := AsyncFd.create s.afd.fd, loop := loop', sent := s.sent ++ s.todo.take 1, todo :=
        s.todo.drop 1 })
      hok halive ?_ hfree registers
    rw [← hsplit, List.append_assoc, List.take_append_drop]

/-- A callback run of the receiver: what it takes extends its frames, or is the frame of an empty
message, which makes it abort. -/
theorem Receiver.run_inv {r : Receiver} {op : RecvOp} {taken bytes : List Byte}
    (halive : r.alive = true) (hfits : (uint32 order).Fits r.got)
    (harmed : r.afd.Armed r.loop (.recv op ())) (hwf : op.Wf)
    (htaken : taken = (uint32 order).frames r.got ++ op.consumed order) (hsome : bytes ≠ [])
    (hle : bytes.length ≤ op.left) (deregisters registers : Bool) :
    ReceiverInv order (r.run order op bytes deregisters registers) (taken ++ bytes) ∨
      taken ++ bytes = (uint32 order).frames (r.got ++ [[]]) := by
  have hfinish := harmed.finish (.recv · ()) (fun _ => rfl) () deregisters
    (op.event order (.ok ()) (.moved bytes))
  rcases RecvOp.event_moved order hwf hsome hle with
    ⟨op', hevent | hevent, hwf', hconsumed⟩ | ⟨m, hevent, hlen, hm, hframe⟩ | ⟨hevent, hframe⟩
  · rw [hevent] at hfinish
    obtain ⟨loop', heq, harmed', _⟩ := hfinish
    refine .inl ?_
    simp only [Receiver.run, AsyncFd.recvEvent, hevent, heq]
    exact ⟨halive, hfits, .inr ⟨op', harmed', hwf', by rw [htaken, hconsumed, List.append_assoc]⟩⟩
  · rw [hevent] at hfinish
    obtain ⟨loop', heq, harmed', _⟩ := hfinish
    refine .inl ?_
    simp only [Receiver.run, AsyncFd.recvEvent, hevent, heq]
    exact ⟨halive, hfits, .inr ⟨op', harmed', hwf', by rw [htaken, hconsumed, List.append_assoc]⟩⟩
  · rw [hevent] at hfinish
    obtain ⟨loop', heq, hfree, _⟩ := hfinish
    have hframes : taken ++ bytes = (uint32 order).frames (r.got ++ [m]) := by
      rw [htaken, List.append_assoc, ← hframe]
      simp
    refine .inl ?_
    simp only [Receiver.run, AsyncFd.recvEvent, hevent, heq]
    rw [hframes]
    refine Receiver.next_inv
      (r := { r with afd := AsyncFd.create r.afd.fd, loop := loop', got := r.got ++ [m] }) halive ?_
      hfree registers
    intro x hx
    rcases List.mem_append.mp hx with hx | hx
    · exact hfits x hx
    · obtain rfl := List.mem_singleton.mp hx
      simpa using hlen
  · refine .inr ?_
    rw [htaken, List.append_assoc, ← hframe]
    simp

/-! ### Both ends -/

structure Inv (order : ByteOrder) (messages : List Message) (s : State) : Prop where
  sender : SenderInv order messages s.sender (s.taken ++ s.wire)
  receiver : ReceiverInv order s.receiver s.taken

theorem SenderInv.written_prefix {s : Sender} {written : List Byte}
    (h : SenderInv order messages s written) : written <+: (uint32 order).frames messages := by
  rw [← h.split, LengthCode.frames_append]
  rcases h.pending with ⟨_, hwritten⟩ | ⟨op, m, rest, _, _, htodo, hwritten⟩
  · rw [hwritten]
    exact List.prefix_append _ _
  · rw [htodo, LengthCode.frames_cons, ← List.append_assoc, ← hwritten, List.append_assoc]
    exact List.prefix_append _ _

theorem Inv.taken_prefix {s : State} (h : Inv order messages s) :
    s.taken <+: (uint32 order).frames messages :=
  (List.prefix_append _ _).trans h.sender.written_prefix

private theorem fits_of_ok (hok : ∀ m ∈ messages, m ≠ [] ∧ m.length < 2 ^ 32) :
    (uint32 order).Fits messages := by
  intro m hm
  rw [uint32_bound]
  exact (hok m hm).2

theorem step_inv (hok : ∀ m ∈ messages, m ≠ [] ∧ m.length < 2 ^ 32) {s t : State} {i : Input}
    (h : Inv order messages s) (hstep : step order s i = some t) : Inv order messages t := by
  cases i with
  | send count deregisters registers =>
      rcases h.sender.pending with ⟨hfree, _⟩ | ⟨op, m, rest, harmed, hwf, htodo, hwritten⟩
      · simp only [step, hfree.callbackAt] at hstep
        exact absurd hstep (by simp)
      · have hcallback : s.sender.loop.callbackAt s.sender.afd.fd .output = some (.send op ()) :=
          harmed.callbackAt
        simp only [step, hcallback] at hstep
        split at hstep
        · rename_i hguard
          obtain rfl := Option.some.inj hstep
          refine ⟨?_, h.receiver⟩
          simp only
          rw [← List.append_assoc]
          exact Sender.run_inv hok h.sender.alive h.sender.split harmed hwf htodo hwritten
            hguard.2.2 _ _
        · exact absurd hstep (by simp)
  | recv count deregisters registers =>
      rcases h.receiver.pending with ⟨hfree, _⟩ | ⟨op, harmed, hwf, htaken⟩
      · simp only [step, hfree.callbackAt] at hstep
        exact absurd hstep (by simp)
      · have hcallback : s.receiver.loop.callbackAt s.receiver.afd.fd .input = some (.recv op ()) :=
          harmed.callbackAt
        simp only [step, hcallback] at hstep
        split at hstep
        · rename_i hguard
          obtain ⟨_, hpos, hle, hwire⟩ := hguard
          obtain rfl := Option.some.inj hstep
          have hlength : (s.wire.take count).length = count := by
            rw [List.length_take]
            omega
          have hsome : s.wire.take count ≠ [] := List.length_pos_iff.mp (by omega)
          have hsame : s.taken ++ s.wire.take count ++ s.wire.drop count = s.taken ++ s.wire := by
            rw [List.append_assoc, List.take_append_drop]
          have hsender :
              SenderInv order messages s.sender
                (s.taken ++ s.wire.take count ++ s.wire.drop count) :=
            hsame ▸ h.sender
          refine ⟨hsender, ?_⟩
          rcases Receiver.run_inv h.receiver.alive h.receiver.fits harmed hwf htaken hsome
            (hlength.trans_le hle) deregisters registers with hinv | hempty
          · exact hinv
          · -- nobody sent an empty message
            exfalso
            have hpre : (uint32 order).frames (s.receiver.got ++ [[]])
                <+: (uint32 order).frames messages :=
              hempty ▸ (List.prefix_append _ _).trans hsender.written_prefix
            have hfits : (uint32 order).Fits (s.receiver.got ++ [[]]) := by
              intro x hx
              rcases List.mem_append.mp hx with hx | hx
              · exact h.receiver.fits x hx
              · rw [List.mem_singleton.mp hx, uint32_bound]
                decide
            have hgot := LengthCode.prefix_of_frames_prefix _ hfits (fits_of_ok hok) hpre
            exact (hok [] (hgot.subset (by simp))).1 rfl
        · exact absurd hstep (by simp)

theorem init_inv (hok : ∀ m ∈ messages, m ≠ [] ∧ m.length < 2 ^ 32) {fdS fdR : Fd}
    {loopS loopR : AsyncLoop Unit Unit} (hS : AsyncFd.Free loopS fdS .output)
    (hR : AsyncFd.Free loopR fdR .input) (okS okR : Bool) :
    Inv order messages (init order fdS fdR loopS loopR messages okS okR) :=
  ⟨Sender.next_inv (s := ⟨AsyncFd.create fdS, loopS, [], messages, true⟩) hok rfl rfl hS okS,
    Receiver.next_inv (r := ⟨AsyncFd.create fdR, loopR, [], true⟩) rfl
      (fun _ hm => absurd hm (by simp)) hR okR⟩

/-- What was taken is the frames of what was received, and a part of the frame of the message that
comes next. -/
def CutCleanly (order : ByteOrder) (messages got : List Message) (taken : List Byte) : Prop :=
  ∃ part, taken = (uint32 order).frames got ++ part ∧
    (uint32 order).PartOf part (messages.drop got.length)

theorem Inv.cutCleanly (hok : ∀ m ∈ messages, m ≠ [] ∧ m.length < 2 ^ 32) {s : State}
    (h : Inv order messages s) :
    s.receiver.got <+: messages ∧ CutCleanly order messages s.receiver.got s.taken := by
  obtain ⟨part, htaken, hpart⟩ : ∃ part, s.taken = (uint32 order).frames s.receiver.got ++ part ∧
      (part = [] ∨ (uint32 order).Incomplete part) := by
    rcases h.receiver.pending with ⟨_, htaken⟩ | ⟨op, _, hwf, htaken⟩
    · exact ⟨[], by simpa using htaken, .inl rfl⟩
    · exact ⟨_, htaken, .inr (hwf.incomplete order)⟩
  have hpre : (uint32 order).frames s.receiver.got ++ part <+: (uint32 order).frames messages :=
    htaken ▸ h.taken_prefix
  have hgot :=
    LengthCode.prefix_of_frames_prefix _ h.receiver.fits (fits_of_ok hok)
      ((List.prefix_append _ _).trans hpre)
  refine ⟨hgot, part, htaken, ?_⟩
  obtain ⟨rest, hrest⟩ := hgot
  have hdrop : messages.drop s.receiver.got.length = rest := by rw [← hrest, List.drop_left]
  rw [← hrest, LengthCode.frames_append, List.prefix_append_right_inj] at hpre
  rw [hdrop]
  rcases hpart with rfl | hincomplete
  · exact LengthCode.partOf_nil _ rest
  · exact hincomplete.partOf _
      (fun m hm => fits_of_ok hok m (hrest ▸ List.mem_append_right _ hm)) hpre

theorem CutCleanly.got_all {got : List Message} {taken : List Byte}
    (h : CutCleanly order messages got taken) (hgot : got <+: messages)
    (hall : taken = (uint32 order).frames messages) : got = messages := by
  obtain ⟨rest, rfl⟩ := hgot
  obtain ⟨part, htaken, hpart⟩ := h
  rw [hall, LengthCode.frames_append, List.append_cancel_left_eq] at htaken
  rw [List.drop_left] at hpart
  rw [hpart.eq_nil_of_frames_prefix _ (htaken ▸ List.prefix_rfl), List.append_nil]

/-- The receiver's messages are always the first ones that were sent, they are all of them when
everything has been transferred, no byte of a later frame has been taken, and neither end aborts. -/
theorem received_in_order (order : ByteOrder) (fdS fdR : Fd) (loopS loopR : AsyncLoop Unit Unit)
    (hS : AsyncFd.Free loopS fdS .output) (hR : AsyncFd.Free loopR fdR .input)
    (messages : List Message) (hok : ∀ m ∈ messages, m ≠ [] ∧ m.length < 2 ^ 32) (okS okR : Bool)
    (s : State)
    (h : (machine order).Reach (fun _ _ => True)
      (init order fdS fdR loopS loopR messages okS okR) s) :
    s.receiver.got <+: messages ∧
      (s.taken = (uint32 order).frames messages ∨ s.sender.sent = messages ∧ s.wire = [] →
        s.receiver.got = messages) ∧ CutCleanly order messages s.receiver.got s.taken ∧
      s.sender.alive = true ∧ s.receiver.alive = true := by
  have hinv : Inv order messages s :=
    h.invariant (init_inv hok hS hR okS okR) fun _ _ _ hs _ hstep => step_inv hok hs hstep
  obtain ⟨hgot, hcut⟩ := hinv.cutCleanly hok
  refine ⟨hgot, ?_, hcut, hinv.sender.alive, hinv.receiver.alive⟩
  rintro (hall | ⟨hsent, hwire⟩)
  · exact hcut.got_all hgot hall
  · refine hcut.got_all hgot ?_
    rcases hinv.sender.pending with ⟨_, hwritten⟩ | ⟨op, m, rest, _, _, htodo, _⟩
    · rw [hwire, List.append_nil, hsent] at hwritten
      exact hwritten
    · have hsplit := hinv.sender.split
      rw [htodo, hsent] at hsplit
      exact absurd hsplit (by simp)

/-- Two messages in seven calls on each side, cut at different places. -/
def inputs : List Input :=
  [.send 3 true true, .recv 2 true true, .send 1 true true, .recv 1 true true, .recv 1 true true,
    .send 1 true true, .recv 1 true true, .send 4 true true, .send 1 true true, .recv 4 true true,
    .recv 1 true true, .send 1 true true, .recv 1 true true]

theorem received_in_order_of_two_messages :
    ∃ s, (machine .little).exec (init .little 5 8 .init .init [[104], [111, 107]] true true) inputs
      = some s ∧ s.receiver.got <+: [[104], [111, 107]] ∧
      (s.taken = (uint32 .little).frames [[104], [111, 107]] ∨ s.sender.sent = [[104], [111, 107]] ∧
        s.wire = [] → s.receiver.got = [[104], [111, 107]]) ∧
      CutCleanly .little [[104], [111, 107]] s.receiver.got s.taken ∧ s.sender.alive = true ∧
      s.receiver.alive = true := by
  have hrun : ((machine .little).exec (init .little 5 8 .init .init [[104], [111, 107]] true true)
      inputs).isSome := by
    decide
  obtain ⟨s, hs⟩ := Option.isSome_iff_exists.mp hrun
  exact ⟨s, hs, received_in_order .little 5 8 .init .init ⟨EpollLoop.init_wf, rfl⟩
    ⟨EpollLoop.init_wf, rfl⟩ [[104], [111, 107]] (by decide) true true s (Machine.reach_of_exec hs)⟩

end Stream

end Diplom
