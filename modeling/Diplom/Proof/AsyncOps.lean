import Diplom.Transport.AsyncFd

/-!
# Operations against the byte stream

What a pending operation amounts to on the socket, apart from how its buffers are filled. A
receiving operation has `consumed` the beginning of a frame and resolves with the message whose
frame that has become; a sending operation has the bytes `remaining` and resolves when there are
none. One lemma for each event; the proofs about connections use these and never open a buffer.
-/

namespace Diplom

/-- The frame of a message on this machine: its four-byte length, then its body. -/
abbrev frame (order : ByteOrder) (m : Message) : List Byte := (uint32 order).frame m

theorem lowFirst_mod (n : Nat) : lowFirst (n % 2 ^ 32) = lowFirst n := by
  simp only [lowFirst, List.cons.injEq, and_true]
  refine ⟨?_, ?_, ?_, ?_⟩ <;> apply UInt8.toNat_inj.mp <;> simp only [UInt8.toNat_ofNat'] <;> omega

theorem encode_mod (order : ByteOrder) (n : Nat) :
    (uint32 order).encode (n % 2 ^ 32) = (uint32 order).encode n := by
  cases order with
  | little => exact lowFirst_mod n
  | big => exact congrArg List.reverse (lowFirst_mod n)

/-! ### Receiving -/

theorem length_overwrite {buf bytes : List Byte} {offset : Nat}
    (h : offset + bytes.length ≤ buf.length) :
    (overwrite buf offset bytes).length = buf.length := by
  simp only [overwrite, List.length_append, List.length_take, List.length_drop]
  omega

theorem take_overwrite {buf bytes : List Byte} {offset : Nat}
    (h : offset + bytes.length ≤ buf.length) :
    (overwrite buf offset bytes).take (offset + bytes.length) = buf.take offset ++ bytes := by
  have hlength : (buf.take offset ++ bytes).length = offset + bytes.length := by
    simp only [List.length_append, List.length_take]
    omega
  rw [overwrite, ← hlength, List.take_left]

namespace RecvBuf

/-- The buffer still waits for something and has room for it. -/
def Wf (b : RecvBuf) : Prop := 0 < b.left ∧ b.left ≤ b.data.length

theorem new_wf {size : Nat} (h : 0 < size) : (new size).Wf := by
  simpa [new, Wf] using h

@[simp] theorem new_received (size : Nat) : (new size).received = [] := by
  simp [new, received]

@[simp] theorem length_new (size : Nat) : (new size).data.length = size := by
  simp [new]

theorem length_received (b : RecvBuf) : b.received.length = b.data.length - b.left := by
  simp only [received, List.length_take]
  omega

/-- `recv` appends to what was received. When nothing is missing the buffer is what was received. -/
theorem proc_moved {b : RecvBuf} (h : b.Wf) {bytes : List Byte} (hsome : bytes ≠ [])
    (hle : bytes.length ≤ b.left) :
    (bytes.length = b.left ∧ b.proc (.ok ()) (.moved bytes) = .resolved (.ok (b.received ++ bytes)))
      ∨ ∃ b', b.proc (.ok ()) (.moved bytes) = .waiting b' ∧ b'.Wf ∧
      b'.data.length = b.data.length ∧ b'.received = b.received ++ bytes := by
  obtain ⟨hpos, hfits⟩ := h
  have hlen : 0 < bytes.length := List.length_pos_iff.mpr hsome
  have hroom : (b.data.length - b.left) + bytes.length ≤ b.data.length := by omega
  have hlength := length_overwrite hroom
  have htake := take_overwrite hroom
  have hcall : b.proc (.ok ()) (.moved bytes)
      = (if b.left - bytes.length = 0 then
          .resolved (.ok (overwrite b.data (b.data.length - b.left) bytes))
        else .waiting
          ⟨overwrite b.data (b.data.length - b.left) bytes, b.left - bytes.length⟩) := by
    simp only [proc]
    rw [if_neg (by omega), if_neg (by omega)]
  rw [hcall]
  by_cases hdone : bytes.length = b.left
  · refine .inl ⟨hdone, ?_⟩
    have hall : (b.data.length - b.left) + bytes.length
        = (overwrite b.data (b.data.length - b.left) bytes).length := by
      omega
    rw [if_pos (by omega), received, ← htake, hall, List.take_length]
  · refine .inr ⟨⟨overwrite b.data (b.data.length - b.left) bytes, b.left - bytes.length⟩, ?_,
      ?_, hlength, ?_⟩
    · rw [if_neg (by omega)]
    · simp only [Wf, hlength]
      omega
    · simp only [received, hlength]
      rw [show b.data.length - (b.left - bytes.length) = (b.data.length - b.left)
        + bytes.length by omega, htake]

theorem proc_aborted {b : RecvBuf} {res : EpollResult} {ret : RecvReturn}
    (h : b.proc res ret = .aborted) :
    ∃ bytes, ret = .moved bytes ∧ (b.data.length < b.left ∨ b.left < bytes.length) := by
  unfold proc at h
  split at h
  · exact absurd h (by simp)
  · split at h
    · exact absurd h (by simp)
    · exact absurd h (by simp)
    · rename_i bytes
      refine ⟨bytes, rfl, ?_⟩
      by_contra hrange
      rw [if_neg hrange] at h
      by_cases hnone : bytes.length = 0 ∧ b.left ≠ 0
      · rw [if_pos hnone] at h
        exact absurd h (by simp)
      · rw [if_neg hnone] at h
        by_cases hdone : b.left - bytes.length = 0 <;> simp [hdone] at h

/-- A buffer that is done holds what was received, and the last bytes behind it. -/
theorem proc_done {b : RecvBuf} {res : EpollResult} {ret : RecvReturn} {m : Message}
    (h : b.proc res ret = .resolved (.ok m)) :
    ∃ bytes, ret = .moved bytes ∧ bytes.length = b.left ∧ m = b.received ++ bytes := by
  unfold proc at h
  split at h
  · exact absurd h (by simp)
  · split at h
    · exact absurd h (by simp)
    · exact absurd h (by simp)
    · rename_i bytes
      refine ⟨bytes, rfl, ?_⟩
      by_cases hnone : bytes.length = 0 ∧ b.left ≠ 0
      · rw [if_pos hnone] at h
        exact absurd h (by simp)
      · rw [if_neg hnone] at h
        by_cases hrange : b.data.length < b.left ∨ b.left < bytes.length
        · rw [if_pos hrange] at h
          exact absurd h (by simp)
        · rw [if_neg hrange] at h
          by_cases hdone : b.left - bytes.length = 0
          · have hall : bytes.length = b.left := by omega
            have hend : b.data.drop (b.data.length - b.left + bytes.length) = [] :=
              List.drop_eq_nil_of_le (by omega)
            simp only [hdone, if_true, Progress.resolved.injEq, IoResult.ok.injEq] at h
            refine ⟨hall, ?_⟩
            rw [← h, overwrite, hend, List.append_nil, received]
          · simp [hdone] at h

end RecvBuf

namespace RecvOp

/-- How many bytes the next `recv` call asks for. -/
def left : RecvOp → Nat
  | .length buf => buf.left
  | .body buf => buf.left

/-- The size of the buffer that is being filled. -/
def size : RecvOp → Nat
  | .length buf => buf.data.length
  | .body buf => buf.data.length

/-- The buffers are what the code allocates: four bytes for the length, and for the body as many as
a length can say. -/
def Wf : RecvOp → Prop
  | .length buf => buf.Wf ∧ buf.data.length = 4
  | .body buf => buf.Wf ∧ buf.data.length < 2 ^ 32

/-- The bytes of the frame that the operation has taken from the socket. -/
def consumed (order : ByteOrder) : RecvOp → List Byte
  | .length buf => buf.received
  | .body buf => (uint32 order).encode buf.data.length ++ buf.received

theorem start_wf : start.Wf := by
  simp [start, Wf, RecvBuf.new_wf]

theorem Wf.left_le {op : RecvOp} (h : op.Wf) : op.left ≤ op.size := by
  cases op with
  | length buf => exact h.1.2
  | body buf => exact h.1.2

@[simp] theorem start_consumed (order : ByteOrder) : start.consumed order = [] := by
  simp [start, consumed]

theorem Wf.left_pos {op : RecvOp} (h : op.Wf) : 0 < op.left := by
  cases op <;> exact h.1.1

theorem Wf.incomplete {op : RecvOp} (h : op.Wf) (order : ByteOrder) :
    (uint32 order).Incomplete (op.consumed order) := by
  cases op with
  | length buf =>
      obtain ⟨hbuf, hfour⟩ := h
      refine .inl ?_
      rw [consumed, RecvBuf.length_received, uint32_width]
      have := hbuf.1
      omega
  | body buf =>
      obtain ⟨hbuf, hfits⟩ := h
      refine .inr ⟨buf.data.length, buf.received, by simpa using hfits, rfl, ?_⟩
      rw [RecvBuf.length_received]
      have := hbuf.1
      have := hbuf.2
      omega

/-- `recv` moved bytes: the operation goes on with them, or they completed the frame of the message
it resolves with, or they completed the frame of an empty message, which the code asserts does not
come. -/
theorem event_moved (order : ByteOrder) {op : RecvOp} (h : op.Wf) {bytes : List Byte}
    (hsome : bytes ≠ []) (hle : bytes.length ≤ op.left) :
    (∃ op', (op.event order (.ok ()) (.moved bytes) = .waiting op' ∨
      op.event order (.ok ()) (.moved bytes) = .next op') ∧ op'.Wf ∧
      op'.consumed order = op.consumed order ++ bytes) ∨
      (∃ m : Message, op.event order (.ok ()) (.moved bytes) = .resolved (.ok m) ∧
        m.length < 2 ^ 32 ∧ m ≠ [] ∧ frame order m = op.consumed order ++ bytes) ∨
      (op.event order (.ok ()) (.moved bytes) = .aborted ∧
        frame order [] = op.consumed order ++ bytes) := by
  cases op with
  | length buf =>
      obtain ⟨hbuf, hfour⟩ := h
      rcases RecvBuf.proc_moved hbuf hsome hle with ⟨hlen, hproc⟩ | ⟨buf', hproc, hwf, hsize, hrecv⟩
      · have hword : (buf.received ++ bytes).length = (uint32 order).width := by
          rw [List.length_append, RecvBuf.length_received, uint32_width]
          have := hbuf.2
          omega
        have hheader := (uint32 order).encode_decode _ hword
        by_cases hzero : (uint32 order).decode (buf.received ++ bytes) = 0
        · refine .inr (.inr ⟨by simp [event, hproc, hzero], ?_⟩)
          rw [hzero] at hheader
          simpa [frame, LengthCode.frame, consumed] using hheader
        · refine .inl ⟨.body (.new ((uint32 order).decode (buf.received ++ bytes))),
            .inr (by simp only [event, hproc, if_neg hzero]), ⟨RecvBuf.new_wf (by omega), ?_⟩, ?_⟩
          · simpa using (uint32 order).decode_lt (buf.received ++ bytes)
          · simp [consumed, hheader]
      · exact .inl ⟨.length buf', .inl (by simp only [event, hproc]),
          ⟨hwf, hsize.trans hfour⟩, hrecv⟩
  | body buf =>
      obtain ⟨hbuf, hfits⟩ := h
      rcases RecvBuf.proc_moved hbuf hsome hle with ⟨hlen, hproc⟩ | ⟨buf', hproc, hwf, hsize, hrecv⟩
      · have hlength : (buf.received ++ bytes).length = buf.data.length := by
          rw [List.length_append, RecvBuf.length_received]
          have := hbuf.2
          omega
        refine .inr (.inl ⟨buf.received ++ bytes, by simp only [event, hproc], by omega, ?_, ?_⟩)
        · simp [hsome]
        · simp only [frame, LengthCode.frame, hlength, consumed, List.append_assoc]
      · refine .inl ⟨.body buf', .inl (by simp only [event, hproc]), ⟨hwf, by omega⟩, ?_⟩
        simp only [consumed, hsize, hrecv, List.append_assoc]

/-- An event that is an error, a failed call or an end of stream resolves the operation with an
error, `EAGAIN` apart. -/
theorem event_error (order : ByteOrder) {op : RecvOp} (h : op.Wf) {res : EpollResult}
    {ret : RecvReturn} (hfail : (∃ e, res = .err e) ∨ ret = .failed .other ∨ ret = .moved []) :
    ∃ e, op.event order res ret = .resolved (.err e) := by
  have hleft : ∀ buf : RecvBuf, buf.Wf → ∃ e, buf.proc res ret = .resolved (.err e) := by
    intro buf hbuf
    cases res with
    | err e => exact ⟨e, rfl⟩
    | ok u =>
        rcases hfail with ⟨e, he⟩ | rfl | rfl
        · exact absurd he (by simp)
        · exact ⟨.error, rfl⟩
        · refine ⟨.error, ?_⟩
          simp only [RecvBuf.proc]
          rw [if_pos ⟨rfl, Nat.pos_iff_ne_zero.mp hbuf.1⟩]
  cases op with
  | length buf =>
      obtain ⟨e, he⟩ := hleft buf h.1
      exact ⟨e, by simp only [event, he]⟩
  | body buf =>
      obtain ⟨e, he⟩ := hleft buf h.1
      exact ⟨e, by simp only [event, he]⟩

/-- Any event but `EAGAIN`: the operation goes on with what has come, or resolves with the message
whose frame is complete, or fails, or the process does not survive it. -/
theorem event_cases (order : ByteOrder) {op : RecvOp} (h : op.Wf) {res : EpollResult}
    {ret : RecvReturn} (hagain : (res, ret) ≠ (.ok (), .failed .eagain)) :
    (∃ op', (op.event order res ret = .waiting op' ∨ op.event order res ret = .next op') ∧ op'.Wf ∧
      op'.consumed order = op.consumed order ++ ret.bytes res) ∨
      (∃ m : Message, op.event order res ret = .resolved (.ok m) ∧
        frame order m = op.consumed order ++ ret.bytes res) ∨
      (∃ e, op.event order res ret = .resolved (.err e)) ∨ op.event order res ret = .aborted := by
  have hfailed : (∃ e, res = .err e) ∨ ret = .failed .other ∨ ret = .moved [] →
      ∃ e, op.event order res ret = .resolved (.err e) :=
    event_error order h
  rcases res with u | e
  swap
  · exact .inr (.inr (.inl (hfailed (.inl ⟨e, rfl⟩))))
  rcases ret with bytes | errno
  swap
  · cases errno with
    | eagain => exact absurd rfl hagain
    | other => exact .inr (.inr (.inl (hfailed (.inr (.inl rfl)))))
  by_cases hsome : bytes = []
  · exact .inr (.inr (.inl (hfailed (.inr (.inr (by rw [hsome]))))))
  by_cases hle : bytes.length ≤ op.left
  · rcases event_moved order h hsome hle with hgoes | ⟨m, hevent, -, -, hframe⟩ | ⟨hevent, -⟩
    · exact .inl hgoes
    · exact .inr (.inl ⟨m, hevent, hframe⟩)
    · exact .inr (.inr (.inr hevent))
  · -- the kernel moved more than it was asked for
    have hproc : ∀ buf : RecvBuf, buf.left < bytes.length →
        buf.proc (.ok u) (.moved bytes) = .aborted := by
      intro buf hlt
      have hpos : bytes.length ≠ 0 := by omega
      simp only [RecvBuf.proc, hpos, false_and, if_false, hlt, or_true, if_true]
    refine .inr (.inr (.inr ?_))
    cases op with
    | length buf => simp only [event, hproc buf (not_le.mp hle)]
    | body buf => simp only [event, hproc buf (not_le.mp hle)]

theorem Wf.goes_on {order : ByteOrder} {op op' : RecvOp} (h : op.Wf) {res : EpollResult}
    {ret : RecvReturn} (hagain : (res, ret) ≠ (.ok (), .failed .eagain))
    (hevent : op.event order res ret = .waiting op' ∨ op.event order res ret = .next op') :
    op'.Wf ∧ op'.consumed order = op.consumed order ++ ret.bytes res := by
  rcases event_cases order h hagain with ⟨op'', heq, hwf, hconsumed⟩ | ⟨m, heq, -⟩ | ⟨e, heq⟩ | heq
  · have hsame : op'' = op' := by
      rcases hevent with hevent | hevent <;> rcases heq with heq | heq <;> simp_all
    exact hsame ▸ ⟨hwf, hconsumed⟩
  · rcases hevent with hevent | hevent <;> simp [heq] at hevent
  · rcases hevent with hevent | hevent <;> simp [heq] at hevent
  · rcases hevent with hevent | hevent <;> simp [heq] at hevent

theorem Wf.completes {order : ByteOrder} {op : RecvOp} (h : op.Wf) {res : EpollResult}
    {ret : RecvReturn} (hagain : (res, ret) ≠ (.ok (), .failed .eagain)) {m : Message}
    (hevent : op.event order res ret = .resolved (.ok m)) :
    frame order m = op.consumed order ++ ret.bytes res := by
  rcases event_cases order h hagain with ⟨op', heq, -⟩ | ⟨m', heq, hframe⟩ | ⟨e, heq⟩ | heq
  · rcases heq with heq | heq <;> simp [heq] at hevent
  · obtain rfl : m' = m := by simpa [heq] using hevent
    exact hframe
  · simp [heq] at hevent
  · simp [heq] at hevent

/-- What makes the process abort: a `recv` outside its range, and a length of zero. -/
theorem event_aborted {order : ByteOrder} {op : RecvOp} {res : EpollResult} {ret : RecvReturn}
    (h : op.event order res ret = .aborted) :
    ∃ bytes, ret = .moved bytes ∧
      (op.left < bytes.length ∨ op.size < op.left ∨ ∃ buf, op = .length buf ∧
        bytes.length = buf.left ∧ (uint32 order).decode (buf.received ++ bytes) = 0) := by
  cases op with
  | length buf =>
      rcases hproc : buf.proc res ret with buf' | buf' | result | _
      · simp [event, hproc] at h
      · simp [event, hproc] at h
      · cases result with
        | err e => simp [event, hproc] at h
        | ok header =>
            have hzero : (uint32 order).decode header = 0 := by
              by_contra hne
              simp [event, hproc, hne] at h
            obtain ⟨bytes, rfl, hall, rfl⟩ := RecvBuf.proc_done hproc
            exact ⟨bytes, rfl, .inr (.inr ⟨buf, rfl, hall, hzero⟩)⟩
      · obtain ⟨bytes, rfl, hrange⟩ := RecvBuf.proc_aborted hproc
        exact ⟨bytes, rfl, hrange.elim (fun h => .inr (.inl h)) .inl⟩
  | body buf =>
      rcases hproc : buf.proc res ret with buf' | buf' | result | _
      · simp [event, hproc] at h
      · simp [event, hproc] at h
      · simp [event, hproc] at h
      · obtain ⟨bytes, rfl, hrange⟩ := RecvBuf.proc_aborted hproc
        exact ⟨bytes, rfl, hrange.elim (fun h => .inr (.inl h)) .inl⟩

theorem Wf.fits {order : ByteOrder} {op : RecvOp} (h : op.Wf) {res : EpollResult}
    {ret : RecvReturn} {m : Message} (hevent : op.event order res ret = .resolved (.ok m)) :
    m.length < 2 ^ 32 := by
  cases op with
  | length buf =>
      cases hproc : buf.proc res ret with
      | resolved result =>
          cases result with
          | ok header =>
              simp only [event, hproc] at hevent
              split at hevent <;> exact absurd hevent (by simp)
          | err e => exact absurd hevent (by simp [event, hproc])
      | waiting buf => exact absurd hevent (by simp [event, hproc])
      | next buf => exact absurd hevent (by simp [event, hproc])
      | aborted => exact absurd hevent (by simp [event, hproc])
  | body buf =>
      obtain ⟨hbuf, hfits⟩ := h
      have hproc : buf.proc res ret = .resolved (.ok m) := by
        cases hproc : buf.proc res ret with
        | resolved result => simpa [event, hproc] using hevent
        | waiting buf => exact absurd hevent (by simp [event, hproc])
        | next buf => exact absurd hevent (by simp [event, hproc])
        | aborted => exact absurd hevent (by simp [event, hproc])
      obtain ⟨bytes, -, hlast, rfl⟩ := RecvBuf.proc_done hproc
      have hleft := hbuf.2
      rw [List.length_append, RecvBuf.length_received, hlast]
      omega

/-- A reader that has whole frames behind it and aborts on what was sent has seen a zero length. -/
theorem Wf.zero_length {order : ByteOrder} {op : RecvOp} (h : op.Wf) {messages : List Message}
    (hfits : (uint32 order).Fits messages) {ret : RecvReturn} {res : EpollResult}
    (hasked : ∀ bytes, ret = .moved bytes → bytes.length ≤ op.left) {sent : List Byte}
    (hpre : (uint32 order).frames messages ++ op.consumed order ++ ret.bytes res <+: sent)
    (hevent : op.event order res ret = .aborted) : 0 ∈ (uint32 order).lengths sent := by
  obtain ⟨bytes, rfl, hcause⟩ := event_aborted hevent
  have hok : res = .ok () := by
    cases res with
    | ok => rfl
    | err e => cases op <;> simp [event, RecvBuf.proc] at hevent
  subst hok
  rcases hcause with hmore | houtside | ⟨buf, rfl, hall, hzero⟩
  · exact absurd (hasked bytes rfl) (not_le.mpr hmore)
  · exact absurd h.left_le (not_le.mpr houtside)
  · have hword : (buf.received ++ bytes).length = (uint32 order).width := by
      have hbuf := h.1.2
      have hsize := h.2
      rw [List.length_append, RecvBuf.length_received, uint32_width, hall]
      omega
    rw [← hzero]
    apply LengthCode.mem_lengths _ hfits hword
    rw [← List.append_assoc]
    exact hpre

/-- An event that takes nothing from the socket does not end the process. -/
theorem Wf.not_aborted_of_nothing {order : ByteOrder} {op : RecvOp} (h : op.Wf)
    {ret : RecvReturn} {res : EpollResult} (hnothing : ret.bytes res = []) :
    op.event order res ret ≠ .aborted := by
  intro hevent
  obtain ⟨bytes, rfl, -⟩ := event_aborted hevent
  have hfail : (∃ e, res = .err e) ∨ RecvReturn.moved bytes = .failed .other ∨
      RecvReturn.moved bytes = .moved [] := by
    cases res with
    | ok => exact .inr (.inr (congrArg RecvReturn.moved hnothing))
    | err e => exact .inl ⟨e, rfl⟩
  obtain ⟨e, herr⟩ := event_error order h hfail
  exact absurd (hevent.symm.trans herr) (by simp)

end RecvOp

/-! ### Sending -/

namespace SendBuf

def Wf (b : SendBuf) : Prop := 0 < b.left ∧ b.left ≤ b.data.length

theorem new_wf {data : List Byte} (h : data ≠ []) : (new data).Wf :=
  ⟨List.length_pos_iff.mpr h, Nat.le_refl _⟩

@[simp] theorem new_rest (data : List Byte) : (new data).rest = data := by
  simp [new, rest]

theorem length_rest {b : SendBuf} (h : b.Wf) : b.rest.length = b.left := by
  simp only [rest, List.length_drop]
  have := h.2
  omega

theorem proc_moved {b : SendBuf} (h : b.Wf) {count : Nat} (hle : count ≤ b.left) :
    (count = b.left ∧ b.proc (.ok ()) (.moved count) = .resolved (.ok ())) ∨
    ∃ b', b.proc (.ok ()) (.moved count) = .waiting b' ∧ b'.Wf ∧ b'.rest = b.rest.drop count := by
  obtain ⟨hpos, hfits⟩ := h
  simp only [proc]
  rw [if_neg (by omega)]
  by_cases hdone : count = b.left
  · exact .inl ⟨hdone, if_pos (by omega)⟩
  · refine .inr ⟨⟨b.data, b.left - count⟩, if_neg (by omega), ⟨?_, ?_⟩, ?_⟩
    · simp only
      omega
    · simp only
      omega
    · simp only [rest, List.drop_drop]
      congr 1
      omega

end SendBuf

namespace SendOp

/-- How many bytes the next `send` call offers. -/
def left : SendOp → Nat
  | .length buf _ => buf.left
  | .body buf => buf.left

def Wf : SendOp → Prop
  | .length buf sdata => buf.Wf ∧ sdata ≠ []
  | .body buf => buf.Wf

/-- The bytes of the frame that are not on the socket yet. -/
def remaining : SendOp → List Byte
  | .length buf sdata => buf.rest ++ sdata
  | .body buf => buf.rest

theorem start_wf (order : ByteOrder) {data : Message} (h : data ≠ []) : (start order data).Wf := by
  refine ⟨SendBuf.new_wf fun hnil => ?_, h⟩
  have hwidth := (uint32 order).length_encode (msgLen data)
  rw [hnil, uint32_width] at hwidth
  exact absurd hwidth (by decide)

@[simp] theorem start_remaining (order : ByteOrder) (data : Message) :
    (start order data).remaining = frame order data := by
  rw [start, remaining, SendBuf.new_rest, msgLen, encode_mod]
  rfl

theorem Wf.left_pos {op : SendOp} (h : op.Wf) : 0 < op.left := by
  cases op with
  | length buf sdata => exact h.1.1
  | body buf => exact h.1

theorem Wf.remaining_ne_nil {op : SendOp} (h : op.Wf) : op.remaining ≠ [] := by
  cases op with
  | length buf sdata => exact fun hnil => h.2 (List.append_eq_nil_iff.mp hnil).2
  | body buf =>
      intro hnil
      have hlength := SendBuf.length_rest h
      rw [remaining] at hnil
      rw [hnil, List.length_nil] at hlength
      have := h.1
      omega

theorem put_moved {op : SendOp} (h : op.Wf) {count : Nat} (hle : count ≤ op.left) :
    op.put (.ok ()) (.moved count) = op.remaining.take count := by
  cases op with
  | length buf sdata =>
      have hlength := SendBuf.length_rest h.1
      simp only [put, offered, remaining]
      rw [List.take_append_of_le_length]
      exact hle.trans_eq hlength.symm
  | body buf => rfl

/-- `send` took bytes: the operation goes on with the others, or there are none and it resolves. -/
theorem event_moved {op : SendOp} (h : op.Wf) {count : Nat} (hle : count ≤ op.left) :
    (∃ op', (op.event (.ok ()) (.moved count) = .waiting op' ∨
      op.event (.ok ()) (.moved count) = .next op') ∧ op'.Wf ∧
      op'.remaining = op.remaining.drop count) ∨
      (op.event (.ok ()) (.moved count) = .resolved (.ok ()) ∧ op.remaining.drop count = []) := by
  cases op with
  | length buf sdata =>
      obtain ⟨hbuf, hbody⟩ := h
      have hlength := SendBuf.length_rest hbuf
      rcases SendBuf.proc_moved hbuf hle with ⟨hall, hproc⟩ | ⟨buf', hproc, hwf, hrest⟩
      · refine .inl
          ⟨.body (.new sdata), .inr (by simp only [event, hproc]), SendBuf.new_wf hbody, ?_⟩
        simp only [remaining, SendBuf.new_rest]
        rw [hall, ← hlength, List.drop_left]
      · refine .inl ⟨.length buf' sdata, .inl (by simp only [event, hproc]), ⟨hwf, hbody⟩, ?_⟩
        simp only [remaining, hrest]
        rw [List.drop_append_of_le_length]
        exact hle.trans_eq hlength.symm
  | body buf =>
      have hlength := SendBuf.length_rest h
      rcases SendBuf.proc_moved h hle with ⟨hall, hproc⟩ | ⟨buf', hproc, hwf, hrest⟩
      · refine .inr ⟨by simp only [event, hproc], ?_⟩
        rw [List.drop_eq_nil_iff]
        exact hlength.trans_le hall.ge
      · exact .inl ⟨.body buf', .inl (by simp only [event, hproc]), hwf, hrest⟩

/-- Whatever else happens, an event that moves nothing puts nothing on the socket and resolves with
an error. -/
theorem event_error (op : SendOp) {res : EpollResult} {ret : SendReturn}
    (hfail : (∃ e, res = .err e) ∨ ∃ e, ret = .failed e) :
    op.put res ret = [] ∧ ∃ e, op.event res ret = .resolved (.err e) := by
  have hproc : ∀ buf : SendBuf, ∃ e, buf.proc res ret = .resolved (.err e) := by
    intro buf
    cases res with
    | err e => exact ⟨e, rfl⟩
    | ok u =>
        rcases hfail with ⟨e, he⟩ | ⟨e, rfl⟩
        · exact absurd he (by simp)
        · exact ⟨.error, rfl⟩
  constructor
  · rcases hfail with ⟨e, rfl⟩ | ⟨e, rfl⟩
    · rfl
    · cases res <;> rfl
  · cases op with
    | length buf sdata =>
        obtain ⟨e, he⟩ := hproc buf
        exact ⟨e, by simp only [event, he]⟩
    | body buf =>
        obtain ⟨e, he⟩ := hproc buf
        exact ⟨e, by simp only [event, he]⟩

theorem event_aborted {op : SendOp} {res : EpollResult} {ret : SendReturn}
    (h : op.event res ret = .aborted) : ∃ count, ret = .moved count ∧ op.left < count := by
  have hproc : ∀ buf : SendBuf, buf.proc res ret = .aborted →
      ∃ count, ret = .moved count ∧ buf.left < count := by
    intro buf hbuf
    unfold SendBuf.proc at hbuf
    split at hbuf
    · exact absurd hbuf (by simp)
    · split at hbuf
      · exact absurd hbuf (by simp)
      · rename_i count
        refine ⟨count, rfl, ?_⟩
        by_contra hle
        rw [if_neg hle] at hbuf
        by_cases hdone : buf.left - count = 0 <;> simp [hdone] at hbuf
  cases op with
  | length buf sdata =>
      rcases hbuf : buf.proc res ret with buf' | buf' | result | _
      · simp [event, hbuf] at h
      · simp [event, hbuf] at h
      · cases result <;> simp [event, hbuf] at h
      · exact hproc buf hbuf
  | body buf =>
      rcases hbuf : buf.proc res ret with buf' | buf' | result | _
      · simp [event, hbuf] at h
      · simp [event, hbuf] at h
      · simp [event, hbuf] at h
      · exact hproc buf hbuf

/-- An event never puts anything on the socket but the next bytes. -/
theorem put_prefix (op : SendOp) (res : EpollResult) (ret : SendReturn) :
    op.put res ret <+: op.remaining := by
  have hoffered : op.offered <+: op.remaining := by
    cases op with
    | length buf sdata => exact List.prefix_append _ _
    | body buf => exact List.prefix_rfl
  unfold put
  split
  · exact (List.take_prefix _ _).trans hoffered
  · exact List.nil_prefix

/-- Any event at all: the operation goes on with what is left, or all of it has gone out, or nothing
has and the operation fails, or the process does not survive. -/
theorem event_cases {op : SendOp} (h : op.Wf) (res : EpollResult) (ret : SendReturn) :
    (∃ op', (op.event res ret = .waiting op' ∨ op.event res ret = .next op') ∧ op'.Wf ∧
      op.put res ret ++ op'.remaining = op.remaining) ∨
    (op.event res ret = .resolved (.ok ()) ∧ op.put res ret = op.remaining) ∨
    (∃ e, op.event res ret = .resolved (.err e) ∧ op.put res ret = []) ∨
    op.event res ret = .aborted := by
  have hfailed : (∃ e, res = .err e) ∨ (∃ e, ret = .failed e) →
      ∃ e, op.event res ret = .resolved (.err e) ∧ op.put res ret = [] := by
    intro hfail
    obtain ⟨hput, e, he⟩ := event_error op hfail
    exact ⟨e, he, hput⟩
  cases res with
  | err e => exact .inr (.inr (.inl (hfailed (.inl ⟨e, rfl⟩))))
  | ok u =>
      cases ret with
      | failed errno => exact .inr (.inr (.inl (hfailed (.inr ⟨errno, rfl⟩))))
      | moved count =>
          by_cases hle : count ≤ op.left
          · have hput := put_moved h hle
            rcases event_moved h hle with ⟨op', hevent, hwf, hrest⟩ | ⟨hevent, hrest⟩
            · refine .inl ⟨op', hevent, hwf, ?_⟩
              rw [hput, hrest, List.take_append_drop]
            · refine .inr (.inl ⟨hevent, ?_⟩)
              rw [hput, List.take_of_length_le (List.drop_eq_nil_iff.mp hrest)]
          · refine .inr (.inr (.inr ?_))
            have hproc : ∀ buf : SendBuf, buf.left < count →
                buf.proc (.ok u) (.moved count) = .aborted :=
              fun buf hlt => if_pos hlt
            cases op with
            | length buf sdata => simp only [event, hproc buf (not_le.mp hle)]
            | body buf => simp only [event, hproc buf (not_le.mp hle)]

theorem Wf.goes_on {op op' : SendOp} (h : op.Wf) {res : EpollResult} {ret : SendReturn}
    (hevent : op.event res ret = .waiting op' ∨ op.event res ret = .next op') :
    op'.Wf ∧ op.put res ret ++ op'.remaining = op.remaining := by
  rcases event_cases h res ret with ⟨op'', heq, hwf, hrest⟩ | ⟨heq, -⟩ | ⟨e, heq, -⟩ | heq
  · have hsame : op'' = op' := by
      rcases hevent with hevent | hevent <;> rcases heq with heq | heq <;> simp_all
    exact hsame ▸ ⟨hwf, hrest⟩
  · rcases hevent with hevent | hevent <;> simp [heq] at hevent
  · rcases hevent with hevent | hevent <;> simp [heq] at hevent
  · rcases hevent with hevent | hevent <;> simp [heq] at hevent

/-- An operation that resolves has sent everything, or its last event has sent nothing. -/
theorem Wf.ends {op : SendOp} (h : op.Wf) {res : EpollResult} {ret : SendReturn}
    {result : IoResult Unit} (hevent : op.event res ret = .resolved result) :
    (result = .ok () ∧ op.put res ret = op.remaining) ∨ (∃ e, result = .err e) ∧
      op.put res ret = [] := by
  rcases event_cases h res ret with ⟨op'', heq, -⟩ | ⟨heq, hput⟩ | ⟨e, heq, hput⟩ | heq
  · rcases heq with heq | heq <;> simp [heq] at hevent
  · exact .inl ⟨(Progress.resolved.inj (heq.symm.trans hevent)).symm, hput⟩
  · exact .inr ⟨⟨e, (Progress.resolved.inj (heq.symm.trans hevent)).symm⟩, hput⟩
  · simp [heq] at hevent

end SendOp

end Diplom
