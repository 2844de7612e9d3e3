import Diplom.Proof.AsyncOps

/-!
# What the header of a frame says

`SendMessage` keeps the length of a message in a `uint32_t` and sends the body with its full size.
Below 2^32 the two are the same. Above, a multiple of 2^32 fails the assertion that the length is
not zero, and any other length is sent under a header that is too small.
-/

namespace Diplom

namespace SendOp

/-- The events of an operation that ends with everything sent, and what they put on the socket. -/
inductive Transmits : SendOp → List Byte → Prop
  | last {op : SendOp} (res : EpollResult) (ret : SendReturn)
      (h : op.event res ret = .resolved (.ok ())) : Transmits op (op.put res ret)
  | more {op op' : SendOp} {bytes : List Byte} (res : EpollResult) (ret : SendReturn)
      (h : op.event res ret = .waiting op' ∨ op.event res ret = .next op')
      (rest : Transmits op' bytes) : Transmits op (op.put res ret ++ bytes)

/-- The length that `RecvMessage` reads in front of the body is the length of the body. -/
def HeaderTells (order : ByteOrder) (written : List Byte) : Prop :=
  (uint32 order).decode (written.take (uint32 order).width)
  = (written.drop (uint32 order).width).length

variable {order : ByteOrder} {data : Message} {op : SendOp} {written : List Byte}

/-- However the kernel cuts it, what is transmitted is what remained. -/
theorem Wf.transmits_eq (h : op.Wf) (htransmits : Transmits op written) :
    written = op.remaining := by
  induction htransmits with
  | last res ret hevent =>
      rcases h.ends hevent with ⟨-, hput⟩ | ⟨⟨e, he⟩, -⟩
      · exact hput
      · exact absurd he (by simp)
  | more res ret hevent rest ih =>
      obtain ⟨hwf, hrest⟩ := h.goes_on hevent
      rw [ih hwf, hrest]

theorem transmits_start (order : ByteOrder) (hdata : data ≠ []) :
    Transmits (start order data) (frame order data) := by
  have hwf := start_wf order hdata
  have hwidth : ((uint32 order).encode (msgLen data)).length = 4 := by
    rw [(uint32 order).length_encode, uint32_width]
  have hheader : (start order data).event (.ok ()) (.moved 4) = .next (.body (.new data)) := by
    simp [start, event, SendBuf.proc, SendBuf.new, hwidth]
  have hbody : (SendOp.body (.new data)).event (.ok ()) (.moved data.length)
      = .resolved (.ok ()) := by
    simp [event, SendBuf.proc, SendBuf.new]
  have htransmits := Transmits.more _ _ (.inr hheader) (.last _ _ hbody)
  rwa [hwf.transmits_eq htransmits, start_remaining] at htransmits

theorem decode_encode_mod (order : ByteOrder) (n : Nat) :
    (uint32 order).decode ((uint32 order).encode n) = n % 2 ^ 32 := by
  rw [← encode_mod]
  refine (uint32 order).decode_encode _ ?_
  rw [uint32_bound]
  exact Nat.mod_lt _ (by decide)

/-- The header of a frame tells the truth exactly below 2^32. -/
theorem headerTells_frame (order : ByteOrder) (data : Message) :
    HeaderTells order (frame order data) ↔ data.length < 2 ^ 32 := by
  have hlength := (uint32 order).length_encode data.length
  rw [HeaderTells, frame, LengthCode.frame, ← hlength, List.take_left, List.drop_left,
    decode_encode_mod]
  omega

end SendOp

namespace AsyncFd

open SendOp

variable {OnMessage OnSent : Type} {order : ByteOrder} {data : Message} {resolve : OnSent}

/-- `SendMessage` has taken a message on. -/
def Accepts (OnMessage : Type) (order : ByteOrder) (data : Message) (resolve : OnSent) : Prop :=
  ∃ (a a' : AsyncFd) (loop loop' : AsyncLoop OnMessage OnSent) (ok : Bool),
    a.sendMessage order loop data resolve ok = .pending a' loop'

/-- A message that is taken on and transmitted has a true header, and one whose size does not fit is
not taken on. -/
structure HeaderHonest (OnMessage : Type) (order : ByteOrder) (data : Message) (resolve : OnSent) :
    Prop where
  tells : Accepts OnMessage order data resolve → ∀ written, Transmits (.start order data) written →
    HeaderTells order written
  refused : 2 ^ 32 ≤ data.length → ¬ Accepts OnMessage order data resolve

/-- Only the assertion stands between a message and its transmission. -/
theorem accepts_iff : Accepts OnMessage order data resolve ↔ msgLen data ≠ 0 := by
  constructor
  · rintro ⟨a, a', loop, loop', ok, h⟩ hzero
    rw [sendMessage, if_pos hzero] at h
    split at h <;> exact absurd h (by simp)
  · intro hlength
    refine ⟨create 5, ⟨5, 1⟩, .init, ?_⟩
    simp [sendMessage, create, hlength, procData, EpollLoop.registerAction, EpollLoop.ctl, epollCtl,
      EpollLoop.init, PartialMap.contains]

/-- Headers are honest exactly for messages that are shorter than 2^32 bytes, and for those that
fail the assertion. -/
theorem headerHonest_iff (OnMessage : Type) (order : ByteOrder) (data : Message)
  (resolve : OnSent) : HeaderHonest OnMessage order data resolve ↔
  data.length < 2 ^ 32 ∨ data.length % 2 ^ 32 = 0 := by
  constructor
  · intro h
    by_contra hlong
    rw [not_or, not_lt] at hlong
    exact h.refused hlong.1 (accepts_iff.mpr hlong.2)
  · intro h
    refine ⟨fun haccepts written htransmits => ?_, fun hlong haccepts => ?_⟩
    · have hmod : data.length % 2 ^ 32 ≠ 0 := accepts_iff.mp haccepts
      have hdata : data ≠ [] := fun hnil => by simp [hnil] at hmod
      rw [(start_wf order hdata).transmits_eq htransmits, start_remaining, headerTells_frame]
      exact h.resolve_right hmod
    · have hmod : data.length % 2 ^ 32 ≠ 0 := accepts_iff.mp haccepts
      omega

/-- One byte more than 2^32: the header says one. -/
theorem long_message_has_false_header :
    ¬ ∀ data : Message, HeaderHonest Unit .little data () := by
  intro h
  obtain ⟨data, hlength⟩ : ∃ data : Message, data.length = 2 ^ 32 + 1 :=
    ⟨List.replicate (2 ^ 32 + 1) 0, List.length_replicate⟩
  have hlow : msgLen data ≠ 0 := by
    rw [msgLen, hlength]
    decide
  have hdata : data ≠ [] := by
    rintro rfl
    exact hlow rfl
  have htells := (h data).tells (accepts_iff.mpr hlow) _ (transmits_start .little hdata)
  rw [headerTells_frame, hlength] at htells
  omega

end AsyncFd

end Diplom
