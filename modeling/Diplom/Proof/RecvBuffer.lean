import Diplom.Lib.Machine
import Diplom.Proof.AsyncOps

/-!
# The receive loop and its buffer

One `ProcData` call of a receiver, from its registration to its end, against everything that `recv`
may return. `left_size` counts what is missing as long as `recv` moves bytes or fails for good.
`EAGAIN` is let through to the subtraction and counts up: from then on the pointer runs one byte
behind the data, or lies before the buffer.
-/

namespace Diplom

/-- A `ProcData` call for `size` bytes, and beside it the bytes that its `recv` calls have moved. -/
structure RecvLoop where
  size : Nat
  taken : List Byte
  progress : Progress RecvBuf Message
deriving DecidableEq

namespace RecvLoop

def start (size : Nat) : RecvLoop := ⟨size, [], .waiting (.new size)⟩

/-- One event while the callback is registered. `recv` moves no more than it was asked for. -/
def step (s : RecvLoop) (event : EpollResult × RecvReturn) : Option RecvLoop :=
  match s.progress with
  | .waiting buf =>
      if (event.2.bytes event.1).length ≤ buf.left then
        some { s with
          taken := s.taken ++ event.2.bytes event.1
          progress := buf.proc event.1 event.2 }
      else none
  | _ => none

def machine : Machine RecvLoop (EpollResult × RecvReturn) := ⟨step⟩

/-- The next `recv` gets a range inside the buffer, behind it lies what was received, and the end is
`Ok` exactly if that is `size` bytes. -/
def InBounds (s : RecvLoop) : Prop :=
  match s.progress with
  | .waiting buf =>
      buf.data.length = s.size ∧ buf.left ≤ s.size ∧ buf.data.take (s.size - buf.left) = s.taken ∧
        s.taken.length < s.size
  | .resolved (.ok msg) => msg = s.taken ∧ s.taken.length = s.size
  | .resolved (.err _) => s.taken.length < s.size
  | .next _ => False
  | .aborted => False

/-- The event is not a `recv` that failed with `EAGAIN`. -/
def NotAgain (_ : RecvLoop) (event : EpollResult × RecvReturn) : Prop :=
  event ≠ (.ok (), .failed .eagain)

instance (s : RecvLoop) (event : EpollResult × RecvReturn) : Decidable (s.NotAgain event) := by
  unfold NotAgain
  infer_instance

variable {s t : RecvLoop} {buf : RecvBuf}

theorem step_cases {event : EpollResult × RecvReturn} (h : s.step event = some t) :
    ∃ buf, s.progress = .waiting buf ∧ (event.2.bytes event.1).length ≤ buf.left ∧
      t = { s with
        taken := s.taken ++ event.2.bytes event.1, progress := buf.proc event.1 event.2 } := by
  unfold step at h
  split at h
  · rename_i buf hwaiting
    split at h
    · rename_i hasked
      exact ⟨buf, hwaiting, hasked, (Option.some.inj h).symm⟩
    · exact absurd h (by simp)
  · exact absurd h (by simp)

theorem InBounds.waiting (h : s.InBounds) (hwaiting : s.progress = .waiting buf) :
    buf.Wf ∧ buf.data.length = s.size ∧ buf.received = s.taken ∧
      s.taken.length = s.size - buf.left := by
  rw [InBounds, hwaiting] at h
  obtain ⟨hsize, hleft, htake, hmissing⟩ := h
  have hlength : s.taken.length = s.size - buf.left := by
    rw [← htake, List.length_take]
    omega
  refine ⟨⟨?_, ?_⟩, hsize, ?_, hlength⟩
  · omega
  · omega
  · rw [RecvBuf.received, hsize, htake]

/-- `EAGAIN` leaves a position that does not say how much was received. -/
theorem InBounds.again (h : s.InBounds) (hwaiting : s.progress = .waiting buf) :
    ¬ InBounds { s with progress := .waiting { buf with left := buf.left + 1 } } := by
  obtain ⟨hwf, hsize, -, hlength⟩ := h.waiting hwaiting
  intro hbounds
  have hagain := (hbounds.waiting rfl).2.2.2
  have hroom : buf.left + 1 ≤ s.size := by
    rw [InBounds] at hbounds
    exact hbounds.2.1
  dsimp only at hagain
  omega

theorem InBounds.failed (h : s.InBounds) (hwaiting : s.progress = .waiting buf) (e : IoError) :
    InBounds { s with taken := s.taken ++ [], progress := .resolved (.err e) } := by
  rw [InBounds, hwaiting] at h
  simpa [InBounds] using h.2.2.2

/-- Bytes that `recv` moves go behind those received before. -/
theorem InBounds.moved (h : s.InBounds) (hwaiting : s.progress = .waiting buf)
    {bytes : List Byte} (hsome : bytes ≠ [])
    (hasked : bytes.length ≤ buf.left) :
    InBounds { s with
      taken := s.taken ++ bytes
      progress := buf.proc (.ok ()) (.moved bytes) } := by
  obtain ⟨hwf, hsize, hreceived, hlength⟩ := h.waiting hwaiting
  have hfits := hwf.2
  rcases RecvBuf.proc_moved hwf hsome
      hasked with ⟨hall, hproc⟩ | ⟨buf', hproc, hwf', hsize', hreceived'⟩
  · rw [hproc]
    refine ⟨by rw [hreceived], ?_⟩
    simp only [List.length_append]
    omega
  · rw [hproc]
    have htake : buf'.data.take (s.size - buf'.left) = s.taken ++ bytes := by
      rw [← hreceived, ← hreceived', RecvBuf.received, hsize', hsize]
    have hsame : buf'.data.length = s.size := hsize'.trans hsize
    refine ⟨hsame, hwf'.2.trans_eq hsame, htake, ?_⟩
    have hpos := hwf'.1
    have hroom := hwf'.2
    simp only [← htake, List.length_take]
    omega

theorem inBounds_step {event : EpollResult × RecvReturn} (h : s.InBounds)
    (hstep : s.step event = some t) : t.InBounds ↔ s.NotAgain event := by
  obtain ⟨buf, hwaiting, hasked, rfl⟩ := step_cases hstep
  obtain ⟨res, ret⟩ := event
  cases res with
  | err e => exact iff_of_true (h.failed hwaiting e) (by simp [NotAgain])
  | ok u =>
      cases ret with
      | failed errno =>
          cases errno with
          | eagain =>
              refine iff_of_false ?_ (by simp [NotAgain])
              simpa [RecvReturn.bytes, RecvBuf.proc] using h.again hwaiting
          | other => exact iff_of_true (h.failed hwaiting .error) (by simp [NotAgain])
      | moved bytes =>
          refine iff_of_true ?_ (by simp [NotAgain])
          by_cases hsome : bytes = []
          · subst hsome
            have hpos := (h.waiting hwaiting).1.1
            have hclosed : buf.proc (.ok u) (.moved []) = .resolved (.err .error) := by
              simp only [RecvBuf.proc]
              rw [if_pos ⟨rfl, Nat.pos_iff_ne_zero.mp hpos⟩]
            dsimp only
            rw [hclosed]
            exact h.failed hwaiting .error
          · exact h.moved hwaiting hsome hasked

theorem start_inBounds {size : Nat} (h : 0 < size) : (start size).InBounds := by
  simpa [InBounds, start, RecvBuf.new] using h

/-- A receive loop stays inside its buffer exactly if no `recv` fails with `EAGAIN`. -/
theorem in_bounds_iff_not_again {size : Nat} (h : 0 < size)
    (events : List (EpollResult × RecvReturn)) :
    machine.Always InBounds (start size) events ↔ machine.EachStep NotAgain (start size) events :=
  Machine.always_iff_eachStep (I := fun _ => True) (fun _ _ _ _ _ => trivial)
    (fun _ _ _ _ hs hstep => inBounds_step hs hstep) events trivial (start_inBounds h)

/-- A header in two pieces. -/
theorem in_bounds_of_two_pieces :
    machine.Always InBounds (start 4) [(.ok (), .moved [7, 0, 0]), (.ok (), .moved [0])] :=
  (in_bounds_iff_not_again (by decide) _).mpr (by decide)

/-- `EAGAIN` before the first byte of a header: the next `recv` would write five bytes from one
before the buffer. -/
theorem again_leaves_buffer :
    ¬ ∀ (size : Nat) (events : List (EpollResult × RecvReturn)),
      0 < size → machine.Always InBounds (start size) events := by
  intro h
  have hlast := (h 4 [(.ok (), .failed .eagain)] (by decide)).last rfl
  exact absurd hlast.2.1 (by decide)

end RecvLoop

end Diplom
