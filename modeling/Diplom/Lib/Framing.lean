import Mathlib.Data.List.Infix

/-!
# Length-prefixed frames

A frame is the length of a message in a fixed number of symbols, followed by the message. What the
width, the alphabet and the order of the digits are is left to a `LengthCode`; the facts here are
the ones every such stream has: a frame shows where it ends, so a stream of frames can be cut in one
way only.
-/

/-- A fixed-width notation for the lengths below a bound. Every word of that width denotes one of
them. -/
structure LengthCode (Symbol : Type) where
  width : Nat
  bound : Nat
  encode : Nat → List Symbol
  decode : List Symbol → Nat
  width_pos : 0 < width
  length_encode : ∀ n, (encode n).length = width
  decode_encode : ∀ n, n < bound → decode (encode n) = n
  encode_decode : ∀ word, word.length = width → encode (decode word) = word
  decode_lt : ∀ word, decode word < bound

namespace LengthCode

variable {Symbol : Type} (code : LengthCode Symbol)

theorem encode_injective {m n : Nat} (hm : m < code.bound) (hn : n < code.bound)
    (h : code.encode m = code.encode n) : m = n := by
  rw [← code.decode_encode m hm, h, code.decode_encode n hn]

def frame (message : List Symbol) : List Symbol := code.encode message.length ++ message

def frames (messages : List (List Symbol)) : List Symbol := messages.flatMap code.frame

@[simp] theorem length_frame (message : List Symbol) :
    (code.frame message).length = code.width + message.length := by
  simp [frame, code.length_encode]

theorem frame_ne_nil (message : List Symbol) : code.frame message ≠ [] := by
  intro h
  have hlength := code.length_frame message
  rw [h, List.length_nil] at hlength
  have := code.width_pos
  omega

@[simp] theorem frames_nil : code.frames [] = [] := rfl

@[simp] theorem frames_cons (message : List Symbol) (rest : List (List Symbol)) :
    code.frames (message :: rest) = code.frame message ++ code.frames rest := rfl

@[simp] theorem frames_append (messages rest : List (List Symbol)) :
    code.frames (messages ++ rest) = code.frames messages ++ code.frames rest := by
  simp [frames]

/-- Lengths that fit are what a message list needs for its frames to be read back. -/
def Fits (messages : List (List Symbol)) : Prop := ∀ message ∈ messages, message.length < code.bound

/-- The lengths that a stream of frames announces, as far as they are there in whole; at most so
many of them. -/
def announced : Nat → List Symbol → List Nat
  | 0, _ => []
  | most + 1, stream =>
      if stream.length < code.width then []
      else
        code.decode (stream.take code.width) ::
          announced most (stream.drop (code.width + code.decode (stream.take code.width)))

def lengths (stream : List Symbol) : List Nat := code.announced stream.length stream

theorem mem_announced {messages : List (List Symbol)} (hfits : code.Fits messages)
    {word rest : List Symbol} (hword : word.length = code.width) {most : Nat}
    (hmost : (code.frames messages ++ (word ++ rest)).length ≤ most) :
    code.decode word ∈ code.announced most (code.frames messages ++ (word ++ rest)) := by
  have hwidth := code.width_pos
  induction messages generalizing most with
  | nil =>
      rw [frames_nil, List.nil_append, List.length_append] at hmost
      cases most with
      | zero => omega
      | succ most =>
          have htake : (word ++ rest).take code.width = word := by
            rw [← hword, List.take_left]
          rw [frames_nil, List.nil_append, announced, if_neg (by simp [hword]), htake]
          exact List.mem_cons_self
  | cons m others ih =>
      have hm := hfits m List.mem_cons_self
      rw [frames_cons, frame, List.append_assoc, List.append_assoc] at hmost ⊢
      rw [List.length_append, List.length_append, code.length_encode] at hmost
      cases most with
      | zero => omega
      | succ most =>
          have htake : ∀ tail, (code.encode m.length ++ tail).take code.width =
              code.encode m.length := fun tail => by
            rw [← code.length_encode m.length, List.take_left]
          have hdrop : (code.encode m.length ++ (m ++ (code.frames others ++ (word ++ rest)))).drop
              (code.width + m.length) = code.frames others ++ (word ++ rest) := by
            rw [← List.append_assoc, ← code.length_encode m.length, ← List.length_append,
              List.drop_left]
          rw [announced, if_neg (by simp [code.length_encode]), htake, code.decode_encode _ hm,
            hdrop]
          apply List.mem_cons_of_mem
          exact ih (fun m' hm' => hfits m' (List.mem_cons_of_mem m hm')) (by omega)

theorem mem_lengths {messages : List (List Symbol)} (hfits : code.Fits messages)
    {word stream : List Symbol} (hword : word.length = code.width)
    (hpre : code.frames messages ++ word <+: stream) : code.decode word ∈ code.lengths stream := by
  obtain ⟨rest, rfl⟩ := hpre
  rw [lengths, List.append_assoc]
  exact code.mem_announced hfits hword (Nat.le_refl _)

theorem frame_unique {a b : List Symbol} {stream : List Symbol} (ha : a.length < code.bound)
    (hb : b.length < code.bound) (hfa : code.frame a <+: stream) (hfb : code.frame b <+: stream) :
    a = b := by
  obtain ⟨ra, hra⟩ := hfa
  obtain ⟨rb, hrb⟩ := hfb
  have hsame : code.encode a.length ++ (a ++ ra) = code.encode b.length ++ (b ++ rb) := by
    rw [← List.append_assoc, ← List.append_assoc]
    exact hra.trans hrb.symm
  obtain ⟨hheader, hbody⟩ := List.append_inj hsame (by rw [code.length_encode, code.length_encode])
  exact (List.append_inj hbody (code.encode_injective ha hb hheader)).1

/-- Where the frames of one list begin the frames of another, the first list begins the second. -/
theorem prefix_of_frames_prefix {messages others : List (List Symbol)} (hm : code.Fits messages)
    (ho : code.Fits others) (h : code.frames messages <+: code.frames others) :
    messages <+: others := by
  induction messages generalizing others with
  | nil => exact List.nil_prefix
  | cons a rest ih =>
      cases others with
      | nil =>
          rw [frames_nil, List.prefix_nil, frames_cons, List.append_eq_nil_iff] at h
          exact absurd h.1 (code.frame_ne_nil a)
      | cons b others =>
          obtain rfl : a = b := by
            refine code.frame_unique (hm a List.mem_cons_self) (ho b List.mem_cons_self)
              ((List.prefix_append _ _).trans h) ?_
            rw [frames_cons]
            exact List.prefix_append _ _
          rw [frames_cons, frames_cons, List.prefix_append_right_inj] at h
          rw [List.cons_prefix_cons]
          exact ⟨rfl, ih (fun m hmem => hm m (List.mem_cons_of_mem _ hmem))
            (fun m hmem => ho m (List.mem_cons_of_mem _ hmem)) h⟩

/-- The beginning of a frame that has not been read to its end. -/
def Incomplete (part : List Symbol) : Prop :=
  part.length < code.width ∨ ∃ n body, n < code.bound ∧ part = code.encode n ++ body ∧
    body.length < n

theorem Incomplete.not_frame_prefix {part message : List Symbol} (h : code.Incomplete part)
    (hfits : message.length < code.bound) : ¬ code.frame message <+: part := by
  intro hpre
  have hlength := hpre.length_le
  rw [length_frame] at hlength
  rcases h with hshort | ⟨n, body, hn, rfl, hbody⟩
  · omega
  · obtain ⟨rest, hrest⟩ := hpre
    rw [frame, List.append_assoc] at hrest
    have hheader := (List.append_inj hrest (by rw [code.length_encode, code.length_encode])).1
    rw [List.length_append, code.length_encode] at hlength
    have := code.encode_injective hfits hn hheader
    omega

/-- An unfinished beginning of the first of some frames; nothing if there is none. -/
def PartOf (part : List Symbol) : List (List Symbol) → Prop
  | [] => part = []
  | next :: _ => part <+: code.frame next ∧ part ≠ code.frame next

theorem partOf_nil (rest : List (List Symbol)) : code.PartOf [] rest := by
  cases rest with
  | nil => rfl
  | cons next others => exact ⟨List.nil_prefix, fun hnil => code.frame_ne_nil next hnil.symm⟩

theorem PartOf.eq_nil_of_frames_prefix {part : List Symbol} {rest : List (List Symbol)}
    (h : code.PartOf part rest) (hpre : code.frames rest <+: part) : rest = [] := by
  cases rest with
  | nil => rfl
  | cons next others =>
      rw [frames_cons] at hpre
      have hlong := ((List.prefix_append _ _).trans hpre).length_le
      exact absurd (h.1.eq_of_length (le_antisymm h.1.length_le hlong)) h.2

/-- A stream cut into whole frames and one unfinished frame: what is unfinished lies inside the
frame of the next message. -/
theorem Incomplete.partOf {part : List Symbol} {rest : List (List Symbol)}
    (h : code.Incomplete part) (hrest : code.Fits rest) (hpre : part <+: code.frames rest) :
    code.PartOf part rest := by
  cases rest with
  | nil => exact List.prefix_nil.mp hpre
  | cons next others =>
      have hnot := h.not_frame_prefix code (hrest next List.mem_cons_self)
      refine ⟨?_, fun heq => hnot (heq ▸ List.prefix_rfl)⟩
      rw [frames_cons] at hpre
      exact (List.prefix_or_prefix_of_prefix hpre (List.prefix_append _ _)).resolve_right hnot

/-- Frames that lie in a stream of other frames and a part of one more are among the others. -/
theorem PartOf.prefix_of_frames {messages others rest : List (List Symbol)} {part : List Symbol}
    (h : code.PartOf part rest) (hm : code.Fits messages) (ho : code.Fits (others ++ rest))
    (hpre : code.frames messages <+: code.frames others ++ part) : messages <+: others := by
  have hpart : part <+: code.frames rest := by
    cases rest with
    | nil => exact List.prefix_nil.mpr h
    | cons next others => exact h.1.trans (List.prefix_append _ _)
  have hwhole : messages <+: others ++ rest := by
    apply code.prefix_of_frames_prefix hm ho
    rw [frames_append]
    exact hpre.trans ((List.prefix_append_right_inj _).mpr hpart)
  rcases List.prefix_or_prefix_of_prefix hwhole (List.prefix_append others rest) with hall | hmore
  · exact hall
  · obtain ⟨more, rfl⟩ := hmore
    rw [frames_append, List.prefix_append_right_inj] at hpre
    rw [List.prefix_append_right_inj] at hwhole
    -- a first message beyond the others would be the one that there is a part of
    suffices hnil : more = [] by
      rw [hnil, List.append_nil]
    cases more with
    | nil => rfl
    | cons first later =>
        obtain ⟨tail, rfl⟩ := hwhole
        have hpart : code.PartOf part (first :: later) := h
        exact hpart.eq_nil_of_frames_prefix code hpre

/-- The two ends of a stream agree on its frames: what a reader has cut off, up to an incomplete
rest, is what a writer has finished. -/
theorem Incomplete.eq_of_frames {messages others rest : List (List Symbol)}
    {tail part : List Symbol} (htail : code.Incomplete tail) (hpart : code.PartOf part rest)
    (hm : code.Fits messages) (ho : code.Fits (others ++ rest))
    (heq : code.frames messages ++ tail = code.frames others ++ part) : messages = others := by
  obtain ⟨more, rfl⟩ : messages <+: others :=
    hpart.prefix_of_frames code hm ho (heq ▸ List.prefix_append _ _)
  rw [frames_append, List.append_assoc, List.append_cancel_left_eq] at heq
  cases more with
  | nil => rw [List.append_nil]
  | cons next later =>
      have hfits : next.length < code.bound := ho next (by simp)
      apply absurd _ (htail.not_frame_prefix code hfits)
      rw [heq, frames_cons, List.append_assoc]
      exact List.prefix_append _ _

end LengthCode
