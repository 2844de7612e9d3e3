import Diplom.Lib.Lines
import Diplom.Proof.Codecs
import Diplom.Proof.TransportLogs
import Diplom.Transport.Logging
import Mathlib.Data.List.DropRight

/-!
# The logs that the transport prints

The log of a run of a transport is read back as what the run has notified. No character of a time of
day, of a peer id or of a name can be taken for the bracket that a pattern looks for, so each
pattern can match at one place only, and there it is one fixed text against another.

`PrintLog` prints a line with two calls, `vprintf` and `fputc`. They are one print here, so the logs
are those of runs in which one thread logs at a time.
-/

namespace Diplom

open Python

/-! ### Characters of times and peer ids -/

theorem stamp_chars (t : Int) : ∀ c ∈ getDatetimeStr t, c.isDigit = true ∨ c = ':' ∨ c = '.' := by
  intro c hc
  have hdigit : ∀ width n, c ∈ padded width n → c.isDigit = true :=
    fun width n hmem => allDigits_padded width n c hmem
  simp only [getDatetimeStr, List.mem_append, List.mem_cons] at hc
  rcases hc with ((hc | rfl | hc) | rfl | hc) | rfl | hc
  · exact .inl (hdigit _ _ hc)
  · exact .inr (.inl rfl)
  · exact .inl (hdigit _ _ hc)
  · exact .inr (.inl rfl)
  · exact .inl (hdigit _ _ hc)
  · exact .inr (.inr rfl)
  · exact .inl (hdigit _ _ hc)

def isIdChar (c : Char) : Bool := c = ':' ∨ c ∈ hexDigits

private theorem isIdChar_macText {groups : List (Char × Char)}
    (h : ∀ g ∈ groups, isIdChar g.1 = true ∧ isIdChar g.2 = true) :
    ∀ c ∈ macText groups, isIdChar c = true := by
  induction groups with
  | nil => simp [macText]
  | cons g rest ih =>
      obtain ⟨hhigh, hlow⟩ := h g List.mem_cons_self
      have hrest := ih fun g' hg' => h g' (List.mem_cons_of_mem g hg')
      intro c hc
      cases rest with
      | nil =>
          rw [macText, List.map_singleton, List.intercalate_singleton] at hc
          rcases List.mem_pair.mp hc with rfl | rfl
          · exact hhigh
          · exact hlow
      | cons g' rest =>
          have hsplit : macText (g :: g' :: rest) = g.1 :: g.2 :: ':' :: macText (g' :: rest) := rfl
          rw [hsplit] at hc
          simp only [List.mem_cons] at hc
          rcases hc with rfl | rfl | rfl | hc
          · exact hhigh
          · exact hlow
          · decide
          · exact hrest c hc

theorem peerText_chars (peer : PeerId) : ∀ c ∈ peerText peer, isIdChar c = true := by
  rw [peerText_macText]
  apply isIdChar_macText
  intro g hg
  obtain ⟨oct, -, rfl⟩ := List.mem_map.mp hg
  obtain ⟨hhigh, hlow, -⟩ := octetDigits_spec oct
  have hdigit := List.all_eq_true.mp (show hexDigits.all isIdChar = true by decide)
  exact ⟨hdigit _ (List.mem_of_getElem? hhigh), hdigit _ (List.mem_of_getElem? hlow)⟩

theorem length_peerText (peer : PeerId) : (peerText peer).length = 17 := by
  rw [peerText_macText]
  match peer with
  | ⟨[_, _, _, _, _, _], _⟩ => rfl

/-! ### A line without its end -/

/-- Stripping a line takes what follows its last character away, and nothing up to the time. -/
theorem strip_print (call : LogCall) (t : Int) : ∃ body, body <+: call.body ∧
    strip Python.isSpace (call.print t) = '[' :: getDatetimeStr t ++ ']' :: body ∧
    ∀ front c, call.body = front ++ [c] → Python.isSpace c = false → body = call.body := by
  refine ⟨call.body.rdropWhile Python.isSpace, List.rdropWhile_prefix _ _, ?_, ?_⟩
  · have hreverse : (call.print t).reverse =
        ('\n' :: call.body.reverse) ++ ']' :: ('[' :: getDatetimeStr t).reverse := by
      simp [LogCall.print, LogCall.line]
    have hfront : (call.print t).dropWhile Python.isSpace = call.print t := rfl
    have hback : (']' :: ('[' :: getDatetimeStr t).reverse).dropWhile Python.isSpace =
        ']' :: ('[' :: getDatetimeStr t).reverse := rfl
    rw [strip, hfront, hreverse, List.dropWhile_append, hback]
    have hnewline : ('\n' :: call.body.reverse).dropWhile Python.isSpace =
        call.body.reverse.dropWhile Python.isSpace := rfl
    rw [hnewline, List.rdropWhile]
    split
    · rename_i hempty
      rw [List.isEmpty_iff.mp hempty]
      simp
    · simp
  · intro front c hbody hc
    rw [hbody, List.rdropWhile_concat_neg]
    rw [hc]
    exact Bool.false_ne_true

/-! ### Patterns -/

section Patterns

variable {α : Type} {rest : Text → Option α} {stamp body : Text}

private theorem lazyGroup_stamp (hstamp : ∀ c ∈ stamp, c ≠ ']' ∧ c ≠ '\n') (text : Text) :
    lazyGroup (fun text => (literal [']'] text).bind rest) (stamp ++ text) =
      (lazyGroup (fun text => (literal [']'] text).bind rest) text).map fun m =>
        (stamp ++ m.1, m.2) := by
  induction stamp with
  | nil => simp
  | cons c stamp ih =>
      obtain ⟨hbracket, hnewline⟩ := hstamp c List.mem_cons_self
      have hc : literal [']'] (c :: stamp ++ text) = none := by
        rw [literal, if_neg]
        simpa using hbracket.symm
      have hrest := ih fun c' hc' => hstamp c' (List.mem_cons_of_mem c hc')
      rw [List.cons_append] at hc ⊢
      rw [lazyGroup, hc, Option.bind_none]
      dsimp only
      rw [if_neg hnewline, hrest, Option.map_map]
      rfl

/-- Where no bracket stands before a match there is none. -/
private theorem lazyGroup_none (h : ∀ text, ']' :: text <:+ body → rest text = none) :
    lazyGroup (fun text => (literal [']'] text).bind rest) body = none := by
  induction body with
  | nil => rfl
  | cons c body ih =>
      have hbody := ih fun text htext => h text (htext.trans (List.suffix_cons c body))
      have hc : (literal [']'] (c :: body)).bind rest = none := by
        by_cases hbracket : c = ']'
        · rw [hbracket]
          exact h body (hbracket ▸ List.suffix_rfl)
        · rw [literal, if_neg]
          · rfl
          · simpa using Ne.symm hbracket
      rw [lazyGroup, hc, hbody]
      simp

theorem timePattern_line (hstamp : ∀ c ∈ stamp, c ≠ ']' ∧ c ≠ '\n')
    (hbody : ∀ text, ']' :: text <:+ body → rest text = none) :
    timePattern rest ('[' :: stamp ++ ']' :: body) = (rest body).map fun a => (stamp, a) := by
  have hopen : literal ['['] ('[' :: stamp ++ ']' :: body) = some (stamp ++ ']' :: body) := rfl
  have hclose : literal [']'] (']' :: body) = some body := rfl
  rw [timePattern, hopen, Option.bind_some, lazyGroup_stamp hstamp, lazyGroup, hclose,
    Option.bind_some]
  cases hrest : rest body with
  | none =>
      have hnone := lazyGroup_none hbody
      simp [hnone]
  | some a => simp

end Patterns

theorem literal_eq_some {front text rest : Text} :
    literal front text = some rest ↔ text = front ++ rest := by
  rw [literal]
  constructor
  · intro h
    split at h
    · rename_i hbegins
      obtain ⟨behind, rfl⟩ := List.isPrefixOf_iff_prefix.mp hbegins
      rw [List.drop_left] at h
      rw [Option.some.inj h]
    · exact absurd h (by simp)
  · rintro rfl
    rw [if_pos (List.isPrefixOf_iff_prefix.mpr (List.prefix_append _ _)), List.drop_left]

/-- Texts of which neither begins with the other. -/
def Parted (a b : Text) : Prop := ¬ a <+: b ∧ ¬ b <+: a

instance (a b : Text) : Decidable (Parted a b) := by
  unfold Parted
  infer_instance

theorem Parted.not_begins {front text : Text} (h : Parted front text) (more : Text) :
    ¬ front <+: text ++ more := by
  intro hbegins
  rcases List.prefix_or_prefix_of_prefix hbegins (List.prefix_append text more) with hle | hle
  · exact h.1 hle
  · exact h.2 hle

/-- A text that differs before it ends is not matched, whatever comes behind it. -/
theorem Parted.literal_none {front text : Text} (h : Parted front text) (more : Text) :
    literal front (text ++ more) = none := by
  rw [literal, if_neg]
  rw [List.isPrefixOf_iff_prefix]
  exact h.not_begins more

theorem directionGroup_toText (dir : LinkDirection) (more : Text) :
    directionGroup (dir.toText ++ more) = dir.session.map fun dir => (dir, more) := by
  have hskip : ∀ {front text : Text}, Parted front text → literal front (text ++ more) = none :=
    fun h => h.literal_none more
  cases dir with
  | incoming =>
      have htext : LinkDirection.incoming.toText = "INCOMING".toList := rfl
      rw [directionGroup, htext, literal_eq_some.mpr rfl]
      rfl
  | outgoing =>
      have htext : LinkDirection.outgoing.toText = "OUTGOING".toList := rfl
      rw [directionGroup, hskip (by decide), htext, literal_eq_some.mpr rfl]
      rfl
  | all =>
      rw [directionGroup, hskip (by decide), hskip (by decide)]
      rfl

theorem macGroup_peerText (peer : PeerId) : macGroup (peerText peer) = some (peerText peer) := by
  have hlength := length_peerText peer
  have htake : (peerText peer).take 17 = peerText peer :=
    List.take_of_length_le (Nat.le_of_eq hlength)
  rw [macGroup, if_pos, htake]
  rw [htake]
  refine ⟨Nat.le_of_eq hlength.symm, List.all_eq_true.mpr fun c hc => ?_⟩
  have hmac := List.all_eq_true.mp (show (':' :: hexDigits).all isMacChar = true by decide)
  have hid : c ∈ ':' :: hexDigits := by simpa [isIdChar] using peerText_chars peer c hc
  exact hmac c hid

theorem containsText_iff {keyword line : Text} :
    containsText keyword line = true ↔ keyword <:+: line := by
  rw [containsText, List.any_eq_true, List.infix_iff_prefix_suffix]
  simp only [List.mem_tails, List.isPrefixOf_iff_prefix]
  exact exists_congr fun _ => And.comm

/-! ### The lines of the transport -/

section Transport

variable {stamp front : Text} {peer : PeerId}

/-- A character that is neither in a time nor in a peer id. -/
def Outside (c : Char) : Prop := c.isDigit = false ∧ c ≠ '.' ∧ isIdChar c = false

instance (c : Char) : Decidable (Outside c) := by
  unfold Outside
  infer_instance

theorem Outside.notMem_stamp {c : Char} (h : Outside c) (t : Int) : c ∉ getDatetimeStr t := by
  obtain ⟨hdigit, hdot, hid⟩ := h
  intro hmem
  rcases stamp_chars t c hmem with htrue | rfl | rfl
  · exact absurd (htrue.symm.trans hdigit) (by decide)
  · exact absurd hid (by decide)
  · exact hdot rfl

theorem Outside.notMem_peerText {c : Char} (h : Outside c) (peer : PeerId) : c ∉ peerText peer :=
  fun hmem => absurd ((peerText_chars peer c hmem).symm.trans h.2.2) (by decide)

theorem stamp_closed (t : Int) : ∀ c ∈ getDatetimeStr t, c ≠ ']' ∧ c ≠ '\n' := by
  intro c hc
  have hbracket : Outside ']' := by decide
  have hnewline : Outside '\n' := by decide
  refine ⟨?_, ?_⟩
  · rintro rfl
    exact hbracket.notMem_stamp t hc
  · rintro rfl
    exact hnewline.notMem_stamp t hc

theorem containsText_line {keyword : Text} (hbracket : ']' ∉ keyword) (hspace : ' ' ∉ keyword)
    (hletter : 'O' ∈ keyword) (t : Int) (front : Text) (peer : PeerId) :
    containsText keyword ('[' :: getDatetimeStr t ++ ']' :: (front ++ ' ' :: peerText peer)) =
      containsText keyword front := by
  have houtside : Outside 'O' := by decide
  have hstamp : ¬ keyword <:+: '[' :: getDatetimeStr t := by
    intro h
    rcases List.mem_cons.mp (h.subset hletter) with heq | hmem
    · exact absurd heq (by decide)
    · exact houtside.notMem_stamp t hmem
  have hpeer : ¬ keyword <:+: peerText peer := fun h =>
    houtside.notMem_peerText peer (h.subset hletter)
  rw [Bool.eq_iff_iff, containsText_iff, containsText_iff, infix_around hbracket,
    infix_around hspace, or_iff_right hstamp, or_iff_left hpeer]

theorem timePattern_transport {α : Type} (rest : Text → Option α) (hfront : ']' ∉ front) (t : Int)
    (peer : PeerId) :
    timePattern rest ('[' :: getDatetimeStr t ++ ']' :: (front ++ ' ' :: peerText peer)) =
      (rest (front ++ ' ' :: peerText peer)).map fun a => (getDatetimeStr t, a) := by
  have houtside : Outside ']' := by decide
  refine timePattern_line (stamp_closed t) fun text htext => ?_
  rcases List.mem_append.mp (htext.subset List.mem_cons_self) with hmem | hmem
  · exact absurd hmem hfront
  · rcases List.mem_cons.mp hmem with heq | hmem
    · exact absurd heq (by decide)
    · exact absurd hmem (houtside.notMem_peerText peer)

end Transport

namespace TransportCall

/-- What stands between the time and the space before the peer id. -/
def fixed (function front : Text) : Text :=
  LogTag.ipTransport.text ++ ':' :: LogLevel.info.text ++ ':' :: function ++ ':' :: front

theorem fixed_eq (function front : Text) : fixed function front = fixed function [] ++ front := by
  simp only [fixed, List.append_assoc, List.cons_append, List.nil_append]

theorem line_eq (c : TransportCall) (t : Int) : c.call.line t =
    '[' :: getDatetimeStr t ++ ']' :: (fixed c.function c.front ++ ' ' :: peerText c.peer) := by
  simp only [LogCall.line, LogCall.body, call, fixed, List.append_assoc, List.cons_append]

/-- What a call says of a peer, if the merge looks for it. -/
def said (c : TransportCall) : Option (What × PeerId) := c.note.bind Notification.logged

theorem neighborPattern_line {front fixed : Text} (h : fixed ++ [' '] = front)
    (hfixed : ']' ∉ fixed) (t : Int) (peer : PeerId) :
    neighborPattern front ('[' :: getDatetimeStr t ++ ']' :: (fixed ++ ' ' :: peerText peer)) =
      some (getDatetimeStr t, peerText peer) := by
  have hliteral : literal front (fixed ++ ' ' :: peerText peer) = some (peerText peer) := by
    rw [literal_eq_some, ← h, List.append_assoc, List.singleton_append]
  rw [neighborPattern, timePattern_transport _ hfixed, hliteral, Option.bind_some,
    macGroup_peerText]
  rfl

theorem linkPattern_line {front middle fixed : Text} {dir : LinkDirection}
    (h : fixed = front ++ (dir.toText ++ middle)) (hfixed : ']' ∉ fixed) (t : Int)
    (peer : PeerId) :
    linkPattern front (middle ++ [' '])
        ('[' :: getDatetimeStr t ++ ']' :: (fixed ++ ' ' :: peerText peer)) =
      dir.session.map fun dir => (getDatetimeStr t, dir, peerText peer) := by
  have hfront : literal front (fixed ++ ' ' :: peerText peer) =
      some (dir.toText ++ (middle ++ ' ' :: peerText peer)) := by
    rw [literal_eq_some, h, List.append_assoc, List.append_assoc]
  have hback : literal (middle ++ [' ']) (middle ++ ' ' :: peerText peer) =
      some (peerText peer) := by
    rw [literal_eq_some, List.append_assoc, List.singleton_append]
  rw [linkPattern, timePattern_transport _ hfixed, hfront, Option.bind_some,
    directionGroup_toText]
  cases dir.session with
  | none => rfl
  | some dir =>
      rw [Option.map_some, Option.bind_some]
      dsimp only
      rw [hback, Option.bind_some, macGroup_peerText]
      rfl

theorem linkPattern_none {front function message : Text}
    (h : Parted front (fixed function [])) (hfixed : ']' ∉ fixed function message) (back : Text)
    (t : Int) (peer : PeerId) :
    linkPattern front back
        ('[' :: getDatetimeStr t ++ ']' :: (fixed function message ++ ' ' :: peerText peer)) =
      none := by
  rw [linkPattern, timePattern_transport _ hfixed, fixed_eq function message, List.append_assoc,
    h.literal_none]
  rfl

/-- The words that decide which pattern a line is matched against. -/
def keywords : List Text :=
  ["OnNeighborFound".toList, "OnNeighborLost".toList, "OnLinkEstablishing".toList,
    "OnLinkClosed".toList]

/-- Which of the words stand in the fixed part of a line. -/
def found (function front : Text) : List Bool :=
  keywords.map fun keyword => containsText keyword (fixed function front)

theorem eventOf_of_found (c : TransportCall) (t : Int) {first second third fourth : Bool}
    (h : found c.function c.front = [first, second, third, fourth]) :
    eventOf (c.call.line t) =
      if first then (neighborFoundPattern (c.call.line t)).map fun m => (m.1, .saw, upper m.2)
      else if second then (neighborLostPattern (c.call.line t)).map fun m => (m.1, .lost, upper m.2)
      else if third then
        (linkEstablishPattern (c.call.line t)).map fun m => (m.1, .opened m.2.1, upper m.2.2)
      else if fourth then
        (linkClosedPattern (c.call.line t)).map fun m => (m.1, .closed m.2.1, upper m.2.2)
      else none := by
  have hkeyword : ∀ keyword ∈ keywords,
      containsText keyword (c.call.line t) = containsText keyword (fixed c.function c.front) := by
    intro keyword hkeyword
    have hchars : ∀ keyword ∈ keywords, ']' ∉ keyword ∧ ' ' ∉ keyword ∧ 'O' ∈ keyword := by
      decide
    obtain ⟨hbracket, hspace, hletter⟩ := hchars keyword hkeyword
    rw [line_eq]
    exact containsText_line hbracket hspace hletter t _ c.peer
  simp only [found, keywords, List.map_cons, List.map_nil, List.cons.injEq, and_true] at h
  obtain ⟨rfl, rfl, rfl, rfl⟩ := h
  rw [eventOf, hkeyword _ (by simp [keywords]), hkeyword _ (by simp [keywords]),
    hkeyword _ (by simp [keywords]), hkeyword _ (by simp [keywords])]

theorem eventOf_silent (c : TransportCall) (t : Int)
    (hfound : found c.function c.front = [false, false, false, false]) :
    eventOf (c.call.line t) = none := by
  rw [eventOf_of_found c t hfound]
  rfl

theorem found_calls :
    found "Start".toList "IP transport started with pid:".toList = [false, false, false, false] ∧
    found "OpenSession".toList "Opening session to peer".toList = [false, false, false, false] ∧
    found "SendMessage".toList "Sending message to peer".toList = [false, false, false, false] ∧
    found "CloseSession".toList "Closing session to peer".toList = [false, false, false, false] ∧
    found "OnMessageReceived".toList "Message received from peer".toList =
      [false, false, false, false] ∧
    found "OnNeighborFound".toList "Found new neighbor:".toList = [true, false, false, false] ∧
    found "OnNeighborLost".toList "Lost neighbor:".toList = [false, true, false, false] := by
  decide

/-- Those that hold a direction. The words of a link that cannot be opened are those of one that is
opened. -/
theorem found_links (dir : LinkDirection) :
    found "OnLinkEstablishing".toList (dir.toText ++ " session opened with peer".toList) =
      [false, false, true, false] ∧
    found "OnLinkEstablishingError".toList
        ("Failed to open ".toList ++ dir.toText ++ " session with peer".toList) =
      [false, false, true, false] ∧
    found "OnLinkClosed".toList (dir.toText ++ " session closed with peer".toList) =
      [false, false, false, true] := by
  cases dir <;> decide

theorem fixed_chars (c : TransportCall) :
    ∀ d ∈ fixed c.function c.front, d ∉ [']', '\n', '\r'] := by
  have hcalls : ∀ line ∈ [("Start".toList, "IP transport started with pid:".toList),
      ("OpenSession".toList, "Opening session to peer".toList),
      ("SendMessage".toList, "Sending message to peer".toList),
      ("CloseSession".toList, "Closing session to peer".toList),
      ("OnMessageReceived".toList, "Message received from peer".toList),
      ("OnNeighborFound".toList, "Found new neighbor:".toList),
      ("OnNeighborLost".toList, "Lost neighbor:".toList)],
      (fixed line.1 line.2).all (fun d => d ∉ [']', '\n', '\r']) = true := by
    decide
  have hlinks : ∀ dir : LinkDirection, ∀ line ∈
      [("OnLinkEstablishing".toList, dir.toText ++ " session opened with peer".toList),
      ("OnLinkEstablishingError".toList,
        "Failed to open ".toList ++ dir.toText ++ " session with peer".toList),
      ("OnLinkClosed".toList, dir.toText ++ " session closed with peer".toList)],
      (fixed line.1 line.2).all (fun d => d ∉ [']', '\n', '\r']) = true := by
    intro dir
    cases dir <;> decide
  suffices hall : (fixed c.function c.front).all (fun d => d ∉ [']', '\n', '\r']) = true from
    fun d hd => of_decide_eq_true (List.all_eq_true.mp hall d hd)
  simp only [List.forall_mem_cons] at hcalls
  obtain ⟨hstart, hopen, hsend, hclose, hreceived, hfound, hlost, -⟩ := hcalls
  have hlink := fun dir => List.forall_mem_cons.mp (hlinks dir)
  cases c with
  | started self => exact hstart
  | openSession peer => exact hopen
  | sendMessage peer => exact hsend
  | closeSession peer => exact hclose
  | notifies note =>
      cases note with
      | newNeighbour peer => exact hfound
      | lostNeighbour peer => exact hlost
      | sessionOpened peer dir => exact (hlink dir).1
      | error peer err => exact (hlink err.dir).2 _ List.mem_cons_self
      | sessionLost peer dir =>
          exact (hlink dir).2 _ (List.mem_cons_of_mem _ List.mem_cons_self)
      | receivedMessage peer msg => exact hreceived

theorem fixed_plain (c : TransportCall) : ']' ∉ fixed c.function c.front :=
  fun hmem => c.fixed_chars _ hmem List.mem_cons_self

theorem eventOf_notifies (note : Notification) (t : Int) :
    eventOf ((notifies note).call.line t) =
      note.logged.map fun said => (getDatetimeStr t, said.1, upper (peerText said.2)) := by
  obtain ⟨-, -, -, -, hreceived, hfound, hlost⟩ := found_calls
  cases note with
  | newNeighbour peer =>
      have hline := neighborPattern_line
        (show fixed "OnNeighborFound".toList "Found new neighbor:".toList ++ [' '] =
          "IpTransport:INFO:OnNeighborFound:Found new neighbor: ".toList by decide)
        (fixed_plain (notifies (.newNeighbour peer))) t peer
      rw [eventOf_of_found (notifies (.newNeighbour peer)) t hfound, if_pos rfl,
        neighborFoundPattern, line_eq]
      exact congrArg _ hline
  | lostNeighbour peer =>
      have hline := neighborPattern_line
        (show fixed "OnNeighborLost".toList "Lost neighbor:".toList ++ [' '] =
          "IpTransport:INFO:OnNeighborLost:Lost neighbor: ".toList by decide)
        (fixed_plain (notifies (.lostNeighbour peer))) t peer
      rw [eventOf_of_found (notifies (.lostNeighbour peer)) t hlost, if_neg (by decide), if_pos rfl,
        neighborLostPattern, line_eq]
      exact congrArg _ hline
  | sessionOpened peer dir =>
      have hhead : fixed "OnLinkEstablishing".toList [] =
          "IpTransport:INFO:OnLinkEstablishing:".toList := by decide
      have hfront : ∀ message, fixed "OnLinkEstablishing".toList message =
          "IpTransport:INFO:OnLinkEstablishing:".toList ++ message := fun message => by
        rw [fixed_eq, hhead]
      have hline :=
        linkPattern_line (hfront _) (fixed_plain (notifies (.sessionOpened peer dir))) t peer
      rw [show " session opened with peer".toList ++ [' '] =
        " session opened with peer ".toList by decide] at hline
      rw [eventOf_of_found (notifies (.sessionOpened peer dir)) t (found_links dir).1,
        if_neg (by decide), if_neg (by decide), if_pos rfl, linkEstablishPattern, line_eq]
      refine (congrArg _ hline).trans ?_
      cases dir <;> rfl
  | error peer err =>
      have hline := linkPattern_none
        (show Parted "IpTransport:INFO:OnLinkEstablishing:".toList
          (fixed "OnLinkEstablishingError".toList []) by decide)
        (fixed_plain (notifies (.error peer err))) " session opened with peer ".toList t peer
      rw [eventOf_of_found (notifies (.error peer err)) t (found_links err.dir).2.1,
        if_neg (by decide), if_neg (by decide), if_pos rfl, linkEstablishPattern, line_eq]
      exact congrArg _ hline
  | sessionLost peer dir =>
      have hhead : fixed "OnLinkClosed".toList [] = "IpTransport:INFO:OnLinkClosed:".toList := by
        decide
      have hfront : ∀ message, fixed "OnLinkClosed".toList message =
          "IpTransport:INFO:OnLinkClosed:".toList ++ message := fun message => by
        rw [fixed_eq, hhead]
      have hline :=
        linkPattern_line (hfront _) (fixed_plain (notifies (.sessionLost peer dir))) t peer
      rw [show " session closed with peer".toList ++ [' '] =
        " session closed with peer ".toList by decide] at hline
      rw [eventOf_of_found (notifies (.sessionLost peer dir)) t (found_links dir).2.2,
        if_neg (by decide), if_neg (by decide), if_neg (by decide), if_pos rfl, linkClosedPattern,
        line_eq]
      refine (congrArg _ hline).trans ?_
      cases dir <;> rfl
  | receivedMessage peer msg =>
      exact eventOf_silent (notifies (.receivedMessage peer msg)) t hreceived

theorem eventOf_line (c : TransportCall) (t : Int) : eventOf (c.call.line t) =
    c.said.map fun said => (getDatetimeStr t, said.1, upper (peerText said.2)) := by
  obtain ⟨hstart, hopen, hsend, hclose, -⟩ := found_calls
  cases c with
  | started self => exact eventOf_silent (.started self) t hstart
  | openSession peer => exact eventOf_silent (.openSession peer) t hopen
  | sendMessage peer => exact eventOf_silent (.sendMessage peer) t hsend
  | closeSession peer => exact eventOf_silent (.closeSession peer) t hclose
  | notifies note => exact eventOf_notifies note t

theorem parted_start (c : TransportCall) : (∃ self, c = .started self) ∨
    Parted "IpTransport:INFO:Start:IP transport started with pid: ".toList
      (fixed c.function []) := by
  have hcalls : ∀ function ∈ ["OpenSession".toList, "SendMessage".toList, "CloseSession".toList,
      "OnMessageReceived".toList, "OnNeighborFound".toList, "OnNeighborLost".toList,
      "OnLinkEstablishing".toList, "OnLinkEstablishingError".toList, "OnLinkClosed".toList],
      Parted "IpTransport:INFO:Start:IP transport started with pid: ".toList
        (fixed function []) := by
    decide
  simp only [List.forall_mem_cons] at hcalls
  obtain ⟨hopen, hsend, hclose, hreceived, hfound, hlost, hopened, herror, hclosed, -⟩ := hcalls
  cases c with
  | started self => exact .inl ⟨self, rfl⟩
  | openSession peer => exact .inr hopen
  | sendMessage peer => exact .inr hsend
  | closeSession peer => exact .inr hclose
  | notifies note =>
      cases note with
      | newNeighbour peer => exact .inr hfound
      | lostNeighbour peer => exact .inr hlost
      | sessionOpened peer dir => exact .inr hopened
      | error peer err => exact .inr herror
      | sessionLost peer dir => exact .inr hclosed
      | receivedMessage peer msg => exact .inr hreceived

theorem startPattern_started (self : PeerId) (t : Int) :
    startPattern ((started self).call.line t) = some (getDatetimeStr t, peerText self) := by
  rw [line_eq]
  exact neighborPattern_line
    (show fixed "Start".toList "IP transport started with pid:".toList ++ [' '] =
      "IpTransport:INFO:Start:IP transport started with pid: ".toList by decide)
    (fixed_plain (.started self)) t self

theorem startPattern_none {c : TransportCall} (h : ∀ self, c ≠ .started self) (t : Int) :
    startPattern (c.call.line t) = none := by
  have hparted := (parted_start c).resolve_left fun ⟨self, hself⟩ => h self hself
  rw [line_eq, startPattern, timePattern_transport _ (fixed_plain c), fixed_eq c.function,
    List.append_assoc, hparted.literal_none]
  rfl

theorem strip_call (c : TransportCall) (t : Int) :
    strip Python.isSpace (c.call.print t) = c.call.line t := by
  obtain ⟨body, -, hstrip, hwhole⟩ := strip_print c.call t
  have hne : peerText c.peer ≠ [] := by
    intro hnil
    have hlength := length_peerText c.peer
    rw [hnil] at hlength
    exact absurd hlength (by decide)
  have hspace : ∀ c ∈ ':' :: hexDigits, Python.isSpace c = false := fun c hc => by
    have hall : (':' :: hexDigits).all (fun c => !Python.isSpace c) = true := by decide
    simpa using List.all_eq_true.mp hall c hc
  have hid : (peerText c.peer).getLast hne ∈ ':' :: hexDigits := by
    simpa [isIdChar] using peerText_chars c.peer _ (List.getLast_mem hne)
  have hbody : c.call.body = (fixed c.function c.front ++ ' ' :: (peerText c.peer).dropLast) ++
      [(peerText c.peer).getLast hne] := by
    have hline := line_eq c t
    rw [LogCall.line, List.append_cancel_left_eq, List.cons.injEq] at hline
    rw [hline.2, List.append_assoc, List.cons_append, List.dropLast_append_getLast]
  rw [hstrip, LogCall.line, hwhole _ _ hbody (hspace _ hid)]

end TransportCall

/-! ### The other lines -/

namespace OtherCall

variable (o : OtherCall)

theorem not_begins : ¬ "IpTransport:INFO:".toList <+: o.body := by
  have hhead : ∀ (tag : LogTag) (level : LogLevel), tag ≠ .ipTransport ∨ level ≠ .info →
      Parted "IpTransport:INFO:".toList (tag.text ++ ':' :: level.text ++ [':']) := by
    intro tag level
    cases tag <;> cases level <;> decide
  have hbody : o.body =
      (o.tag.text ++ ':' :: o.level.text ++ [':']) ++ (o.function ++ ':' :: o.message) := by
    simp [LogCall.body]
  rw [hbody]
  exact (hhead o.tag o.level o.other).not_begins _

theorem not_infix : ¬ "]IpTransport:INFO:".toList <:+: o.body := by
  have hnames : ∀ (tag : LogTag) (level : LogLevel), ']' ∉ tag.text ∧ ']' ∉ level.text := by
    intro tag level
    cases tag <;> cases level <;> decide
  obtain ⟨htag, hlevel⟩ := hnames o.tag o.level
  have hfunction : ']' ∉ o.function := fun hmem => o.named _ hmem List.mem_cons_self
  have hfront : ']' ∉ o.tag.text ++ ':' :: o.level.text ++ ':' :: o.function ++ [':'] := by
    simp [htag, hlevel, hfunction]
  have hbody : o.body =
      (o.tag.text ++ ':' :: o.level.text ++ ':' :: o.function ++ [':']) ++ o.message := by
    simp [LogCall.body]
  have hkey : "]IpTransport:INFO:".toList = ']' :: "IpTransport:INFO:".toList := by decide
  rw [hbody, hkey, infix_behind hfront, ← hkey]
  exact o.plain

theorem timePattern_none {α : Type} {rest : Text → Option α}
    (hrest : ∀ text, ¬ "IpTransport:INFO:".toList <+: text → rest text = none) (t : Int) :
    timePattern rest (strip Python.isSpace (o.print t)) = none := by
  obtain ⟨body, hbody, hstrip, -⟩ := strip_print o.toLogCall t
  have hkey : "]IpTransport:INFO:".toList = ']' :: "IpTransport:INFO:".toList := by decide
  rw [hstrip, timePattern_line (stamp_closed t), Option.map_eq_none_iff]
  · exact hrest body fun hbegins => o.not_begins (hbegins.trans hbody)
  · intro text htext
    refine hrest text fun hbegins => o.not_infix ?_
    rw [hkey]
    exact (List.cons_prefix_cons.mpr ⟨rfl, hbegins⟩).isInfix.trans
      (htext.isInfix.trans hbody.isInfix)

theorem literal_none {front text : Text} (hfront : "IpTransport:INFO:".toList <+: front)
    (h : ¬ "IpTransport:INFO:".toList <+: text) : literal front text = none := by
  rw [literal, if_neg]
  rw [List.isPrefixOf_iff_prefix]
  exact fun hbegins => h (hfront.trans hbegins)

theorem startPattern_none (t : Int) : startPattern (strip Python.isSpace (o.print t)) = none := by
  refine o.timePattern_none (fun text htext => ?_) t
  rw [literal_none (by decide) htext]
  rfl

theorem eventOf_none (t : Int) : eventOf (strip Python.isSpace (o.print t)) = none := by
  have hneighbor : ∀ front, "IpTransport:INFO:".toList <+: front →
      neighborPattern front (strip Python.isSpace (o.print t)) = none := by
    intro front hfront
    refine o.timePattern_none (fun text htext => ?_) t
    rw [literal_none hfront htext]
    rfl
  have hlink : ∀ front back, "IpTransport:INFO:".toList <+: front →
      linkPattern front back (strip Python.isSpace (o.print t)) = none := by
    intro front back hfront
    refine o.timePattern_none (fun text htext => ?_) t
    rw [literal_none hfront htext]
    rfl
  rw [eventOf, neighborFoundPattern, hneighbor _ (by decide), neighborLostPattern,
    hneighbor _ (by decide), linkEstablishPattern, hlink _ _ (by decide),
    linkClosedPattern, hlink _ _ (by decide)]
  simp only [Option.map_none, ite_self]

end OtherCall

/-! ### The log of a run -/

inductive LogLine
  | transport (c : TransportCall)
  | other (o : OtherCall)

namespace LogLine

def call : LogLine → LogCall
  | .transport c => c.call
  | .other o => o.toLogCall

/-- The notification that is given behind the line. -/
def note : LogLine → Option Notification
  | .transport c => c.note
  | .other _ => none

def said (line : LogLine) : Option (What × PeerId) := line.note.bind Notification.logged

theorem eventOf_print (line : LogLine) (t : Int) :
    eventOf (strip Python.isSpace (line.call.print t)) =
      line.said.map fun said => (getDatetimeStr t, said.1, upper (peerText said.2)) := by
  cases line with
  | transport c =>
      have hstrip : strip Python.isSpace ((transport c).call.print t) = c.call.line t :=
        c.strip_call t
      rw [hstrip]
      exact c.eventOf_line t
  | other o => exact o.eventOf_none t

theorem startPattern_print {line : LogLine} {t : Int} {m : Text × Text}
    (h : startPattern (strip Python.isSpace (line.call.print t)) = some m) :
    ∃ self, line = .transport (.started self) ∧ m = (getDatetimeStr t, peerText self) := by
  cases line with
  | transport c =>
      have hstrip : strip Python.isSpace ((transport c).call.print t) = c.call.line t :=
        c.strip_call t
      rw [hstrip] at h
      by_cases hstart : ∃ self, c = .started self
      · obtain ⟨self, rfl⟩ := hstart
        rw [TransportCall.startPattern_started] at h
        exact ⟨self, rfl, (Option.some.inj h).symm⟩
      · rw [TransportCall.startPattern_none fun self hself => hstart ⟨self, hself⟩] at h
        exact absurd h (by simp)
  | other o => exact absurd ((o.startPattern_none t).symm.trans h) (by simp)

theorem single (line : LogLine) (t : Int) :
    '\n' ∉ line.call.line t ∧ '\r' ∉ line.call.line t := by
  have hends : ∀ d ∈ ['\n', '\r'],
      Outside d ∧ d ∈ [']', '\n', '\r'] ∧ d ∉ ['[', ']', ':', ' '] := by
    simp only [List.forall_mem_cons, List.not_mem_nil, false_implies, implies_true, and_true]
    decide
  have hnot : ∀ d ∈ ['\n', '\r'], d ∉ line.call.line t := by
    intro d hd
    obtain ⟨houtside, hend, hother⟩ := hends d hd
    have hstamp := houtside.notMem_stamp t
    simp only [List.mem_cons, List.not_mem_nil, or_false, not_or] at hother
    obtain ⟨hopen, hclose, hcolon, hspace⟩ := hother
    cases line with
    | transport c =>
        have hfixed : d ∉ TransportCall.fixed c.function c.front := fun hmem =>
          c.fixed_chars d hmem hend
        have hpeer := houtside.notMem_peerText c.peer
        have hline : (transport c).call.line t = _ := c.line_eq t
        rw [hline]
        simp [hopen, hclose, hspace, hstamp, hfixed, hpeer]
    | other o =>
        have hnames : ∀ (tag : LogTag) (level : LogLevel), ∀ d ∈ ['\n', '\r'],
            d ∉ tag.text ∧ d ∉ level.text := by
          intro tag level
          simp only [List.forall_mem_cons, List.not_mem_nil, false_implies, implies_true, and_true]
          cases tag <;> cases level <;> decide
        have htag := hnames o.tag o.level d hd
        have hfunction : d ∉ o.function := fun hmem => o.named d hmem hend
        have hmessage : d ∉ o.message := by
          rcases List.mem_pair.mp hd with rfl | rfl
          · exact o.single.1
          · exact o.single.2
        have hline : (other o).call.line t = '[' :: getDatetimeStr t ++ ']' :: o.body := rfl
        rw [hline, LogCall.body]
        simp [hopen, hclose, hcolon, hstamp, htag, hfunction, hmessage]
  exact ⟨hnot _ (by simp), hnot _ (by simp)⟩

end LogLine

/-- What a node prints. `Start` logs before the thread of the event loop runs, so nothing of the
transport comes before it; after it the notifications of a run are logged in their order, with any
other lines in between. -/
structure PrintedLog where
  name : Text
  self : PeerId
  order : ByteOrder
  events : List IpTransport.Event
  transport : IpTransport
  run : IpTransport.machine.exec (.init self order) events = some transport
  before : List (Int × OtherCall)
  startTime : Int
  after : List (Int × LogLine)
  notified : after.filterMap (fun line => line.2.note) = transport.given.map Prod.fst

namespace PrintedLog

variable (log : PrintedLog)

def lines : List (Int × LogLine) :=
  log.before.map (fun line => (line.1, .other line.2)) ++
    (log.startTime, .transport (.started log.self)) :: log.after

def text : Text := log.lines.flatMap fun line => line.2.call.print line.1

def nodeLog : NodeLog where
  name := log.name
  lines := log.lines.map fun line => (line.1, line.2.call.print line.1)

theorem stamped : log.nodeLog.Stamped := by
  intro line hline
  obtain ⟨⟨t, line⟩, -, rfl⟩ := List.mem_map.mp hline
  refine ⟨?_, ?_⟩
  · intro m hm
    obtain ⟨-, -, rfl⟩ := LogLine.startPattern_print hm
    rfl
  · intro m hm
    rw [LogLine.eventOf_print] at hm
    obtain ⟨-, -, rfl⟩ := Option.map_eq_some_iff.mp hm
    rfl

theorem fileLines_text : fileLines log.text = log.nodeLog.plain.2 := by
  have hwritten := fileLines_written (log.lines.map fun line => line.2.call.line line.1)
    (fun line hline => by
      obtain ⟨line, -, rfl⟩ := List.mem_map.mp hline
      exact line.2.single line.1)
  rw [List.flatMap_map, List.map_map] at hwritten
  rw [NodeLog.plain, nodeLog, List.map_map]
  exact hwritten

def place (line : (Int × LogLine) × Nat) : Origin × Text :=
  (⟨log.name, line.2, line.1.1⟩, line.1.2.call.print line.1.1)

theorem file_eq : log.nodeLog.file.2 = log.lines.zipIdx.map log.place := by
  rw [NodeLog.file, nodeLog, List.zipIdx_map, List.map_map]
  rfl

theorem findStart_append {before rest : List (Origin × Text)} {line : Origin × Text}
    {m : Text × Text} (hbefore : ∀ l ∈ before, startPattern (strip Python.isSpace l.2) = none)
    (hline : startPattern (strip Python.isSpace line.2) = some m) :
    findStart (before ++ line :: rest) = some ⟨line.1, m.1, m.2, rest⟩ := by
  induction before with
  | nil => rw [List.nil_append, findStart, hline]
  | cons l before ih =>
      have hl := hbefore l List.mem_cons_self
      rw [List.cons_append, findStart, hl]
      exact ih fun l' hl' => hbefore l' (List.mem_cons_of_mem l hl')

theorem start_eq : log.nodeLog.start = some
    { origin := ⟨log.name, log.before.length, log.startTime⟩
      timeStr := getDatetimeStr log.startTime
      mac := peerText log.self
      rest := (log.after.zipIdx (log.before.length + 1)).map log.place } := by
  have hlines : log.lines.zipIdx.map log.place =
      ((log.before.map fun line => (line.1, LogLine.other line.2)).zipIdx).map log.place ++
        log.place ((log.startTime, .transport (.started log.self)), log.before.length) ::
          (log.after.zipIdx (log.before.length + 1)).map log.place := by
    rw [lines, List.zipIdx_append, List.map_append, List.zipIdx_cons, List.map_cons,
      List.length_map, Nat.zero_add]
  have hfirst : startPattern (strip Python.isSpace
      (log.place ((log.startTime, .transport (.started log.self)), log.before.length)).2) =
        some (getDatetimeStr log.startTime, peerText log.self) := by
    have hstrip := TransportCall.strip_call (.started log.self) log.startTime
    exact (congrArg startPattern hstrip).trans (TransportCall.startPattern_started _ _)
  rw [NodeLog.start, file_eq, hlines, findStart_append ?_ hfirst]
  · rfl
  intro l hl
  obtain ⟨⟨line, n⟩, hline, rfl⟩ := List.mem_map.mp hl
  obtain ⟨⟨t, o⟩, -, rfl⟩ := List.mem_map.mp (List.fst_mem_of_mem_zipIdx hline)
  exact o.startPattern_none t

/-- The events that are read, with the points in time at which they were logged. -/
theorem events_eq : log.nodeLog.events.map (fun e => (e.1.real, e.2)) =
    log.after.filterMap fun line => line.2.said.map fun said =>
      (line.1, ⟨upper (peerText log.self), said.1, upper (peerText said.2)⟩) := by
  rw [NodeLog.events, start_eq]
  dsimp only
  rw [List.filterMap_map, List.map_filterMap]
  have hline : ∀ line : (Int × LogLine) × Nat,
      ((eventOf (strip Python.isSpace (log.place line).2)).map fun m =>
        ((log.place line).1, (⟨upper (peerText log.self), m.2.1, m.2.2⟩ : NodeEvent Text))).map
          (fun e => (e.1.real, e.2)) =
      line.1.2.said.map fun said =>
        (line.1.1, (⟨upper (peerText log.self), said.1, upper (peerText said.2)⟩ :
          NodeEvent Text)) := by
    intro line
    rw [place, LogLine.eventOf_print, Option.map_map, Option.map_map]
    rfl
  have hfun : (fun line : (Int × LogLine) × Nat =>
      line.1.2.said.map fun said =>
        (line.1.1, (⟨upper (peerText log.self), said.1, upper (peerText said.2)⟩ :
          NodeEvent Text))) =
      (fun line => line.2.said.map fun said =>
        (line.1, (⟨upper (peerText log.self), said.1, upper (peerText said.2)⟩ :
          NodeEvent Text))) ∘ Prod.fst := rfl
  rw [← List.zipIdx_map_fst (log.before.length + 1) log.after, List.filterMap_map, ← hfun,
    List.zipIdx_map_fst]
  apply List.filterMap_congr
  intro line _
  rw [Function.comp_apply]
  exact hline line

theorem written : log.nodeLog.Written := by
  refine ⟨log.self, log.order, log.events, log.transport, log.run, ?_, ?_⟩
  · rw [NodeLog.address, start_eq, loggedMac, peerText_eq]
    rfl
  · have hevents := congrArg (List.map fun e : Int × NodeEvent Text => (e.2.what, some e.2.mac2))
      log.events_eq
    rw [List.map_map, List.map_filterMap] at hevents
    have hgiven : log.transport.given.filterMap (fun given => given.1.logged) =
        log.after.filterMap fun line => line.2.said := by
      have hnotes : log.transport.given.filterMap (fun given => given.1.logged) =
          (log.transport.given.map Prod.fst).filterMap Notification.logged := by
        rw [List.filterMap_map]
        rfl
      rw [hnotes, ← log.notified, List.filterMap_filterMap]
      rfl
    rw [hgiven, List.map_filterMap]
    refine hevents.trans (List.filterMap_congr fun line _ => ?_)
    rw [Option.map_map]
    congr 1
    funext said
    rw [Function.comp_apply, loggedMac, peerText_eq]
    rfl

/-- What a node has printed is read line by line as it was printed: one start, with the peer id of
the node, and behind it the notifications of the run, in their order and each with its time. -/
theorem printed_log_read :
    fileLines log.text = log.nodeLog.plain.2 ∧ log.nodeLog.Stamped ∧ log.nodeLog.Written ∧
    log.nodeLog.start.map (fun s => (s.origin.real, s.timeStr, s.mac)) =
      some (log.startTime, getDatetimeStr log.startTime, peerText log.self) ∧
    log.nodeLog.events.map (fun e => (e.1.real, e.2)) =
      log.after.filterMap fun line => line.2.said.map fun said =>
        (line.1, ⟨upper (peerText log.self), said.1, upper (peerText said.2)⟩) := by
  refine ⟨log.fileLines_text, log.stamped, log.written, ?_, log.events_eq⟩
  rw [start_eq]
  rfl

/-- A node starts and hears one hello, which the manager logs as well. -/
def helloLog : PrintedLog where
  name := "log_1".toList
  self := Process.ann
  order := .little
  events := [.broadcastHello 0x0200000A Process.bob ⟨5, true, some "eth0"⟩]
  transport := (IpTransport.machine.exec (.init Process.ann .little)
    [.broadcastHello 0x0200000A Process.bob ⟨5, true, some "eth0"⟩]).get
      (by decide +kernel)
  run := (Option.some_get _).symm
  before := []
  startTime := 1000000
  after :=
    [(2000000, .transport (.notifies (.newNeighbour Process.bob))),
      (2000001, .other
        { tag := .main
          level := .info
          function := "NotifyNewNeighbour".toList
          message := "Found neighbour pid: 00:00:00:00:00:02 on tid: 1".toList
          other := by decide
          named := fun d hd => of_decide_eq_true (List.all_eq_true.mp (show
            "NotifyNewNeighbour".toList.all (fun d => d ∉ [']', '\n', '\r']) by decide) d hd)
          single := by decide
          plain := by decide })]
  notified := by decide +kernel

theorem printed_log_read_of_hello :
    helloLog.text =
      "[00:00:01.000000]IpTransport:INFO:Start:".toList ++
      "IP transport started with pid: 00:00:00:00:00:01\n".toList ++
      "[00:00:02.000000]IpTransport:INFO:OnNeighborFound:".toList ++
      "Found new neighbor: 00:00:00:00:00:02\n".toList ++
      "[00:00:02.000001]main:INFO:NotifyNewNeighbour:".toList ++
      "Found neighbour pid: 00:00:00:00:00:02 on tid: 1\n".toList ∧
    helloLog.nodeLog.events.map (fun e => (e.1.real, e.2)) =
      [(2000000, ⟨"00:00:00:00:00:01".toList, .saw, "00:00:00:00:00:02".toList⟩)] := by
  obtain ⟨-, -, -, -, hevents⟩ := printed_log_read helloLog
  refine ⟨by decide +kernel, hevents.trans ?_⟩
  decide +kernel

end PrintedLog

end Diplom
