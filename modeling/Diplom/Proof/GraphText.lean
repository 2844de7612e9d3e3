import Diplom.Proof.Changes
import Diplom.Visualizer.ParseInput
import Mathlib.Algebra.Order.Field.Rat
import Mathlib.Data.List.TakeWhile
import Mathlib.Tactic.FieldSimp
import Mathlib.Tactic.Ring

/-!
# What the visualizer reads of what the analyser writes

Python writes no fraction of a time that is a whole number of seconds, and the visualizer's
expression asks for one, so these changes are not read. All others are, and so are the nodes, as
long as a double has their numbers.
-/

namespace Diplom

/-! ### Runs of digits -/

def AllDigits (text : Text) : Prop := ∀ c ∈ text, c.isDigit = true

theorem allDigits_toDigits (n : Nat) : AllDigits (Nat.toDigits 10 n) :=
  fun _ hc => Nat.isDigit_of_mem_toDigits (by decide) (by decide) hc

theorem allDigits_padded (width n : Nat) : AllDigits (padded width n) := by
  intro c hc
  rcases List.mem_append.mp hc with hzero | hdigit
  · rw [(List.mem_replicate.mp hzero).2]
    rfl
  · exact allDigits_toDigits n c hdigit

theorem padded_ne_nil (width n : Nat) : padded width n ≠ [] := by
  simp [padded, Nat.toDigits_ne_nil]

theorem ofDigitChars_padded (width n : Nat) : Nat.ofDigitChars 10 (padded width n) 0 = n := by
  rw [padded, Nat.ofDigitChars_append, Nat.ofDigitChars_replicate_zero, Nat.mul_zero,
    Nat.ofDigitChars_ten_toDigits]

theorem length_padded {width n : Nat} (hwidth : 0 < width) (hn : n < 10 ^ width) :
    (padded width n).length = width := by
  have hle := (Nat.length_toDigits_le_iff (by decide) hwidth).mpr hn
  rw [padded, List.length_append, List.length_replicate]
  omega

private theorem takeWhile_run {text : Text} (h : AllDigits text) {rest : Text}
    (hrest : rest.takeWhile Char.isDigit = []) : (text ++ rest).takeWhile Char.isDigit = text := by
  rw [List.takeWhile_append_of_pos h, hrest, List.append_nil]

private theorem dropWhile_run {text : Text} (h : AllDigits text) {rest : Text}
    (hrest : rest.takeWhile Char.isDigit = []) : (text ++ rest).dropWhile Char.isDigit = rest := by
  have hsplit := List.takeWhile_append_dropWhile (p := Char.isDigit) (l := text ++ rest)
  rw [takeWhile_run h hrest] at hsplit
  exact List.append_cancel_left hsplit

theorem digits_run {text : Text} (h : AllDigits text) (hne : text ≠ []) {rest : Text}
    (hrest : rest.takeWhile Char.isDigit = []) : digits (text ++ rest) = some (text, rest) := by
  unfold digits
  rw [takeWhile_run h hrest, dropWhile_run h hrest]
  cases text with
  | nil => exact absurd rfl hne
  | cons c text => rfl

theorem digits_cons {text : Text} (h : AllDigits text) (hne : text ≠ []) {c : Char}
    (hc : c.isDigit = false) (rest : Text) :
    digits (text ++ c :: rest) = some (text, c :: rest) := by
  apply digits_run h hne
  rw [List.takeWhile_cons_of_neg (by simp [hc])]

theorem digits_eq_some {text run rest : Text} (h : digits text = some (run, rest)) :
    text = run ++ rest := by
  unfold digits at h
  split at h
  · exact absurd h (by simp)
  · obtain ⟨rfl, rfl⟩ := Prod.mk.inj (Option.some.inj h)
    exact List.takeWhile_append_dropWhile.symm

@[simp] theorem expect_self (c : Char) (rest : Text) : expect c (c :: rest) = some rest := by
  simp [expect]

theorem expect_eq_some {c : Char} {text rest : Text} (h : expect c text = some rest) :
    text = c :: rest := by
  unfold expect at h
  split at h
  · exact absurd h (by simp)
  · split at h
    · rename_i heq
      rw [heq, Option.some.inj h]
    · exact absurd h (by simp)

theorem sign_text (action : EdgeAction) (rest : Text) :
    sign (action.text ++ rest) = some (action, rest) := by
  cases action <;> rfl

/-! ### The line of a change -/

namespace EventMatch

def text (m : EventMatch) : Text :=
  '[' :: (m.hours ++ ':' :: (m.minutes ++ ':' :: (m.whole ++ '.' :: (m.fraction ++ ']' :: ' ' ::
    (m.fromNode ++ ' ' :: (m.action.text ++ ' ' :: m.toNode))))))

def runs (m : EventMatch) : List Text :=
  [m.hours, m.minutes, m.whole, m.fraction, m.fromNode, m.toNode]

private theorem bind_of_some {α β : Type} {x : Option α} {a : α} {f : α → Option β}
  (h : x = some a) : (x >>= f) = f a := by
  rw [h]
  rfl

theorem matchHere_text {m : EventMatch} (hruns : ∀ run ∈ m.runs, AllDigits run ∧ run ≠ []) :
    matchHere m.text = some m := by
  simp only [runs, List.forall_mem_cons] at hruns
  obtain ⟨hhours, hminutes, hwhole, hfraction, hfrom, hto, -⟩ := hruns
  have hlast : digits m.toNode = some (m.toNode, []) := by
    have h := digits_run hto.1 hto.2 (List.takeWhile_nil (p := Char.isDigit))
    rwa [List.append_nil] at h
  rw [matchHere, text]
  refine (bind_of_some (expect_self ..)).trans ?_
  refine (bind_of_some (digits_cons hhours.1 hhours.2 (c := ':') rfl ..)).trans ?_
  refine (bind_of_some (expect_self ..)).trans ?_
  refine (bind_of_some (digits_cons hminutes.1 hminutes.2 (c := ':') rfl ..)).trans ?_
  refine (bind_of_some (expect_self ..)).trans ?_
  refine (bind_of_some (digits_cons hwhole.1 hwhole.2 (c := '.') rfl ..)).trans ?_
  refine (bind_of_some (expect_self ..)).trans ?_
  refine (bind_of_some (digits_cons hfraction.1 hfraction.2 (c := ']') rfl ..)).trans ?_
  refine (bind_of_some (expect_self ..)).trans ?_
  refine (bind_of_some (expect_self ..)).trans ?_
  refine (bind_of_some (digits_cons hfrom.1 hfrom.2 (c := ' ') rfl ..)).trans ?_
  refine (bind_of_some (expect_self ..)).trans ?_
  refine (bind_of_some (sign_text ..)).trans ?_
  refine (bind_of_some (expect_self ..)).trans ?_
  exact bind_of_some hlast

end EventMatch

theorem mem_of_matchHere {text : Text} {m : EventMatch} (h : matchHere text = some m) :
    '.' ∈ text := by
  rw [matchHere] at h
  obtain ⟨t₁, h₁, h⟩ := Option.bind_eq_some_iff.mp h
  obtain ⟨⟨hours, t₂⟩, h₂, h⟩ := Option.bind_eq_some_iff.mp h
  obtain ⟨t₃, h₃, h⟩ := Option.bind_eq_some_iff.mp h
  obtain ⟨⟨minutes, t₄⟩, h₄, h⟩ := Option.bind_eq_some_iff.mp h
  obtain ⟨t₅, h₅, h⟩ := Option.bind_eq_some_iff.mp h
  obtain ⟨⟨whole, t₆⟩, h₆, h⟩ := Option.bind_eq_some_iff.mp h
  obtain ⟨t₇, h₇, -⟩ := Option.bind_eq_some_iff.mp h
  rw [expect_eq_some h₁, digits_eq_some h₂, expect_eq_some h₃, digits_eq_some h₄, expect_eq_some h₅,
    digits_eq_some h₆, expect_eq_some h₇]
  simp

theorem mem_of_matchLine {text : Text} {m : EventMatch} (h : matchLine text = some m) :
    '.' ∈ text := by
  induction text with
  | nil => exact mem_of_matchHere h
  | cons c rest ih =>
      rw [matchLine, Option.orElse_eq_or, Option.or_eq_some_iff] at h
      rcases h with hhere | ⟨-, hlater⟩
      · exact mem_of_matchHere hhere
      · exact List.mem_cons_of_mem c (ih hlater)

theorem strTimedelta_ofNat {n : Nat} (h : n < microsPerDay) :
    strTimedelta n = Nat.toDigits 10 (n / microsPerSecond / 3600) ++ ':'
      :: (padded 2 (n / microsPerSecond / 60 % 60) ++ ':'
        :: (padded 2 (n / microsPerSecond % 60) ++ microsText (n % microsPerSecond))) := by
  have hdays : (n : Int) / (microsPerDay : Int) = 0 := by
    rw [← Int.natCast_ediv, Nat.div_eq_of_lt h]
    rfl
  have hrest : ((n : Int) % (microsPerDay : Int)).toNat = n := by
    rw [← Int.natCast_emod, Nat.mod_eq_of_lt h, Int.toNat_natCast]
  rw [strTimedelta, hdays, hrest]
  rfl

/-- The groups of the line of a change with a fraction. -/
def groups (n : Nat) (e : EdgeEvent Timedelta NodeNumber) : EventMatch where
  hours := Nat.toDigits 10 (n / microsPerSecond / 3600)
  minutes := padded 2 (n / microsPerSecond / 60 % 60)
  whole := padded 2 (n / microsPerSecond % 60)
  fraction := padded 6 (n % microsPerSecond)
  fromNode := e.fromNode.digits
  action := e.action
  toNode := e.toNode.digits

theorem matchLine_eventLine {e : EdgeEvent Timedelta NodeNumber} {n : Nat} (htime : e.time = n)
    (hday : n < microsPerDay) (hmicros : n % microsPerSecond ≠ 0) :
    matchLine (eventLine e) = some (groups n e) := by
  have htext : eventLine e = (groups n e).text := by
    simp only [eventLine, htime, strTimedelta_ofNat hday, microsText, if_neg hmicros,
      EventMatch.text, groups, List.append_assoc, List.cons_append]
  have hruns : ∀ run ∈ (groups n e).runs, AllDigits run ∧ run ≠ [] := by
    simp only [EventMatch.runs, groups, List.forall_mem_cons]
    exact ⟨⟨allDigits_toDigits _, Nat.toDigits_ne_nil⟩, ⟨allDigits_padded _ _, padded_ne_nil _ _⟩,
      ⟨allDigits_padded _ _, padded_ne_nil _ _⟩, ⟨allDigits_padded _ _, padded_ne_nil _ _⟩,
      ⟨e.fromNode.isDigit, e.fromNode.ne_nil⟩, ⟨e.toNode.isDigit, e.toNode.ne_nil⟩, by simp⟩
  have hmatch := EventMatch.matchHere_text hruns
  rw [← htext] at hmatch
  rw [eventLine] at hmatch ⊢
  rw [matchLine, hmatch]
  rfl

/-- The characters between the groups of a line without a fraction. -/
def signs : Text := ['[', ':', ' ', ']', '-', '|', '<', '>']

theorem forall_mem_eventLine {P : Char → Prop} {e : EdgeEvent Timedelta NodeNumber} {n : Nat}
    (htime : e.time = n) (hday : n < microsPerDay) (hdigit : ∀ c : Char, c.isDigit = true → P c)
    (hsigns : ∀ c ∈ signs, P c) (hmicros : ∀ c ∈ microsText (n % microsPerSecond), P c) :
    ∀ c ∈ eventLine e, P c := by
  have hdigits : ∀ {text : Text}, AllDigits text → ∀ c ∈ text, P c :=
    fun h c hc => hdigit c (h c hc)
  have haction : ∀ c ∈ e.action.text, P c := by
    intro c hc
    have hmem : e.action.text ⊆ signs := by cases e.action <;> decide
    exact hsigns c (hmem hc)
  simp only [eventLine, htime, strTimedelta_ofNat hday, List.forall_mem_cons,
    List.forall_mem_append]
  exact ⟨hsigns
    '[' (by decide),
      ⟨hdigits (allDigits_toDigits _), hsigns ':' (by decide), hdigits (allDigits_padded _ _),
        hsigns ':' (by decide), hdigits (allDigits_padded _ _), hmicros⟩, hsigns ']' (by decide),
      hsigns ' ' (by decide), hdigits e.fromNode.isDigit, hsigns ' ' (by decide), haction,
      hsigns ' ' (by decide), hdigits e.toNode.isDigit⟩

private theorem ne_of_isDigit {c d : Char} (hd : d.isDigit = false) (hc : c.isDigit = true) :
    c ≠ d := by
  rintro rfl
  exact absurd hc (by simp [hd])

theorem matchLine_eventLine_of_whole {e : EdgeEvent Timedelta NodeNumber} {n : Nat}
    (htime : e.time = n) (hday : n < microsPerDay) (hmicros : n % microsPerSecond = 0) :
    matchLine (eventLine e) = none := by
  have hpoint : ∀ c ∈ eventLine e, c ≠ '.' := by
    apply forall_mem_eventLine htime hday (fun c => ne_of_isDigit rfl) (by simp [signs])
    simp [microsText, hmicros]
  rw [Option.eq_none_iff_forall_ne_some]
  intro m hm
  exact hpoint '.' (mem_of_matchLine hm) rfl

/-! ### The change that a line denotes -/

def NodeNumber.read (num : NodeNumber) : Nat := roundDouble num.toInt

/-- A number that a double has. -/
def NodeNumber.Exact (num : NodeNumber) : Prop := num.read = num.toInt

instance (num : NodeNumber) : Decidable num.Exact := inferInstanceAs (Decidable (_ = _))

def seconds (time : Timedelta) : Rat := time / microsPerSecond

/-- A change as the visualizer has it, its nodes given by `number`. -/
def EdgeEvent.shown (number : NodeNumber → Nat) (e : EdgeEvent Timedelta NodeNumber) :
    EdgeEvent Rat Nat :=
  ⟨seconds e.time, number e.fromNode, e.action, number e.toNode⟩

theorem event_groups {e : EdgeEvent Timedelta NodeNumber} {n : Nat} (htime : e.time = n) :
    (groups n e).event = e.shown NodeNumber.read := by
  have hfraction : (padded 6 (n % microsPerSecond)).length = 6 :=
    length_padded (by decide) (Nat.mod_lt n (by decide))
  have hn : (n : Rat) = (((n / microsPerSecond / 3600) * 3600 + n / microsPerSecond / 60 % 60 * 60 +
      n / microsPerSecond % 60) * microsPerSecond + n % microsPerSecond : Nat) := by
    congr 1
    simp only [microsPerSecond]
    omega
  have hvalue : (groups n e).event.time = seconds e.time := by
    simp only [EventMatch.event, groups, parseSeconds, hfraction, ofDigitChars_padded,
      Nat.ofDigitChars_ten_toDigits, seconds, htime, Int.cast_natCast]
    rw [hn]
    push_cast [microsPerSecond]
    field_simp
    ring
  exact congrArg (EdgeEvent.mk · _ _ _) hvalue

/-- What the visualizer makes of the line of a change. -/
def readEvent (e : EdgeEvent Timedelta NodeNumber) : Option (EdgeEvent Rat Nat) :=
  if (microsPerSecond : Int) ∣ e.time then none else some (e.shown NodeNumber.read)

theorem matchLine_event {e : EdgeEvent Timedelta NodeNumber} (hpos : 0 ≤ e.time)
    (hday : e.time < microsPerDay) :
    (matchLine (eventLine e)).map EventMatch.event = readEvent e := by
  obtain ⟨n, htime⟩ := Int.eq_ofNat_of_zero_le hpos
  have hn : n < microsPerDay := Int.ofNat_lt.mp (htime ▸ hday)
  have hdvd : (microsPerSecond : Int) ∣ e.time ↔ n % microsPerSecond = 0 := by
    rw [htime, Int.natCast_dvd_natCast, Nat.dvd_iff_mod_eq_zero]
  unfold readEvent
  by_cases hmicros : n % microsPerSecond = 0
  · rw [if_pos (hdvd.mpr hmicros), matchLine_eventLine_of_whole htime hn hmicros]
    rfl
  · rw [if_neg (mt hdvd.mp hmicros), matchLine_eventLine htime hn hmicros, Option.map_some,
      event_groups htime]

/-! ### The line of a node -/

private theorem isSpace_eq_false {c : Char} (hlow : 33 ≤ c.toNat) (hhigh : c.toNat < 128) :
    isSpace c = false := by
  have hc : c = Char.ofNat c.toNat := by simp
  generalize c.toNat = n at *
  subst hc
  revert n
  decide

def Solid (text : Text) : Prop := ∀ c ∈ text, isSpace c = false

theorem isSpace_of_isDigit {c : Char} (h : c.isDigit = true) : isSpace c = false := by
  obtain ⟨hlow, hhigh⟩ := Char.isDigit_iff_toNat.mp h
  have hlow : 48 ≤ c.toNat := hlow
  have hhigh : c.toNat ≤ 57 := hhigh
  exact isSpace_eq_false (by omega) (by omega)

theorem solid_of_allDigits {text : Text} (h : AllDigits text) : Solid text :=
  fun c hc => isSpace_of_isDigit (h c hc)

theorem MacAddress.solid (mac : MacAddress) : Solid mac.text := by
  intro c hc
  rcases mac.shape c hc with hdigit | ⟨hlow, hhigh⟩ | rfl
  · exact isSpace_of_isDigit hdigit
  · have hlow : 65 ≤ c.toNat := hlow
    have hhigh : c.toNat ≤ 70 := hhigh
    exact isSpace_eq_false (by omega) (by omega)
  · rfl

theorem dropWhile_solid {text : Text} (h : Solid text) : text.dropWhile isSpace = text := by
  cases text with
  | nil => rfl
  | cons c text => exact List.dropWhile_cons_of_neg (by simp [h c (by simp)])

theorem trim_solid {text : Text} (h : Solid text) : trim text = text := by
  have hreverse : Solid text.reverse := fun c hc => h c (List.mem_reverse.mp hc)
  rw [trim, dropWhile_solid h, dropWhile_solid hreverse, List.reverse_reverse]

/-- A line with anything but spaces is not blank. -/
theorem trim_ne_nil {text : Text} {c : Char} (hmem : c ∈ text) (hc : isSpace c = false) :
    trim text ≠ [] := by
  intro h
  rw [trim, List.reverse_eq_nil_iff, List.dropWhile_eq_nil_iff] at h
  rw [← List.takeWhile_append_dropWhile (p := isSpace) (l := text)] at hmem
  rcases List.mem_append.mp hmem with hfront | hback
  · exact absurd (List.mem_takeWhile_imp hfront) (by simp [hc])
  · exact absurd (h c (List.mem_reverse.mpr hback)) (by simp [hc])

theorem parseUnsigned_digits (num : NodeNumber) : parseUnsigned num.digits = some num.read := by
  have htake : num.digits.takeWhile Char.isDigit = num.digits := by
    rw [List.takeWhile_eq_self_iff]
    exact num.isDigit
  unfold parseUnsigned
  split
  · rename_i heq
    exact absurd (num.isDigit 'x' (by simp [heq])) (by decide)
  · rename_i heq
    exact absurd (num.isDigit 'X' (by simp [heq])) (by decide)
  · rw [htake]
    split
    · rename_i heq
      exact absurd heq num.ne_nil
    · rfl

theorem parseInt_digits (num : NodeNumber) : parseInt num.digits = some (num.read : Int) := by
  unfold parseInt
  rw [dropWhile_solid (solid_of_allDigits num.isDigit)]
  split
  · rename_i heq
    exact absurd (num.isDigit '-' (by simp [heq])) (by decide)
  · rename_i heq
    exact absurd (num.isDigit '+' (by simp [heq])) (by decide)
  · rw [parseUnsigned_digits]
    rfl

def nodeShown (number : NodeNumber → Nat) (entry : MacAddress × NodeNumber) : TopologyNode :=
  ⟨some (number entry.2), entry.1.text⟩

theorem parseNode_nodeLine (entry : MacAddress × NodeNumber) :
    parseNode (nodeLine entry) = nodeShown NodeNumber.read entry := by
  have hcolon : ':' ∉ entry.2.digits := fun h => absurd (entry.2.isDigit ':' h) (by decide)
  have hsplit :
      (nodeLine entry).splitOn ':' = entry.2.digits :: (' ' :: entry.1.text).splitOn ':' :=
    List.splitOn_append_cons_self_of_not_mem hcolon _
  have htrim : trim (' ' :: entry.1.text) = entry.1.text := trim_solid entry.1.solid
  rw [parseNode, hsplit]
  simp only [List.intercalate_splitOn, parseInt_digits, htrim, nodeShown]

/-! ### The lines of the text -/

private theorem splitOn_lines {lines : List Text} (h : ∀ line ∈ lines, '\n' ∉ line) (rest : Text) :
    ((lines.flatMap fun line => line ++ ['\n']) ++ rest).splitOn '\n'
      = lines ++ rest.splitOn '\n' := by
  induction lines with
  | nil => rfl
  | cons line lines ih =>
      rw [List.forall_mem_cons] at h
      rw [List.flatMap_cons, List.append_assoc, List.append_assoc, List.singleton_append,
        List.splitOn_append_cons_self_of_not_mem h.1, ih h.2]
      rfl

theorem newline_notMem_nodeLine (entry : MacAddress × NodeNumber) : '\n' ∉ nodeLine entry := by
  have hnum : '\n' ∉ entry.2.digits := fun h => absurd (entry.2.isDigit '\n' h) (by decide)
  have hmac : '\n' ∉ entry.1.text := fun h => absurd (entry.1.solid '\n' h) (by decide)
  simp [nodeLine, hnum, hmac]

theorem newline_notMem_eventLine {e : EdgeEvent Timedelta NodeNumber} (hpos : 0 ≤ e.time)
    (hday : e.time < microsPerDay) : '\n' ∉ eventLine e := by
  obtain ⟨n, htime⟩ := Int.eq_ofNat_of_zero_le hpos
  have hmicros : ∀ c ∈ microsText (n % microsPerSecond), c ≠ '\n' := by
    intro c hc
    unfold microsText at hc
    split at hc
    · exact absurd hc (by simp)
    · rcases List.mem_cons.mp hc with rfl | hc
      · decide
      · exact ne_of_isDigit rfl (allDigits_padded _ _ c hc)
  intro hmem
  exact forall_mem_eventLine htime (Int.ofNat_lt.mp (htime ▸ hday)) (fun c => ne_of_isDigit rfl)
    (by simp [signs]) hmicros '\n' hmem rfl

theorem splitOn_graphText {macToNum : List (MacAddress × NodeNumber)}
    {events : List (EdgeEvent Timedelta NodeNumber)}
    (hday : ∀ e ∈ events, 0 ≤ e.time ∧ e.time < microsPerDay) :
    (graphText macToNum events).splitOn '\n' = (sortedNodes macToNum).map nodeLine ++ []
      :: (events.map eventLine ++ [[]]) := by
  have hnodes : ∀ line ∈ (sortedNodes macToNum).map nodeLine, '\n' ∉ line := by
    intro line hline
    obtain ⟨entry, -, rfl⟩ := List.mem_map.mp hline
    exact newline_notMem_nodeLine entry
  have hevents : ∀ line ∈ events.map eventLine, '\n' ∉ line := by
    intro line hline
    obtain ⟨e, he, rfl⟩ := List.mem_map.mp hline
    exact newline_notMem_eventLine (hday e he).1 (hday e he).2
  have hlast := splitOn_lines hevents []
  rw [List.append_nil, List.splitOn_nil, List.flatMap_map] at hlast
  have hfirst := splitOn_lines hnodes ('\n' :: events.flatMap fun e => eventLine e ++ ['\n'])
  rw [List.flatMap_map] at hfirst
  rw [graphText, hfirst, ← hlast]
  exact congrArg _ (List.splitOn_append_cons_self_of_not_mem (show '\n' ∉ ([] : Text) by simp) _)

/-! ### The whole text -/

theorem readLine_blank (r : Reading) : readLine r [] = { r with parsingNodes := false } := rfl

theorem foldl_nodeLines {r : Reading} (hr : r.parsingNodes = true)
    (entries : List (MacAddress × NodeNumber)) :
    (entries.map nodeLine).foldl readLine r
      = { r with nodes := r.nodes ++ entries.map (nodeShown NodeNumber.read) } := by
  induction entries generalizing r with
  | nil => simp
  | cons entry entries ih =>
      have hblank : trim (nodeLine entry) ≠ [] := trim_ne_nil (c := ':') (by simp [nodeLine]) rfl
      have hline : readLine r (nodeLine entry)
          = { r with nodes := r.nodes ++ [nodeShown NodeNumber.read entry] } := by
        rw [readLine, if_neg hblank, if_pos hr, parseNode_nodeLine]
      rw [List.map_cons, List.foldl_cons, hline]
      refine (ih (r := { r with nodes := r.nodes ++ [nodeShown NodeNumber.read entry] }) hr).trans
        ?_
      simp

theorem foldl_eventLines {r : Reading} (hr : r.parsingNodes = false)
    {events : List (EdgeEvent Timedelta NodeNumber)}
    (hday : ∀ e ∈ events, 0 ≤ e.time ∧ e.time < microsPerDay) :
    ∃ latest, (events.map eventLine).foldl readLine r
      = { r with events := r.events ++ events.filterMap readEvent, maxTime := latest } := by
  induction events generalizing r with
  | nil => exact ⟨r.maxTime, by simp⟩
  | cons e events ih =>
      rw [List.forall_mem_cons] at hday
      have hblank : trim (eventLine e) ≠ [] := trim_ne_nil (c := '[') (by simp [eventLine]) rfl
      have hread := matchLine_event hday.1.1 hday.1.2
      rw [List.map_cons, List.foldl_cons, readLine, if_neg hblank, if_neg (by simp [hr]),
        List.filterMap_cons, ← hread]
      cases matchLine (eventLine e) with
      | none => exact ih hr hday.2
      | some m =>
          obtain ⟨latest, hlatest⟩ := ih (r := { r with
            events := r.events ++ [m.event]
            maxTime := if r.maxTime < m.event.time then m.event.time else r.maxTime }) hr hday.2
          refine ⟨latest, ?_⟩
          rw [hlatest]
          simp

theorem seconds_le {a b : Timedelta} (h : a ≤ b) : seconds a ≤ seconds b := by
  have hcast : (a : Rat) ≤ (b : Rat) := Int.cast_le.mpr h
  exact div_le_div_of_nonneg_right hcast (by decide)

theorem filterMap_readEvent_sorted {events : List (EdgeEvent Timedelta NodeNumber)}
    (horder : events.Pairwise fun a b => a.time ≤ b.time) :
    (events.filterMap readEvent).Pairwise fun a b => a.time ≤ b.time := by
  rw [List.pairwise_filterMap]
  refine horder.imp fun {a b} hle a' ha b' hb => ?_
  unfold readEvent at ha hb
  split at ha
  · exact absurd ha (by simp)
  · split at hb
    · exact absurd hb (by simp)
    · rw [← Option.some.inj ha, ← Option.some.inj hb]
      exact seconds_le hle

/-- What is read of the text: every node, and every change at a time with a fraction. -/
theorem parseInput_graphText {macToNum : List (MacAddress × NodeNumber)}
    {events : List (EdgeEvent Timedelta NodeNumber)}
    (hday : ∀ e ∈ events, 0 ≤ e.time ∧ e.time < microsPerDay)
    (horder : events.Pairwise fun a b => a.time ≤ b.time) :
    (parseInput (graphText macToNum events)).nodes
      = (sortedNodes macToNum).map (nodeShown NodeNumber.read) ∧
      (parseInput (graphText macToNum events)).events = events.filterMap readEvent := by
  obtain ⟨latest, hlatest⟩ := foldl_eventLines
    (r := ⟨⟨(sortedNodes macToNum).map (nodeShown NodeNumber.read), [], 0⟩, false⟩) rfl hday
  have hread : ((graphText macToNum events).splitOn '\n').foldl readLine ⟨⟨[], [], 0⟩, true⟩
      = ⟨⟨(sortedNodes macToNum).map (nodeShown NodeNumber.read), events.filterMap readEvent,
        latest⟩, false⟩ := by
    rw [splitOn_graphText hday, List.foldl_append, foldl_nodeLines rfl, List.foldl_cons,
      readLine_blank, List.foldl_append]
    exact congrArg (readLine · []) hlatest
  rw [parseInput, hread]
  exact ⟨rfl, (filterMap_readEvent_sorted horder).insertionSort_eq⟩

/-- The visualizer has the nodes and the changes that the analyser had. -/
def ReadsBack (macToNum : List (MacAddress × NodeNumber))
    (events : List (EdgeEvent Timedelta NodeNumber)) : Prop :=
  (parseInput (graphText macToNum events)).nodes
  = (sortedNodes macToNum).map (nodeShown NodeNumber.toInt) ∧
  (parseInput (graphText macToNum events)).events = events.map (EdgeEvent.shown NodeNumber.toInt)

theorem filterMap_readEvent_eq {events : List (EdgeEvent Timedelta NodeNumber)}
    (hexact : ∀ e ∈ events, e.fromNode.Exact ∧ e.toNode.Exact) :
    events.filterMap readEvent = events.map (EdgeEvent.shown NodeNumber.toInt) ↔
      ∀ e ∈ events, ¬ (microsPerSecond : Int) ∣ e.time := by
  constructor
  · intro h e he hdvd
    have hlength := congrArg List.length h
    rw [List.length_map, List.filterMap_length_eq_length] at hlength
    have hsome := hlength e he
    rw [readEvent, if_pos hdvd] at hsome
    exact absurd hsome (by simp)
  · intro h
    rw [← List.filterMap_eq_map]
    apply List.filterMap_congr
    intro e he
    obtain ⟨hfrom, hto⟩ := hexact e he
    rw [readEvent, if_neg (h e he), EdgeEvent.shown, hfrom, hto]
    rfl

/-- `graph.txt` is read back if and only if a double has the number of every node and no change
falls on a whole second. -/
theorem readsBack_iff {macToNum : List (MacAddress × NodeNumber)}
    {allEvents : List (Timedelta × NodeEvent MacAddress)} {connTime syncTime : Option Timedelta}
    {events : List (EdgeEvent Timedelta NodeNumber)}
    (hstats : getExperimentStats macToNum allEvents = some (connTime, syncTime, events))
    (hday : ∀ it ∈ allEvents, 0 ≤ it.1 ∧ it.1 < microsPerDay)
    (horder : (allEvents.map Prod.fst).Pairwise (· ≤ ·)) :
    ReadsBack macToNum events ↔ (∀ entry ∈ macToNum, entry.2.Exact) ∧ ∀ e ∈ events,
      ¬ (microsPerSecond : Int) ∣ e.time := by
  obtain ⟨s, hrun, hs⟩ := Option.map_eq_some_iff.mp hstats
  obtain ⟨new, hnew, htimes, hbetween⟩ := Experiment.run_events hrun
  have hevents : events = new := by
    rw [← (Prod.mk.inj (Prod.mk.inj hs).2).2, hnew]
    rfl
  subst hevents
  have hday' : ∀ e ∈ events, 0 ≤ e.time ∧ e.time < microsPerDay := by
    intro e he
    obtain ⟨it, hit, htime⟩ := List.mem_map.mp (htimes.subset (List.mem_map_of_mem he))
    rw [← htime]
    exact hday it hit
  have horder' : events.Pairwise fun a b => a.time ≤ b.time :=
    List.pairwise_map.mp (horder.sublist htimes)
  obtain ⟨hnodes, hread⟩ := @parseInput_graphText macToNum events hday' horder'
  have hexact : (sortedNodes macToNum).map (nodeShown NodeNumber.read)
      = (sortedNodes macToNum).map (nodeShown NodeNumber.toInt) ↔
      ∀ entry ∈ macToNum, entry.2.Exact := by
    rw [List.map_inj_left]
    simp only [sortedNodes, List.mem_insertionSort, nodeShown, TopologyNode.mk.injEq,
      Option.some.injEq, Int.natCast_inj, and_true, NodeNumber.Exact]
  rw [ReadsBack, hnodes, hread, hexact, and_congr_right_iff]
  intro hall
  apply filterMap_readEvent_eq
  intro e he
  obtain ⟨entry, hentry, hfrom⟩ := List.mem_map.mp (hbetween e he).1
  obtain ⟨entry', hentry', hto⟩ := List.mem_map.mp (hbetween e he).2
  rw [← hfrom, ← hto]
  exact ⟨hall entry hentry, hall entry' hentry'⟩

section Seen

private def node (c : Char) (h : c.isDigit = true) : NodeNumber := ⟨[c], by simp, by simpa using h⟩

private def mac (c : Char) (h : c.isDigit = true) : MacAddress :=
  ⟨List.replicate 17 c, by simp, fun _ hc => .inl ((List.mem_replicate.mp hc).2 ▸ h)⟩

def twoNodes : List (MacAddress × NodeNumber) :=
  [(mac '1' rfl, node '1' rfl), (mac '2' rfl, node '2' rfl)]

/-- They see each other, the second one at a given time. -/
def seenAt (time : Timedelta) : List (Timedelta × NodeEvent MacAddress) :=
  [(4999999, ⟨mac '1' rfl, .saw, mac '2' rfl⟩), (time, ⟨mac '2' rfl, .saw, mac '1' rfl⟩)]

def seenChange (time : Timedelta) : EdgeEvent Timedelta NodeNumber :=
  ⟨time, node '1' rfl, .discover, node '2' rfl⟩

/-- A discovery at 5.000001 s is read back. -/
theorem readsBack_of_fraction : ReadsBack twoNodes [seenChange 5000001] :=
  (@readsBack_iff twoNodes (seenAt 5000001) none none _ rfl (by decide) (by decide)).mpr
    ⟨by decide, by decide⟩

/-- A discovery at 5 s is written as `[0:00:05]` and not read. -/
theorem whole_second_dropped :
    getExperimentStats twoNodes (seenAt 5000000) = some (none, none, [seenChange 5000000]) ∧
      (∀ it ∈ seenAt 5000000, 0 ≤ it.1 ∧ it.1 < microsPerDay) ∧
      ((seenAt 5000000).map Prod.fst).Pairwise (· ≤ ·) ∧
      (parseInput (graphText twoNodes [seenChange 5000000])).events = [] ∧
      ¬ ReadsBack twoNodes [seenChange 5000000] := by
  have hread : (parseInput (graphText twoNodes [seenChange 5000000])).events = [] :=
    (parseInput_graphText (by decide) (by simp)).2
  refine ⟨rfl, by decide, by decide, hread, fun h => ?_⟩
  have hlength := congrArg List.length h.2
  rw [hread] at hlength
  exact absurd hlength (by decide)

end Seen

end Diplom
