import Diplom.Emulator.GraphText
import Diplom.Lib.Doubles
import Mathlib.Algebra.Group.Nat.Defs
import Mathlib.Data.Rat.Defs

/-!
# Reading `graph.txt`

`parseInput` takes the text apart into lines. The lines before the first blank one are nodes, and of
those after it the ones that match a regular expression are changes. Each group of the expression is
a run of digits or one of four signs, and what follows a run is no digit, so the expression is
matched from left to right without going back; it may start anywhere in a line.

A number that `parseInt` makes is rounded to the integers that a double has. Times are kept as the
exact fractions that the text denotes.
-/

namespace Diplom

/-! ### Numbers -/

/-- `parseInt` of a run of digits. -/
def parseDigits (digits : Text) : Nat := roundDouble (Nat.ofDigitChars 10 digits 0)

/-- `WhiteSpace` and `LineTerminator`. -/
def isSpace (c : Char) : Bool :=
  c ∈ ['\t', '\n', '\u000b', '\u000c', '\r', ' ', '\u00a0', '\u1680', '\u2028', '\u2029', '\u202f',
    '\u205f', '\u3000', '\ufeff'] ∨ ('\u2000' ≤ c ∧ c ≤ '\u200a')

/-- The number at the front of a text after its sign, nothing for `NaN`. -/
def parseUnsigned : Text → Option Nat
  | '0' :: 'x' :: rest | '0' :: 'X' :: rest =>
      match rest.takeWhile fun c => (hexValue c).isSome with
      | [] => none
      | digits => some (roundDouble (digits.foldl (fun n c => 16 * n + (hexValue c).getD 0) 0))
  | text =>
      match text.takeWhile Char.isDigit with
      | [] => none
      | digits => some (parseDigits digits)

/-- `parseInt`. -/
def parseInt (text : Text) : Option Int :=
  match text.dropWhile isSpace with
  | '-' :: rest => (parseUnsigned rest).map fun n => -(n : Int)
  | '+' :: rest => (parseUnsigned rest).map Int.ofNat
  | rest => (parseUnsigned rest).map Int.ofNat

/-- `parseFloat` of a run of digits, a point and a run of digits. -/
def parseSeconds (whole fraction : Text) : Rat :=
  Nat.ofDigitChars 10 whole 0 + Nat.ofDigitChars 10 fraction 0 / (10 ^ fraction.length : Nat)

/-- `trim`. -/
def trim (text : Text) : Text := ((text.dropWhile isSpace).reverse.dropWhile isSpace).reverse

/-! ### The regular expression of a change -/

/-- One character. -/
def expect (c : Char) : Text → Option Text
  | [] => none
  | c' :: rest => if c' = c then some rest else none

/-- `\d+`. -/
def digits (text : Text) : Option (Text × Text) :=
  match text.takeWhile Char.isDigit with
  | [] => none
  | run => some (run, text.dropWhile Char.isDigit)

/-- `(->|\|>|<>|><)`. -/
def sign : Text → Option (EdgeAction × Text)
  | '-' :: '>' :: rest => some (.connect, rest)
  | '|' :: '>' :: rest => some (.disconnect, rest)
  | '<' :: '>' :: rest => some (.discover, rest)
  | '>' :: '<' :: rest => some (.lose, rest)
  | _ => none

/-- The groups of the expression. -/
structure EventMatch where
  hours : Text
  minutes : Text
  whole : Text
  fraction : Text
  fromNode : Text
  action : EdgeAction
  toNode : Text

/-- A match that starts with the first character. -/
def matchHere (text : Text) : Option EventMatch := do
  let text ← expect '[' text
  let (hours, text) ← digits text
  let text ← expect ':' text
  let (minutes, text) ← digits text
  let text ← expect ':' text
  let (whole, text) ← digits text
  let text ← expect '.' text
  let (fraction, text) ← digits text
  let text ← expect ']' text
  let text ← expect ' ' text
  let (fromNode, text) ← digits text
  let text ← expect ' ' text
  let (action, text) ← sign text
  let text ← expect ' ' text
  let (toNode, _) ← digits text
  some ⟨hours, minutes, whole, fraction, fromNode, action, toNode⟩

/-- The first match in a line. -/
def matchLine : Text → Option EventMatch
  | [] => matchHere []
  | c :: rest => (matchHere (c :: rest)).orElse fun _ => matchLine rest

/-- The change that a match denotes. -/
def EventMatch.event (m : EventMatch) : EdgeEvent Rat Nat where
  time := Nat.ofDigitChars 10 m.hours 0 * 3600 + Nat.ofDigitChars 10 m.minutes 0 * 60
    + parseSeconds m.whole m.fraction
  fromNode := parseDigits m.fromNode
  action := m.action
  toNode := parseDigits m.toNode

/-! ### The whole text -/

/-- A node of the picture: its number, nothing for `NaN`, and its address. -/
structure TopologyNode where
  id : Option Int
  mac : Text
deriving DecidableEq

/-- The variables that `parseInput` sets. -/
structure Topology where
  nodes : List TopologyNode
  events : List (EdgeEvent Rat Nat)
  maxTime : Rat

/-- What the loop has read so far. -/
structure Reading extends Topology where
  parsingNodes : Bool

/-- A line of a node: what stands before the first colon, and what stands after it. -/
def parseNode (line : Text) : TopologyNode :=
  match line.splitOn ':' with
  | [] => ⟨none, []⟩
  | num :: rest => ⟨parseInt num, trim ([':'].intercalate rest)⟩

/-- One line. -/
def readLine (r : Reading) (line : Text) : Reading :=
  if trim line = [] then { r with parsingNodes := false }
  else if r.parsingNodes then { r with nodes := r.nodes ++ [parseNode line] }
  else
    match matchLine line with
    | none => r
    | some m =>
        { r with
          events := r.events ++ [m.event]
          maxTime := if r.maxTime < m.event.time then m.event.time else r.maxTime }

/-- `parseInput`. -/
def parseInput (content : Text) : Topology :=
  let read := (content.splitOn '\n').foldl readLine ⟨⟨[], [], 0⟩, true⟩
  { read.toTopology with events := read.events.insertionSort fun a b => a.time ≤ b.time }

end Diplom
