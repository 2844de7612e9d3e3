import Diplom.Emulator.CombineLogs
import Diplom.Lib.Text
import Mathlib.Data.List.Sort

/-!
# The text of `graph.txt`

`main` writes the nodes in the order of their numbers, an empty line, and a line for each change.
Times are Python's `timedelta`, whole microseconds, and are written as `str` writes them.
-/

namespace Diplom

/-- The number of a node, as the name of its log has it. -/
structure NodeNumber where
  digits : Text
  ne_nil : digits ≠ []
  isDigit : ∀ c ∈ digits, c.isDigit = true
deriving DecidableEq

/-- `int`. -/
def NodeNumber.toInt (num : NodeNumber) : Nat := Nat.ofDigitChars 10 num.digits 0

/-- What the patterns take for a peer, in upper case: seventeen digits of hexadecimal numbers and
colons. -/
structure MacAddress where
  text : Text
  length_eq : text.length = 17
  shape : ∀ c ∈ text, c.isDigit = true ∨ ('A' ≤ c ∧ c ≤ 'F') ∨ c = ':'
deriving DecidableEq

/-- Microseconds. -/
abbrev Timedelta := Int

def microsPerSecond : Nat := 1000000

def microsPerDay : Nat := 86400 * microsPerSecond

/-- `%d` of a number with leading zeros up to a width. -/
def padded (width n : Nat) : Text :=
  List.replicate (width - (Nat.toDigits 10 n).length) '0' ++ Nat.toDigits 10 n

/-- `%d`. -/
def decimal (n : Int) : Text := (if n < 0 then ['-'] else []) ++ Nat.toDigits 10 n.natAbs

/-- The part of `str` before the time of day. -/
def daysText (days : Int) : Text :=
  if days = 0 then [] else decimal days ++ " day".toList ++ (if days.natAbs = 1 then [] else ['s'])
    ++ ", ".toList

/-- The part of `str` after the seconds. Nothing is written of whole seconds. -/
def microsText (micros : Nat) : Text := if micros = 0 then [] else '.' :: padded 6 micros

/-- `str` of a `timedelta`. -/
def strTimedelta (t : Timedelta) : Text :=
  let rest := (t % microsPerDay).toNat
  let seconds := rest / microsPerSecond
  daysText (t / microsPerDay)
    ++ (Nat.toDigits 10 (seconds / 3600) ++ ':'
      :: (padded 2 (seconds / 60 % 60) ++ ':'
        :: (padded 2 (seconds % 60) ++ microsText (rest % microsPerSecond))))

def EdgeAction.text : EdgeAction → Text
  | .connect => "->".toList
  | .disconnect => "|>".toList
  | .discover => "<>".toList
  | .lose => "><".toList

/-- A line of a node. -/
def nodeLine (entry : MacAddress × NodeNumber) : Text :=
  entry.2.digits ++ ':' :: ' ' :: entry.1.text

/-- A line of a change. -/
def eventLine (e : EdgeEvent Timedelta NodeNumber) : Text :=
  '[' :: (strTimedelta e.time ++ ']' :: ' '
    :: (e.fromNode.digits ++ ' ' :: (e.action.text ++ ' ' :: e.toNode.digits)))

/-- `sorted(mac_to_num.items(), key=lambda x: int(x[1]))`. -/
def sortedNodes (macToNum : List (MacAddress × NodeNumber)) : List (MacAddress × NodeNumber) :=
  macToNum.insertionSort fun x y => x.2.toInt ≤ y.2.toInt

/-- What `main` writes to `graph.txt`. -/
def graphText (macToNum : List (MacAddress × NodeNumber))
    (events : List (EdgeEvent Timedelta NodeNumber)) : Text :=
  ((sortedNodes macToNum).flatMap fun entry => nodeLine entry ++ ['\n']) ++ '\n' ::
    events.flatMap fun e => eventLine e ++ ['\n']

end Diplom
