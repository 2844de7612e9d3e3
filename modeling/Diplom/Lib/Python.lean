import Diplom.Lib.Doubles
import Diplom.Lib.Text

/-!
# Python values

What a YAML document is loaded as, and what Python does with such values: their truth, going
through their elements, comparing and subtracting numbers, and `int`. Where Python raises a
`TypeError` for the type of a value there is nothing.

Comparing numbers is exact, also between integers and floats. An integer that is subtracted from a
float, or a float from it, is rounded to a float first.
-/

namespace Diplom.Python

/-! ### Numbers -/

inductive Number
  | finite (value : ℚ)
  | infinite (negative : Bool)
  | nan

namespace Number

/-- `a <= b`. -/
def le : Number → Number → Bool
  | .nan, _ => false
  | _, .nan => false
  | .infinite true, _ => true
  | _, .infinite false => true
  | .finite a, .finite b => a ≤ b
  | _, _ => false

/-- `a < b`. -/
def lt (a b : Number) : Bool := a.le b && !b.le a

/-- `float('nan')`. -/
def isNan : Number → Bool
  | .nan => true
  | _ => false

theorem le_total {a b : Number} (ha : a.isNan = false) (hb : b.isNan = false) :
    a.le b = true ∨ b.le a = true := by
  rcases a with a | ⟨_ | _⟩ | _ <;> rcases b with b | ⟨_ | _⟩ | _ <;> simp_all [le, isNan]
  exact Rat.le_total

/-- Of two numbers the first is at most the second, or it is above it, or one of them is no
number. -/
theorem le_iff {a b : Number} :
    a.le b = true ↔ b.lt a = false ∧ a.isNan = false ∧ b.isNan = false := by
  have hnan : a.le b = true → a.isNan = false ∧ b.isNan = false := by
    rcases a with a | ⟨_ | _⟩ | _ <;> rcases b with b | ⟨_ | _⟩ | _ <;> simp [le, isNan]
  constructor
  · intro h
    exact ⟨by simp [lt, h], hnan h⟩
  · rintro ⟨hlt, ha, hb⟩
    rcases le_total ha hb with h | h
    · exact h
    · simpa [lt, h] using hlt

theorem not_lt_of_le {a b : Number} (h : b.le a = true) : a.lt b = false := by
  simp [lt, h]

end Number

inductive Float
  | finite (value : Double)
  | infinite (negative : Bool)
  | nan

def Float.number : Float → Number
  | .finite value => .finite value.value
  | .infinite negative => .infinite negative
  | .nan => .nan

/-- `float` of an integer, nothing for an `OverflowError`. -/
def toFloat (n : Int) : Option Number :=
  if (roundInt n).natAbs < 2 ^ 1024 then some (.finite (roundInt n)) else none

theorem Float.le_round {a : Float} {n : Int} (h : a.number.le (.finite n) = true) :
    a.number.le (.finite (roundInt n)) = true := by
  cases a with
  | finite d => simpa [number, Number.le] using Double.le_roundInt (of_decide_eq_true h)
  | infinite negative =>
      cases negative with
      | true => rfl
      | false => simp [number, Number.le] at h
  | nan => simp [number, Number.le] at h

theorem Float.round_le {a : Float} {n : Int} (h : Number.le (.finite n) a.number = true) :
    Number.le (.finite (roundInt n)) a.number = true := by
  cases a with
  | finite d => simpa [number, Number.le] using Double.roundInt_le (of_decide_eq_true h)
  | infinite negative =>
      cases negative with
      | true => simp [number, Number.le] at h
      | false => rfl
  | nan => simp [number, Number.le] at h

theorem toFloat_eq_some {n : Int} {x : Number} (h : toFloat n = some x) :
    x = .finite (roundInt n) := by
  unfold toFloat at h
  split at h
  · exact (Option.some.inj h).symm
  · simp at h

/-! ### Reading numbers -/

/-- `str.isspace` of a character. -/
def isSpace (c : Char) : Bool :=
  ('\t' ≤ c ∧ c ≤ '\r') ∨ ('\x1c' ≤ c ∧ c ≤ ' ') ∨ c = '\u0085' ∨ c = '\u00a0' ∨ c = '\u1680' ∨
    ('\u2000' ≤ c ∧ c ≤ '\u200a') ∨ c ∈ ['\u2028', '\u2029', '\u202f', '\u205f', '\u3000']

/-- The code points of the digits zero of all scripts; the other nine digits follow each of them. -/
def zeros : List Nat :=
  [0x30, 0x660, 0x6f0, 0x7c0, 0x966, 0x9e6, 0xa66, 0xae6, 0xb66, 0xbe6, 0xc66, 0xce6, 0xd66, 0xde6,
    0xe50, 0xed0, 0xf20, 0x1040, 0x1090, 0x17e0, 0x1810, 0x1946, 0x19d0, 0x1a80, 0x1a90, 0x1b50,
    0x1bb0, 0x1c40, 0x1c50, 0xa620, 0xa8d0, 0xa900, 0xa9d0, 0xa9f0, 0xaa50, 0xabf0, 0xff10, 0x104a0,
    0x10d30, 0x11066, 0x110f0, 0x11136, 0x111d0, 0x112f0, 0x11450, 0x114d0, 0x11650, 0x116c0,
    0x11730, 0x118e0, 0x11950, 0x11c50, 0x11d50, 0x11da0, 0x16a60, 0x16ac0, 0x16b50, 0x1d7ce,
    0x1d7d8, 0x1d7e2, 0x1d7ec, 0x1d7f6, 0x1e140, 0x1e2f0, 0x1e950, 0x1fbf0]

def digit (c : Char) : Option Nat :=
  (zeros.find? fun first => first ≤ c.toNat ∧ c.toNat ≤ first + 9).map fun first => c.toNat - first

/-- The white space and the digits of `bytes`. -/
def isByteSpace (c : Char) : Bool := ('\t' ≤ c ∧ c ≤ '\r') ∨ c = ' '

@[inherit_doc isByteSpace]
def byteDigit (c : Char) : Option Nat := if c.isDigit then some (c.toNat - 48) else none

/-- The white space around a number: of the ASCII characters that of `bytes` only. -/
def isIntSpace (c : Char) : Bool := isByteSpace c ∨ (127 ≤ c.toNat ∧ isSpace c)

/-- `sys.int_info.default_max_str_digits`. -/
def maxStrDigits : Nat := 4300

/-- Digits, between which a single underscore may stand. -/
def readNat (digit : Char → Option Nat) (text : Text) : Option Nat :=
  let runs := text.splitOn '_'
  if [] ∈ runs ∨ maxStrDigits < runs.flatten.length then none
  else (runs.flatten.mapM digit).map fun digits => digits.foldl (fun n d => 10 * n + d) 0

/-- `strip`. -/
def strip (isSpace : Char → Bool) (text : Text) : Text :=
  ((text.dropWhile isSpace).reverse.dropWhile isSpace).reverse

theorem strip_eq_self {isSpace : Char → Bool} {text : Text} (h : ∀ c ∈ text, isSpace c = false) :
    strip isSpace text = text := by
  have hdrop : ∀ t : Text, (∀ c ∈ t, isSpace c = false) → t.dropWhile isSpace = t := by
    intro t ht
    cases t with
    | nil => rfl
    | cons c rest =>
        apply List.dropWhile_cons_of_neg
        simp [ht c List.mem_cons_self]
  have hreverse := hdrop text.reverse fun c hc => h c (List.mem_reverse.mp hc)
  rw [strip, hdrop text h, hreverse, List.reverse_reverse]

/-- `int` of a text. -/
def readInt (isSpace : Char → Bool) (digit : Char → Option Nat) (text : Text) : Option Int :=
  match strip isSpace text with
  | '-' :: rest => (readNat digit rest).map fun n => -(n : Int)
  | '+' :: rest => (readNat digit rest).map Int.ofNat
  | rest => (readNat digit rest).map Int.ofNat

example : readInt isIntSpace digit "\t+1_0 ".toList = some 10 := by decide

example : readInt isIntSpace digit "\x1f1".toList = none := by decide

/-! ### Values -/

/-- What `yaml.safe_load` returns. The elements of a set stand in the order in which Python goes
through them. -/
inductive Value
  | null
  | bool (value : Bool)
  | int (value : Int)
  | float (value : Float)
  | str (text : Text)
  | bytes (octets : List UInt8)
  | list (elements : List Value)
  | set (elements : List Value)
  | dict (entries : List (Value × Value))
  /-- A date, a point in time or a pair. -/
  | other

/-- The errors of `int`. -/
inductive IntError
  | valueError
  | typeError
  | overflowError
deriving DecidableEq, Repr

namespace Value

/-- `bool(value)`. -/
def truth : Value → Bool
  | .null => false
  | .bool value => value
  | .int value => value ≠ 0
  | .float (.finite value) => value.mantissa ≠ 0
  | .float _ => true
  | .str text => !text.isEmpty
  | .bytes octets => !octets.isEmpty
  | .list elements | .set elements => !elements.isEmpty
  | .dict entries => !entries.isEmpty
  | .other => true

/-- The integer of a value for which `isinstance(value, int)` holds. -/
def asInt : Value → Option Int
  | .bool value => some (if value then 1 else 0)
  | .int value => some value
  | _ => none

def asNumber : Value → Option Number
  | .float value => some value.number
  | value => value.asInt.map fun (n : Int) => .finite n

@[simp] theorem asNumber_int (n : Int) : (Value.int n).asNumber = some (.finite n) := rfl

@[simp] theorem asNumber_float (a : Float) : (Value.float a).asNumber = some a.number := rfl

theorem asNumber_of_asInt {value : Value} {n : Int} (h : value.asInt = some n) :
    value.asNumber = some (.finite n) := by
  cases value <;> simp_all [asNumber, asInt]

/-- What `for` goes through. -/
def elements : Value → Option (List Value)
  | .list elements | .set elements => some elements
  | .dict entries => some (entries.map Prod.fst)
  | .str text => some (text.map fun c => .str [c])
  | .bytes octets => some (octets.map fun octet => .int octet.toNat)
  | _ => none

/-- `value.items()`. -/
def items : Value → Option (List (Value × Value))
  | .dict entries => some entries
  | _ => none

def isStr (key : Text) : Value → Bool
  | .str text => text = key
  | _ => false

/-- `value.get(key)`: for a dictionary the value under the key, if there is one. -/
def get (key : Text) (value : Value) : Option (Option Value) :=
  value.items.map fun entries => (entries.find? fun entry => entry.1.isStr key).map Prod.snd

/-- `int(value)`. -/
def toInt : Value → Except IntError Int
  | .float (.finite value) => .ok (value.value.num.tdiv value.value.den)
  | .float (.infinite _) => .error .overflowError
  | .float .nan => .error .valueError
  | .str text =>
      match readInt isIntSpace digit text with
      | some n => .ok n
      | none => .error .valueError
  | .bytes octets =>
      match readInt isByteSpace byteDigit (octets.map fun octet => Char.ofNat octet.toNat) with
      | some n => .ok n
      | none => .error .valueError
  | value =>
      match value.asInt with
      | some n => .ok n
      | none => .error .typeError

/-- `a >= b` of two values, which holds of numbers only. -/
def atLeast (a b : Value) : Bool :=
  match a.asNumber, b.asNumber with
  | some a, some b => b.le a
  | _, _ => false

/-- The numbers of which `a - b` takes the one from the other, nothing for a `TypeError` or an
`OverflowError`. -/
def operands (a b : Value) : Option (Number × Number) :=
  match a, b with
  | .float a, .float b => some (a.number, b.number)
  | .float a, b => (b.asInt.bind toFloat).map fun b => (a.number, b)
  | a, .float b => (a.asInt.bind toFloat).map fun a => (a, b.number)
  | a, b => a.asInt.bind fun (a : Int) => b.asInt.map fun (b : Int) => (.finite a, .finite b)

/-- What is at least a value is not below it either when the one is taken from the other. -/
theorem operands_not_lt {a b : Value} (h : a.atLeast b = true) {x y : Number}
    (hoperands : a.operands b = some (x, y)) : x.lt y = false := by
  apply Number.not_lt_of_le
  unfold operands at hoperands
  split at hoperands
  · obtain ⟨rfl, rfl⟩ := Prod.mk.inj (Option.some.inj hoperands)
    exact h
  · rename_i a b _
    simp only [Option.map_eq_some_iff, Option.bind_eq_some_iff, Prod.mk.injEq] at hoperands
    obtain ⟨_, ⟨n, hn, hround⟩, rfl, rfl⟩ := hoperands
    obtain rfl := toFloat_eq_some hround
    apply Float.round_le
    simpa only [atLeast, asNumber_float, asNumber_of_asInt hn] using h
  · rename_i a b _
    simp only [Option.map_eq_some_iff, Option.bind_eq_some_iff, Prod.mk.injEq] at hoperands
    obtain ⟨_, ⟨n, hn, hround⟩, rfl, rfl⟩ := hoperands
    obtain rfl := toFloat_eq_some hround
    apply Float.le_round
    simpa only [atLeast, asNumber_of_asInt hn, asNumber_float] using h
  · simp only [Option.map_eq_some_iff, Option.bind_eq_some_iff, Prod.mk.injEq] at hoperands
    obtain ⟨m, hm, n, hn, rfl, rfl⟩ := hoperands
    simpa only [atLeast, asNumber_of_asInt hm, asNumber_of_asInt hn] using h

end Value

end Diplom.Python
