import Diplom.Lib.Text
import Diplom.Transport.Types
import Mathlib.Algebra.Group.Nat.Defs

/-!
# The text of a peer id

`PeerIdToString` writes into an array of its own and makes a string of it; `MacStrToPeerId` reads
the groups of a string and writes into the array of the id. A write outside an array gives nothing,
and so does a read. What an array holds before anything is written is given from outside.

A string is its bytes, each as a character.
-/

namespace Diplom

/-- `MAC_OCTET_LEN`. -/
def macOctetLen : Nat := 3

/-- `MAC_STR_LEN`. -/
def macStrLen : Nat := 18

/-- `s[i] = x`. -/
def writeAt {α : Type} (s : List α) (i : Nat) (x : α) : Option (List α) :=
  if i < s.length then some (s.set i x) else none

/-- The body of the loop of `PeerIdToString`, on `ptr` and `s`. -/
def writeOctet (state : Nat × Text) (oct : Byte) : Option (Nat × Text) := do
  let (ptr, s) := state
  let high ← hexDigits[((oct &&& 0xF0) >>> 4).toNat]?
  let s ← writeAt s ptr high
  let ptr := ptr + 1
  let low ← hexDigits[(oct &&& 0x0F).toNat]?
  let s ← writeAt s ptr low
  let ptr := ptr + 1
  let s ← writeAt s ptr (if ptr = macStrLen then '\x00' else ':')
  some (ptr + 1, s)

/-- `PeerIdToString`, on what its array holds before. -/
def peerIdToString (array : Text) (peerId : PeerId) : Option Text :=
  (peerId.toList.foldlM writeOctet (0, array)).map fun state => state.2.take (macStrLen - 1)

/-! ### Reading -/

/-- `isspace`. -/
def isCSpace (c : Char) : Bool := c ∈ [' ', '\t', '\n', '\x0b', '\x0c', '\r']

/-- The digits at the front of a text as one number; further digits leave the largest number of its
type. -/
def readHex (text : Text) : Nat :=
  let digits := text.takeWhile fun c => (hexValue c).isSome
  min (digits.foldl (fun n c => 16 * n + (hexValue c).getD 0) 0) (2 ^ 64 - 1)

/-- `0x` in front of a digit is skipped. -/
def skipHexPrefix : Text → Text
  | '0' :: 'x' :: c :: rest | '0' :: 'X' :: c :: rest =>
      if (hexValue c).isSome then c :: rest else ['0']
  | text => text

/-- `strtoul(text, nullptr, 16)`, on the text up to its first zero. -/
def strtoulHex (text : Text) : Nat :=
  match (text.takeWhile (· ≠ '\x00')).dropWhile isCSpace with
  | '-' :: rest => (2 ^ 64 - readHex (skipHexPrefix rest)) % 2 ^ 64
  | '+' :: rest => readHex (skipHexPrefix rest)
  | rest => readHex (skipHexPrefix rest)

/-- The body of the loop of `MacStrToPeerId`, for `i = MAC_OCTET_LEN * group`. -/
def readOctet (mac : Text) (id : List Byte) (group : Nat) : Option (List Byte) :=
  let byteStr := (mac.drop (macOctetLen * group)).take (macOctetLen - 1)
  writeAt id group (UInt8.ofNat (strtoulHex byteStr))

/-- The groups that the loop of `MacStrToPeerId` goes through: as many as there are starts of a
group in the string. -/
def macGroups (mac : Text) : List Nat := List.range ((mac.length + macOctetLen - 1) / macOctetLen)

/-- `MacStrToPeerId`, on what the id holds before. -/
def macStrToPeerId (array : PeerId) (mac : Text) : Option (List Byte) :=
  (macGroups mac).foldlM (readOctet mac) array.toList

end Diplom
