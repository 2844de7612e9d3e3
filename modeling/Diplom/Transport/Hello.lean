import Diplom.Transport.Types

/-!
# Hello messages

`HelloMsg` is a packed structure that goes over the wire as it lies in memory: the identifier with
its terminating zero, the peer id, and one byte for the type. `Deserialize` accepts a message by its
size and by comparing the identifier as a C string; which types there are is left to the callers.
-/

namespace Diplom

/-- `HELLO_ID` with its terminating zero. -/
def helloId : Bytes 6 := ⟨[72, 101, 108, 108, 111, 0], rfl⟩

/-- `HelloType::Notify`. -/
def helloNotify : Byte := 0

/-- `HelloType::Answer`. -/
def helloAnswer : Byte := 1

/-- `strcmp(a, b) == 0` on two arrays of one size. Behind their ends lies something else, so arrays
that agree without a zero are not equal. -/
def strcmpEq : List Byte → List Byte → Bool
  | a :: as, b :: bs => if a ≠ b then false else if a = 0 then true else strcmpEq as bs
  | _, _ => false

/-- Two arrays of one size, of which the second has no zero before its end, compare equal only if
they are. -/
theorem eq_of_strcmpEq {as bs : List Byte} (h : strcmpEq as bs = true)
    (hlength : as.length = bs.length) (hzero : ∀ b ∈ bs.dropLast, b ≠ 0) : as = bs := by
  induction as generalizing bs with
  | nil => exact (List.eq_nil_of_length_eq_zero hlength.symm).symm
  | cons a as ih =>
      cases bs with
      | nil => exact absurd h (by simp [strcmpEq])
      | cons b bs =>
          by_cases hab : a = b
          · subst hab
            cases bs with
            | nil =>
                obtain rfl : as = [] := List.eq_nil_of_length_eq_zero (by simpa using hlength)
                rfl
            | cons c bs =>
                have ha : a ≠ 0 := hzero a (by simp)
                simp only [strcmpEq, ne_eq, not_true_eq_false, if_false, if_neg ha] at h
                rw [ih h (by simpa using hlength) fun x hx => hzero x (by simp [hx])]
          · exact absurd h (by simp [strcmpEq, hab])

/-- The type is any byte: a message may hold one that `HelloType` does not name. -/
structure HelloMsg where
  identifier : Bytes 6
  id : PeerId
  type : Byte
deriving DecidableEq

namespace HelloMsg

/-- `sizeof(HelloMsg)`. -/
def size : Nat := 13

/-- `IsValid`. -/
def isValid (hello : HelloMsg) : Bool := strcmpEq hello.identifier.toList helloId.toList

/-- `Serialize`. -/
def serialize (hello : HelloMsg) : Message :=
  hello.identifier.toList ++ hello.id.toList ++ [hello.type]

/-- The structure that `std::copy` fills from the bytes of a message of its size. -/
def ofBytes (msg : Message) (h : msg.length = size) : HelloMsg where
  identifier := .take 6 msg (by rw [h]; decide)
  id := .take peerIdLen (msg.drop 6) (by rw [List.length_drop, h]; decide)
  type := msg.get ⟨12, by rw [h]; decide⟩

/-- `Deserialize`. -/
def deserialize (msg : Message) : Option HelloMsg :=
  if h : msg.length = size then
    let hello := ofBytes msg h
    if hello.isValid then some hello else none
  else none

/-- A hello of this peer with the given type, as both sides fill one in. -/
def make (id : PeerId) (type : Byte) : HelloMsg := ⟨helloId, id, type⟩

@[simp] theorem length_serialize (hello : HelloMsg) : hello.serialize.length = size := by
  simp [serialize, size, peerIdLen]

theorem serialize_ofBytes (msg : Message) (h : msg.length = size) :
    (ofBytes msg h).serialize = msg := by
  match msg, h with
  | [_, _, _, _, _, _, _, _, _, _, _, _, _], _ => rfl

theorem ofBytes_serialize (hello : HelloMsg) (h : hello.serialize.length = size) :
    ofBytes hello.serialize h = hello := by
  match hello, h with
  | ⟨⟨[_, _, _, _, _, _], _⟩, ⟨[_, _, _, _, _, _], _⟩, _⟩, _ => rfl

/-- An identifier passes exactly if it is `HELLO_ID` to the last byte. -/
theorem isValid_iff (hello : HelloMsg) : hello.isValid = true ↔ hello.identifier = helloId := by
  constructor
  · intro hvalid
    exact Bytes.toList_injective (eq_of_strcmpEq hvalid (by simp) (by simp [helloId]))
  · intro h
    rw [isValid, h]
    decide

/-- What is accepted is the serialization of what comes out, and carries the identifier. -/
theorem deserialize_eq_some {msg : Message} {hello : HelloMsg} :
    deserialize msg = some hello ↔ msg = hello.serialize ∧ hello.identifier = helloId := by
  constructor
  · intro h
    unfold deserialize at h
    split at h
    · rename_i hsize
      dsimp only at h
      split at h
      · rename_i hvalid
        obtain rfl := Option.some.inj h
        exact ⟨(serialize_ofBytes msg hsize).symm, (isValid_iff _).mp hvalid⟩
      · exact absurd h (by simp)
    · exact absurd h (by simp)
  · rintro ⟨rfl, hidentifier⟩
    have hvalid := (isValid_iff hello).mpr hidentifier
    simp [deserialize, ofBytes_serialize, hvalid]

@[simp] theorem deserialize_make (id : PeerId) (type : Byte) :
    deserialize (make id type).serialize = some (make id type) :=
  deserialize_eq_some.mpr ⟨rfl, rfl⟩

theorem make_injective {id id' : PeerId} {type type' : Byte}
    (h : (make id type).serialize = (make id' type').serialize) : id = id' ∧ type = type' := by
  have hmake := deserialize_make id type
  rw [h, deserialize_make] at hmake
  obtain ⟨-, hid, htype⟩ := (HelloMsg.mk.injEq ..).mp (Option.some.inj hmake)
  exact ⟨hid.symm, htype.symm⟩

end HelloMsg

end Diplom
