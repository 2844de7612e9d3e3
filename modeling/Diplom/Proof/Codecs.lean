import Diplom.Transport.Datagrams
import Diplom.Transport.PeerIdText

/-!
# What the codecs read and write

A hello is decoded in two places, from a copy of a message and in the buffer of a datagram. Both
take the same messages for the same hellos: comparing the identifier with `strcmp` ends with its
last byte at the latest, whatever follows it in memory.

The text of a peer id is six groups of two digits with a colon between each two. Writing and reading
it back is the identity on ids, and on texts it makes the digits lower case. How far the reader
writes is decided by the length of what it is given.
-/

namespace Diplom

/-! ### Hellos -/

/-- The comparison ends within two arrays of one size if one of them holds a zero. -/
theorem strcmpEq_append {as bs : List Byte} (hlength : as.length = bs.length) (hzero : 0 ∈ bs)
    (behind behind' : List Byte) :
    strcmpEq (as ++ behind) (bs ++ behind') = strcmpEq as bs := by
  induction as generalizing bs with
  | nil =>
      rw [List.eq_nil_of_length_eq_zero hlength.symm] at hzero
      simp at hzero
  | cons a as ih =>
      cases bs with
      | nil => simp at hlength
      | cons b bs =>
          simp only [List.cons_append, strcmpEq]
          by_cases hab : a = b
          · by_cases ha : a = 0
            · simp [ha]
            · have hrest : 0 ∈ bs := by
                rcases List.mem_cons.mp hzero with hb | hrest
                · exact absurd (hab.trans hb.symm) ha
                · exact hrest
              rw [ih (by simpa using hlength) hrest]
          · simp [hab]

theorem castIsValid_eq {message : Message} (h : message.length = HelloMsg.size)
    (behind : List Byte) :
    castIsValid message behind = (HelloMsg.ofBytes message h).isValid := by
  have hsplit : message = (HelloMsg.ofBytes message h).identifier.toList ++ message.drop 6 :=
    (List.take_append_drop 6 message).symm
  unfold castIsValid HelloMsg.isValid
  conv_lhs => rw [hsplit]
  exact strcmpEq_append (by simp) (by simp [helloId]) _ _

/-- What `Deserialize` makes of a datagram, with the sender. -/
def accepted (d : Datagram) : Option (InAddr × HelloMsg) :=
  (HelloMsg.deserialize d.payload).map fun hello => (d.sender, hello)

private theorem deserialize_take (payload : Message) :
    HelloMsg.deserialize (payload.take bufferLen) = HelloMsg.deserialize payload := by
  by_cases hfits : payload.length ≤ bufferLen
  · rw [List.take_of_length_le hfits]
  · have hcut : (payload.take bufferLen).length ≠ HelloMsg.size := by
      rw [List.length_take, Nat.min_eq_left (by omega)]
      decide
    have hlong : payload.length ≠ HelloMsg.size := by
      intro h
      rw [h] at hfits
      exact hfits (by decide)
    rw [HelloMsg.deserialize, dif_neg hcut, HelloMsg.deserialize, dif_neg hlong]

/-- The receiver passes on what `Deserialize` accepts. -/
theorem receiveBroadcasts_eq {State : Type}
    (processHello : State → InAddr → HelloMsg → Option State) (behind : List Byte)
    (queue : List Datagram) (s : State) :
    receiveBroadcasts processHello behind queue s =
      (queue.filterMap accepted).foldlM (fun s hello => processHello s hello.1 hello.2) s := by
  induction queue generalizing s with
  | nil => rfl
  | cons d queue ih =>
      have haccepted : accepted d = (HelloMsg.deserialize (readBroadcast d).1).map
          fun hello => (d.sender, hello) := by
        rw [accepted, readBroadcast, deserialize_take]
      simp only [receiveBroadcasts]
      by_cases hsize : (readBroadcast d).1.length = HelloMsg.size
      · rw [dif_pos hsize]
        rw [HelloMsg.deserialize, dif_pos hsize] at haccepted
        by_cases hvalid : (HelloMsg.ofBytes (readBroadcast d).1 hsize).isValid = true
        · rw [if_pos (by rw [castIsValid_eq hsize, hvalid])]
          simp only [hvalid, if_true, Option.map_some] at haccepted
          rw [List.filterMap_cons_some haccepted, List.foldlM_cons]
          exact congrArg (processHello s d.sender (HelloMsg.ofBytes _ hsize)).bind (funext ih)
        · rw [if_neg (by rw [castIsValid_eq hsize]; exact hvalid), ih]
          simp only [hvalid] at haccepted
          rw [List.filterMap_cons_none haccepted]
      · rw [dif_neg hsize, ih]
        rw [HelloMsg.deserialize, dif_neg hsize] at haccepted
        rw [List.filterMap_cons_none haccepted]

/-- The codec of hellos is exact, and both receivers use the same one. -/
theorem hello_codec :
    (∀ (id : PeerId) (type : Byte),
      HelloMsg.deserialize (HelloMsg.make id type).serialize = some (HelloMsg.make id type)) ∧
    (∀ b : Message, (HelloMsg.deserialize b).isSome ↔
      b.length = HelloMsg.size ∧ helloId.toList <+: b) ∧
    (∀ (b : Message) (hello : HelloMsg), HelloMsg.deserialize b = some hello →
      hello.serialize = b) ∧
    ∀ (State : Type) (processHello : State → InAddr → HelloMsg → Option State)
      (behind : List Byte) (queue : List Datagram) (s : State),
      receiveBroadcasts processHello behind queue s =
        (queue.filterMap accepted).foldlM (fun s hello => processHello s hello.1 hello.2) s := by
  refine ⟨HelloMsg.deserialize_make, fun b => ?_, fun b hello h => ?_,
    fun _ processHello behind queue s => receiveBroadcasts_eq processHello behind queue s⟩
  · constructor
    · intro h
      obtain ⟨hello, hhello⟩ := Option.isSome_iff_exists.mp h
      obtain ⟨rfl, hid⟩ := HelloMsg.deserialize_eq_some.mp hhello
      refine ⟨HelloMsg.length_serialize hello, ?_⟩
      rw [HelloMsg.serialize, hid, List.append_assoc]
      exact List.prefix_append _ _
    · rintro ⟨hsize, hpre⟩
      have hidentifier : (HelloMsg.ofBytes b hsize).identifier = helloId := by
        apply Bytes.toList_injective
        exact (List.prefix_iff_eq_take.mp hpre).symm
      have hvalid := (HelloMsg.isValid_iff _).mpr hidentifier
      rw [HelloMsg.deserialize, dif_pos hsize]
      simp [hvalid]
  · exact (HelloMsg.deserialize_eq_some.mp h).1.symm

/-! ### Peer ids as texts -/

def macText (groups : List (Char × Char)) : Text :=
  [':'].intercalate (groups.map fun g => [g.1, g.2])

def IsOctet (g : Char × Char) : Prop := (hexValue g.1).isSome ∧ (hexValue g.2).isSome

def octetDigits (oct : Byte) : Char × Char :=
  ((hexDigits[oct.toNat / 16]?).getD '0', (hexDigits[oct.toNat % 16]?).getD '0')

/-! ### Digits -/

private theorem toNat_high (oct : Byte) : ((oct &&& 0xF0) >>> 4).toNat = oct.toNat / 16 := by
  have hlt := oct.toNat_lt
  have hshift : (oct.toNat &&& 240) >>> 4 = oct.toNat / 16 := by
    have hmask : 240 >>> 4 = 2 ^ 4 - 1 := rfl
    rw [Nat.shiftRight_and_distrib, hmask, Nat.and_two_pow_sub_one_eq_mod,
      Nat.shiftRight_eq_div_pow]
    omega
  simpa [UInt8.toNat_shiftRight, UInt8.toNat_and] using hshift

private theorem toNat_low (oct : Byte) : (oct &&& 0x0F).toNat = oct.toNat % 16 := by
  simpa [UInt8.toNat_and] using Nat.and_two_pow_sub_one_eq_mod oct.toNat 4

theorem octetDigits_spec (oct : Byte) :
    hexDigits[oct.toNat / 16]? = some (octetDigits oct).1 ∧
      hexDigits[oct.toNat % 16]? = some (octetDigits oct).2 ∧
      hexValue (octetDigits oct).1 = some (oct.toNat / 16) ∧
      hexValue (octetDigits oct).2 = some (oct.toNat % 16) := by
  have hlt := oct.toNat_lt
  obtain ⟨high, hhigh, hhighValue⟩ := hexDigits_spec (n := oct.toNat / 16) (by omega)
  obtain ⟨low, hlow, hlowValue⟩ := hexDigits_spec (n := oct.toNat % 16) (by omega)
  simp only [octetDigits, hhigh, hlow, Option.getD_some]
  exact ⟨trivial, trivial, hhighValue, hlowValue⟩

private theorem ne_of_hexValue {c d : Char} (hc : (hexValue c).isSome) (hd : hexValue d = none) :
    c ≠ d := by
  rintro rfl
  rw [hd] at hc
  exact absurd hc (by decide)

theorem strtoulHex_octet {a b : Char} {m n : Nat} (ha : hexValue a = some m)
    (hb : hexValue b = some n) : strtoulHex [a, b] = 16 * m + n := by
  have ha' : (hexValue a).isSome := by rw [ha]; rfl
  have hb' : (hexValue b).isSome := by rw [hb]; rfl
  have hm := (of_hexValue ha).1
  have hn := (of_hexValue hb).1
  have hspace : isCSpace a = false := by
    rw [isCSpace, decide_eq_false_iff_not]
    intro hmem
    simp only [List.mem_cons, List.not_mem_nil, or_false] at hmem
    rcases hmem with h | h | h | h | h | h
    all_goals exact ne_of_hexValue ha' (by decide) h
  have hfront : ([a, b].takeWhile (· ≠ '\x00')).dropWhile isCSpace = [a, b] := by
    have hazero := ne_of_hexValue ha' (d := '\x00') (by decide)
    have hbzero := ne_of_hexValue hb' (d := '\x00') (by decide)
    simp [hazero, hbzero, hspace]
  have hpre : skipHexPrefix [a, b] = [a, b] := by
    simp [skipHexPrefix]
  have hread : readHex [a, b] = 16 * m + n := by
    simp only [readHex, List.takeWhile_cons, ha, hb, Option.isSome_some, if_true,
      List.takeWhile_nil, List.foldl_cons, List.foldl_nil, Option.getD_some]
    omega
  unfold strtoulHex
  rw [hfront]
  split
  · rename_i h
    exact absurd (List.cons.inj h).1 (ne_of_hexValue ha' (by decide))
  · rename_i h
    exact absurd (List.cons.inj h).1 (ne_of_hexValue ha' (by decide))
  · rw [hpre, hread]

/-! ### The writer -/

private theorem writeOctet_eq : writeOctet = fun state oct =>
    (writeAt state.2 state.1 (octetDigits oct).1).bind fun s =>
      (writeAt s (state.1 + 1) (octetDigits oct).2).bind fun s =>
        (writeAt s (state.1 + 1 + 1) (if state.1 + 1 + 1 = macStrLen then '\x00' else ':')).bind
          fun s => some (state.1 + 1 + 1 + 1, s) := by
  funext state oct
  obtain ⟨hhigh, hlow, -, -⟩ := octetDigits_spec oct
  rw [← toNat_high] at hhigh
  rw [← toNat_low] at hlow
  simp only [writeOctet, hhigh, hlow]
  rfl

/-- The text of a peer id is that of the digits of its bytes, and every write is inside the array.
-/
theorem peerIdToString_eq {array : Text} (harray : array.length = macStrLen) (peerId : PeerId) :
    peerIdToString array peerId = some (macText (peerId.toList.map octetDigits)) := by
  rw [peerIdToString, writeOctet_eq]
  match array, harray, peerId with
  | [_, _, _, _, _, _, _, _, _, _, _, _, _, _, _, _, _, _], _, ⟨[_, _, _, _, _, _], _⟩ =>
      simp [writeAt, macStrLen, macText]

/-! ### The reader -/

private theorem exists_groups {α : Type} {l : List α} (h : l.length = peerIdLen) :
    ∃ a b c d e f, l = [a, b, c, d, e, f] := by
  match l, h with
  | [a, b, c, d, e, f], _ => exact ⟨a, b, c, d, e, f, rfl⟩

def octetOf (g : Char × Char) : Byte := UInt8.ofNat (strtoulHex [g.1, g.2])

theorem macStrToPeerId_eq (array : PeerId) {groups : List (Char × Char)}
    (hgroups : groups.length = peerIdLen) :
    macStrToPeerId array (macText groups) = some (groups.map octetOf) := by
  obtain ⟨a, b, c, d, e, f, rfl⟩ := exists_groups hgroups
  match array with
  | ⟨[_, _, _, _, _, _], _⟩ =>
      have htext : macText [a, b, c, d, e, f] = [a.1, a.2, ':', b.1, b.2, ':', c.1, c.2, ':',
        d.1, d.2, ':', e.1, e.2, ':', f.1, f.2] := rfl
      have hrange : List.range 6 = [0, 1, 2, 3, 4, 5] := rfl
      rw [htext]
      simp [macStrToPeerId, macGroups, macOctetLen, hrange, readOctet, writeAt, octetOf]

theorem octetOf_octetDigits (oct : Byte) : octetOf (octetDigits oct) = oct := by
  obtain ⟨-, -, hhigh, hlow⟩ := octetDigits_spec oct
  rw [octetOf, strtoulHex_octet hhigh hlow, Nat.div_add_mod, UInt8.ofNat_toNat]

/-- The digits of a byte that was read are those it was read from, in lower case. -/
theorem octetDigits_octetOf {g : Char × Char} (h : IsOctet g) :
    octetDigits (octetOf g) = (g.1.toLower, g.2.toLower) := by
  obtain ⟨m, hm⟩ := Option.isSome_iff_exists.mp h.1
  obtain ⟨n, hn⟩ := Option.isSome_iff_exists.mp h.2
  obtain ⟨hmlt, hmlower⟩ := of_hexValue hm
  obtain ⟨hnlt, hnlower⟩ := of_hexValue hn
  have hnat : (octetOf g).toNat = 16 * m + n := by
    rw [octetOf, strtoulHex_octet hm hn, UInt8.toNat_ofNat']
    omega
  have hdiv : (16 * m + n) / 16 = m := by omega
  have hmod : (16 * m + n) % 16 = n := by omega
  rw [octetDigits, hnat, hdiv, hmod, hmlower, hnlower]
  rfl

private theorem readOctets_isSome (mac : Text) (groups : List Nat) (id : List Byte) :
    (groups.foldlM (readOctet mac) id).isSome ↔ ∀ g ∈ groups, g < id.length := by
  induction groups generalizing id with
  | nil => simp
  | cons g groups ih =>
      rw [List.foldlM_cons]
      by_cases hg : g < id.length
      · simp [readOctet, writeAt, hg, ih]
      · simp [readOctet, writeAt, hg]

/-- The reader writes to the id only, exactly if the string is not longer than the text of an id
with its terminating zero. -/
theorem macStrToPeerId_isSome (array : PeerId) (mac : Text) :
    (macStrToPeerId array mac).isSome ↔ mac.length ≤ macStrLen := by
  rw [macStrToPeerId, readOctets_isSome, array.length_eq]
  unfold macGroups macStrLen macOctetLen peerIdLen
  constructor
  · intro hall
    by_contra hlong
    have hsix := hall 6 (List.mem_range.mpr (by omega))
    omega
  · intro hshort g hg
    have hlt := List.mem_range.mp hg
    omega

/-! ### Round trips -/

private theorem macText_toLower {groups : List (Char × Char)} (h : groups.length = peerIdLen) :
    (macText groups).map Char.toLower =
      macText (groups.map fun g => (g.1.toLower, g.2.toLower)) := by
  obtain ⟨a, b, c, d, e, f, rfl⟩ := exists_groups h
  have hcolon : ':'.toLower = ':' := by decide
  simp [macText, hcolon]

private theorem length_macText {groups : List (Char × Char)} (h : groups.length = peerIdLen) :
    (macText groups).length = macStrLen - 1 := by
  obtain ⟨a, b, c, d, e, f, rfl⟩ := exists_groups h
  rfl

/-- What `PeerIdToString` and `MacStrToPeerId` do with six groups of two digits, whatever their
arrays hold before; and whether the reader's writes for a string are inside the id. -/
theorem peer_id_text (mac : Text) :
    (∀ (array : Text) (id : PeerId), array.length = macStrLen →
      ∃ groups : List (Char × Char), groups.length = peerIdLen ∧
        (∀ g ∈ groups, g.1 ∈ hexDigits ∧ g.2 ∈ hexDigits) ∧ (macText groups).length = 17 ∧
        peerIdToString array id = some (macText groups)) ∧
    (∀ (array : Text) (before id : PeerId) (text : Text), array.length = macStrLen →
      peerIdToString array id = some text → macStrToPeerId before text = some id.toList) ∧
    (∀ (array array' : Text) (id id' : PeerId), array.length = macStrLen →
      array'.length = macStrLen → peerIdToString array id = peerIdToString array' id' → id = id') ∧
    (∀ (array : Text) (before : PeerId) (groups : List (Char × Char)), array.length = macStrLen →
      groups.length = peerIdLen → (∀ g ∈ groups, IsOctet g) →
      ∃ id : PeerId, macStrToPeerId before (macText groups) = some id.toList ∧
        peerIdToString array id = some ((macText groups).map Char.toLower)) ∧
    ((∀ before : PeerId, (macStrToPeerId before mac).isSome) ↔ mac.length ≤ macStrLen) := by
  have hback : ∀ (array : Text) (before id : PeerId) (text : Text), array.length = macStrLen →
      peerIdToString array id = some text → macStrToPeerId before text = some id.toList := by
    intro array before id text harray htext
    rw [peerIdToString_eq harray, Option.some.injEq] at htext
    rw [← htext, macStrToPeerId_eq before (by simp), List.map_map]
    congr 1
    apply List.map_id''
    exact octetOf_octetDigits
  refine ⟨fun array id harray => ?_, hback, fun array array' id id' harray harray' heq => ?_,
    fun array before groups harray hgroups hoctets => ?_, ?_⟩
  · refine ⟨id.toList.map octetDigits, by simp, fun g hg => ?_, length_macText (by simp),
      peerIdToString_eq harray id⟩
    obtain ⟨oct, -, rfl⟩ := List.mem_map.mp hg
    obtain ⟨hhigh, hlow, -, -⟩ := octetDigits_spec oct
    exact ⟨List.mem_of_getElem? hhigh, List.mem_of_getElem? hlow⟩
  · have htext := peerIdToString_eq harray id
    have hid := hback array id id _ harray htext
    have hid' := hback array' id id' _ harray' (heq.symm.trans htext)
    exact Bytes.toList_injective (Option.some.inj (hid.symm.trans hid'))
  · refine ⟨⟨groups.map octetOf, by simpa using hgroups⟩, macStrToPeerId_eq before hgroups, ?_⟩
    rw [peerIdToString_eq harray, macText_toLower hgroups, List.map_map]
    congr 2
    apply List.map_congr_left
    intro g hg
    exact octetDigits_octetOf (hoctets g hg)
  · constructor
    · exact fun hall => (macStrToPeerId_isSome ⟨[0, 0, 0, 0, 0, 0], rfl⟩ mac).mp (hall _)
    · exact fun hshort before => (macStrToPeerId_isSome before mac).mpr hshort

/-- A longer string is read past the end of the id. -/
theorem long_text_leaves_id :
    ¬ ∀ (mac : Text) (before : PeerId), (macStrToPeerId before mac).isSome := by
  intro h
  have hlong := h "00:11:22:33:44:55:6".toList ⟨[0, 0, 0, 0, 0, 0], rfl⟩
  exact absurd hlong (by decide)

end Diplom
