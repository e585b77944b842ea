import Mathlib.Data.Nat.Digits.Lemmas

/-!
# Recursive length encoding

Items are byte strings and lists of items; a header gives the kind of an item and the
length of its payload.  Integers are byte strings without leading zeros.  Structures are
lists of their fields, of which the last one may be optional.

`Decodes d bs a` says that `d` reads `a` off the bytes `bs`, whatever follows them.
Lengths are machine words, so this is only asked of less than `2 ^ 64` bytes.

Main results:

- `Rlp.Decodes.bind`: items that follow each other are read one by one.
- `Rlp.roundTripsList_of_struct`, `Rlp.roundTripsList_of_trailing`,
  `Rlp.roundTripsList_of_payload`: structures.
-/

namespace Rlp

open List hiding Vector

/-- Encoded data. -/
abbrev Bytes := List UInt8

/-- Why bytes cannot be decoded. -/
inductive Error where
  | overflow
  | leadingZero
  | inputTooShort
  | nonCanonicalSingleByte
  | nonCanonicalSize
  | unexpectedLength
  | unexpectedString
  | unexpectedList
  | listLengthMismatch (expected got : Nat)
  | custom (text : String)
deriving DecidableEq

/-- Decoders take what they read from the front of the bytes. -/
abbrev Decoder (α : Type) := StateT Bytes (Except Error) α

variable {α β : Type}

/-! ## Reading -/

/-- The decoder reads `a` off `bs`. -/
def Decodes (d : Decoder α) (bs : Bytes) (a : α) : Prop :=
  bs.length < 2 ^ 64 → ∀ rest, d (bs ++ rest) = .ok (a, rest)

lemma decodes_pure (a : α) : Decodes (pure a) [] a := fun _ _ => rfl

variable {a : α} {b : β} {bs : Bytes} {n : Nat} {d : Decoder α} {list : Bool}

theorem Decodes.bind {k : α → Decoder β} {bs' : Bytes} (h : Decodes d bs a)
    (h' : Decodes (k a) bs' b) : Decodes (d >>= k) (bs ++ bs') b := by
  intro hsize rest
  rw [length_append] at hsize
  rw [append_assoc]
  change (d (bs ++ (bs' ++ rest)) >>= fun p => k p.1 p.2 : Except Error _) = _
  rw [h (by omega)]
  exact h' (by omega) rest

lemma Decodes.map (h : Decodes d bs a) (f : α → β) : Decodes (f <$> d) bs (f a) := by
  intro hsize rest
  change (d (bs ++ rest) >>= fun p => pure (f p.1, p.2) : Except Error _) = _
  rw [h hsize]
  rfl

/-! ## Big endian numbers -/

/-- Bytes of a number without leading zeros. -/
def toBeBytesTrimmed (n : Nat) : Bytes := (Nat.digits 256 n).reverse.map UInt8.ofNat

def fromBeBytes (bs : Bytes) : Nat := Nat.ofDigits 256 (bs.reverse.map UInt8.toNat)

lemma map_toNat_toBeBytesTrimmed (n : Nat) :
    (toBeBytesTrimmed n).map UInt8.toNat = (Nat.digits 256 n).reverse := by
  unfold toBeBytesTrimmed
  rw [map_map]
  conv_rhs => rw [← map_id (Nat.digits 256 n).reverse]
  apply map_congr_left
  intro d hd
  have hlt : d < 256 := Nat.digits_lt_base (by omega) (mem_reverse.mp hd)
  exact Nat.mod_eq_of_lt hlt

lemma fromBeBytes_toBeBytesTrimmed (n : Nat) : fromBeBytes (toBeBytesTrimmed n) = n := by
  rw [fromBeBytes, map_reverse, map_toNat_toBeBytesTrimmed, reverse_reverse, Nat.ofDigits_digits]

lemma length_toBeBytesTrimmed_le_iff {k : Nat} : (toBeBytesTrimmed n).length ≤ k ↔ n < 256 ^ k := by
  rw [toBeBytesTrimmed, length_map, length_reverse]
  exact Nat.digits_length_le_iff (by omega) n

lemma toBeBytesTrimmed_of_lt (hpos : n ≠ 0) (hlt : n < 256) :
    toBeBytesTrimmed n = [UInt8.ofNat n] := by
  rw [toBeBytesTrimmed, Nat.digits_of_lt 256 n hpos hlt]
  rfl

/-- There are no leading zeros. -/
lemma toNat_ne_zero_of_toBeBytesTrimmed {b : UInt8} (h : toBeBytesTrimmed n = b :: bs) :
    b.toNat ≠ 0 := by
  have hmap := map_toNat_toBeBytesTrimmed n
  rw [h, map_cons] at hmap
  have hn : n ≠ 0 := by
    rintro rfl
    cases h
  have hlast := Nat.getLast_digit_ne_zero 256 hn
  have hdigits : Nat.digits 256 n = (bs.map UInt8.toNat).reverse ++ [b.toNat] := by
    rw [← reverse_reverse (Nat.digits 256 n), ← hmap, reverse_cons]
  simpa [hdigits] using hlast

/-- Read a number of at most `width` bytes. -/
def staticLeftPad (width : Nat) (data : Bytes) : Except Error Nat :=
  if width < data.length then .error .overflow
  else
    match data with
    | [] => .ok 0
    | b :: bs => if b.toNat = 0 then .error .leadingZero else .ok (fromBeBytes (b :: bs))

lemma staticLeftPad_toBeBytesTrimmed {width : Nat} (h : n < 256 ^ width) :
    staticLeftPad width (toBeBytesTrimmed n) = .ok n := by
  have hlength := length_toBeBytesTrimmed_le_iff.mpr h
  unfold staticLeftPad
  rw [if_neg (by omega)]
  cases hbytes : toBeBytesTrimmed n with
  | nil =>
    have hzero := fromBeBytes_toBeBytesTrimmed n
    rw [hbytes] at hzero
    rw [← hzero]
    rfl
  | cons b bs =>
    change (if b.toNat = 0 then _ else _) = _
    rw [if_neg (toNat_ne_zero_of_toBeBytesTrimmed hbytes), ← hbytes, fromBeBytes_toBeBytesTrimmed]

/-! ## Headers -/

/-- Kind of an item and length of its payload. -/
structure Header where
  list : Bool
  payloadLength : Nat

def Header.encode (h : Header) : Bytes :=
  if h.payloadLength < 56 then
    let code := if h.list then 0xC0 else 0x80
    [UInt8.ofNat (code + h.payloadLength)]
  else
    let lenBe := toBeBytesTrimmed h.payloadLength
    let code := if h.list then 0xF7 else 0xB7
    UInt8.ofNat (code + lenBe.length) :: lenBe

def lengthOfLength (payloadLength : Nat) : Nat :=
  if payloadLength < 56 then 1 else 1 + (toBeBytesTrimmed payloadLength).length

lemma Header.length_encode (h : Header) : h.encode.length = lengthOfLength h.payloadLength := by
  unfold encode lengthOfLength
  split <;> simp [add_comm]

/-- Read the header of an item.  A byte below 128 is its own payload. -/
def Header.decodeUnchecked : Decoder Header
  | [] => .error .inputTooShort
  | b :: buf =>
    let b' := b.toNat
    if b' < 0x80 then .ok (⟨false, 1⟩, b :: buf)
    else if b' ≤ 0xB7 then
      let payloadLength := b' - 0x80
      if payloadLength = 1 then
        match buf with
        | [] => .error .inputTooShort
        | c :: _ =>
          if c.toNat < 0x80 then .error .nonCanonicalSingleByte
          else .ok (⟨false, payloadLength⟩, buf)
      else .ok (⟨false, payloadLength⟩, buf)
    else if b' ≤ 0xBF ∨ 0xF8 ≤ b' then
      let list := decide (0xF8 ≤ b')
      let lenOfLen := b' - if list then 0xF7 else 0xB7
      if buf.length < lenOfLen then .error .inputTooShort
      else
        match staticLeftPad 8 (buf.take lenOfLen) with
        | .error e => .error e
        | .ok payloadLength =>
          if payloadLength < 56 then .error .nonCanonicalSize
          else .ok (⟨list, payloadLength⟩, buf.drop lenOfLen)
    else .ok (⟨true, b' - 0xC0⟩, buf)

/-- Read a header whose payload is there. -/
def Header.decode : Decoder Header := do
  let h ← decodeUnchecked
  let buf ← get
  if buf.length < h.payloadLength then throw .inputTooShort
  else pure h

def Header.decodeBytes (isList : Bool) : Decoder Bytes := do
  let h ← Header.decode
  if h.list ≠ isList then throw (if isList then .unexpectedString else .unexpectedList)
  else do
    let buf ← get
    set (buf.drop h.payloadLength)
    pure (buf.take h.payloadLength)

/-- A header is read back, unless its payload is a byte below 128. -/
lemma Header.decodeUnchecked_encode {payload rest : Bytes} (hsize : payload.length < 2 ^ 64)
    (hsingle : list = false → ∀ b, payload = [b] → 0x80 ≤ b.toNat) :
    decodeUnchecked (encode ⟨list, payload.length⟩ ++ (payload ++ rest)) =
      .ok (⟨list, payload.length⟩, payload ++ rest) := by
  unfold encode
  simp only
  split
  · next hshort =>
    -- one byte with the length
    cases list with
    | false =>
      have hb : (UInt8.ofNat (0x80 + payload.length)).toNat = 0x80 + payload.length :=
        Nat.mod_eq_of_lt (by omega)
      simp only [Bool.false_eq_true, if_false, singleton_append, decodeUnchecked, hb]
      rw [if_neg (by omega), if_pos (by omega), Nat.add_sub_cancel_left]
      split
      · next hone =>
        obtain ⟨c, rfl⟩ := length_eq_one_iff.mp hone
        have hc := hsingle rfl c rfl
        simp only [singleton_append, length_singleton]
        rw [if_neg (by omega)]
      · rfl
    | true =>
      have hb : (UInt8.ofNat (0xC0 + payload.length)).toNat = 0xC0 + payload.length :=
        Nat.mod_eq_of_lt (by omega)
      simp only [if_true, singleton_append, decodeUnchecked, hb]
      rw [if_neg (by omega), if_neg (by omega), if_neg (by omega), Nat.add_sub_cancel_left]
  · next hlong =>
    -- the length of the length, then the length
    have hle : (toBeBytesTrimmed payload.length).length ≤ 8 :=
      length_toBeBytesTrimmed_le_iff.mpr (by norm_num at hsize ⊢; omega)
    have hpos : 0 < (toBeBytesTrimmed payload.length).length := by
      by_contra hzero
      have := length_toBeBytesTrimmed_le_iff.mp (Nat.le_of_not_lt hzero)
      omega
    have hpad : staticLeftPad 8 (toBeBytesTrimmed payload.length) = .ok payload.length :=
      staticLeftPad_toBeBytesTrimmed (by norm_num at hsize ⊢; omega)
    generalize hcode : (if list then 0xF7 else 0xB7) = code
    have hlist : 0xB7 ≤ code ∧ code ≤ 0xF7 ∧ decide (code = 0xF7) = list := by
      cases list <;> simp [← hcode]
    have hb : (UInt8.ofNat (code + (toBeBytesTrimmed payload.length).length)).toNat =
        code + (toBeBytesTrimmed payload.length).length :=
      Nat.mod_eq_of_lt (by omega)
    have hkind : decide (0xF8 ≤ code + (toBeBytesTrimmed payload.length).length) = list := by
      rw [← hlist.2.2, decide_eq_decide]
      split at hcode <;> omega
    simp only [cons_append, decodeUnchecked, hb, hkind, hcode, Nat.add_sub_cancel_left, take_left,
      drop_left, hpad, length_append]
    rw [if_neg (by omega), if_neg (by omega), if_pos (by split at hcode <;> omega),
      if_neg (by omega), if_neg hlong]

lemma Header.decode_of_unchecked {buf buf' : Bytes} {h : Header}
    (hread : decodeUnchecked buf = .ok (h, buf')) (hthere : h.payloadLength ≤ buf'.length) :
    decode buf = .ok (h, buf') := by
  change (decodeUnchecked buf >>= fun p => _ : Except Error _) = _
  rw [hread]
  change (if buf'.length < h.payloadLength then _ else _ : Decoder Header) buf' = _
  rw [if_neg (by omega)]
  rfl

lemma Header.decode_encode {payload rest : Bytes} (hsize : payload.length < 2 ^ 64)
    (hsingle : list = false → ∀ b, payload = [b] → 0x80 ≤ b.toNat) :
    decode (encode ⟨list, payload.length⟩ ++ (payload ++ rest)) =
      .ok (⟨list, payload.length⟩, payload ++ rest) := by
  refine decode_of_unchecked (decodeUnchecked_encode hsize hsingle) ?_
  rw [length_append]
  exact Nat.le_add_right _ _

theorem Header.decodes_decodeBytes {payload : Bytes}
    (hsingle : list = false → ∀ b, payload = [b] → 0x80 ≤ b.toNat) :
    Decodes (decodeBytes list) (encode ⟨list, payload.length⟩ ++ payload) payload := by
  intro hsize rest
  rw [length_append] at hsize
  rw [append_assoc]
  change (decode _ >>= fun p => _ : Except Error _) = _
  rw [decode_encode (by omega) hsingle]
  change (if list ≠ list then _ else _ : Decoder Bytes) _ = _
  rw [if_neg (not_not.mpr rfl)]
  change Except.ok ((payload ++ rest).take payload.length, (payload ++ rest).drop payload.length) = _
  rw [take_left, drop_left]

/-! ## Types with an encoding -/

/-- Types that can be written; their length is known before. -/
class RlpEncodable (α : Type) where
  encode : α → Bytes
  length : α → Nat := fun a => (encode a).length

/-- Types that can be read. -/
class RlpDecodable (α : Type) where
  decode : Decoder α

export RlpEncodable (encode)
export RlpDecodable (decode)

/-- The value is written with the length it announces, and read back. -/
structure RoundTrips [RlpEncodable α] [RlpDecodable α] (a : α) : Prop where
  length_eq : RlpEncodable.length a = (encode a).length
  ne_nil : encode a ≠ []
  decodes : Decodes decode (encode a) a

/-- Values that are read back are written differently. -/
theorem RoundTrips.injective [RlpEncodable α] [RlpDecodable α] {b : α} (ha : RoundTrips a)
    (hb : RoundTrips b) (hsize : (encode a).length < 2 ^ 64) (h : encode a = encode b) : a = b := by
  have hread := ha.decodes hsize []
  rw [h, hb.decodes (h ▸ hsize)] at hread
  cases hread
  rfl

/-! ## Byte strings and integers -/

def encodeBytes (bs : Bytes) : Bytes :=
  match bs with
  | [b] => if b.toNat < 0x80 then [b] else Header.encode ⟨false, 1⟩ ++ [b]
  | bs => Header.encode ⟨false, bs.length⟩ ++ bs

lemma encodeBytes_ne_nil (bs : Bytes) : encodeBytes bs ≠ [] := by
  have hheader (h : Header) : h.encode ≠ [] := by
    unfold Header.encode
    split <;> simp
  unfold encodeBytes
  split
  · split <;> simp [hheader]
  · simp [hheader]

/-- Byte strings are read back. -/
theorem decodes_decodeBytes (bs : Bytes) :
    Decodes (Header.decodeBytes false) (encodeBytes bs) bs := by
  unfold encodeBytes
  split
  · next b =>
    split
    · next hlow =>
      -- a low byte is read in place
      intro _ rest
      change (Header.decode (b :: rest) >>= fun p => _ : Except Error _) = _
      have hheader : Header.decode (b :: rest) = .ok (⟨false, 1⟩, b :: rest) := by
        refine Header.decode_of_unchecked ?_ (by simp)
        exact if_pos hlow
      rw [hheader]
      rfl
    · next hhigh =>
      refine Header.decodes_decodeBytes fun _ c (hc : [b] = [c]) => ?_
      cases hc
      omega
  · next hne => exact Header.decodes_decodeBytes fun _ b hb => absurd hb (hne b)

/-- Write a number. -/
def encodeNat (n : Nat) : Bytes :=
  if n = 0 then [0x80]
  else if n < 0x80 then [UInt8.ofNat n]
  else UInt8.ofNat (0x80 + (toBeBytesTrimmed n).length) :: toBeBytesTrimmed n

/-- A number is the byte string of its bytes. -/
lemma encodeNat_eq (h : n < 256 ^ 55) : encodeNat n = encodeBytes (toBeBytesTrimmed n) := by
  have hlength := length_toBeBytesTrimmed_le_iff.mpr h
  have hheader : Header.encode ⟨false, (toBeBytesTrimmed n).length⟩ =
      [UInt8.ofNat (0x80 + (toBeBytesTrimmed n).length)] := by
    unfold Header.encode
    rw [if_pos (by simp only; omega)]
    rfl
  unfold encodeNat
  split
  · next hzero =>
    subst hzero
    rfl
  next hpos =>
    split
    · next hlow =>
      have hb : (UInt8.ofNat n).toNat < 0x80 := by
        rw [UInt8.toNat_ofNat', Nat.mod_eq_of_lt (by omega)]
        exact hlow
      rw [toBeBytesTrimmed_of_lt hpos (by omega), encodeBytes, if_pos hb]
    · next hhigh =>
      unfold encodeBytes
      split
      · next b hbytes =>
        have hn := fromBeBytes_toBeBytesTrimmed n
        rw [hbytes] at hn hheader
        have hb : ¬ b.toNat < 0x80 := by
          have heq : b.toNat = n := by simpa [fromBeBytes] using hn
          omega
        rw [if_neg hb, hbytes]
        exact congrArg (· ++ [b]) hheader.symm
      · rw [hheader]
        rfl

/-- Read a number of at most `width` bytes. -/
def decodeNat (width : Nat) : Decoder Nat := do
  let bytes ← Header.decodeBytes false
  staticLeftPad width bytes

lemma decodes_decodeNat {width : Nat} (hwidth : width ≤ 55) (h : n < 256 ^ width) :
    Decodes (decodeNat width) (encodeNat n) n := by
  rw [encodeNat_eq (lt_of_lt_of_le h (Nat.pow_le_pow_right (by omega) hwidth)),
    ← append_nil (encodeBytes _)]
  refine (decodes_decodeBytes _).bind fun _ rest => ?_
  rw [staticLeftPad_toBeBytesTrimmed h]
  rfl

instance (w : Nat) : RlpEncodable (BitVec w) where
  encode x := encodeNat x.toNat
  length x := if x.toNat < 0x80 then 1 else 1 + (toBeBytesTrimmed x.toNat).length

instance (w : Nat) : RlpDecodable (BitVec w) where
  decode := BitVec.ofNat w <$> decodeNat (w / 8)

/-- Machine integers of whole bytes are read back. -/
lemma roundTrips_bitVec {w : Nat} (hw : w % 8 = 0) (hle : w ≤ 440) (x : BitVec w) :
    RoundTrips x where
  length_eq := by
    change (if _ then _ else _) = (encodeNat _).length
    unfold encodeNat
    split
    · split
      · rfl
      · rw [length_singleton]
    · rw [if_neg (by omega), length_cons, add_comm]
  ne_nil := by
    change encodeNat _ ≠ []
    unfold encodeNat
    split
    · simp
    · split <;> simp
  decodes := by
    have hlt : x.toNat < 256 ^ (w / 8) := by
      have hpow : 256 ^ (w / 8) = 2 ^ w := by
        rw [show 256 = 2 ^ 8 by rfl, ← pow_mul, Nat.mul_div_cancel' (Nat.dvd_of_mod_eq_zero hw)]
      rw [hpow]
      exact x.isLt
    have hread := (decodes_decodeNat (by omega) hlt).map (BitVec.ofNat w)
    rw [BitVec.ofNat_toNat, BitVec.setWidth_eq] at hread
    exact hread

abbrev FixedBytes (n : Nat) := Vector UInt8 n

instance (n : Nat) : RlpEncodable (FixedBytes n) where
  encode v := encodeBytes v.toList

instance (n : Nat) : RlpDecodable (FixedBytes n) where
  decode := do
    let bytes ← Header.decodeBytes false
    if h : bytes.length = n then pure ⟨bytes.toArray, by simpa using h⟩
    else throw .unexpectedLength

lemma roundTrips_fixedBytes (v : FixedBytes n) : RoundTrips v where
  length_eq := rfl
  ne_nil := encodeBytes_ne_nil _
  decodes := by
    change Decodes _ (encodeBytes v.toList) v
    rw [← append_nil (encodeBytes v.toList)]
    refine (decodes_decodeBytes _).bind fun _ rest => ?_
    rw [dif_pos (by simp)]
    cases v
    rfl

/-- What is used of the primitive types: byte strings, integers and arrays of bytes have one
encoding, which is read back. -/
structure CanonicalPrimitives : Prop where
  bytes : ∀ bs, Decodes (Header.decodeBytes false) (encodeBytes bs) bs
  integers : ∀ {w : Nat}, w % 8 = 0 → w ≤ 440 → ∀ x : BitVec w, RoundTrips x
  arrays : ∀ {n : Nat} (v : FixedBytes n), RoundTrips v

lemma canonicalPrimitives : CanonicalPrimitives :=
  ⟨decodes_decodeBytes, roundTrips_bitVec, roundTrips_fixedBytes⟩

/-! ## Lists -/

/-- An item of a list, with the length it announces. -/
structure Item where
  length : Nat
  bytes : Bytes

def item [RlpEncodable α] (a : α) : Item := ⟨RlpEncodable.length a, encode a⟩

/-- The announced length is right. -/
def Item.Exact (i : Item) : Prop := i.length = i.bytes.length

variable (items : List Item)

def payloadLength : Nat := (items.map Item.length).sum

def payload : Bytes := items.flatMap Item.bytes

def encodeList : Bytes :=
  Header.encode ⟨true, payloadLength items⟩ ++ payload items

def listLength : Nat :=
  payloadLength items + lengthOfLength (payloadLength items)

abbrev RlpEncodable.ofFields (fields : α → List Item) : RlpEncodable α where
  encode a := encodeList (fields a)
  length a := listLength (fields a)

abbrev RlpEncodable.ofList (items : α → List Item) : RlpEncodable α where
  encode a := encodeList (items a)

instance [RlpEncodable α] : RlpEncodable (List α) := .ofFields (List.map item)

lemma RoundTrips.exact [RlpEncodable α] [RlpDecodable α] (h : RoundTrips a) :
    (item a).Exact := h.length_eq

variable {items}

lemma length_payload_lt (hsize : (encodeList items).length < 2 ^ 64) :
    (payload items).length < 2 ^ 64 := by
  unfold encodeList at hsize
  rw [length_append] at hsize
  omega

section

variable {items : List Item} (hexact : ∀ i ∈ items, i.Exact)

include hexact

lemma payloadLength_eq : payloadLength items = (payload items).length := by
  unfold payloadLength payload
  rw [length_flatMap]
  exact congrArg sum (map_congr_left hexact)

lemma length_encodeList : listLength items = (encodeList items).length := by
  unfold listLength encodeList
  rw [length_append, Header.length_encode, payloadLength_eq hexact, add_comm]

/-- A list does not start like a byte string. -/
lemma exists_encodeList_eq_cons (hsize : (encodeList items).length < 2 ^ 64) :
    ∃ b bs, encodeList items = b :: bs ∧ 0xC0 ≤ b.toNat := by
  have hlt := length_payload_lt hsize
  have hle : (toBeBytesTrimmed (payload items).length).length ≤ 8 :=
    length_toBeBytesTrimmed_le_iff.mpr (by norm_num at hlt ⊢; omega)
  unfold encodeList Header.encode
  rw [payloadLength_eq hexact]
  simp only [if_true]
  split
  · refine ⟨_, _, rfl, ?_⟩
    rw [UInt8.toNat_ofNat', Nat.mod_eq_of_lt (by omega)]
    omega
  · refine ⟨_, _, rfl, ?_⟩
    rw [UInt8.toNat_ofNat', Nat.mod_eq_of_lt (by omega)]
    omega

/-- The payload of a list is read back. -/
lemma decodes_decodeBytes_list :
    Decodes (Header.decodeBytes true) (encodeList items) (payload items) := by
  unfold encodeList
  rw [payloadLength_eq hexact]
  exact Header.decodes_decodeBytes fun h => (by cases h)

end

lemma encodeList_ne_nil (items : List Item) : encodeList items ≠ [] := by
  unfold encodeList Header.encode
  split <;> simp

/-! ## Structures -/

/-- Read a structure: its fields have to take up the whole payload. -/
def decodeStruct (fields : Nat → Nat → Decoder α) : Decoder α := do
  let h ← Header.decode
  if !h.list then throw .unexpectedString
  else do
    let startedLen := (← get).length
    let this ← fields startedLen h.payloadLength
    let consumed := startedLen - (← get).length
    if consumed ≠ h.payloadLength then throw (.listLengthMismatch h.payloadLength consumed)
    else pure this

/-- Read an optional last field.  The empty byte string counts as missing. -/
def decodeTrailing [RlpDecodable α] (startedLen payloadLength : Nat) : Decoder (Option α) := do
  let b ← get
  if startedLen - b.length < payloadLength then
    if b.head? = some 0x80 then do
      set b.tail
      pure none
    else some <$> decode
  else pure none

/-- Read a list with `d`, which has to take up the whole payload. -/
def decodePayload (d : Decoder α) : Decoder α := do
  let payload ← Header.decodeBytes true
  let (result, payload) ← d payload
  if !payload.isEmpty then throw .unexpectedLength
  else pure result

lemma Decodes.run_bind (h : Decodes d bs a) (hsize : bs.length < 2 ^ 64)
    (k : α → Decoder β) (rest : Bytes) : (d >>= k) (bs ++ rest) = k a rest := by
  change (d (bs ++ rest) >>= fun p => k p.1 p.2 : Except Error _) = _
  rw [h hsize]
  rfl

/-- The value is written as a list, and read back. -/
structure RoundTripsList [RlpEncodable α] [RlpDecodable α] (a : α) : Prop extends RoundTrips a where
  isList : ∃ items, encode a = encodeList items ∧ ∀ i ∈ items, i.Exact

lemma roundTripsList_of_decodes [RlpEncodable α] [RlpDecodable α]
    (hencode : encode a = encodeList items) (hlength : RlpEncodable.length a = listLength items)
    (hexact : ∀ i ∈ items, i.Exact) (hdecodes : Decodes decode (encodeList items) a) :
    RoundTripsList a where
  length_eq := by rw [hlength, hencode, length_encodeList hexact]
  ne_nil := by
    rw [hencode]
    exact encodeList_ne_nil items
  decodes := by
    rw [hencode]
    exact hdecodes
  isList := ⟨items, hencode, hexact⟩

structure Fields (items : List Item) (d : Decoder α) (a : α) : Prop where
  exact : ∀ i ∈ items, i.Exact
  decodes : Decodes d (payload items) a

lemma Fields.nil (a : α) : Fields [] (pure a) a := ⟨by simp, decodes_pure a⟩

variable {k : β → Decoder α}

lemma Fields.cons [RlpEncodable β] [RlpDecodable β]
    (hb : RoundTrips b) (h : Fields items (k b) a) : Fields (item b :: items) (decode >>= k) a :=
  ⟨forall_mem_cons.mpr ⟨hb.exact, h.exact⟩, hb.decodes.bind h.decodes⟩

/-- The items of a payload are read by `d`, which may look at where the payload ends. -/
structure PayloadFields (items : List Item) (d : Decoder α) (a : α) : Prop where
  exact : ∀ i ∈ items, i.Exact
  run : (payload items).length < 2 ^ 64 → d (payload items) = .ok (a, [])

lemma PayloadFields.cons [RlpEncodable β] [RlpDecodable β]
    (hb : RoundTrips b) (h : PayloadFields items (k b) a) :
    PayloadFields (item b :: items) (decode >>= k) a := by
  refine ⟨forall_mem_cons.mpr ⟨hb.exact, h.exact⟩, fun hsize => ?_⟩
  change (encode b ++ payload items).length < 2 ^ 64 at hsize
  rw [length_append] at hsize
  change (decode >>= k) (encode b ++ payload items) = _
  rw [hb.decodes.run_bind (by omega)]
  exact h.run (by omega)

lemma PayloadFields.last [RlpEncodable β] [RlpDecodable β] {f : β → α} (hb : RoundTrips b) :
    PayloadFields [item b] (decode >>= fun b => pure (f b)) (f b) :=
  .cons hb ⟨by simp, fun _ => rfl⟩

/-- The fields `items`, which follow `before` bytes of the payload, are read by `d`. -/
structure TrailingFields (before : Nat) (items : List Item) (d : Nat → Nat → Decoder α) (a : α) :
    Prop where
  exact : ∀ i ∈ items, i.Exact
  run : before + (payload items).length < 2 ^ 64 → ∀ rest,
    d (before + (payload items).length + rest.length) (before + (payload items).length)
      (payload items ++ rest) = .ok (a, rest)

lemma TrailingFields.cons [RlpEncodable β] [RlpDecodable β] {before : Nat}
    {k : Nat → Nat → β → Decoder α} (hb : RoundTrips b)
    (h : TrailingFields (before + (encode b).length) items (fun s p => k s p b) a) :
    TrailingFields before (item b :: items) (fun s p => decode >>= k s p) a := by
  refine ⟨forall_mem_cons.mpr ⟨hb.exact, h.exact⟩, fun hsize rest => ?_⟩
  have hlength : (payload (item b :: items)).length = (encode b).length + (payload items).length :=
    length_append
  rw [hlength, ← add_assoc] at hsize ⊢
  change (decode >>= _ : Decoder α) (encode b ++ payload items ++ rest) = _
  rw [append_assoc, hb.decodes.run_bind (by omega)]
  exact h.run hsize rest

lemma TrailingFields.none [RlpDecodable β] (before : Nat) (f : Option β → α) :
    TrailingFields before [] (fun s p => decodeTrailing s p >>= fun o => pure (f o)) (f none) := by
  refine ⟨by simp, fun _ rest => ?_⟩
  have hread : (decodeTrailing (before + rest.length) before : Decoder (Option β)) rest =
      .ok (Option.none, rest) := by
    change (if before + rest.length - rest.length < before then _ else _ : Decoder (Option β)) rest
      = _
    rw [if_neg (by omega)]
    rfl
  change (decodeTrailing (before + rest.length) before rest >>= fun p => _ : Except Error _) = _
  rw [hread]
  rfl

/-- A field that is written as a list is not taken for a missing one. -/
lemma TrailingFields.some [RlpEncodable β] [RlpDecodable β] {before : Nat} {f : Option β → α}
    (hb : RoundTripsList b) :
    TrailingFields before [item b] (fun s p => decodeTrailing s p >>= fun o => pure (f o))
      (f (some b)) := by
  refine ⟨forall_mem_singleton.mpr hb.exact, fun hsize rest => ?_⟩
  have hpayload : payload [item b] = encode b := append_nil _
  rw [hpayload] at hsize ⊢
  have hpos : 0 < (encode b).length := length_pos_iff.mpr hb.ne_nil
  have hhead : (encode b ++ rest).head? ≠ Option.some 0x80 := by
    obtain ⟨items, hlist, hexact⟩ := hb.isList
    have hlt : (encodeList items).length < 2 ^ 64 := by
      rw [← hlist]
      omega
    obtain ⟨c, bs, hcons, hc⟩ := exists_encodeList_eq_cons hexact hlt
    rw [hlist, hcons]
    intro heq
    cases heq
    exact absurd hc (by decide)
  have hread : (decodeTrailing (before + (encode b).length + rest.length)
      (before + (encode b).length) : Decoder (Option β)) (encode b ++ rest) =
      .ok (Option.some b, rest) := by
    change (if before + (encode b).length + rest.length - (encode b ++ rest).length <
      before + (encode b).length then _ else _ : Decoder (Option β)) (encode b ++ rest) = _
    rw [if_pos (by rw [length_append]; omega), if_neg hhead]
    exact hb.decodes.map Option.some (by omega) rest
  change (decodeTrailing _ _ (encode b ++ rest) >>= fun p => _ : Except Error _) = _
  rw [hread]
  rfl

section

variable [RlpEncodable α] [RlpDecodable α] {items : List Item}

section

variable (hencode : encode a = encodeList items)
include hencode

/-- A structure is read back if its fields are. -/
theorem roundTripsList_of_trailing {fields : Nat → Nat → Decoder α}
    (hlength : RlpEncodable.length a = listLength items)
    (hdecode : (decode : Decoder α) = decodeStruct fields)
    (hfields : TrailingFields 0 items fields a) : RoundTripsList a := by
  refine roundTripsList_of_decodes hencode hlength hfields.exact ?_
  rw [hdecode]
  intro hsize rest
  have hlt := length_payload_lt hsize
  have hrun := hfields.run (by rwa [zero_add]) rest
  rw [zero_add] at hrun
  unfold encodeList
  rw [payloadLength_eq hfields.exact, append_assoc]
  change (Header.decode _ >>= fun p => _ : Except Error _) = _
  rw [Header.decode_encode hlt (fun h => (by cases h))]
  change (fields (payload items ++ rest).length (payload items).length (payload items ++ rest) >>=
    fun p => _ : Except Error _) = _
  rw [length_append, hrun]
  change (if (payload items).length + rest.length - rest.length ≠ (payload items).length then _
    else _ : Decoder α) rest = _
  rw [if_neg (by omega)]
  rfl

theorem roundTripsList_of_struct {fields : Decoder α}
    (hlength : RlpEncodable.length a = listLength items)
    (hdecode : (decode : Decoder α) = decodeStruct fun _ _ => fields)
    (hfields : Fields items fields a) : RoundTripsList a :=
  roundTripsList_of_trailing hencode hlength hdecode
    ⟨hfields.exact, fun hsize rest => hfields.decodes (by rwa [zero_add] at hsize) rest⟩

/-- A list is read back if its payload is. -/
theorem roundTripsList_of_payload (hlength : RlpEncodable.length a = (encode a).length)
    (hdecode : (decode : Decoder α) = decodePayload d) (hfields : PayloadFields items d a) :
    RoundTripsList a := by
  refine roundTripsList_of_decodes hencode ?_ hfields.exact ?_
  · rw [hlength, hencode, length_encodeList hfields.exact]
  rw [hdecode]
  intro hsize rest
  unfold decodePayload
  rw [(decodes_decodeBytes_list hfields.exact).run_bind hsize, hfields.run (length_payload_lt hsize)]
  rfl

end

end

/-! ## Limited lists -/

def decodeItems [RlpDecodable α] (capacity : Nat) (payload : Bytes) : Except Error (List α) :=
  match payload, capacity with
  | [], _ => .ok []
  | _ :: _, 0 => .error (.custom "list exceeds maximum length")
  | b :: bs, n + 1 =>
    match (decode : Decoder α) (b :: bs) with
    | .error e => .error e
    | .ok (a, rest) => (decodeItems n rest).map (a :: ·)

/-- A list with a maximum length, which is enforced when it is read. -/
structure LimitedVec (α : Type) (n : Nat) where
  list : List α
deriving DecidableEq

instance {n : Nat} [RlpEncodable α] : RlpEncodable (LimitedVec α n) :=
  .ofFields fun v => v.list.map item

instance {n : Nat} [RlpDecodable α] : RlpDecodable (LimitedVec α n) where
  decode := do
    let payload ← Header.decodeBytes true
    LimitedVec.mk <$> (decodeItems n payload : Except Error (List α))

lemma decodeItems_payload [RlpEncodable α] [RlpDecodable α] {l : List α} {capacity : Nat}
    (hlength : l.length ≤ capacity) (hl : ∀ a ∈ l, RoundTrips a)
    (hsize : (payload (l.map item)).length < 2 ^ 64) :
    decodeItems capacity (payload (l.map item)) = .ok l := by
  induction l generalizing capacity with
  | nil => cases capacity <;> rfl
  | cons a l ih =>
    obtain ⟨n, rfl⟩ : ∃ n, capacity = n + 1 := ⟨capacity - 1, by
      rw [length_cons] at hlength
      omega⟩
    have ha := hl a mem_cons_self
    change (encode a ++ payload (l.map item)).length < 2 ^ 64 at hsize
    rw [length_append] at hsize
    have hread := ha.decodes (by omega) (payload (l.map item))
    have hrest := ih (Nat.le_of_succ_le_succ hlength)
      (fun b hb => hl b (mem_cons_of_mem a hb)) (by omega)
    change decodeItems (n + 1) (encode a ++ payload (l.map item)) = _
    cases hbytes : encode a with
    | nil => exact absurd hbytes ha.ne_nil
    | cons b bs =>
      rw [hbytes] at hread
      rw [cons_append] at hread ⊢
      rw [decodeItems, hread]
      simp only [hrest]
      rfl

/-- Lists within the maximum are read back. -/
lemma roundTrips_limitedVec [RlpEncodable α] [RlpDecodable α] {v : LimitedVec α n}
    (hlength : v.list.length ≤ n) (hv : ∀ a ∈ v.list, RoundTrips a) : RoundTrips v := by
  have hexact : ∀ i ∈ v.list.map item, i.Exact := by
    intro i hi
    obtain ⟨a, ha, rfl⟩ := mem_map.mp hi
    exact (hv a ha).exact
  refine (roundTripsList_of_decodes rfl rfl hexact fun hsize rest => ?_).toRoundTrips
  change (Header.decodeBytes true >>= _ : Decoder (LimitedVec α n)) _ = _
  rw [(decodes_decodeBytes_list hexact).run_bind hsize,
    decodeItems_payload hlength hv (length_payload_lt hsize)]
  rfl

end Rlp
