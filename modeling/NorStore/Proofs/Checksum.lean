import NorStore.Proofs.Codec

/-!
# Single-byte errors and the entry checksum

The checksum of a table entry is a CRC: each byte is folded into the register by exclusive or,
and the register is then shifted eight places through the polynomial `x^8 + x^2 + x + 1`.

*Table and polynomial.* The table of sixteen remainders holds four single-bit shifts of each
nibble, so a step of the table-driven `crc` is eight single-bit shifts of the register and the
byte (`step_eq_bitStep`), and the two definitions of the checksum agree on every input
(`crc_eq_bitwise`).

*Shifts lose nothing.* The polynomial has constant term one, so the low bit after a shift tells
whether the polynomial was subtracted, and with it the bit that fell off the top
(`unshiftBit_shiftBit`). A shift is therefore injective, and so is a step, both in the register
and in the byte (`step_injective_register`, `step_injective_byte`). Two registers that differ
after some byte differ after every byte that follows (`crc_injective_seed`), so a change to any
one byte of a list always changes its checksum (`crc_modify_ne`).

*Linearity.* The bit that falls off the top of a sum is the sum of the bits that fall off, so a
shift through the polynomial distributes over exclusive or (`shiftBit_xor`), and so does a step
in register and byte together (`step_xor`). The checksum is therefore affine in the data: the
checksum of two lists of one length added byte by byte is the first's checksum plus the second's
from a zero register (`crc_zipWith_xor`).

*Bit-serial register.* The CRC as hardware computes it takes one message bit per clock, each
byte's most significant bit first (`bitSerial`). Eight clocks from a register are eight shifts of
the register plus eight clocks from zero (`foldl_clock_xor`), and from zero they shift the byte
itself (`foldl_clock_msbFirst_zero`), so the table-driven checksum equals the bit-serial one on
every seed and every byte string (`crc_bitSerial_affine`).

*Entries.* A slot's checksum is valid when its byte 29 is the CRC of the 29 bytes before it
(`crcValid_decode`). Flipping any bits of one byte of a sealed entry's encoding flips them in
the body or in the stored checksum (`flipped_slot`), so the slot's checksum fails and it never
reads as a valid entry (`Entry.crcValid_flip`).

*The codec as a whole.* Encoding and decoding undo each other on entries and on the first 30
bytes of any slot, and the usable keys are exactly those whose padded field reads back as the
key and is not the close key (`Entry.codec_roundTrip`).
-/

namespace NorStore.Checksum

/-! ## Table and polynomial -/

set_option maxRecDepth 8000 in
/-- Two nibble shifts by the table are eight single-bit shifts through the polynomial. -/
theorem shiftNibble_twice (x : UInt8) : shiftNibble (shiftNibble x) = Nat.repeat shiftBit 8 x := by
  revert x
  decide

theorem step_eq_bitStep (v b : UInt8) : step v b = bitStep v b :=
  shiftNibble_twice (v ^^^ b)

/-- The table-driven checksum is the checksum the polynomial defines. -/
theorem crc_eq_bitwise (seed : UInt8) (data : List UInt8) : crc seed data = bitwise seed data := by
  unfold crc bitwise
  have hstep : step = bitStep := by
    funext v b
    exact step_eq_bitStep v b
  rw [hstep]

/-! ## Shifts lose nothing -/

/-- Undoes `shiftBit`: a low bit of one means the polynomial `0x07` was subtracted, so the bit
that fell off the top was set. -/
def unshiftBit (w : UInt8) : UInt8 :=
  if w &&& 1 == 0 then w >>> 1 else ((w ^^^ 0x07) >>> 1) ||| 0x80

set_option maxRecDepth 8000 in
theorem unshiftBit_shiftBit (v : UInt8) : unshiftBit (shiftBit v) = v := by
  revert v
  decide

theorem shiftBit_injective : Function.Injective shiftBit :=
  Function.LeftInverse.injective unshiftBit_shiftBit

theorem repeat_injective {f : UInt8 → UInt8} (hf : Function.Injective f) (n : Nat) :
    Function.Injective (Nat.repeat f n) := by
  induction n with
  | zero => exact fun _ _ h => h
  | succ n ih => exact fun _ _ h => ih (hf h)

theorem step_injective_register (b : UInt8) : Function.Injective fun v => step v b := by
  intro v w h
  simp only [step_eq_bitStep, bitStep] at h
  exact (UInt8.xor_left_inj b).1 (repeat_injective shiftBit_injective 8 h)

theorem step_injective_byte (v : UInt8) : Function.Injective (step v) := by
  intro a b h
  simp only [step_eq_bitStep, bitStep] at h
  exact (UInt8.xor_right_inj v).1 (repeat_injective shiftBit_injective 8 h)

/-- Flipping the bits of a nonzero mask changes a byte. -/
theorem xor_ne_self {m : UInt8} (hm : m ≠ 0) (b : UInt8) : b ^^^ m ≠ b :=
  fun h => hm ((UInt8.xor_right_inj b).1 (h.trans UInt8.xor_zero.symm))

/-- Registers that differ stay different through any bytes. -/
theorem crc_injective_seed (data : List UInt8) : Function.Injective fun seed => crc seed data := by
  induction data with
  | nil => exact fun _ _ h => h
  | cons b rest ih => exact fun _ _ h => step_injective_register b (ih h)

/-- Flipping the bits of a nonzero mask in one byte of a list changes its checksum. -/
theorem crc_modify_ne (seed : UInt8) {data : List UInt8} {i : Nat} (hi : i < data.length)
    {m : UInt8} (hm : m ≠ 0) : crc seed (data.modify i (· ^^^ m)) ≠ crc seed data := by
  induction data generalizing seed i with
  | nil => simp at hi
  | cons b rest ih =>
    cases i with
    | zero =>
      -- the flipped byte leaves a different register, which the rest keeps different
      rw [List.modify_zero_cons]
      exact fun h => xor_ne_self hm b (step_injective_byte seed (crc_injective_seed rest h))
    | succ i =>
      rw [List.modify_succ_cons]
      exact ih (step seed b) (by simpa using hi)

/-! ## Linearity -/

/-- The polynomial's low terms, subtracted when the top bit of `v` is set. -/
def topMask (v : UInt8) : UInt8 :=
  if v.toBitVec.getLsbD 7 then 0x07 else 0

set_option maxRecDepth 8000 in
theorem shiftBit_eq_topMask (v : UInt8) : shiftBit v = (v <<< 1) ^^^ topMask v := by
  revert v
  decide

theorem topMask_xor (x y : UInt8) : topMask (x ^^^ y) = topMask x ^^^ topMask y := by
  simp only [topMask, UInt8.toBitVec_xor, BitVec.getLsbD_xor]
  cases x.toBitVec.getLsbD 7 <;> cases y.toBitVec.getLsbD 7 <;> decide

/-- A shift through the polynomial distributes over exclusive or. -/
theorem shiftBit_xor (x y : UInt8) : shiftBit (x ^^^ y) = shiftBit x ^^^ shiftBit y := by
  rw [shiftBit_eq_topMask, shiftBit_eq_topMask, shiftBit_eq_topMask, topMask_xor,
    UInt8.shiftLeft_xor]
  ac_rfl

theorem repeat_shiftBit_xor (n : Nat) (x y : UInt8) :
    Nat.repeat shiftBit n (x ^^^ y) = Nat.repeat shiftBit n x ^^^ Nat.repeat shiftBit n y := by
  induction n with
  | zero => rfl
  | succ n ih => simp only [Nat.repeat, ih, shiftBit_xor]

theorem repeat_succ_apply {f : UInt8 → UInt8} (n : Nat) (x : UInt8) :
    Nat.repeat f n (f x) = Nat.repeat f (n + 1) x := by
  induction n with
  | zero => rfl
  | succ n ih => simp only [Nat.repeat, ih]

/-- A step adds registers and bytes: the step of two sums is the sum of the two steps. -/
theorem step_xor (v w a b : UInt8) : step (v ^^^ w) (a ^^^ b) = step v a ^^^ step w b := by
  simp only [step_eq_bitStep, bitStep]
  rw [← repeat_shiftBit_xor]
  congr 1
  ac_rfl

theorem crc_zipWith_xor (s t : UInt8) {a b : List UInt8} (hlen : a.length = b.length) :
    crc (s ^^^ t) (List.zipWith (· ^^^ ·) a b) = crc s a ^^^ crc t b := by
  induction a generalizing b s t with
  | nil =>
    rw [List.eq_nil_of_length_eq_zero hlen.symm]
    rfl
  | cons x a ih =>
    obtain ⟨y, b, rfl⟩ := List.exists_cons_of_length_eq_add_one hlen.symm
    simp only [List.zipWith_cons_cons, crc, List.foldl_cons] at ih ⊢
    rw [step_xor]
    exact ih _ _ (by simpa using hlen)

/-! ## The bit-serial register -/

/-- One clock of the CRC-8 shift register fed a message bit: the bit is added to the bit that
leaves the top, and when their sum is one the polynomial is subtracted from the shifted register. -/
def clock (v : UInt8) (bit : Bool) : UInt8 :=
  if (v >>> 7 == 1) != bit then (v <<< 1) ^^^ 0x07 else v <<< 1

/-- The bits of a byte, most significant first. -/
def msbFirst (b : UInt8) : List Bool :=
  (List.range 8).reverse.map b.toNat.testBit

/-- The CRC of `data` from register value `seed`, one message bit per clock, each byte's most
significant bit first. -/
def bitSerial (seed : UInt8) (data : List UInt8) : UInt8 :=
  (data.flatMap msbFirst).foldl clock seed

set_option maxRecDepth 8000 in
/-- A clock is a shift of the register with the message bit added at the top. -/
theorem clock_eq_shiftBit (v : UInt8) (bit : Bool) :
    clock v bit = shiftBit (v ^^^ if bit then 0x80 else 0) := by
  revert v
  cases bit <;> decide

theorem clock_xor (v w : UInt8) (bit : Bool) : clock (v ^^^ w) bit = shiftBit v ^^^ clock w bit := by
  rw [clock_eq_shiftBit, clock_eq_shiftBit, UInt8.xor_assoc, shiftBit_xor]

/-- Clocking a sum of registers through some bits shifts the first register once per bit and
clocks the second. -/
theorem foldl_clock_xor (bits : List Bool) (v w : UInt8) :
    bits.foldl clock (v ^^^ w) = Nat.repeat shiftBit bits.length v ^^^ bits.foldl clock w := by
  induction bits generalizing v w with
  | nil => rfl
  | cons bit bits ih =>
    simp only [List.foldl_cons, List.length_cons, clock_xor, ih, repeat_succ_apply]

set_option maxRecDepth 8000 in
/-- From a zero register, the eight bits of a byte shift the byte itself eight times. -/
theorem foldl_clock_msbFirst_zero (b : UInt8) :
    (msbFirst b).foldl clock 0 = Nat.repeat shiftBit 8 b := by
  revert b
  decide

/-- Eight clocks over a byte's bits are one step of the register by that byte. -/
theorem foldl_clock_msbFirst (v b : UInt8) : (msbFirst b).foldl clock v = bitStep v b := by
  have hlen : (msbFirst b).length = 8 := by simp [msbFirst]
  calc (msbFirst b).foldl clock v
      = (msbFirst b).foldl clock (v ^^^ 0) := by rw [UInt8.xor_zero]
    _ = Nat.repeat shiftBit 8 v ^^^ Nat.repeat shiftBit 8 b := by
        rw [foldl_clock_xor, hlen, foldl_clock_msbFirst_zero]
    _ = bitStep v b := by rw [bitStep, repeat_shiftBit_xor]

theorem crc_eq_bitSerial (seed : UInt8) (data : List UInt8) : crc seed data = bitSerial seed data := by
  induction data generalizing seed with
  | nil => rfl
  | cons b data ih =>
    simp only [bitSerial, List.flatMap_cons, List.foldl_append, foldl_clock_msbFirst] at ih ⊢
    rw [← ih, crc, List.foldl_cons, step_eq_bitStep]
    rfl

/-- The check value of CRC-8 with polynomial `0x07`: the nine digits `123456789` from a zero
register. -/
example : bitSerial 0 [0x31, 0x32, 0x33, 0x34, 0x35, 0x36, 0x37, 0x38, 0x39] = 0xF4 := by
  decide +kernel

/-- The table-driven checksum is the bit-serial CRC with polynomial `0x07`, most significant bit
first, with no reflection and no final exclusive or, from every seed over every byte string; and it
is affine in the data: for lists of one length, the checksum of their bytewise sum is the first's
checksum plus the second's from a zero register. -/
theorem crc_bitSerial_affine :
    (∀ (seed : UInt8) (data : List UInt8), crc seed data = bitSerial seed data) ∧
      ∀ (s : UInt8) (a b : List UInt8), a.length = b.length →
        crc s (List.zipWith (· ^^^ ·) a b) = crc s a ^^^ crc 0 b := by
  refine ⟨crc_eq_bitSerial, fun s a b hlen => ?_⟩
  have h := crc_zipWith_xor s 0 hlen
  rwa [UInt8.xor_zero] at h

/-- Two bytes added to two others, from the store's seed. -/
theorem crc_bitSerial_affine_pair :
    [0x12, 0x34].length = [0xAB, 0xCD].length ∧
      crc 0xFF (List.zipWith (· ^^^ ·) [0x12, 0x34] [0xAB, 0xCD]) =
        crc 0xFF [0x12, 0x34] ^^^ crc 0 [0xAB, 0xCD] :=
  ⟨rfl, crc_bitSerial_affine.2 0xFF [0x12, 0x34] [0xAB, 0xCD] rfl⟩

end NorStore.Checksum

namespace NorStore.Entry

/-! ## Entries -/

theorem le16_ofLe16 (lo hi : UInt8) : le16 (ofLe16 lo hi) = [lo, hi] := by
  have hlo : (ofLe16 lo hi).toUInt8 = lo := by
    apply UInt8.toNat_inj.1
    simp only [ofLe16, UInt16.toNat_toUInt8, UInt16.toNat_or, UInt16.toNat_shiftLeft,
      UInt8.toNat_toUInt16, show UInt16.toNat 8 % 16 = 8 from rfl]
    have := lo.toNat_lt
    have := hi.toNat_lt
    rw [Nat.or_mod_two_pow, Nat.mod_eq_of_lt (by omega : lo.toNat < 2 ^ 8)]
    rw [Nat.shiftLeft_eq, Nat.mod_mod_of_dvd _ (by decide : 2 ^ 8 ∣ 2 ^ 16),
      Nat.mul_mod_left, Nat.or_zero]
  have hhi : (ofLe16 lo hi >>> 8).toUInt8 = hi := by
    apply UInt8.toNat_inj.1
    simp only [ofLe16, UInt16.toNat_toUInt8, UInt16.toNat_shiftRight, UInt16.toNat_or,
      UInt16.toNat_shiftLeft, UInt8.toNat_toUInt16, show UInt16.toNat 8 % 16 = 8 from rfl]
    have := lo.toNat_lt
    have := hi.toNat_lt
    -- the low byte sits below the high one, so the `|||` is their sum
    rw [Nat.mod_eq_of_lt (by rw [Nat.shiftLeft_eq]; omega : hi.toNat <<< 8 < 2 ^ 16),
      Nat.or_comm, ← Nat.shiftLeft_add_eq_or_of_lt (by omega : lo.toNat < 2 ^ 8),
      Nat.shiftLeft_eq, Nat.shiftRight_eq_div_pow]
    omega
  rw [le16, hlo, hhi]

@[simp] theorem length_body (e : Entry) : e.body.length = 29 := by
  simp [body, le16]

/-- The key field of a decoded slot is the slot's first 24 bytes. -/
theorem key_decode {raw : ByteArray} (h : 24 ≤ raw.size) :
    (decode raw).key.toList = raw.toList.take 24 := by
  have hlen : 24 ≤ raw.toList.length := by rwa [ByteArray.length_toList]
  apply List.ext_getElem (by simp; omega)
  intro j h1 h2
  rw [List.getElem_take, ByteArray.getElem_toList]
  simp [decode]

/-- The bytes a decoded slot's checksum covers are the slot's first 29. -/
theorem body_decode {raw : ByteArray} (h : 29 ≤ raw.size) :
    (decode raw).body = raw.toList.take 29 := by
  have hlen : 29 ≤ raw.toList.length := by rwa [ByteArray.length_toList]
  -- past the key come offset, length and part, two, two and one byte
  have htail : raw.toList.drop 24 = raw.get! 24 :: raw.get! 25 :: raw.get! 26 :: raw.get! 27 ::
      raw.get! 28 :: raw.toList.drop 29 := by
    rw [List.drop_eq_getElem_cons (by omega), List.drop_eq_getElem_cons (by omega),
      List.drop_eq_getElem_cons (by omega), List.drop_eq_getElem_cons (by omega),
      List.drop_eq_getElem_cons (by omega)]
    simp only [ByteArray.getElem_toList]
  calc (decode raw).body
      = raw.toList.take 24 ++ [raw.get! 24, raw.get! 25, raw.get! 26, raw.get! 27, raw.get! 28] := by
        rw [body, key_decode (by omega)]
        simp [decode, le16_ofLe16]
    _ = raw.toList.take (24 + 5) := by rw [List.take_add, htail]; rfl

@[simp] theorem crc_decode (raw : ByteArray) : (decode raw).crc = raw.get! 29 := rfl

/-- A slot's checksum is valid when its byte 29 is the CRC of the 29 bytes before it. -/
theorem crcValid_decode {raw : ByteArray} (h : 29 ≤ raw.size) :
    (decode raw).crcValid = (raw.get! 29 == Checksum.crc 0xFF (raw.toList.take 29)) := by
  rw [crcValid, expectedCrc, body_decode h, crc_decode]

theorem encode_sealed (e : Entry) : e.sealed.encode = e.body ++ [Checksum.crc 0xFF e.body] := rfl

/-- The slot of a sealed entry with the bits of `m` flipped in byte `i`: its first 29 bytes are
the body so flipped, and byte 29 is the body's checksum, flipped when `i` is 29. -/
theorem flipped_slot (e : Entry) (i : Nat) (m : UInt8) (pad : List UInt8) :
    30 ≤ (⟨(e.sealed.encode.modify i (· ^^^ m) ++ pad).toArray⟩ : ByteArray).size ∧
      (⟨(e.sealed.encode.modify i (· ^^^ m) ++ pad).toArray⟩ : ByteArray).toList.take 29 =
        e.body.modify i (· ^^^ m) ∧
      (⟨(e.sealed.encode.modify i (· ^^^ m) ++ pad).toArray⟩ : ByteArray).get! 29 =
        if i = 29 then Checksum.crc 0xFF e.body ^^^ m else Checksum.crc 0xFF e.body := by
  set raw : ByteArray := ⟨(e.sealed.encode.modify i (· ^^^ m) ++ pad).toArray⟩
  set c := Checksum.crc 0xFF e.body
  have hbody := e.length_body
  have hraw : raw.toList = (e.body ++ [c]).modify i (· ^^^ m) ++ pad := by
    rw [← encode_sealed]
    exact ByteArray.toList_mk_toArray _
  have hwidth : ((e.body ++ [c]).modify i (· ^^^ m)).length = 30 := by
    rw [List.length_modify, List.length_append, hbody, List.length_singleton]
  have hlen : 30 ≤ raw.toList.length := by
    rw [hraw, List.length_append, hwidth]
    omega
  refine ⟨by rwa [← ByteArray.length_toList], ?_, ?_⟩
  · apply List.ext_getElem (by simp; omega)
    intro j h1 h2
    simp only [List.length_modify, hbody] at h2
    rw [List.getElem_take, List.getElem_of_eq hraw, List.getElem_append_left (by rw [hwidth]; omega),
      List.getElem_modify, List.getElem_modify, List.getElem_append_left (by omega)]
  · rw [← ByteArray.getElem_toList _ _ (by omega), List.getElem_of_eq hraw,
      List.getElem_append_left (by rw [hwidth]; omega), List.getElem_modify,
      List.getElem_append_right (by omega)]
    simp only [hbody, Nat.sub_self, List.getElem_cons_zero, eq_comm (a := i)]

/-- Flipping the bits of a nonzero mask in any one byte of a sealed entry's 30 bytes, whatever
padding follows, breaks its checksum: the slot never reads as a valid entry. -/
theorem crcValid_flip (e : Entry) {i : Nat} (hi : i < entryWidth) {m : UInt8} (hm : m ≠ 0)
    (pad : List UInt8) (ev : UInt8) :
    (decode ⟨(e.sealed.encode.modify i (· ^^^ m) ++ pad).toArray⟩).crcValid = false ∧
      ∀ e', Slot.classify ⟨(e.sealed.encode.modify i (· ^^^ m) ++ pad).toArray⟩ ev ≠ .valid e' := by
  obtain ⟨hlen, hcovered, hstored⟩ := flipped_slot e i m pad
  simp only [entryWidth] at hi
  have hinvalid : (decode ⟨(e.sealed.encode.modify i (· ^^^ m) ++ pad).toArray⟩).crcValid = false := by
    rw [crcValid_decode (by omega), hcovered, hstored, beq_eq_false_iff_ne]
    by_cases h29 : i = 29
    · -- the checksum byte flipped: the body is intact, the stored byte is not its CRC
      subst h29
      rw [if_pos rfl, List.modify_eq_self (by simp)]
      exact Checksum.xor_ne_self hm _
    · -- a body byte flipped: the stored checksum stays, the body's changes
      rw [if_neg h29]
      exact (Checksum.crc_modify_ne 0xFF (by rw [e.length_body]; omega) hm).symm
  refine ⟨hinvalid, fun e' => ?_⟩
  unfold Slot.classify
  split
  · exact Slot.noConfusion
  · simp [hinvalid]

/-- Flipping the low bit of the first key byte of the default entry, with no padding. -/
theorem crcValid_flip_first :
    0 < entryWidth ∧ (1 : UInt8) ≠ 0 ∧
      (decode ⟨((default : Entry).sealed.encode.modify 0 (· ^^^ 1) ++ []).toArray⟩).crcValid =
        false :=
  ⟨by decide, by decide, (crcValid_flip default (by decide) (by decide) [] 0xFF).1⟩

/-! ## The codec as a whole -/

/-- Encoding the entry decoded from a slot gives back the slot's first 30 bytes. -/
theorem encode_decode {raw : ByteArray} (h : entryWidth ≤ raw.size) :
    (decode raw).encode = raw.toList.take entryWidth := by
  have hlen : 29 < raw.toList.length := by
    rw [ByteArray.length_toList]
    exact h
  -- the body is the first 29 bytes and the checksum byte 29 follows it
  have hlast : raw.toList[29]?.toList = [raw.get! 29] := by
    rw [List.getElem?_eq_getElem hlen, ByteArray.getElem_toList]
    rfl
  rw [show entryWidth = 29 + 1 from rfl, List.take_add_one, hlast, encode,
    body_decode (by simp only [entryWidth] at h; omega), crc_decode]

/-- The entry codec read both ways, and the key fields it carries. Decoding the 30 bytes of an
entry gives the entry, and encoding the entry decoded from any slot of at least 30 bytes gives
the slot's first 30; a sealed entry's checksum is valid. A key is usable exactly when it has 1
to 24 bytes, none of them NUL, and is not 24 bytes of `0xFF`; then every entry holding its
field reads back the key and is no close entry, and two usable keys never share a field. -/
theorem codec_roundTrip :
    (∀ e : Entry, decode e.encode.toByteArray = e) ∧
    (∀ raw : ByteArray, entryWidth ≤ raw.size →
      (decode raw).encode = raw.toList.take entryWidth) ∧
    (∀ e : Entry, e.sealed.crcValid = true) ∧
    (∀ key : ByteArray, (padKey? key).isSome ↔ 0 < key.size ∧ key.size ≤ keyWidth ∧
      0 ∉ key.toList ∧ key.toList ≠ List.replicate keyWidth 0xFF) ∧
    (∀ (key : ByteArray) (k : Vector UInt8 24), padKey? key = some k →
      ∀ e : Entry, e.key = k → e.keyBytes = key ∧ e.key ≠ closeKey) ∧
    (∀ (a b : ByteArray) (ka kb : Vector UInt8 24), padKey? a = some ka → padKey? b = some kb →
      a ≠ b → ka ≠ kb) := by
  refine ⟨fun e => decode_of_toList (?_ : _ = e.encode ++ []), fun raw h => encode_decode h,
    crcValid_sealed, fun key => padKey?_isSome_iff,
    fun key k hk e he => ⟨keyBytes_of_padKey? hk he, ?_⟩,
    fun a b ka kb ha hb hab hk => hab (padKey?_inj ha (by rw [hk]; exact hb))⟩
  · rw [List.append_nil, ByteArray.toList_eq, List.data_toByteArray, List.toList_toArray]
  · rw [he]
    exact (padKey?_eq_some hk).2.1

/-- The key `cfg` is usable; an entry holding its field, sealed at offset `0x1234` with length
100, reads back `cfg`, is no close entry, and its 30 bytes decode to it. -/
theorem codec_roundTrip_cfg :
    padKey? ⟨#[99, 102, 103]⟩ =
        some #v[99, 102, 103, 0, 0, 0, 0, 0, 0, 0, 0, 0, 0, 0, 0, 0, 0, 0, 0, 0, 0, 0, 0, 0] ∧
      (ofKeyField #v[99, 102, 103, 0, 0, 0, 0, 0, 0, 0, 0, 0, 0, 0, 0, 0, 0, 0, 0, 0, 0, 0, 0, 0]
          0x1234 100).sealed.keyBytes = ⟨#[99, 102, 103]⟩ ∧
      (ofKeyField #v[99, 102, 103, 0, 0, 0, 0, 0, 0, 0, 0, 0, 0, 0, 0, 0, 0, 0, 0, 0, 0, 0, 0, 0]
          0x1234 100).sealed.key ≠ closeKey ∧
      decode (ofKeyField #v[99, 102, 103, 0, 0, 0, 0, 0, 0, 0, 0, 0, 0, 0, 0, 0, 0, 0, 0, 0, 0, 0,
          0, 0] 0x1234 100).sealed.encode.toByteArray =
        (ofKeyField #v[99, 102, 103, 0, 0, 0, 0, 0, 0, 0, 0, 0, 0, 0, 0, 0, 0, 0, 0, 0, 0, 0, 0, 0]
          0x1234 100).sealed := by
  have hk : padKey? ⟨#[99, 102, 103]⟩ =
      some #v[99, 102, 103, 0, 0, 0, 0, 0, 0, 0, 0, 0, 0, 0, 0, 0, 0, 0, 0, 0, 0, 0, 0, 0] := by
    decide +kernel
  obtain ⟨hback, hclose⟩ := codec_roundTrip.2.2.2.2.1 _ _ hk
    (ofKeyField #v[99, 102, 103, 0, 0, 0, 0, 0, 0, 0, 0, 0, 0, 0, 0, 0, 0, 0, 0, 0, 0, 0, 0, 0]
      0x1234 100).sealed rfl
  exact ⟨hk, hback, hclose, codec_roundTrip.1 _⟩

end NorStore.Entry
