import NorStore.Proofs.Settings
import NorStore.Proofs.Codec
import NorStore.Identity.Record

/-!
# Provisioning the identity record

`provision` writes the identity record of a device once and answers the stored record. This
module shows what it does over every backend that a client sees as a map
(`Settings.Backend.KeyValue`) and that takes every write.

*Identifier text.* `load` and `provision` read and write the identifier through a `Uuid.Codec`,
and all they need of it is `Uuid.Codec.RoundTrip`: the text of an identifier parses back to it
and holds no NUL. The codec of the tools is one (`Uuid.roundTrip_codec`): each byte is written as
two digits that `byteAt` reads back (`Uuid.digitBytes_spec`), so the text parses back
(`Uuid.parse_render`) and holds no NUL (`Uuid.zero_not_mem_render`).

*The record over the stored bytes.* `load`, `fill` and `provision` are functions of the bytes the
backend shows: `recordOf`, `fillOf` and `provisionOf` compute their answers and the bytes they
leave, and running the programs gives the same (`load_run`, `fill_run`, `provision_run`).

*Fills.* A fill writes only its own key, and only into a field that holds no text
(`fillOf_frame`, `fillOf_of_nonempty`). `provision` fills the serial number and then the hardware
revision (`fillsOf`); the second can fail after the first has written (`fillsOf_error`).

*Provisioning.* On a provisioned device every call keeps the identifier, the time and every field
that holds text (`keeps_provisionOf`). A call that succeeds answers the record that the bytes
then read as, given a time that a clock gives and, on a device never provisioned, no text left
under a field that the call leaves alone (`recordOf_provisionOf`). A conflict changes nothing but
an empty serial number (`provisionOf_conflict`), and it does write one when the hardware revision
conflicts after it (`provisionOf_conflict_after_serial`). So a call is not all or nothing: the
identifier goes last, and a record without it reads as not provisioned, but what a failing call
wrote before it stays.

*Main statement.* `provision_write_once` states these over every sequence of calls
(`Provisions`), by induction over the calls from the one-call lemma `keeps_step`.
-/

/-! ## Identifier text -/

namespace NorStore.Uuid

/-- The two digits a byte is written with, as bytes. -/
def digitBytes (b : UInt8) : List UInt8 := (Hex.padded 2 b.toNat).toUTF8.toList

/-- The high digit of a byte, as a byte. -/
def hiDigit (b : UInt8) : UInt8 := (digitBytes b).getD 0 0

/-- The low digit of a byte, as a byte. -/
def loDigit (b : UInt8) : UInt8 := (digitBytes b).getD 1 0

/-- The byte that two digit bytes spell, as `byteAt` reads it. -/
def byteOfDigits (hi lo : UInt8) : Option UInt8 := do
  let h ← hexDigit hi
  let l ← hexDigit lo
  pure (h * 16 + l).toUInt8

/-- Every byte is written with two digits that read back as the byte. -/
theorem digitBytes_spec (b : UInt8) :
    (digitBytes b).length = 2 ∧ byteOfDigits (hiDigit b) (loDigit b) = some b := by
  revert b
  decide +kernel

theorem digitBytes_eq (b : UInt8) : digitBytes b = [hiDigit b, loDigit b] := by
  have h := (digitBytes_spec b).1
  unfold hiDigit loDigit
  match digitBytes b, h with
  | [x, y], _ => rfl

/-- A byte that is no digit spells no byte, in either place. -/
theorem ne_of_byteOfDigits {hi lo c b : UInt8} (h : byteOfDigits hi lo = some b)
    (hc : hexDigit c = none) : hi ≠ c ∧ lo ≠ c := by
  constructor <;> rintro rfl <;> simp [byteOfDigits, hc] at h

theorem zero_not_mem_digitBytes (b : UInt8) : 0 ∉ digitBytes b := by
  have hne := ne_of_byteOfDigits (digitBytes_spec b).2 (c := 0) (by decide)
  rw [digitBytes_eq]
  simp [hne.1.symm, hne.2.symm]

theorem byteAt_eq (s : ByteArray) (i : Nat) :
    byteAt s i = byteOfDigits (s[i]?.getD 0) (s[i + 1]?.getD 0) := rfl

theorem toList_toUTF8_append (s t : String) :
    (s ++ t).toUTF8.toList = s.toUTF8.toList ++ t.toUTF8.toList := by
  simp only [String.toUTF8_eq_toByteArray, String.toByteArray_append, ByteArray.toList_eq,
    ByteArray.data_append, Array.toList_append]

theorem toList_toUTF8_join (l : List String) :
    (String.join l).toUTF8.toList = l.flatMap fun s => s.toUTF8.toList := by
  induction l with
  | nil => simp
  | cons s l ih => rw [String.join_cons, toList_toUTF8_append, ih, List.flatMap_cons]

theorem toList_toUTF8_dash : "-".toUTF8.toList = [45] := by rw [Settings.toList_toUTF8]; rfl

/-- The text of an identifier parses back to it. -/
theorem parse_render (u : Uuid) : parse u.render.toUTF8 = .ok u := by
  obtain ⟨⟨⟨l⟩, hl⟩⟩ := u
  simp only [List.size_toArray] at hl
  -- with the sixteen bytes named, the text is a list of 36 known bytes
  match l, hl with
  | [b0, b1, b2, b3, b4, b5, b6, b7, b8, b9, b10, b11, b12, b13, b14, b15], _ =>
    set s := (render ⟨⟨⟨[b0, b1, b2, b3, b4, b5, b6, b7, b8, b9, b10, b11, b12, b13, b14,
      b15]⟩, by rfl⟩⟩).toUTF8 with hs
    have hL : s.toList =
        digitBytes b0 ++ digitBytes b1 ++ digitBytes b2 ++ digitBytes b3 ++ [45] ++
        digitBytes b4 ++ digitBytes b5 ++ [45] ++ digitBytes b6 ++ digitBytes b7 ++ [45] ++
        digitBytes b8 ++ digitBytes b9 ++ [45] ++ digitBytes b10 ++ digitBytes b11 ++
        digitBytes b12 ++ digitBytes b13 ++ digitBytes b14 ++ digitBytes b15 := by
      simp only [hs, render, toList_toUTF8_append, toList_toUTF8_join, toList_toUTF8_dash]
      simp [digitBytes]
    simp only [digitBytes_eq, List.cons_append, List.nil_append] at hL
    have hsize : s.size = 36 := by
      rw [← ByteArray.length_toList, hL]
      rfl
    have hget : ∀ j, s[j]? = _ := fun j =>
      (ByteArray.getElem?_toList s j).symm.trans (congrArg (·[j]?) hL)
    unfold parse
    rw [hsize]
    simp [parseDashed, bytesAt, dashedStarts, byteAt_eq, hget, (digitBytes_spec _).2]

/-- The text of an identifier holds no NUL. -/
theorem zero_not_mem_render (u : Uuid) : 0 ∉ u.render.toUTF8.toList := by
  -- every group is a slice of the digit pairs, and no digit pair holds a NUL
  have hgroup : ∀ a n, 0 ∉ (String.join (((u.bytes.toList.map fun b => Hex.padded 2 b.toNat).drop
      a).take n)).toUTF8.toList := by
    intro a n
    simp only [toList_toUTF8_join, List.mem_flatMap, not_exists, not_and]
    intro d hd
    obtain ⟨b, -, rfl⟩ := List.mem_map.1 (List.mem_of_mem_drop (List.mem_of_mem_take hd))
    exact zero_not_mem_digitBytes b
  simp only [render, toList_toUTF8_append, toList_toUTF8_dash, List.mem_append,
    List.mem_singleton, hgroup, or_false, show (0 : UInt8) ≠ 45 by decide, not_false_eq_true]

/-- What storing identifiers needs of a codec: the text of an identifier reads back as it, and
holds no NUL, which a stored string cannot. -/
structure Codec.RoundTrip (codec : Codec) : Prop where
  parse_render : ∀ u, codec.parse (codec.render u).toUTF8 = .ok u
  no_nul : ∀ u, 0 ∉ (codec.render u).toUTF8.toList

@[simp] theorem codec_parse : codec.parse = parse := rfl

@[simp] theorem codec_render : codec.render = render := rfl

theorem roundTrip_codec : codec.RoundTrip where
  parse_render u := by
    rw [codec_parse, codec_render]
    exact parse_render u
  no_nul u := by
    rw [codec_render]
    exact zero_not_mem_render u

end NorStore.Uuid

namespace NorStore.Identity

open Settings

/-! ## The record over the stored bytes -/

/-- What a client sees of a backend: the bytes stored under each key. -/
abbrev Contents := ByteArray → Option ByteArray

/-- The text under a key, empty when the key is missing. -/
def textOf (v : Contents) (key : ByteArray) : ByteArray :=
  ((v key).map beforeNul).getD .empty

/-- The provisioning time under its key, as `load` reads it. -/
def timeOf (v : Contents) : Except Fault (Option Int) :=
  match v provisionedKey with
  | none => .ok none
  | some raw =>
    match Kind.u64.read (beforeNul raw) with
    | some (.u64 x) => .ok (some (signedSeconds x))
    | some _ => .ok none
    | none => .error (.malformedSetting provisionedKey (beforeNul raw))

/-- The record `load` reads from the stored bytes. -/
def recordOf (codec : Uuid.Codec) (v : Contents) : Except Fault Record :=
  match v uuidKey with
  | none => .error (.kind .notProvisioned)
  | some raw =>
    match codec.parse (beforeNul raw) with
    | .error reason => .error (.badIdentifier (beforeNul raw) reason)
    | .ok uuid => (timeOf v).map fun provisionedAt =>
      { uuid, serial := textOf v serialKey, hardware := textOf v hardwareKey, provisionedAt }

/-- The four keys of the record are usable keys. -/
theorem identity_keys_usable :
    (Entry.padKey? uuidKey).isSome ∧ (Entry.padKey? serialKey).isSome ∧
      (Entry.padKey? hardwareKey).isSome ∧ (Entry.padKey? provisionedKey).isSome := by
  simp only [Entry.padKey?_isSome_iff, ← ByteArray.length_toList, uuidKey, serialKey, hardwareKey,
    provisionedKey, toList_toUTF8]
  decide

/-- The four keys of the record are distinct. -/
theorem identity_keys_distinct :
    uuidKey ≠ serialKey ∧ uuidKey ≠ hardwareKey ∧ uuidKey ≠ provisionedKey ∧
      serialKey ≠ hardwareKey ∧ serialKey ≠ provisionedKey ∧ hardwareKey ≠ provisionedKey := by
  -- distinct byte strings have distinct lists of bytes
  have hne : ∀ {a b : ByteArray}, a.toList ≠ b.toList → a ≠ b := fun h hab => h (hab ▸ rfl)
  refine ⟨hne ?_, hne ?_, hne ?_, hne ?_, hne ?_, hne ?_⟩ <;>
    simp only [uuidKey, serialKey, hardwareKey, provisionedKey, toList_toUTF8] <;> decide

theorem uuidKey_usable : (Entry.padKey? uuidKey).isSome := identity_keys_usable.1
theorem serialKey_usable : (Entry.padKey? serialKey).isSome := identity_keys_usable.2.1
theorem hardwareKey_usable : (Entry.padKey? hardwareKey).isSome := identity_keys_usable.2.2.1
theorem provisionedKey_usable : (Entry.padKey? provisionedKey).isSome :=
  identity_keys_usable.2.2.2

theorem uuidKey_ne_serialKey : uuidKey ≠ serialKey := identity_keys_distinct.1
theorem uuidKey_ne_hardwareKey : uuidKey ≠ hardwareKey := identity_keys_distinct.2.1
theorem provisionedKey_ne_uuidKey : provisionedKey ≠ uuidKey :=
  identity_keys_distinct.2.2.1.symm
theorem serialKey_ne_hardwareKey : serialKey ≠ hardwareKey := identity_keys_distinct.2.2.2.1
theorem provisionedKey_ne_serialKey : provisionedKey ≠ serialKey :=
  identity_keys_distinct.2.2.2.2.1.symm
theorem provisionedKey_ne_hardwareKey : provisionedKey ≠ hardwareKey :=
  identity_keys_distinct.2.2.2.2.2.symm

/-- A time that a signed 64-bit count of seconds holds, as every clock reading does. -/
def Fresh.Valid (fresh : Fresh) : Prop :=
  -(Nat.pow 2 63 : Int) ≤ fresh.now ∧ fresh.now < Nat.pow 2 63

/-- A time stored as its 64-bit two's complement reads back as itself. -/
theorem signedSeconds_ofInt {fresh : Fresh} (hvalid : fresh.Valid) :
    signedSeconds (UInt64.ofInt fresh.now) = fresh.now := by
  obtain ⟨hlo, hhi⟩ := hvalid
  have h : ((UInt64.ofInt fresh.now).toNat : Int) = fresh.now % 18446744073709551616 := by
    simp only [UInt64.ofInt, UInt64.toNat_ofNat']
    omega
  have h63 : (Nat.pow 2 63 : Int) = 9223372036854775808 := rfl
  have h64 : (Nat.pow 2 64 : Int) = 18446744073709551616 := rfl
  unfold signedSeconds
  split <;> omega

section Record

variable {codec : Uuid.Codec} {key : ByteArray} {v : Contents}

theorem textOf_congr {w : Contents} (h : w key = v key) : textOf w key = textOf v key := by
  unfold textOf
  rw [h]

theorem textOf_update_text {t : ByteArray} (ht : 0 ∉ t.toList) :
    textOf (Function.update v key (some (Value.text t).encode)) key = t := by
  simp only [textOf, Function.update_self, Option.map_some, Option.getD_some]
  exact beforeNul_encode (x := .text t) ht

/-- Bytes that agree on the identifier and the time read as the same record, with the serial
number and hardware revision they hold. -/
theorem recordOf_congr {w : Contents} (hu : w uuidKey = v uuidKey)
    (ht : w provisionedKey = v provisionedKey) :
    recordOf codec w = (recordOf codec v).map fun r =>
      { r with serial := textOf w serialKey, hardware := textOf w hardwareKey } := by
  have htime : timeOf w = timeOf v := by
    unfold timeOf
    rw [ht]
  unfold recordOf
  rw [hu, htime]
  rcases v uuidKey with _ | raw
  · rfl
  · dsimp only
    rcases codec.parse (beforeNul raw) with reason | u
    · rfl
    · rcases timeOf v with f | t <;> rfl

theorem recordOf_fields {r : Record} (hr : recordOf codec v = .ok r) :
    r.serial = textOf v serialKey ∧ r.hardware = textOf v hardwareKey := by
  have h := @recordOf_congr codec v v rfl rfl
  rw [hr] at h
  have h' : r = { r with serial := textOf v serialKey, hardware := textOf v hardwareKey } :=
    Except.ok.inj h
  exact ⟨congrArg Record.serial h', congrArg Record.hardware h'⟩

/-- A time that does not read fails as malformed. -/
theorem timeOf_error {f : Fault} (h : timeOf v = .error f) : f.is .notProvisioned = false := by
  unfold timeOf at h
  split at h
  · cases h
  · split at h <;> cases h
    simp [Fault.is, Fault.kinds]

/-- Only a missing identifier reads as not provisioned. -/
theorem uuidKey_of_notProvisioned {f : Fault} (h : recordOf codec v = .error f)
    (hf : f.is .notProvisioned = true) : v uuidKey = none := by
  unfold recordOf at h
  rcases hu : v uuidKey with _ | raw
  · rfl
  rw [hu] at h
  dsimp only at h
  rcases hp : codec.parse (beforeNul raw) with reason | u <;> rw [hp] at h
  · cases h
    simp [Fault.is, Fault.kinds] at hf
  · rcases ht : timeOf v with g | t <;> rw [ht] at h <;> cases h
    rw [timeOf_error ht] at hf
    cases hf

/-- Bytes holding an identifier's text and a time read as the record of both. -/
theorem recordOf_written (hcodec : codec.RoundTrip) {u : Uuid} {t : UInt64}
    (hu : v uuidKey = some (Value.text (codec.render u).toUTF8).encode)
    (ht : v provisionedKey = some (Value.u64 t).encode) :
    recordOf codec v = .ok
      { uuid := u, serial := textOf v serialKey, hardware := textOf v hardwareKey,
        provisionedAt := some (signedSeconds t) } := by
  have hraw : beforeNul (Value.text (codec.render u).toUTF8).encode = (codec.render u).toUTF8 :=
    beforeNul_encode (hcodec.no_nul u)
  have htime : Kind.u64.read (beforeNul (Value.u64 t).encode) = some (.u64 t) :=
    Kind.read_storedText (x := .u64 t) (by simp [Value.kind]) (fun _ h => Value.noConfusion h)
  simp only [recordOf, timeOf, hu, ht, hraw, hcodec.parse_render, htime]
  rfl

end Record

/-! ## Fills -/

/-- `fill` on the stored bytes: the field's text or the fault, and the bytes it leaves. -/
def fillOf (key : ByteArray) (field : String) (stored want : ByteArray) (v : Contents) :
    Except Fault ByteArray × Contents :=
  if want.isEmpty || want == stored then (.ok stored, v)
  else if !stored.isEmpty then (.error (.identityConflict field stored want), v)
  else if want.toList.contains 0 then (.error (.nulInString key), v)
  else (.ok want, Function.update v key (some (Value.text want).encode))

/-- The two fills `provision` makes from a start record: the record with the fields filled in,
or the fault, and the bytes they leave. -/
def fillsOf (start : Record) (serial hardware : ByteArray) (v : Contents) :
    Except Fault Record × Contents :=
  match fillOf serialKey "dev_info_serial" start.serial serial v with
  | (.error f, v₂) => (.error f, v₂)
  | (.ok serial, v₂) =>
    match fillOf hardwareKey "dev_info_hw_ver" start.hardware hardware v₂ with
    | (.error f, v₃) => (.error f, v₃)
    | (.ok hardware, v₃) => (.ok { start with serial, hardware }, v₃)

theorem eq_of_beq_bytes {a b : ByteArray} (h : (a == b) = true) : a = b :=
  ByteArray.ext (eq_of_beq (α := Array UInt8) h)

section Fill

variable {key : ByteArray} {field : String} {stored want : ByteArray} {v : Contents}

/-- A fill changes no other key. -/
theorem fillOf_frame {r : Except Fault ByteArray} {w : Contents} {k : ByteArray}
    (h : fillOf key field stored want v = (r, w)) (hk : k ≠ key) : w k = v k := by
  unfold fillOf at h
  split_ifs at h <;> cases h <;> simp [Function.update_of_ne hk]

/-- A fill never writes over a field that holds text. -/
theorem fillOf_of_nonempty {r : Except Fault ByteArray} {w : Contents}
    (h : fillOf key field stored want v = (r, w)) (hs : stored.isEmpty = false) : w = v := by
  unfold fillOf at h
  split_ifs at h <;> cases h <;> simp_all

/-- A fill that fails writes nothing. -/
theorem fillOf_error {f : Fault} {w : Contents}
    (h : fillOf key field stored want v = (.error f, w)) : w = v := by
  unfold fillOf at h
  split_ifs at h <;> cases h <;> rfl

/-- A fill that succeeds either keeps the bytes or writes the wish into an empty field. -/
theorem fillOf_ok {x : ByteArray} {w : Contents}
    (h : fillOf key field stored want v = (.ok x, w)) :
    w = v ∨ stored.isEmpty = true ∧ w = Function.update v key (some (Value.text want).encode) := by
  unfold fillOf at h
  split_ifs at h with h₁ h₂ <;> cases h
  · exact .inl rfl
  · exact .inr ⟨by simpa using h₂, rfl⟩

/-- A fill that succeeds leaves its answer under the key, provided that what it keeps is what is
stored. -/
theorem textOf_fillOf {x : ByteArray} {w : Contents}
    (h : fillOf key field stored want v = (.ok x, w))
    (hkeep : (want.isEmpty || want == stored) = true → textOf v key = stored) :
    textOf w key = x := by
  unfold fillOf at h
  split_ifs at h with h₁ h₂ h₃ <;> cases h
  · exact hkeep h₁
  · exact textOf_update_text (by simpa using h₃)

/-- Only a field that holds text conflicts. -/
theorem nonempty_of_fillOf_conflict {f : Fault} {w : Contents}
    (h : fillOf key field stored want v = (.error f, w)) (hf : f.is .conflict = true) :
    stored.isEmpty = false := by
  unfold fillOf at h
  split_ifs at h with h₁ h₂ h₃ <;> cases h
  · simpa using h₂
  · simp [Fault.is, Fault.kinds] at hf

end Fill

section Fills

-- the cases of `fillsOf`: the serial number fails, the hardware revision fails after it, or
-- both succeed
variable {codec : Uuid.Codec} {start : Record} {serial hardware : ByteArray} {v : Contents}

/-- The fills change no key but the serial number's and the hardware revision's. -/
theorem fillsOf_frame {k : ByteArray} (hs : k ≠ serialKey) (hh : k ≠ hardwareKey) :
    (fillsOf start serial hardware v).2 k = v k := by
  fun_cases fillsOf start serial hardware v
  case case1 f w hF => exact fillOf_frame hF hs
  case case2 x w hF f w' hG | case3 x w hF y w' hG =>
    exact (fillOf_frame hG hh).trans (fillOf_frame hF hs)

/-- A serial number that holds text survives the fills. -/
theorem fillsOf_serial (hs : start.serial.isEmpty = false) :
    (fillsOf start serial hardware v).2 serialKey = v serialKey := by
  fun_cases fillsOf start serial hardware v
  case case1 f w hF => rw [fillOf_of_nonempty hF hs]
  case case2 x w hF f w' hG | case3 x w hF y w' hG =>
    dsimp only
    rw [fillOf_frame hG serialKey_ne_hardwareKey, fillOf_of_nonempty hF hs]

/-- A hardware revision that holds text survives the fills. -/
theorem fillsOf_hardware (hh : start.hardware.isEmpty = false) :
    (fillsOf start serial hardware v).2 hardwareKey = v hardwareKey := by
  fun_cases fillsOf start serial hardware v
  case case1 f w hF => exact fillOf_frame hF serialKey_ne_hardwareKey.symm
  case case2 x w hF f w' hG | case3 x w hF y w' hG =>
    dsimp only
    rw [fillOf_of_nonempty hG hh, fillOf_frame hF serialKey_ne_hardwareKey.symm]

/-- Fills that succeed answer the start record with the texts they leave, provided that what
they keep is what is stored. -/
theorem fillsOf_ok {r : Record} {w : Contents} (h : fillsOf start serial hardware v = (.ok r, w))
    (hs : (serial.isEmpty || serial == start.serial) = true → textOf v serialKey = start.serial)
    (hh : (hardware.isEmpty || hardware == start.hardware) = true →
      textOf v hardwareKey = start.hardware) :
    r = { start with serial := textOf w serialKey, hardware := textOf w hardwareKey } := by
  revert h
  fun_cases fillsOf start serial hardware v
  case case1 | case2 => intro h; cases h
  case case3 x w₁ hF y w₂ hG =>
    intro h
    obtain ⟨⟨⟩, rfl⟩ := Prod.mk.inj h
    have hx : textOf w₁ serialKey = x := textOf_fillOf hF hs
    have hy : textOf w₂ hardwareKey = y := textOf_fillOf hG fun hk =>
      (textOf_congr (fillOf_frame hF serialKey_ne_hardwareKey.symm)).trans (hh hk)
    rw [textOf_congr (fillOf_frame hG serialKey_ne_hardwareKey), hx, hy]

/-- Fills that fail leave the bytes as they were, or the serial number written into an empty
field when the hardware revision fails after it. -/
theorem fillsOf_error {f : Fault} {w : Contents}
    (h : fillsOf start serial hardware v = (.error f, w)) :
    w = v ∨ start.serial.isEmpty = true ∧
      w = Function.update v serialKey (some (Value.text serial).encode) := by
  revert h
  fun_cases fillsOf start serial hardware v
  case case1 f' w₁ hF =>
    rintro ⟨⟩
    exact .inl (fillOf_error hF)
  case case2 x w₁ hF f' w₂ hG =>
    rintro ⟨⟩
    rw [fillOf_error hG]
    exact fillOf_ok hF
  case case3 => intro h; cases h

/-- Only fields that hold text conflict. -/
theorem fillsOf_conflict {f : Fault} {w : Contents}
    (h : fillsOf start serial hardware v = (.error f, w)) (hf : f.is .conflict = true) :
    start.serial.isEmpty = false ∨ start.hardware.isEmpty = false := by
  revert h
  fun_cases fillsOf start serial hardware v
  case case1 f' w₁ hF =>
    rintro ⟨⟩
    exact .inl (nonempty_of_fillOf_conflict hF hf)
  case case2 x w₁ hF f' w₂ hG =>
    rintro ⟨⟩
    exact .inr (nonempty_of_fillOf_conflict hG hf)
  case case3 => intro h; cases h

/-- From a stored record, the fills leave bytes that read as the record with the texts they
leave. -/
theorem recordOf_fillsOf (hr : recordOf codec v = .ok start) :
    recordOf codec (fillsOf start serial hardware v).2 = .ok
      { start with
        serial := textOf (fillsOf start serial hardware v).2 serialKey
        hardware := textOf (fillsOf start serial hardware v).2 hardwareKey } := by
  have hu : (fillsOf start serial hardware v).2 uuidKey = v uuidKey :=
    fillsOf_frame uuidKey_ne_serialKey uuidKey_ne_hardwareKey
  have ht : (fillsOf start serial hardware v).2 provisionedKey = v provisionedKey :=
    fillsOf_frame provisionedKey_ne_serialKey provisionedKey_ne_hardwareKey
  rw [recordOf_congr hu ht, hr]
  rfl

end Fills

/-! ## Provisioning -/

/-- The record a device that was never provisioned starts from. -/
def Fresh.start (fresh : Fresh) : Record :=
  { uuid := fresh.uuid, serial := .empty, hardware := .empty, provisionedAt := some fresh.now }

/-- The bytes with the fresh time stored, as a provisioning from scratch writes it first. -/
def Fresh.stamp (fresh : Fresh) (v : Contents) : Contents :=
  Function.update v provisionedKey (some (Value.u64 (UInt64.ofInt fresh.now)).encode)

/-- What `provision` finds: the stored record, none on a device never provisioned, or the fault
reading it fails with. -/
def foundOf (codec : Uuid.Codec) (v : Contents) : Except Fault (Option Record) :=
  match recordOf codec v with
  | .ok r => .ok (some r)
  | .error f => if f.is .notProvisioned then .ok none else .error f

/-- `provision` on the stored bytes: its answer and the bytes it leaves. -/
def provisionOf (codec : Uuid.Codec) (serial hardware : ByteArray) (fresh : Fresh) (v : Contents) :
    Except Fault Record × Contents :=
  match foundOf codec v with
  | .error f => (.error f, v)
  | .ok found =>
    match fillsOf (found.getD fresh.start) serial hardware
        (if found.isNone then fresh.stamp v else v) with
    | (.error f, v₃) => (.error f, v₃)
    | (.ok r, v₃) => (.ok r, if found.isNone then
        Function.update v₃ uuidKey (some (Value.text (codec.render fresh.uuid).toUTF8).encode)
      else v₃)

/-- What a later record keeps of an earlier one: its identifier and provisioning time, and a
serial number or hardware revision that holds text. -/
structure Record.Keeps (r r' : Record) : Prop where
  uuid : r'.uuid = r.uuid
  provisionedAt : r'.provisionedAt = r.provisionedAt
  serial : r.serial.isEmpty = false → r'.serial = r.serial
  hardware : r.hardware.isEmpty = false → r'.hardware = r.hardware

theorem Record.Keeps.refl (r : Record) : r.Keeps r :=
  ⟨rfl, rfl, fun _ => rfl, fun _ => rfl⟩

theorem Record.Keeps.trans {r₁ r₂ r₃ : Record} (h₁ : r₁.Keeps r₂) (h₂ : r₂.Keeps r₃) :
    r₁.Keeps r₃ where
  uuid := h₂.uuid.trans h₁.uuid
  provisionedAt := h₂.provisionedAt.trans h₁.provisionedAt
  serial hs := (h₂.serial (h₁.serial hs ▸ hs)).trans (h₁.serial hs)
  hardware hh := (h₂.hardware (h₁.hardware hh ▸ hh)).trans (h₁.hardware hh)

section Provision

variable {codec : Uuid.Codec} {serial hardware : ByteArray} {fresh : Fresh} {v : Contents}

/-- On a provisioned device, `provision` makes the two fills from the stored record. -/
theorem provisionOf_of_recordOf {r : Record} (hr : recordOf codec v = .ok r) :
    provisionOf codec serial hardware fresh v = fillsOf r serial hardware v := by
  simp only [provisionOf, foundOf, hr, Option.isNone_some, Option.getD_some, Bool.false_eq_true,
    if_false]
  rcases fillsOf r serial hardware v with ⟨f | r', w⟩ <;> rfl

/-- On a device never provisioned, `provision` stores the time, makes the two fills from the
fresh record and stores the identifier last. -/
theorem provisionOf_of_uuidKey (hu : v uuidKey = none) :
    provisionOf codec serial hardware fresh v =
      match fillsOf fresh.start serial hardware (fresh.stamp v) with
      | (.error f, w) => (.error f, w)
      | (.ok r, w) =>
        (.ok r, Function.update w uuidKey
          (some (Value.text (codec.render fresh.uuid).toUTF8).encode)) := by
  have hfound : foundOf codec v = .ok none := by
    simp [foundOf, recordOf, hu, Fault.is, Fault.kinds]
  simp only [provisionOf, hfound, Option.isNone_none, Option.getD_none, if_true]

/-- A record that does not read fails `provision` with the same fault, and nothing is written. -/
theorem provisionOf_of_error {f : Fault} (hr : recordOf codec v = .error f)
    (hf : f.is .notProvisioned = false) :
    provisionOf codec serial hardware fresh v = (.error f, v) := by
  simp only [provisionOf, foundOf, hr, hf, Bool.false_eq_true, if_false]

/-- A provisioning from scratch that succeeds leaves bytes that read as the fresh record, with
the time as stored and the texts the fills leave. -/
theorem recordOf_fresh (hcodec : codec.RoundTrip) {r : Record} {w : Contents}
    (hu : v uuidKey = none)
    (h : provisionOf codec serial hardware fresh v = (.ok r, w)) :
    ∃ w₁, fillsOf fresh.start serial hardware (fresh.stamp v) = (.ok r, w₁) ∧
      recordOf codec w = .ok
        { uuid := fresh.uuid, serial := textOf w₁ serialKey, hardware := textOf w₁ hardwareKey,
          provisionedAt := some (signedSeconds (UInt64.ofInt fresh.now)) } := by
  rw [provisionOf_of_uuidKey hu] at h
  rcases hF : fillsOf fresh.start serial hardware (fresh.stamp v) with ⟨f | r', w₁⟩ <;>
    rw [hF] at h <;> cases h
  refine ⟨w₁, rfl, ?_⟩
  have ht : w₁ provisionedKey = some (Value.u64 (UInt64.ofInt fresh.now)).encode := by
    have h : (fillsOf fresh.start serial hardware (fresh.stamp v)).2 provisionedKey =
        fresh.stamp v provisionedKey :=
      fillsOf_frame provisionedKey_ne_serialKey provisionedKey_ne_hardwareKey
    rw [hF] at h
    exact h.trans (Function.update_self ..)
  rw [recordOf_written hcodec (Function.update_self ..)
    (by rw [Function.update_of_ne provisionedKey_ne_uuidKey, ht]),
    textOf_congr (Function.update_of_ne uuidKey_ne_serialKey.symm _ _),
    textOf_congr (Function.update_of_ne uuidKey_ne_hardwareKey.symm _ _)]

/-- On a provisioned device every call keeps the record: its identifier and time, and each
field that holds text. -/
theorem keeps_provisionOf {r : Record} (hr : recordOf codec v = .ok r) :
    ∃ r', recordOf codec (provisionOf codec serial hardware fresh v).2 = .ok r' ∧ r.Keeps r' := by
  rw [provisionOf_of_recordOf hr, recordOf_fillsOf hr]
  obtain ⟨hs, hh⟩ := recordOf_fields hr
  refine ⟨_, rfl, ⟨rfl, rfl, fun hne => ?_, fun hne => ?_⟩⟩
  · exact (textOf_congr (fillsOf_serial hne)).trans hs.symm
  · exact (textOf_congr (fillsOf_hardware hne)).trans hh.symm

/-- After a call that succeeds the device is provisioned. -/
theorem recordOf_provisionOf_ok (hcodec : codec.RoundTrip) {r₁ : Record} {w : Contents}
    (h : provisionOf codec serial hardware fresh v = (.ok r₁, w)) :
    ∃ r', recordOf codec w = .ok r' := by
  rcases hr : recordOf codec v with f | r
  · by_cases hf : f.is .notProvisioned = true
    · obtain ⟨w₁, -, hw⟩ := recordOf_fresh hcodec (uuidKey_of_notProvisioned hr hf) h
      exact ⟨_, hw⟩
    · rw [provisionOf_of_error hr (by simpa using hf)] at h
      cases h
  · have hk : ∃ r', recordOf codec (provisionOf codec serial hardware fresh v).2 = .ok r' ∧
        r.Keeps r' :=
      keeps_provisionOf hr
    rw [h] at hk
    obtain ⟨r', hr', -⟩ := hk
    exact ⟨r', hr'⟩

/-- A call that succeeds answers the record that the bytes it leaves read as, given a time a
clock gives and, on a device never provisioned, no text left under a field it is not asked to
fill. -/
theorem recordOf_provisionOf (hcodec : codec.RoundTrip) {r₁ : Record} {w : Contents}
    (hvalid : fresh.Valid)
    (hclean : v uuidKey = none → (serial.isEmpty = true → textOf v serialKey = .empty) ∧
      (hardware.isEmpty = true → textOf v hardwareKey = .empty))
    (h : provisionOf codec serial hardware fresh v = (.ok r₁, w)) : recordOf codec w = .ok r₁ := by
  rcases hr : recordOf codec v with f | r
  · by_cases hf : f.is .notProvisioned = true
    · have hu := uuidKey_of_notProvisioned hr hf
      obtain ⟨w₁, hF, hw⟩ := recordOf_fresh hcodec hu h
      -- a fresh record holds no text, so a fill keeps it only for an empty wish, and then the
      -- bytes hold no text under the field either
      have hkeep : ∀ {key want : ByteArray}, key ≠ provisionedKey →
          (want.isEmpty = true → textOf v key = .empty) →
          (want.isEmpty || want == .empty) = true → textOf (fresh.stamp v) key = .empty := by
        intro key want hk hempty hw
        rw [Fresh.stamp, textOf_congr (Function.update_of_ne hk _ _)]
        refine hempty ?_
        rcases Bool.or_eq_true _ _ ▸ hw with hw | hw
        · exact hw
        · rw [eq_of_beq_bytes hw]
          rfl
      rw [fillsOf_ok hF (hkeep provisionedKey_ne_serialKey.symm (hclean hu).1)
        (hkeep provisionedKey_ne_hardwareKey.symm (hclean hu).2), hw, signedSeconds_ofInt hvalid]
      rfl
    · rw [provisionOf_of_error hr (by simpa using hf)] at h
      cases h
  · rw [provisionOf_of_recordOf hr] at h
    obtain ⟨hs, hh⟩ := recordOf_fields hr
    have hw := @recordOf_fillsOf codec r serial hardware v hr
    rw [h] at hw
    rw [fillsOf_ok h (fun _ => hs.symm) (fun _ => hh.symm)]
    exact hw

/-- A call that fails as a conflict changes nothing, except that on a provisioned device with an
empty serial number the conflict can come from the hardware revision after the serial number is
written. -/
theorem provisionOf_conflict {f : Fault} {w : Contents}
    (h : provisionOf codec serial hardware fresh v = (.error f, w)) (hf : f.is .conflict = true) :
    w = v ∨ ∃ r, recordOf codec v = .ok r ∧ r.serial.isEmpty = true ∧
      w = Function.update v serialKey (some (Value.text serial).encode) := by
  rcases hr : recordOf codec v with g | r
  · by_cases hg : g.is .notProvisioned = true
    · rw [provisionOf_of_uuidKey (uuidKey_of_notProvisioned hr hg)] at h
      rcases hF : fillsOf fresh.start serial hardware (fresh.stamp v) with ⟨f' | r', w₁⟩ <;>
        rw [hF] at h <;> cases h
      -- a fresh record holds no text, so nothing in it conflicts
      rcases fillsOf_conflict hF hf with h' | h' <;> cases h'
    · rw [provisionOf_of_error hr (by simpa using hg)] at h
      cases h
      exact .inl rfl
  · rw [provisionOf_of_recordOf hr] at h
    rcases fillsOf_error h with h' | ⟨hs, h'⟩
    · exact .inl h'
    · exact .inr ⟨r, rfl, hs, h'⟩

/-- A conflict on the hardware revision comes after the serial number is written: on a
provisioned device with no serial number, a call that asks for a serial number and for another
hardware revision than the stored one fails as a conflict and leaves the serial number written. -/
theorem provisionOf_conflict_after_serial {r : Record} (hr : recordOf codec v = .ok r)
    (hs : r.serial.isEmpty = true) (hser : serial.isEmpty = false) (hnul : 0 ∉ serial.toList)
    (hh : r.hardware.isEmpty = false) (hhw : hardware.isEmpty = false)
    (hne : (hardware == r.hardware) = false) :
    provisionOf codec serial hardware fresh v =
      (.error (.identityConflict "dev_info_hw_ver" r.hardware hardware),
        Function.update v serialKey (some (Value.text serial).encode)) := by
  have hbeq : (serial == r.serial) = false := by
    cases hb : serial == r.serial
    · rfl
    · rw [← eq_of_beq_bytes hb, hser] at hs
      cases hs
  rw [provisionOf_of_recordOf hr]
  simp [fillsOf, fillOf, hser, hbeq, hs, hnul, hh, hhw, hne]

end Provision

/-! ## Running over a backend -/

theorem run_tryCatchThe {ε σ α : Type} (x : ExceptT ε (StateM σ) α)
    (h : ε → ExceptT ε (StateM σ) α) (s : σ) :
    (tryCatchThe ε x h).run.run s = (match (x.run.run s).1 with
      | .ok a => (.ok a, (x.run.run s).2)
      | .error e => (h e).run.run (x.run.run s).2) := by
  rcases hx : x.run.run s with ⟨r, t⟩
  cases r with
  | ok a => exact run_tryCatch_ok hx
  | error e => exact run_tryCatch_error hx

section Run

variable {σ : Type} {codec : Uuid.Codec} {b : Backend (ExceptT Fault (StateM σ))}
  {view : σ → Contents}

/-- A string with a NUL is refused before anything is written. -/
theorem set_nul {key t : ByteArray} (ht : t.toList.contains 0 = true) (s : σ) :
    (b.set key (.text t)).run.run s = (.error (.nulInString key), s) := by
  simp only [Backend.set, ht, if_true, run_bind, run_throw]

variable (codec b) in
/-- One call of `provision`, with any arguments and any outcome. -/
def ProvisionStep (s s' : σ) : Prop :=
  ∃ serial hardware fresh, ((provision codec b serial hardware fresh).run.run s).2 = s'

variable (codec b) in
/-- The states that a sequence of calls of `provision` leads to. -/
abbrev Provisions : σ → σ → Prop := Relation.ReflTransGen (ProvisionStep codec b)

variable (hb : b.KeyValue view fun _ _ _ => True)
include hb

/-- Reading the text of a usable key answers the text before the NUL, or fails as not found
when the key is missing; either way no key changes. -/
theorem storedText_run {key : ByteArray} (hkey : (Entry.padKey? key).isSome) (s : σ) :
    ∃ f s', (b.storedText key).run.run s =
        ((view s key).elim (.error f) (.ok ∘ beforeNul), s') ∧
      f.is .notFound = true ∧ view s' = view s := by
  rcases Option.eq_none_or_eq_some (view s key) with hv | ⟨raw, hv⟩
  · obtain ⟨f, s', hg, hf, hview⟩ := hb.get_none s hkey hv
    exact ⟨f, s', by rw [storedText_error b hg, hv]; rfl, hf, hview⟩
  · obtain ⟨s', hg, hview⟩ := hb.get_some s hkey hv
    exact ⟨.kind .notFound, s', by rw [storedText_ok b hg, hv]; rfl,
      by simp [Fault.is, Fault.kinds], hview⟩

theorem optionalText_run {key : ByteArray} (hkey : (Entry.padKey? key).isSome) (s : σ) :
    ∃ s', (optionalText b key).run.run s = (.ok (textOf (view s) key), s') ∧
      view s' = view s := by
  obtain ⟨f, s', hrun, hf, hview⟩ := storedText_run hb hkey s
  refine ⟨s', ?_, hview⟩
  unfold optionalText textOf
  cases hv : view s key with
  | none =>
    rw [hv] at hrun
    refine (run_tryCatch_error hrun).trans ?_
    simp only [hf, if_true, run_pure]
    rfl
  | some raw =>
    rw [hv] at hrun
    exact run_tryCatch_ok hrun

/-- `load` reads the record from the stored bytes and changes no key. -/
theorem load_run (s : σ) :
    ∃ s', (load codec b).run.run s = (recordOf codec (view s), s') ∧ view s' = view s := by
  obtain ⟨f, s₁, hraw, hf, hv₁⟩ := storedText_run hb uuidKey_usable s
  unfold load recordOf
  dsimp only
  cases hu : view s uuidKey with
  | none =>
    rw [hu] at hraw
    have hcatch : (tryCatchThe Fault (b.storedText uuidKey) fun f =>
        if f.is .notFound then throw (Fault.kind .notProvisioned) else throw f).run.run s =
        (.error (.kind .notProvisioned), s₁) := by
      refine (run_tryCatch_error hraw).trans ?_
      simp only [hf, if_true, run_throw]
    exact ⟨s₁, run_bind_error hcatch, hv₁⟩
  | some raw =>
    rw [hu] at hraw
    have hcatch : (tryCatchThe Fault (b.storedText uuidKey) fun f =>
        if f.is .notFound then throw (Fault.kind .notProvisioned) else throw f).run.run s =
        (.ok (beforeNul raw), s₁) := run_tryCatch_ok hraw
    rw [run_bind_ok hcatch]
    cases hp : codec.parse (beforeNul raw) with
    | error reason =>
      exact ⟨s₁, by simp only [hp, run_bind, run_throw], hv₁⟩
    | ok u =>
      obtain ⟨s₂, hserial, hv₂⟩ := optionalText_run hb serialKey_usable s₁
      obtain ⟨s₃, hhardware, hv₃⟩ := optionalText_run hb hardwareKey_usable s₂
      have hview : view s₃ = view s := by rw [hv₃, hv₂, hv₁]
      simp only [hp, run_bind, run_pure, hserial, hhardware, hv₂, hv₁, run_tryCatchThe]
      -- the time: missing reads as unknown, text that is no number as malformed
      cases ht : view s provisionedKey with
      | none =>
        obtain ⟨f', s₄, hg, hf', hv₄⟩ := hb.get_none s₃ provisionedKey_usable (by rw [hview, ht])
        refine ⟨s₄, ?_, by rw [hv₄, hview]⟩
        simp only [read_error b hg, hf', if_true, run_pure, timeOf, ht]
        rfl
      | some raw' =>
        obtain ⟨s₄, hg, hv₄⟩ := hb.get_some s₃ provisionedKey_usable (by rw [hview, ht])
        refine ⟨s₄, ?_, by rw [hv₄, hview]⟩
        cases hk : Kind.u64.read (beforeNul raw') with
        | none =>
          have hnf : (Fault.malformedSetting provisionedKey (beforeNul raw')).is .notFound =
              false := by
            simp [Fault.is, Fault.kinds]
          simp only [read_malformed b hg hk, timeOf, ht, hk, hnf, Bool.false_eq_true, if_false,
            run_throw]
          rfl
        | some x =>
          simp only [read_ok b hg hk, timeOf, ht, hk]
          cases x <;> rfl

theorem load_fst (s : σ) : ((load codec b).run.run s).1 = recordOf codec (view s) := by
  obtain ⟨s', h, -⟩ := load_run hb s
  rw [h]

/-- `fill` runs as `fillOf` on the stored bytes. -/
theorem fill_run {key : ByteArray} (hkey : (Entry.padKey? key).isSome) (field : String)
    (stored want : ByteArray) (s : σ) :
    ∃ s', (fill b key field stored want).run.run s =
        ((fillOf key field stored want (view s)).1, s') ∧
      view s' = (fillOf key field stored want (view s)).2 := by
  unfold fill fillOf
  by_cases hkeep : (want.isEmpty || want == stored) = true
  · exact ⟨s, by simp only [hkeep, if_true, run_pure], by simp only [hkeep, if_true]⟩
  by_cases hconflict : (!stored.isEmpty) = true
  · exact ⟨s, by simp only [hkeep, hconflict, if_true, if_false, Bool.false_eq_true, run_throw],
      by simp only [hkeep, hconflict, if_true, if_false, Bool.false_eq_true]⟩
  by_cases hnul : want.toList.contains 0 = true
  · refine ⟨s, ?_, by simp only [hkeep, hconflict, hnul, if_true, if_false, Bool.false_eq_true]⟩
    simp only [hkeep, hconflict, hnul, if_true, if_false, Bool.false_eq_true]
    rw [run_bind_error (set_nul hnul s)]
  · obtain ⟨s', hset, hv⟩ := hb.set hkey (x := .text want) (by simpa using hnul) (s := s) trivial
    refine ⟨s', ?_, by simp only [hkeep, hconflict, hnul, if_false, Bool.false_eq_true, hv]⟩
    simp only [hkeep, hconflict, hnul, if_false, Bool.false_eq_true]
    rw [run_bind_ok hset]
    rfl

/-- `provision` runs as `provisionOf` on the stored bytes. -/
theorem provision_run (hcodec : codec.RoundTrip) (serial hardware : ByteArray) (fresh : Fresh)
    (s : σ) :
    ∃ s', (provision codec b serial hardware fresh).run.run s =
        ((provisionOf codec serial hardware fresh (view s)).1, s') ∧
      view s' = (provisionOf codec serial hardware fresh (view s)).2 := by
  obtain ⟨s₁, hload, hv₁⟩ := @load_run _ codec _ _ hb s
  have hfound : (tryCatchThe Fault (some <$> load codec b) fun f =>
      if f.is .notProvisioned then pure none else throw f).run.run s =
        (foundOf codec (view s), s₁) := by
    have hmap : (some <$> load codec b).run.run s = ((recordOf codec (view s)).map some, s₁) := by
      simp only [ExceptT.run_map, StateT.run_map, hload]
      rfl
    unfold foundOf
    cases hr : recordOf codec (view s) with
    | ok r =>
      rw [hr] at hmap
      exact run_tryCatch_ok hmap
    | error f =>
      rw [hr] at hmap
      refine (run_tryCatch_error hmap).trans ?_
      dsimp only
      cases f.is .notProvisioned <;> rfl
  unfold provision provisionOf fillsOf
  dsimp only
  rw [run_bind, hfound]
  -- the program writes the fills into each branch of `found`, so each branch runs them
  cases foundOf codec (view s) with
  | error f => exact ⟨s₁, rfl, hv₁⟩
  | ok found =>
    cases found with
    | some r =>
      obtain ⟨s₂, hf1, hv₂⟩ := fill_run hb serialKey_usable "dev_info_serial" r.serial serial s₁
      obtain ⟨s₃, hf2, hv₃⟩ :=
        fill_run hb hardwareKey_usable "dev_info_hw_ver" r.hardware hardware s₂
      simp only [run_bind, run_pure, hf1, hf2, hv₁, Option.getD_some, Option.isNone_some,
        Bool.false_eq_true, if_false]
      rw [hv₁] at hv₂
      generalize fillOf serialKey "dev_info_serial" r.serial serial (view s) = F₁ at hv₂ ⊢
      rcases F₁ with ⟨e | x, w⟩
      · exact ⟨s₂, rfl, hv₂⟩
      dsimp only at hv₂ ⊢
      rw [hv₂] at hv₃ ⊢
      generalize fillOf hardwareKey "dev_info_hw_ver" r.hardware hardware w = F₂ at hv₃ ⊢
      rcases F₂ with ⟨e | y, w'⟩
      · exact ⟨s₃, rfl, hv₃⟩
      · exact ⟨s₃, rfl, hv₃⟩
    | none =>
      obtain ⟨s₂, hset, hv₂⟩ := hb.set provisionedKey_usable (x := .u64 (UInt64.ofInt fresh.now))
        (fun _ h => Value.noConfusion h) (s := s₁) trivial
      obtain ⟨s₃, hf1, hv₃⟩ := fill_run hb serialKey_usable "dev_info_serial" .empty serial s₂
      obtain ⟨s₄, hf2, hv₄⟩ :=
        fill_run hb hardwareKey_usable "dev_info_hw_ver" .empty hardware s₃
      obtain ⟨s₅, hset', hv₅⟩ := hb.set uuidKey_usable (x := .text (codec.render fresh.uuid).toUTF8)
        (fun _ h => by cases h; exact hcodec.no_nul _) (s := s₄) trivial
      simp only [run_bind, run_pure, hset, hf1, hf2, hset', hv₁, hv₂, Option.getD_none,
        Option.isNone_none, if_true, Fresh.start, Fresh.stamp]
      rw [hv₂, hv₁] at hv₃
      generalize fillOf serialKey "dev_info_serial" .empty serial (Function.update (view s)
        provisionedKey (some (Value.u64 (UInt64.ofInt fresh.now)).encode)) = F₁ at hv₃ ⊢
      rcases F₁ with ⟨e | x, w⟩
      · exact ⟨s₃, rfl, hv₃⟩
      dsimp only at hv₃ ⊢
      rw [hv₃] at hv₄ ⊢
      generalize fillOf hardwareKey "dev_info_hw_ver" .empty hardware w = F₂ at hv₄ ⊢
      rcases F₂ with ⟨e | y, w'⟩
      · exact ⟨s₄, rfl, hv₄⟩
      · exact ⟨s₅, rfl, by rw [hv₅, hv₄]⟩

theorem provision_fst_view (hcodec : codec.RoundTrip) (serial hardware : ByteArray)
    (fresh : Fresh) (s : σ) :
    ((provision codec b serial hardware fresh).run.run s).1 =
        (provisionOf codec serial hardware fresh (view s)).1 ∧
      view ((provision codec b serial hardware fresh).run.run s).2 =
        (provisionOf codec serial hardware fresh (view s)).2 := by
  obtain ⟨s', hrun, hv⟩ := provision_run hb hcodec serial hardware fresh s
  rw [hrun]
  exact ⟨rfl, hv⟩

/-- One call of `provision` keeps a stored record. -/
theorem keeps_step (hcodec : codec.RoundTrip) {s s' : σ} {r : Record}
    (hr : ((load codec b).run.run s).1 = .ok r) (hstep : ProvisionStep codec b s s') :
    ∃ r', ((load codec b).run.run s').1 = .ok r' ∧ r.Keeps r' := by
  obtain ⟨serial, hardware, fresh, rfl⟩ := hstep
  obtain ⟨-, hv⟩ := provision_fst_view hb hcodec serial hardware fresh s
  rw [load_fst hb] at hr ⊢
  rw [hv]
  exact keeps_provisionOf hr

/-- Every sequence of calls of `provision` keeps a stored record. -/
theorem keeps_run (hcodec : codec.RoundTrip) {s s' : σ} {r : Record}
    (hr : ((load codec b).run.run s).1 = .ok r) (hrun : Provisions codec b s s') :
    ∃ r', ((load codec b).run.run s').1 = .ok r' ∧ r.Keeps r' := by
  induction hrun with
  | refl => exact ⟨r, hr, .refl r⟩
  | tail _ hstep ih =>
    obtain ⟨r₁, hr₁, hk₁⟩ := ih
    obtain ⟨r₂, hr₂, hk₂⟩ := keeps_step hb hcodec hr₁ hstep
    exact ⟨r₂, hr₂, hk₁.trans hk₂⟩

/-- Provisioning over a backend that behaves as a map, from any state and over every sequence of
calls. Once the device holds a record, every later call keeps its identifier and time and every
field that holds text. A call that succeeds leaves the device provisioned, and answers exactly
what `load` then reads, given a time a clock gives and, on a device never provisioned, no text
left under a field the call does not fill. A call that fails as a conflict changes nothing but
an empty serial number, which it fills with the requested one; and that happens whenever a
device without a serial number is asked for one and for another hardware revision. -/
theorem provision_write_once (hcodec : codec.RoundTrip) :
    (∀ (s s' : σ) (r : Record), ((load codec b).run.run s).1 = .ok r → Provisions codec b s s' →
      ∃ r', ((load codec b).run.run s').1 = .ok r' ∧ r.Keeps r') ∧
    (∀ serial hardware fresh (s : σ) r,
      ((provision codec b serial hardware fresh).run.run s).1 = .ok r →
      ∃ r', ((load codec b).run.run ((provision codec b serial hardware fresh).run.run s).2).1 =
        .ok r') ∧
    (∀ serial hardware fresh (s : σ) r, fresh.Valid →
      (view s uuidKey = none → (serial.isEmpty = true → textOf (view s) serialKey = .empty) ∧
        (hardware.isEmpty = true → textOf (view s) hardwareKey = .empty)) →
      ((provision codec b serial hardware fresh).run.run s).1 = .ok r →
      ((load codec b).run.run ((provision codec b serial hardware fresh).run.run s).2).1 = .ok r) ∧
    (∀ serial hardware fresh (s : σ) f,
      ((provision codec b serial hardware fresh).run.run s).1 = .error f → f.is .conflict = true →
      view ((provision codec b serial hardware fresh).run.run s).2 = view s ∨
        ∃ r, ((load codec b).run.run s).1 = .ok r ∧ r.serial.isEmpty = true ∧
          view ((provision codec b serial hardware fresh).run.run s).2 =
            Function.update (view s) serialKey (some (Value.text serial).encode)) ∧
    (∀ serial hardware fresh (s : σ) r, ((load codec b).run.run s).1 = .ok r →
      r.serial.isEmpty = true → serial.isEmpty = false → 0 ∉ serial.toList →
      r.hardware.isEmpty = false → hardware.isEmpty = false → (hardware == r.hardware) = false →
      ((provision codec b serial hardware fresh).run.run s).1 =
          .error (.identityConflict "dev_info_hw_ver" r.hardware hardware) ∧
        view ((provision codec b serial hardware fresh).run.run s).2 =
          Function.update (view s) serialKey (some (Value.text serial).encode)) := by
  refine ⟨fun s s' r hr hrun => keeps_run hb hcodec hr hrun, ?_, ?_, ?_, ?_⟩
  · intro serial hardware fresh s r hok
    obtain ⟨h₁, h₂⟩ := provision_fst_view hb hcodec serial hardware fresh s
    rw [h₁] at hok
    rw [load_fst hb, h₂]
    exact recordOf_provisionOf_ok hcodec (w := (provisionOf codec serial hardware fresh (view s)).2)
      (by rw [← hok])
  · intro serial hardware fresh s r hvalid hclean hok
    obtain ⟨h₁, h₂⟩ := provision_fst_view hb hcodec serial hardware fresh s
    rw [h₁] at hok
    rw [load_fst hb, h₂]
    exact recordOf_provisionOf hcodec hvalid hclean (by rw [← hok])
  · intro serial hardware fresh s f herr hf
    obtain ⟨h₁, h₂⟩ := provision_fst_view hb hcodec serial hardware fresh s
    rw [h₁] at herr
    rw [load_fst hb, h₂]
    exact provisionOf_conflict (by rw [← herr]) hf
  · intro serial hardware fresh s r hr hs hser hnul hh hhw hne
    obtain ⟨h₁, h₂⟩ := provision_fst_view hb hcodec serial hardware fresh s
    rw [load_fst hb] at hr
    rw [h₁, h₂, provisionOf_conflict_after_serial hr hs hser hnul hh hhw hne]
    exact ⟨rfl, rfl⟩

end Run

/-- The map in memory, read and written with the identifier text of the tools, keeps a stored
identity record over every sequence of calls. -/
theorem provision_write_once_inMemory :
    Uuid.codec.RoundTrip ∧ inMemory.KeyValue id (fun _ _ _ => True) ∧
      ∀ (s s' : Contents) (r : Record), ((load Uuid.codec inMemory).run.run s).1 = .ok r →
        Provisions Uuid.codec inMemory s s' →
          ∃ r', ((load Uuid.codec inMemory).run.run s').1 = .ok r' ∧ r.Keeps r' :=
  ⟨Uuid.roundTrip_codec, inMemory_keyValue,
    (provision_write_once inMemory_keyValue Uuid.roundTrip_codec).1⟩

end NorStore.Identity
