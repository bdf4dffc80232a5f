import NorStore.Proofs.Whole
import NorStore.Settings.Basic

/-!
# Typed settings over a key-value store

Settings live in a backend that a client sees as a map from keys to stored bytes
(`Backend.KeyValue`): a read answers the key's bytes, or fails as not found, and changes no key;
a write that the backend accepts stores the bytes under the key. The laws ask nothing else of
the backend, so what follows holds of every store that behaves as a map on usable keys; a map
kept in memory is one (`inMemory_keyValue`), and so is a mounted store (`Mounted.keyValue`).
This module shows what the typed layer makes of such a map.

*Stored text.* A setting is stored as its text and one NUL. The text of a number or a bool holds
no NUL, so reading it back stops at the stored NUL and finds the text (`beforeNul_encode`).

*Whole numbers.* A whole-number setting of any width holds an integer (`Value.whole?`), and its
text reads as a setting of integer type `k` exactly when the integer lies in `k`'s range
(`Kind.ofWhole?`, `Kind.read_text`). A number written as one type therefore reads as a narrower
type when it fits, and as malformed when it does not; read as its own type, every setting other
than a float reads back as itself (`Kind.read_storedText`).

*Loading with a default.* `readOr` keeps a stored value that reads as the default's type, and
otherwise stores the default and answers it. Either way the key then holds a value that reads as
that type, so a second `readOr` of the same type answers the same and runs as a plain read
(`readOr_of_reads`), writing nothing (`Backend.KeyValue.readOr_settles`).

*Main statement.* `Backend.KeyValue.settings_laws` gathers the three laws.
-/

namespace NorStore.Settings

/-! ## Stored text -/

/-- The whole number an integer setting holds. -/
def Value.whole? : Value → Option Int
  | .u8 v => some v.toNat
  | .u32 v => some v.toNat
  | .u64 v => some v.toNat
  | .i32 v => some v.toInt
  | _ => none

/-- The setting of integer type `k` holding `z`, when `z` lies in the type's range. -/
def Kind.ofWhole? (k : Kind) (z : Int) : Option Value :=
  match k with
  | .u8 => if 0 ≤ z ∧ z.toNat < Nat.pow 2 8 then some (.u8 z.toNat.toUInt8) else none
  | .u32 => if 0 ≤ z ∧ z.toNat < Nat.pow 2 32 then some (.u32 z.toNat.toUInt32) else none
  | .u64 => if 0 ≤ z ∧ z.toNat < Nat.pow 2 64 then some (.u64 z.toNat.toUInt64) else none
  | .i32 =>
    if -(Nat.pow 2 31 : Int) ≤ z ∧ z < Nat.pow 2 31 then some (.i32 (Int32.ofInt z)) else none
  | _ => none

/-- The types that hold whole numbers. -/
def Kind.IsWhole (k : Kind) : Prop :=
  k = .u8 ∨ k = .u32 ∨ k = .u64 ∨ k = .i32

theorem storedText_of_whole? {x : Value} {z : Int} (hx : x.whole? = some z) :
    x.storedText = (toString z).toUTF8 := by
  cases x <;> simp only [Value.whole?, Option.some.injEq, reduceCtorEq] at hx <;> subst hx
  all_goals simp only [Value.storedText, Decimal.text_ofNat]

/-- The text of an integer reads as a setting of integer type `k` exactly when the integer lies
in `k`'s range. -/
theorem Kind.read_text {k : Kind} (hk : k.IsWhole) (z : Int) :
    k.read (toString z).toUTF8 = k.ofWhole? z := by
  rcases hk with rfl | rfl | rfl | rfl
  all_goals
    simp only [Kind.read, numberText_text, Option.bind_some, Decimal.readUnsigned_text,
      Decimal.readSigned_text, Kind.ofWhole?, show 32 - 1 = 31 from rfl]
    split <;> rfl

/-- An integer setting lies in the range of its own type. -/
theorem Kind.ofWhole?_kind {x : Value} {z : Int} (hx : x.whole? = some z) :
    x.kind.ofWhole? z = some x := by
  cases x <;> simp only [Value.whole?, Option.some.injEq, reduceCtorEq] at hx <;> subst hx
  case u8 v => simpa [Value.kind, Kind.ofWhole?] using v.toNat_lt
  case u32 v => simpa [Value.kind, Kind.ofWhole?] using v.toNat_lt
  case u64 v => simpa [Value.kind, Kind.ofWhole?] using v.toNat_lt
  case i32 v =>
    have hlo : -(Nat.pow 2 31 : Int) ≤ v.toInt := Int32.le_toInt v
    have hhi : v.toInt < (Nat.pow 2 31 : Int) := Int32.toInt_lt v
    simp only [Value.kind, Kind.ofWhole?, Int32.ofInt_toInt]
    rw [if_pos ⟨hlo, hhi⟩]

/-- The stored text of a setting other than a float holds no NUL, given that a string's does not. -/
theorem zero_not_mem_storedText {x : Value} (hk : x.kind ≠ .f32)
    (hnul : ∀ t, x = .text t → 0 ∉ t.toList) : 0 ∉ x.storedText.toList := by
  cases x with
  | text t => exact hnul t rfl
  | flag on => cases on <;> (rw [Value.storedText, toList_toUTF8]; decide)
  | u8 v => rw [storedText_of_whole? rfl]; exact zero_not_mem_text _
  | u32 v => rw [storedText_of_whole? rfl]; exact zero_not_mem_text _
  | u64 v => rw [storedText_of_whole? rfl]; exact zero_not_mem_text _
  | i32 v => rw [storedText_of_whole? rfl]; exact zero_not_mem_text _
  | f32 bits => exact absurd rfl hk

/-- Reading stored bytes stops at the NUL that ends the setting's text. -/
theorem beforeNul_encode {x : Value} (h : 0 ∉ x.storedText.toList) :
    beforeNul x.encode = x.storedText := by
  have hbytes : x.encode.toList = x.storedText.toList ++ [0] := by
    rw [Value.encode, ByteArray.toList_eq, ByteArray.push, Array.toList_push, ← ByteArray.toList_eq]
  have hpos : ∀ c ∈ x.storedText.toList, (c != 0) = true := by
    intro c hc
    simpa using fun h0 : c = 0 => h (h0 ▸ hc)
  rw [beforeNul, hbytes, List.takeWhile_append_of_pos hpos]
  simp only [List.takeWhile_cons, bne_self_eq_false, Bool.false_eq_true, if_false, List.append_nil]
  exact (ByteArray.eq_mk_of_toList rfl).symm

theorem encode_size_pos (x : Value) : 0 < x.encode.size := by
  simp [Value.encode]

/-- Every setting other than a float, a string holding no NUL, reads back as itself. -/
theorem Kind.read_storedText {x : Value} (hk : x.kind ≠ .f32)
    (hnul : ∀ t, x = .text t → 0 ∉ t.toList) : x.kind.read (beforeNul x.encode) = some x := by
  rw [beforeNul_encode (zero_not_mem_storedText hk hnul)]
  have hwhole : ∀ z, x.whole? = some z → x.kind.read x.storedText = some x := by
    intro z hz
    rw [storedText_of_whole? hz, Kind.read_text (by cases x <;> simp_all [Value.whole?,
      Value.kind, Kind.IsWhole]) z, Kind.ofWhole?_kind hz]
  have hone : ("1".toUTF8.toList == [49]) = true := by rw [toList_toUTF8]; rfl
  have hzero : ("0".toUTF8.toList == [49]) = false := by rw [toList_toUTF8]; rfl
  cases x with
  | text t => rfl
  | flag on =>
    cases on <;> simp only [Value.kind, Kind.read, Value.storedText, Bool.false_eq_true, if_true,
      if_false, hone, hzero]
  | u8 v => exact hwhole _ rfl
  | u32 v => exact hwhole _ rfl
  | u64 v => exact hwhole _ rfl
  | i32 v => exact hwhole _ rfl
  | f32 bits => exact absurd rfl hk

/-! ## Running the typed layer -/

section Run

variable {σ : Type} (b : Backend (ExceptT Fault (StateM σ)))

theorem run_discard_ok {ε α : Type} {x : ExceptT ε (StateM σ) α} {s s' : σ} {v : α}
    (h : x.run.run s = (.ok v, s')) : (discard x).run.run s = (.ok (), s') := by
  show ((fun _ => ()) <$> x).run.run s = _
  rw [ExceptT.run_map, StateT.run_map, h]
  rfl

theorem storedText_ok {key raw : ByteArray} {s s' : σ} (hg : (b.get key).run.run s = (.ok raw, s')) :
    (b.storedText key).run.run s = (.ok (beforeNul raw), s') := by
  simp only [Backend.storedText, bind_pure_comp, ExceptT.run_map, StateT.run_map, hg]
  rfl

theorem storedText_error {key : ByteArray} {s s' : σ} {f : Fault}
    (hg : (b.get key).run.run s = (.error f, s')) :
    (b.storedText key).run.run s = (.error f, s') := by
  simp only [Backend.storedText, bind_pure_comp, ExceptT.run_map, StateT.run_map, hg]
  rfl

theorem read_ok {key raw : ByteArray} {s s' : σ} (hg : (b.get key).run.run s = (.ok raw, s'))
    {k : Kind} {v : Value} (hk : k.read (beforeNul raw) = some v) :
    (b.read k key).run.run s = (.ok v, s') := by
  simp only [Backend.read, run_bind, storedText_ok b hg, hk]
  rfl

theorem read_malformed {key raw : ByteArray} {s s' : σ}
    (hg : (b.get key).run.run s = (.ok raw, s')) {k : Kind} (hk : k.read (beforeNul raw) = none) :
    (b.read k key).run.run s = (.error (.malformedSetting key (beforeNul raw)), s') := by
  simp only [Backend.read, run_bind, storedText_ok b hg, hk]
  rfl

theorem read_error {key : ByteArray} {s s' : σ} {f : Fault}
    (hg : (b.get key).run.run s = (.error f, s')) (k : Kind) :
    (b.read k key).run.run s = (.error f, s') := by
  simp only [Backend.read, run_bind, storedText_error b hg]

/-- A setting that is no string holding a NUL is stored by one write of its encoding. -/
theorem set_ok {key : ByteArray} {x : Value} (hnul : ∀ t, x = .text t → 0 ∉ t.toList) {s s' : σ}
    {n : Nat} (hw : (b.write key x.encode).run.run s = (.ok n, s')) :
    (b.set key x).run.run s = (.ok (), s') := by
  cases x with
  | text t =>
    have h0 : t.toList.contains 0 = false := by simpa using hnul t rfl
    simp only [Backend.set, h0]
    exact run_discard_ok hw
  | _ => exact run_discard_ok hw

theorem readOr_ok {key : ByteArray} {d v : Value} {s s' : σ}
    (hr : (b.read d.kind key).run.run s = (.ok v, s')) :
    (b.readOr key d).run.run s = (.ok v, s') := by
  unfold Backend.readOr
  exact run_tryCatch_ok hr

/-- A missing or malformed setting is replaced by the default. -/
theorem readOr_default {key : ByteArray} {d : Value} {f : Fault} {s s' s'' : σ}
    (hr : (b.read d.kind key).run.run s = (.error f, s'))
    (hf : (f.is .notFound || f.is .malformed) = true)
    (hs : (b.set key d).run.run s' = (.ok (), s'')) :
    (b.readOr key d).run.run s = (.ok d, s'') := by
  unfold Backend.readOr
  refine (run_tryCatch_error hr).trans ?_
  simp only [hf, if_true, run_bind, hs]
  rfl

end Run

/-! ## Backends that behave as maps -/

/-- A backend that a client sees, through `view`, as a map from usable keys to stored bytes: a
read answers the key's bytes or fails as not found, and changes no key; a write of bytes that
the backend accepts on the current content stores them under the key. -/
structure Backend.KeyValue {σ : Type} (b : Backend (ExceptT Fault (StateM σ)))
    (view : σ → ByteArray → Option ByteArray)
    (accepts : (ByteArray → Option ByteArray) → ByteArray → ByteArray → Prop) : Prop where
  get_some : ∀ {key v : ByteArray} (s : σ), (Entry.padKey? key).isSome → view s key = some v →
    ∃ s', (b.get key).run.run s = (.ok v, s') ∧ view s' = view s
  get_none : ∀ {key : ByteArray} (s : σ), (Entry.padKey? key).isSome → view s key = none →
    ∃ f s', (b.get key).run.run s = (.error f, s') ∧ f.is .notFound = true ∧ view s' = view s
  write_accepted : ∀ {key data : ByteArray} (s : σ), (Entry.padKey? key).isSome →
    0 < data.size → accepts (view s) key data →
    ∃ n s', (b.write key data).run.run s = (.ok n, s') ∧
      view s' = Function.update (view s) key (some data)

namespace Backend.KeyValue

variable {σ : Type} {b : Backend (ExceptT Fault (StateM σ))}
  {view : σ → ByteArray → Option ByteArray}
  {accepts : (ByteArray → Option ByteArray) → ByteArray → ByteArray → Prop}
  (hb : b.KeyValue view accepts) {key : ByteArray} (hkey : (Entry.padKey? key).isSome)
include hb hkey

/-- Storing a setting the backend accepts puts its encoding under the key. -/
theorem set {x : Value} (hnul : ∀ t, x = .text t → 0 ∉ t.toList) {s : σ}
    (hacc : accepts (view s) key x.encode) :
    ∃ s', (b.set key x).run.run s = (.ok (), s') ∧
      view s' = Function.update (view s) key (some x.encode) := by
  obtain ⟨n, s', hw, hv⟩ := hb.write_accepted s hkey (encode_size_pos x) hacc
  exact ⟨s', set_ok b hnul hw, hv⟩

/-- Right after a setting is stored, reading the key as type `k` reads its text as `k`. -/
theorem read_after_set {x : Value} (hnul : ∀ t, x = .text t → 0 ∉ t.toList) {s : σ}
    (hacc : accepts (view s) key x.encode) (k : Kind) :
    ∃ s₁, (b.set key x).run.run s = (.ok (), s₁) ∧ view s₁ key = some x.encode ∧
      ∃ s₂, (b.read k key).run.run s₁ =
        ((k.read (beforeNul x.encode)).elim (.error (.malformedSetting key (beforeNul x.encode)))
          .ok, s₂) := by
  obtain ⟨s₁, hset, hv⟩ := hb.set hkey hnul hacc
  have hstored : view s₁ key = some x.encode := by rw [hv, Function.update_self]
  obtain ⟨s₂, hg, -⟩ := hb.get_some s₁ hkey hstored
  refine ⟨s₁, hset, hstored, s₂, ?_⟩
  cases hk : k.read (beforeNul x.encode) with
  | some v => exact read_ok b hg hk
  | none => exact read_malformed b hg hk

/-- Every setting other than a float, a string holding no NUL, reads back as itself right after
it is stored. -/
theorem roundTrip {x : Value} (hk : x.kind ≠ .f32) (hnul : ∀ t, x = .text t → 0 ∉ t.toList)
    {s : σ} (hacc : accepts (view s) key x.encode) :
    ∃ s₁, (b.set key x).run.run s = (.ok (), s₁) ∧ ∃ s₂, (b.read x.kind key).run.run s₁ = (.ok x, s₂) := by
  obtain ⟨s₁, hset, -, s₂, hread⟩ := hb.read_after_set hkey hnul hacc x.kind
  rw [Kind.read_storedText hk hnul] at hread
  exact ⟨s₁, hset, s₂, hread⟩

/-- A whole number stored as one type reads as integer type `k` as the same number when it lies
in `k`'s range, and as malformed when it does not. -/
theorem read_whole {x : Value} {z : Int} (hx : x.whole? = some z) {s : σ}
    (hacc : accepts (view s) key x.encode) {k : Kind} (hk : k.IsWhole) :
    ∃ s₁, (b.set key x).run.run s = (.ok (), s₁) ∧ ∃ s₂,
      (∀ v, k.ofWhole? z = some v → (b.read k key).run.run s₁ = (.ok v, s₂)) ∧
      (k.ofWhole? z = none → ∃ f, (b.read k key).run.run s₁ = (.error f, s₂) ∧
        f.is .malformed = true) := by
  have hnul : ∀ t, x = .text t → 0 ∉ t.toList := by
    rintro t rfl
    simp [Value.whole?] at hx
  obtain ⟨s₁, hset, -, s₂, hread⟩ := hb.read_after_set hkey hnul hacc k
  have htext : k.read (beforeNul x.encode) = k.ofWhole? z := by
    rw [beforeNul_encode, storedText_of_whole? hx, Kind.read_text hk]
    rw [storedText_of_whole? hx]
    exact zero_not_mem_text z
  rw [htext] at hread
  refine ⟨s₁, hset, s₂, fun v hv => ?_, fun hv =>
    ⟨.malformedSetting key (beforeNul x.encode), ?_, by simp [Fault.is, Fault.kinds]⟩⟩
  · rw [hread, hv]
    rfl
  · rw [hread, hv]
    rfl

/-- Once the key holds bytes that read as type `k`, loading with any default of that type is a
plain read of them: it answers what they read as and changes no key. -/
theorem readOr_of_reads {s₁ : σ} {raw : ByteArray} (hraw : view s₁ key = some raw) {k : Kind}
    {v : Value} (hv : k.read (beforeNul raw) = some v) {d' : Value} (hd' : d'.kind = k) :
    (b.readOr key d').run.run s₁ = (b.read k key).run.run s₁ ∧
      ∃ s₂, (b.readOr key d').run.run s₁ = (.ok v, s₂) ∧ view s₂ = view s₁ := by
  obtain ⟨s₂, hg, hview⟩ := hb.get_some s₁ hkey hraw
  have hread : (b.read d'.kind key).run.run s₁ = (.ok v, s₂) := read_ok b hg (hd' ▸ hv)
  rw [readOr_ok b hread, ← hd', hread]
  exact ⟨rfl, s₂, rfl, hview⟩

/-- A key that is missing, or holds bytes that do not read as the default's type, takes the
default, which the backend accepts. -/
theorem readOr_replaces {d : Value} (hnul : ∀ t, d = .text t → 0 ∉ t.toList) {s s' : σ}
    (hacc : accepts (view s) key d.encode) {f : Fault}
    (hr : (b.read d.kind key).run.run s = (.error f, s'))
    (hf : (f.is .notFound || f.is .malformed) = true) (hview : view s' = view s) :
    ∃ s₁, (b.readOr key d).run.run s = (.ok d, s₁) ∧
      view s₁ = Function.update (view s) key (some d.encode) := by
  obtain ⟨s₁, hset, hv⟩ := hb.set hkey hnul (s := s') (hview ▸ hacc)
  exact ⟨s₁, readOr_default b hr hf hset, hview ▸ hv⟩

/-- Loading with a default settles the key. Let `stored` be what the key's bytes read as in the
default's type. `readOr` answers `stored` and changes no key when there is one; otherwise it
stores the default and answers it. A second `readOr` of the same type, with any default, then
runs as a plain read: it answers the same value and writes nothing. -/
theorem readOr_settles {d : Value} (hk : d.kind ≠ .f32) (hnul : ∀ t, d = .text t → 0 ∉ t.toList)
    {s : σ} (hacc : accepts (view s) key d.encode) :
    ∃ s₁, (b.readOr key d).run.run s =
        (.ok (((view s key).bind fun raw => d.kind.read (beforeNul raw)).getD d), s₁) ∧
      view s₁ = (if ((view s key).bind fun raw => d.kind.read (beforeNul raw)).isSome then view s
        else Function.update (view s) key (some d.encode)) ∧
      ∀ d' : Value, d'.kind = d.kind →
        (b.readOr key d').run.run s₁ = (b.read d.kind key).run.run s₁ ∧
        ∃ s₂, (b.readOr key d').run.run s₁ =
          (.ok (((view s key).bind fun raw => d.kind.read (beforeNul raw)).getD d), s₂) ∧
          view s₂ = view s₁ := by
  -- once the default is stored, it reads back as itself
  have hdefault : ∀ s₁, view s₁ = Function.update (view s) key (some d.encode) →
      ∀ d' : Value, d'.kind = d.kind →
      (b.readOr key d').run.run s₁ = (b.read d.kind key).run.run s₁ ∧
        ∃ s₂, (b.readOr key d').run.run s₁ = (.ok d, s₂) ∧ view s₂ = view s₁ :=
    fun s₁ hv _ hd' => hb.readOr_of_reads hkey (by rw [hv, Function.update_self])
      (Kind.read_storedText hk hnul) hd'
  rcases Option.eq_none_or_eq_some (view s key) with hraw | ⟨raw, hraw⟩
  · -- nothing stored
    obtain ⟨f, s', hg, hf, hview⟩ := hb.get_none s hkey hraw
    obtain ⟨s₁, hrun, hv⟩ :=
      hb.readOr_replaces hkey hnul hacc (read_error b hg d.kind) (by simp [hf]) hview
    simp only [hraw, Option.bind_none, Option.getD_none, Option.isSome_none, Bool.false_eq_true,
      if_false]
    exact ⟨s₁, hrun, hv, hdefault s₁ hv⟩
  · obtain ⟨s', hg, hview⟩ := hb.get_some s hkey hraw
    simp only [hraw, Option.bind_some]
    cases hv : d.kind.read (beforeNul raw) with
    | some v =>
      refine ⟨s', readOr_ok b (read_ok b hg hv), by simp only [Option.isSome_some, if_true, hview], ?_⟩
      exact fun d' hd' => hb.readOr_of_reads hkey (by rw [hview, hraw]) hv hd'
    | none =>
      -- bytes of another type read as malformed, which `readOr` replaces
      have hf : ((Fault.malformedSetting key (beforeNul raw)).is .notFound ||
          (Fault.malformedSetting key (beforeNul raw)).is .malformed) = true := by
        simp [Fault.is, Fault.kinds]
      obtain ⟨s₁, hrun, hv'⟩ := hb.readOr_replaces hkey hnul hacc (read_malformed b hg hv) hf hview
      exact ⟨s₁, hrun, by simpa using hv', hdefault s₁ hv'⟩

/-- The typed layer over a backend that behaves as a map, on a usable key and from any state:
a stored setting other than a float, a string holding no NUL, reads back as itself; a stored
whole number reads as any integer type as the same number when it lies in that type's range and
as malformed otherwise; and loading with a default answers the stored value when it reads as the
default's type, otherwise stores the default and answers it, after which a second load of that
type answers the same and runs as a plain read. -/
theorem settings_laws (s : σ) :
    (∀ x : Value, x.kind ≠ .f32 → (∀ t, x = .text t → 0 ∉ t.toList) →
      accepts (view s) key x.encode →
      ∃ s₁, (b.set key x).run.run s = (.ok (), s₁) ∧
        ∃ s₂, (b.read x.kind key).run.run s₁ = (.ok x, s₂)) ∧
    (∀ (x : Value) (z : Int) (k : Kind), x.whole? = some z → k.IsWhole →
      accepts (view s) key x.encode →
      ∃ s₁, (b.set key x).run.run s = (.ok (), s₁) ∧ ∃ s₂,
        (∀ v, k.ofWhole? z = some v → (b.read k key).run.run s₁ = (.ok v, s₂)) ∧
        (k.ofWhole? z = none → ∃ f, (b.read k key).run.run s₁ = (.error f, s₂) ∧
          f.is .malformed = true)) ∧
    (∀ d : Value, d.kind ≠ .f32 → (∀ t, d = .text t → 0 ∉ t.toList) →
      accepts (view s) key d.encode →
      ∃ s₁, (b.readOr key d).run.run s =
          (.ok (((view s key).bind fun raw => d.kind.read (beforeNul raw)).getD d), s₁) ∧
        view s₁ = (if ((view s key).bind fun raw => d.kind.read (beforeNul raw)).isSome then view s
          else Function.update (view s) key (some d.encode)) ∧
        ∀ d' : Value, d'.kind = d.kind →
          (b.readOr key d').run.run s₁ = (b.read d.kind key).run.run s₁ ∧
          ∃ s₂, (b.readOr key d').run.run s₁ =
            (.ok (((view s key).bind fun raw => d.kind.read (beforeNul raw)).getD d), s₂) ∧
            view s₂ = view s₁) :=
  ⟨fun _ hk hnul hacc => hb.roundTrip hkey hk hnul hacc,
    fun _ _ _ hx hk hacc => hb.read_whole hkey hx hacc hk,
    fun _ hk hnul hacc => hb.readOr_settles hkey hk hnul hacc⟩

end Backend.KeyValue

/-! ## A map in memory -/

/-- A backend that keeps its map in memory: a write of bytes stores them, of no bytes removes
the key; a read answers the key's bytes or fails as not found. -/
def inMemory : Backend (ExceptT Fault (StateM (ByteArray → Option ByteArray))) where
  write key data := do
    let m ← get
    set (Function.update m key (if data.size = 0 then none else some data))
    pure data.size
  get key := do
    let m ← get
    (m key).elim (throw (.store "get" key none "" (some (.kind .notFound)))) pure
  delete key := do
    let m ← get
    set (Function.update m key none)

/-- The map in memory is a key-value backend that accepts every write. -/
theorem inMemory_keyValue : inMemory.KeyValue id fun _ _ _ => True where
  get_some s _ hv := by
    refine ⟨s, ?_, rfl⟩
    simp only [inMemory, run_bind, run_monadGet]
    rw [show s _ = _ from hv]
    rfl
  get_none {key} s _ hv := by
    refine ⟨.store "get" key none "" (some (.kind .notFound)), s, ?_, by simp [Fault.is, Fault.kinds],
      rfl⟩
    simp only [inMemory, run_bind, run_monadGet]
    rw [show s _ = _ from hv]
    rfl
  write_accepted {key data} s _ hsize _ := by
    refine ⟨data.size, Function.update s key (if data.size = 0 then none else some data), ?_, ?_⟩
    · simp only [inMemory, run_bind, run_monadGet, run_set, run_pure]
    · simp [Nat.pos_iff_ne_zero.1 hsize]

end NorStore.Settings
