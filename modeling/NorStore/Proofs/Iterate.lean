import NorStore.Proofs.Session

/-!
# Iterating over the live keys

An iterator walks the trail of the ring from the entry cursor and stops at the newest entry of
each key it has not met, unless that entry is a deletion. Along a list of slots this is a plain
function (`liveAlong`): the entries it stops at are exactly the first entries of their keys that
hold a value (`mem_liveAlong`), each key once (`nodup_liveAlong`).

One advance is `advanceAlong`: the walk with the steps it has left, which ends at the next such
entry, runs out of slots (`notFound`) or runs out of steps (a corrupt-table fault). On a part
that holds a ring, `advance` runs that function over the trail (`run_advance`).
-/

namespace NorStore

/-- The fault of a walk of the table that ran out of steps at `x`. -/
def walkFault (x : Address) : Fault :=
  .store "walk" ByteArray.empty (some x) "chain walk did not terminate" (some (.kind .corrupt))

/-- What an iterator reports for entry `en` at `x`. -/
def EntryInfo.of (en : Entry) (x : Address) : EntryInfo :=
  ⟨en.keyBytes, en.length.toNat, x⟩

/-- Advancing an iterator again and again from engine `e`: it stops at the entries `infos`, one
each call, and the call after the last of them fails with `f`. -/
inductive Drains : Engine → Iterator → List EntryInfo → Fault → Prop
  | stop {e e' : Engine} {it it' : Iterator} {f : Fault} :
      (StoreM.advance it).run.run e = (.ok (it', .error f), e') → Drains e it [] f
  | next {e e' : Engine} {it it' : Iterator} {i : EntryInfo} {infos : List EntryInfo}
      {f : Fault} :
      (StoreM.advance it).run.run e = (.ok (it', .ok ()), e') → it'.info = .ok i →
      Drains e' it' infos f → Drains e it (i :: infos) f

/-- The entries an iterator stops at along the slots `l`, having met the keys `seen`: the first
valid entry of each key not met, unless it is a deletion. -/
def liveAlong : List (Vector UInt8 24) → List (Slot × Address) → List (Entry × Address)
  | _, [] => []
  | seen, (.valid en, x) :: l =>
    if seen.contains en.key then liveAlong seen l
    else if en.length != 0 then (en, x) :: liveAlong (en.key :: seen) l
    else liveAlong (en.key :: seen) l
  | seen, _ :: l => liveAlong seen l

/-- One advance of an iterator along the slots `l` ahead of its walk, with `budget` steps left
and the keys `seen` met: the entry it stops at, the keys met by then and the slots after it; or
the fault it ends with. -/
def advanceAlong : Nat → List (Vector UInt8 24) → List (Slot × Address) →
    Except Fault (Entry × Address × List (Vector UInt8 24) × List (Slot × Address))
  | _, _, [] => .error (.kind .notFound)
  | 0, _, (_, x) :: _ => .error (walkFault x)
  | b + 1, seen, (.valid en, x) :: l =>
    if seen.contains en.key then advanceAlong b seen l
    else if en.length != 0 then .ok (en, x, en.key :: seen, l)
    else advanceAlong b (en.key :: seen) l
  | b + 1, seen, _ :: l => advanceAlong b seen l

/-! ## Along a list of slots -/

section Along

variable {seen : List (Vector UInt8 24)} {l : List (Slot × Address)}

/-- Where every key has been met, an iterator stops nowhere. -/
theorem liveAlong_of_seen (h : ∀ en x, (Slot.valid en, x) ∈ l → en.key ∈ seen) :
    liveAlong seen l = [] := by
  induction l with
  | nil => rfl
  | cons p l ih =>
    have ht : ∀ en x, (Slot.valid en, x) ∈ l → en.key ∈ seen :=
      fun en x hm => h en x (List.mem_cons_of_mem _ hm)
    rcases p with ⟨s, x⟩
    cases s with
    | erased => exact ih ht
    | invalid en => exact ih ht
    | valid en =>
      have hk : seen.contains en.key = true := by simpa using h en x List.mem_cons_self
      simp only [liveAlong, hk, if_true]
      exact ih ht

/-- An iterator stops at an entry exactly when it is the first valid entry of its key, that key
was not met before, and the entry holds a value. -/
theorem mem_liveAlong {en : Entry} {x : Address} :
    (en, x) ∈ liveAlong seen l ↔
      en.key ∉ seen ∧ firstEntry en.key l = some (en, x) ∧ en.length ≠ 0 := by
  induction l generalizing seen with
  | nil => simp [liveAlong, firstEntry]
  | cons p l ih =>
    rcases p with ⟨s, y⟩
    cases s with
    | erased => simpa [liveAlong, firstEntry] using ih
    | invalid e => simpa [liveAlong, firstEntry] using ih
    | valid e =>
      by_cases hs : e.key ∈ seen
      · -- a key met before: the slot is passed over
        have hc : seen.contains e.key = true := by simpa using hs
        simp only [liveAlong, hc, if_true, ih]
        by_cases hk : e.key = en.key
        · simp [← hk, hs]
        · simp [firstEntry, hk]
      have hc : seen.contains e.key = false := by simpa using hs
      by_cases hl : e.length = 0
      · -- a deletion: the iterator passes it, and has met its key
        have hb : (e.length != 0) = false := by simp [hl]
        simp only [liveAlong, hc, hb, Bool.false_eq_true, if_false, ih]
        by_cases hk : e.key = en.key
        · -- neither side holds: the key is met, and its first entry is this deletion
          constructor
          · rintro ⟨hn, -⟩
            exact absurd (hk ▸ List.mem_cons_self) hn
          · rintro ⟨-, heq, hlen⟩
            simp only [firstEntry, hk, if_true, Option.some.injEq, Prod.mk.injEq] at heq
            exact absurd (heq.1 ▸ hl) hlen
        · simp [firstEntry, hk, Ne.symm hk]
      · -- the newest entry of a key not met, holding a value: the iterator stops here
        have hb : (e.length != 0) = true := by simp [hl]
        simp only [liveAlong, hc, hb, Bool.false_eq_true, if_false, if_true, List.mem_cons, ih]
        by_cases hk : e.key = en.key
        · have hfirst : firstEntry en.key ((Slot.valid e, y) :: l) = some (e, y) := by
            simp [firstEntry, hk]
          rw [hfirst]
          constructor
          · rintro (heq | ⟨hn, -⟩)
            · obtain ⟨rfl, rfl⟩ := Prod.mk.inj heq
              exact ⟨hs, rfl, hl⟩
            · exact absurd (Or.inl hk.symm) hn
          · rintro ⟨-, heq, -⟩
            exact Or.inl (Option.some.inj heq).symm
        · have hne : (en, x) ≠ (e, y) := fun heq => hk (by rw [(Prod.mk.inj heq).1])
          simp [firstEntry, hk, Ne.symm hk, hne]

/-- An iterator stops at most once for each key. -/
theorem nodup_liveAlong : ((liveAlong seen l).map (·.1.key)).Nodup := by
  induction l generalizing seen with
  | nil => exact List.nodup_nil
  | cons p l ih =>
    rcases p with ⟨s, y⟩
    cases s with
    | erased => exact ih
    | invalid e => exact ih
    | valid e =>
      by_cases hs : seen.contains e.key = true
      · simp only [liveAlong, hs, if_true]
        exact ih
      by_cases hl : (e.length != 0) = true
      · -- a stop here, and every later stop is at a key other than this one
        simp only [liveAlong, hs, hl, Bool.false_eq_true, if_false, if_true, List.map_cons,
          List.nodup_cons]
        refine ⟨fun hmem => ?_, ih⟩
        obtain ⟨⟨en, x⟩, hm, hkey⟩ := List.mem_map.1 hmem
        exact (mem_liveAlong.1 hm).1 (hkey ▸ List.mem_cons_self)
      · simp only [liveAlong, hs, hl, Bool.false_eq_true, if_false]
        exact ih

/-- With the steps for the whole list, an advance along slots where the iterator stops nowhere
runs out of slots. -/
theorem advanceAlong_of_nil {b : Nat} (h : liveAlong seen l = []) (hb : l.length ≤ b) :
    advanceAlong b seen l = .error (.kind .notFound) := by
  induction l generalizing b seen with
  | nil => cases b <;> rfl
  | cons p l ih =>
    obtain ⟨b, rfl⟩ : ∃ b', b = b' + 1 := ⟨b - 1, by simp at hb; omega⟩
    have hb' : l.length ≤ b := by simp at hb; omega
    rcases p with ⟨s, y⟩
    cases s with
    | erased => exact ih h hb'
    | invalid e => exact ih h hb'
    | valid e =>
      by_cases hs : seen.contains e.key = true
      · simp only [liveAlong, hs, if_true] at h
        simp only [advanceAlong, hs, if_true]
        exact ih h hb'
      by_cases hl : (e.length != 0) = true
      · simp only [liveAlong, hs, hl, Bool.false_eq_true, if_false, if_true] at h
        exact absurd h (List.cons_ne_nil _ _)
      · simp only [liveAlong, hs, hl, Bool.false_eq_true, if_false] at h
        simp only [advanceAlong, hs, hl, Bool.false_eq_true, if_false]
        exact ih h hb'

/-- Short of the steps for the whole list, an advance along slots where the iterator stops
nowhere runs out of steps at the first slot it cannot visit. -/
theorem advanceAlong_of_nil_lt {b : Nat} (h : liveAlong seen l = []) (hb : b < l.length) :
    advanceAlong b seen l = .error (walkFault l[b].2) := by
  induction l generalizing b seen with
  | nil => simp at hb
  | cons p l ih =>
    rcases p with ⟨s, y⟩
    cases b with
    | zero => cases s <;> rfl
    | succ b =>
      have hb' : b < l.length := by simp at hb; omega
      rw [List.getElem_cons_succ]
      cases s with
      | erased => exact ih h hb'
      | invalid e => exact ih h hb'
      | valid e =>
        by_cases hs : seen.contains e.key = true
        · simp only [liveAlong, hs, if_true] at h
          simp only [advanceAlong, hs, if_true]
          exact ih h hb'
        by_cases hl : (e.length != 0) = true
        · simp only [liveAlong, hs, hl, Bool.false_eq_true, if_false, if_true] at h
          exact absurd h (List.cons_ne_nil _ _)
        · simp only [liveAlong, hs, hl, Bool.false_eq_true, if_false] at h
          simp only [advanceAlong, hs, hl, Bool.false_eq_true, if_false]
          exact ih h hb'

/-- With the steps for the whole list, an advance stops where the iterator stops first. It has
then met, besides the keys it had met, the key of every valid entry up to that stop. -/
theorem advanceAlong_of_cons {b : Nat} {y : Entry × Address} {ys : List (Entry × Address)}
    (h : liveAlong seen l = y :: ys) (hb : l.length ≤ b) :
    ∃ pre seen' rest, l = pre ++ rest ∧ rest.length < l.length ∧
      advanceAlong b seen l = .ok (y.1, y.2, seen', rest) ∧ liveAlong seen' rest = ys ∧
      (∀ k ∈ seen, k ∈ seen') ∧ ∀ en x, (Slot.valid en, x) ∈ pre → en.key ∈ seen' := by
  induction l generalizing b seen with
  | nil => simp [liveAlong] at h
  | cons p l ih =>
    obtain ⟨b, rfl⟩ : ∃ b', b = b' + 1 := ⟨b - 1, by simp at hb; omega⟩
    have hb' : l.length ≤ b := by simp at hb; omega
    -- passing a slot that meets no new key: the stop is further on
    have pass : ∀ seen₀, (∀ k ∈ seen, k ∈ seen₀) → liveAlong seen₀ l = y :: ys →
        advanceAlong (b + 1) seen (p :: l) = advanceAlong b seen₀ l →
        (∀ en x, p = (Slot.valid en, x) → en.key ∈ seen₀) →
        ∃ pre seen' rest, p :: l = pre ++ rest ∧ rest.length < (p :: l).length ∧
          advanceAlong (b + 1) seen (p :: l) = .ok (y.1, y.2, seen', rest) ∧
          liveAlong seen' rest = ys ∧ (∀ k ∈ seen, k ∈ seen') ∧
          ∀ en x, (Slot.valid en, x) ∈ pre → en.key ∈ seen' := by
      intro seen₀ hsub hlive hadv hp
      obtain ⟨pre, seen', rest, hl, hlen, hadv', hlive', hsub', hcov⟩ := ih hlive hb'
      refine ⟨p :: pre, seen', rest, by rw [hl, List.cons_append], by simp; omega,
        hadv.trans hadv', hlive', fun k hk => hsub' k (hsub k hk), ?_⟩
      intro en x hm
      rcases List.mem_cons.1 hm with heq | hm
      · exact hsub' _ (hp en x heq.symm)
      · exact hcov en x hm
    rcases p with ⟨s, x⟩
    cases s with
    | erased => exact pass seen (fun _ hk => hk) h rfl (fun _ _ heq => by cases heq)
    | invalid e => exact pass seen (fun _ hk => hk) h rfl (fun _ _ heq => by cases heq)
    | valid e =>
      by_cases hs : seen.contains e.key = true
      · simp only [liveAlong, hs, if_true] at h
        refine pass seen (fun _ hk => hk) h (by simp only [advanceAlong, hs, if_true]) ?_
        rintro en x' ⟨⟩
        simpa using hs
      by_cases hl : (e.length != 0) = true
      · -- the iterator stops here
        simp only [liveAlong, hs, hl, Bool.false_eq_true, if_false, if_true,
          List.cons.injEq] at h
        obtain ⟨rfl, rfl⟩ := h
        refine ⟨[(Slot.valid e, x)], e.key :: seen, l, rfl, by simp, ?_, rfl,
          fun k hk => List.mem_cons_of_mem _ hk, ?_⟩
        · simp only [advanceAlong, hs, hl, Bool.false_eq_true, if_false, if_true]
        · rintro en x' hm
          simp only [List.mem_singleton, Prod.mk.injEq, Slot.valid.injEq] at hm
          rw [← hm.1]
          exact List.mem_cons_self
      · simp only [liveAlong, hs, hl, Bool.false_eq_true, if_false] at h
        refine pass (e.key :: seen) (fun _ hk => List.mem_cons_of_mem _ hk) h
          (by simp only [advanceAlong, hs, hl, Bool.false_eq_true, if_false]) ?_
        rintro en x' ⟨⟩
        exact List.mem_cons_self

/-- A stop leaves fewer slots ahead than there were. -/
theorem length_lt_of_advanceAlong {b : Nat} {en : Entry} {x : Address}
    {seen' : List (Vector UInt8 24)} {rest : List (Slot × Address)}
    (h : advanceAlong b seen l = .ok (en, x, seen', rest)) : rest.length < l.length := by
  induction l generalizing b seen with
  | nil => cases b <;> cases h
  | cons p l ih =>
    rcases p with ⟨s, y⟩
    cases b with
    | zero => cases s <;> cases h
    | succ b =>
      have step : ∀ seen₀, advanceAlong b seen₀ l = .ok (en, x, seen', rest) →
          rest.length < ((s, y) :: l).length := fun seen₀ h' => by
        have := ih h'
        simp only [List.length_cons]
        omega
      cases s with
      | erased => exact step seen h
      | invalid e => exact step seen h
      | valid e =>
        by_cases hs : seen.contains e.key = true
        · simp only [advanceAlong, hs, if_true] at h
          exact step seen h
        by_cases hl : (e.length != 0) = true
        · simp only [advanceAlong, hs, hl, Bool.false_eq_true, if_false, if_true,
            Except.ok.injEq, Prod.mk.injEq] at h
          rw [← h.2.2.2]
          simp
        · simp only [advanceAlong, hs, hl, Bool.false_eq_true, if_false] at h
          exact step _ h

theorem length_liveAlong_le : (liveAlong seen l).length ≤ l.length := by
  induction l generalizing seen with
  | nil => exact Nat.le_refl _
  | cons p l ih =>
    rcases p with ⟨s, y⟩
    have ih' := @ih
    cases s with
    | erased => exact Nat.le_succ_of_le ih
    | invalid e => exact Nat.le_succ_of_le ih
    | valid e =>
      simp only [liveAlong]
      split
      · exact Nat.le_succ_of_le ih
      split
      · exact Nat.succ_le_succ ih
      · exact Nat.le_succ_of_le ih

end Along

/-! ## Running an advance -/

namespace Ring

variable {c : Config} {R : Ring}

/-- What an advance of `it` answers when its walk has taken `steps` of `limit` steps and the
advance along the slots `l` ahead comes to `r`: the iterator at the stop, past it, with the keys
met and the entry reported; or the iterator finished, with `notFound`; or the walk's fault. -/
def Advanced (c : Config) (R : Ring) (it : Iterator) (steps limit : Nat)
    (l : List (Slot × Address)) :
    Except Fault (Entry × Address × List (Vector UInt8 24) × List (Slot × Address)) →
      Except Fault (Iterator × Except Fault Unit) → Prop
  | .ok (en, x, seen', rest), res =>
    res = .ok ({ it with
      walker := ⟨headAddr rest (R.ate c), steps + (l.length - rest.length), limit⟩,
      seen := seen', current := some (EntryInfo.of en x) }, .ok ())
  | .error f, res =>
    (f = .kind .notFound → ∃ it', it'.finished = true ∧ res = .ok (it', .error f)) ∧
      (f ≠ .kind .notFound → res = .error f)

theorem walkFault_ne (x : Address) : walkFault x ≠ .kind .notFound := by
  simp [walkFault]

theorem run_next_spent (x : Address) {steps limit : Nat} (h : limit ≤ steps) (e : Engine) :
    (Walker.next ⟨x, steps, limit⟩).run.run e = (.error (walkFault x), e) := by
  simp only [Walker.next, ge_iff_le, h, if_true]
  rfl

/-- Passing a slot keeps what the advance from the next one answers, seen from one step back. -/
theorem Advanced.pass {it : Iterator} {w : Walker} {seen' : List (Vector UInt8 24)}
    {steps limit : Nat} {p : Slot × Address} {l : List (Slot × Address)}
    {r : Except Fault (Entry × Address × List (Vector UInt8 24) × List (Slot × Address))}
    {res : Except Fault (Iterator × Except Fault Unit)}
    (h : R.Advanced c { it with walker := w, seen := seen' } (steps + 1) limit l r res)
    (hr : ∀ en x s rest, r = .ok (en, x, s, rest) → rest.length < l.length) :
    R.Advanced c it steps limit (p :: l) r res := by
  cases r with
  | ok v =>
    obtain ⟨en, x, s, rest⟩ := v
    have hlen := hr en x s rest rfl
    have hsteps : steps + 1 + (l.length - rest.length) = steps + ((p :: l).length - rest.length) := by
      simp only [List.length_cons]
      omega
    simp only [Advanced] at h ⊢
    rw [h, hsteps]
  | error f => exact h

/-- Advancing along a chain of slots to the entry cursor does what `advanceAlong` says, with the
steps the walk has left. -/
theorem run_advance_go : ∀ (l : List (Slot × Address)) (p : Slot × Address)
    (fuel steps limit : Nat) (it : Iterator) (e : Engine), R.Stored c e →
    R.Chain c (p :: l) (R.ate c) → (∀ q ∈ l, q.2 ≠ R.ate c) → l.length < fuel →
    it.walker = ⟨p.2, steps, limit⟩ →
    ∃ res e', (StoreM.advance.go fuel it).run.run e = (res, e') ∧ e.Reads e' ∧
      R.Advanced c it steps limit (p :: l) (advanceAlong (limit - steps) it.seen (p :: l)) res := by
  intro l
  induction l with
  | nil =>
    intro ⟨s, x⟩ fuel steps limit it e hst hch _ hfuel hw
    obtain ⟨fuel, rfl⟩ : ∃ f, fuel = f + 1 := ⟨fuel - 1, by simp at hfuel; omega⟩
    by_cases hspent : limit ≤ steps
    · -- no step left: the walk fails at once
      refine ⟨.error (walkFault x), e, ?_, Engine.Reads.refl e, ?_⟩
      · simp only [StoreM.advance.go, run_bind, hw, run_next_spent x hspent]
      · rw [Nat.sub_eq_zero_of_le hspent]
        exact ⟨fun h => absurd h (walkFault_ne x), fun _ => rfl⟩
    obtain ⟨b, hb⟩ : ∃ b, limit - steps = b + 1 := ⟨limit - steps - 1, by omega⟩
    have hstep : R.Steps c x s (R.ate c) := hch.1
    obtain ⟨e1, hnext, hr1⟩ := run_next hst hstep steps limit (by omega)
    have hdone : (R.ate c == e1.store.ateCursor) = true := by
      rw [(hst.reads hr1).ate]
      exact beq_self_eq_true _
    -- passing the last slot: the walk is back at the entry cursor, and the advance ends
    have last : ∀ seen', advanceAlong (b + 1) it.seen [(s, x)] = advanceAlong b seen' [] →
        (StoreM.advance.go (fuel + 1) it).run.run e = (.ok (({ it with
          walker := ⟨R.ate c, steps + 1, limit⟩, seen := seen' } : Iterator).finish,
            .error (.kind .notFound)), e1) →
        ∃ res e', (StoreM.advance.go (fuel + 1) it).run.run e = (res, e') ∧ e.Reads e' ∧
          R.Advanced c it steps limit [(s, x)] (advanceAlong (limit - steps) it.seen [(s, x)])
            res := by
      intro seen' hadv hgo
      refine ⟨_, e1, hgo, hr1, ?_⟩
      rw [hb, hadv]
      cases b <;> exact ⟨fun _ => ⟨_, rfl, rfl⟩, fun h => absurd rfl h⟩
    cases s with
    | erased =>
      refine last it.seen rfl ?_
      simp only [StoreM.advance.go, run_bind, hw, hnext, run_done, hdone, if_true]
      rfl
    | invalid en =>
      refine last it.seen rfl ?_
      simp only [StoreM.advance.go, run_bind, hw, hnext, run_done, hdone, if_true]
      rfl
    | valid en =>
      by_cases hs : it.seen.contains en.key = true
      · refine last it.seen (by simp only [advanceAlong, hs, if_true]) ?_
        simp only [StoreM.advance.go, run_bind, hw, hnext, run_done, hdone, hs, Bool.not_true,
          Bool.false_eq_true, if_false, if_true]
        rfl
      by_cases hl : (en.length != 0) = true
      · -- the iterator stops at the last slot, and its walk is back at the entry cursor
        refine ⟨.ok ({ it with
            walker := ⟨R.ate c, steps + 1, limit⟩, seen := en.key :: it.seen,
            current := some (EntryInfo.of en x) }, .ok ()), e1, ?_, hr1, ?_⟩
        · simp only [StoreM.advance.go, run_bind, hw, hnext, hs, hl, Bool.not_false, if_true]
          rfl
        · rw [hb]
          simp only [advanceAlong, hs, hl, Bool.false_eq_true, if_false, if_true, Advanced,
            headAddr, List.length_cons, List.length_nil]
      · refine last (en.key :: it.seen)
          (by simp only [advanceAlong, hs, hl, Bool.false_eq_true, if_false]) ?_
        simp only [StoreM.advance.go, run_bind, hw, hnext, run_done, hdone, hs, hl, Bool.not_false,
          Bool.false_eq_true, if_false, if_true]
        rfl
  | cons q l ih =>
    intro ⟨s, x⟩ fuel steps limit it e hst hch hne hfuel hw
    obtain ⟨fuel, rfl⟩ : ∃ f, fuel = f + 1 := ⟨fuel - 1, by simp at hfuel; omega⟩
    by_cases hspent : limit ≤ steps
    · -- no step left: the walk fails at once
      refine ⟨.error (walkFault x), e, ?_, Engine.Reads.refl e, ?_⟩
      · simp only [StoreM.advance.go, run_bind, hw, run_next_spent x hspent]
      · rw [Nat.sub_eq_zero_of_le hspent]
        exact ⟨fun h => absurd h (walkFault_ne x), fun _ => rfl⟩
    obtain ⟨b, hb⟩ : ∃ b, limit - steps = b + 1 := ⟨limit - steps - 1, by omega⟩
    have hstep : R.Steps c x s q.2 := hch.1
    obtain ⟨e1, hnext, hr1⟩ := run_next hst hstep steps limit (by omega)
    have hdone : (q.2 == e1.store.ateCursor) = false := by
      rw [(hst.reads hr1).ate, beq_eq_false_iff_ne]
      exact hne q List.mem_cons_self
    -- passing the slot: the advance goes on from the next one, with the keys it has met
    have pass : ∀ seen', advanceAlong (b + 1) it.seen ((s, x) :: q :: l) =
          advanceAlong b seen' (q :: l) →
        (StoreM.advance.go (fuel + 1) it).run.run e = (StoreM.advance.go fuel
          { it with walker := ⟨q.2, steps + 1, limit⟩, seen := seen' }).run.run e1 →
        ∃ res e', (StoreM.advance.go (fuel + 1) it).run.run e = (res, e') ∧ e.Reads e' ∧
          R.Advanced c it steps limit ((s, x) :: q :: l)
            (advanceAlong (limit - steps) it.seen ((s, x) :: q :: l)) res := by
      intro seen' hadv hgo
      obtain ⟨res, e2, hrun, hr2, hres⟩ := ih q fuel (steps + 1) limit
        { it with walker := ⟨q.2, steps + 1, limit⟩, seen := seen' } e1 (hst.reads hr1) hch.2
        (fun q' hq' => hne q' (List.mem_cons_of_mem _ hq')) (by simp at hfuel; omega) rfl
      have hb' : limit - (steps + 1) = b := by omega
      rw [hb'] at hres
      refine ⟨res, e2, hgo.trans hrun, hr1.trans hr2, ?_⟩
      rw [hb, hadv]
      exact hres.pass fun _ _ _ _ h => length_lt_of_advanceAlong h
    cases s with
    | erased =>
      refine pass it.seen rfl ?_
      simp only [StoreM.advance.go, run_bind, hw, hnext, run_done, hdone, Bool.false_eq_true,
        if_false]
    | invalid en =>
      refine pass it.seen rfl ?_
      simp only [StoreM.advance.go, run_bind, hw, hnext, run_done, hdone, Bool.false_eq_true,
        if_false]
    | valid en =>
      by_cases hs : it.seen.contains en.key = true
      · -- a key met before
        refine pass it.seen (by simp only [advanceAlong, hs, if_true]) ?_
        simp only [StoreM.advance.go, run_bind, hw, hnext, run_done, hdone, hs, Bool.not_true,
          Bool.false_eq_true, if_false]
      by_cases hl : (en.length != 0) = true
      · -- the newest entry of a key not met, holding a value: the iterator stops here
        refine ⟨.ok ({ it with
            walker := ⟨q.2, steps + 1, limit⟩, seen := en.key :: it.seen,
            current := some (EntryInfo.of en x) }, .ok ()), e1, ?_, hr1, ?_⟩
        · simp only [StoreM.advance.go, run_bind, hw, hnext, hs, hl, Bool.not_false, if_true]
          rfl
        · rw [hb]
          simp only [advanceAlong, hs, hl, Bool.false_eq_true, if_false, if_true, Advanced,
            headAddr, List.length_cons, Nat.add_sub_cancel_left]
      · -- a deletion of a key not met: the key is met now
        refine pass (en.key :: it.seen)
          (by simp only [advanceAlong, hs, hl, Bool.false_eq_true, if_false]) ?_
        simp only [StoreM.advance.go, run_bind, hw, hnext, run_done, hdone, hs, hl, Bool.not_false,
          Bool.false_eq_true, if_false, if_true]

/-- An advance of an iterator whose walk is at the head of a chain of slots to the entry cursor:
it stops where `advanceAlong` stops, with the steps the walk has left, or ends with the fault
`advanceAlong` ends with. -/
theorem run_advance {l : List (Slot × Address)} {p : Slot × Address} {steps limit : Nat}
    {it : Iterator} {e : Engine} (hst : R.Stored c e) (hch : R.Chain c (p :: l) (R.ate c))
    (hne : ∀ q ∈ l, q.2 ≠ R.ate c) (hfuel : l.length ≤ limit)
    (hw : it.walker = ⟨p.2, steps, limit⟩) (hfin : it.finished = false) :
    (∀ en x seen' rest,
      advanceAlong (limit - steps) it.seen (p :: l) = .ok (en, x, seen', rest) →
      ∃ e', (StoreM.advance it).run.run e = (.ok ({ it with
          walker := ⟨headAddr rest (R.ate c), steps + ((p :: l).length - rest.length), limit⟩,
          seen := seen', current := some (EntryInfo.of en x) }, .ok ()), e') ∧ e.Reads e') ∧
    ∀ f, advanceAlong (limit - steps) it.seen (p :: l) = .error f →
      ∃ it' e', (StoreM.advance it).run.run e = (.ok (it', .error f), e') ∧
        it'.finished = true ∧ e.Reads e' := by
  obtain ⟨res, e', hgo, hr, hadv⟩ :=
    run_advance_go l p (limit + 1) steps limit it e hst hch hne (by omega) hw
  have hrun : (StoreM.advance it).run.run e =
      (tryCatch (StoreM.advance.go (limit + 1) it)
        fun f => pure (it.finish, .error f)).run.run e := by
    simp only [StoreM.advance, hfin, hw, Bool.false_eq_true, if_false]
  refine ⟨fun en x seen' rest hok => ⟨e', ?_, hr⟩, fun f herr => ?_⟩
  · rw [hok] at hadv
    rw [hrun, run_tryCatch_ok (hgo.trans (by rw [hadv]))]
  · rw [herr] at hadv
    by_cases hf : f = .kind .notFound
    · -- the slots ran out: the walk finished the iterator itself
      obtain ⟨it', hfin', hres⟩ := hadv.1 hf
      exact ⟨it', e', by rw [hrun, run_tryCatch_ok (hgo.trans (by rw [hres]))], hfin', hr⟩
    · -- the walk failed: the fault finishes the iterator
      have hres := hadv.2 hf
      refine ⟨it.finish, e', ?_, rfl, hr⟩
      rw [hrun, run_tryCatch_error (hgo.trans (by rw [hres]))]
      rfl

/-! ## Draining an iterator -/

/-- Every slot of the trail after its first is a record's, away from the entry cursor. -/
theorem ne_ate_of_trail (hc : c.Usable) (hR : R.Fit c) {pre l : List (Slot × Address)}
    {p : Slot × Address} (h : pre ++ p :: l = R.trail c) : ∀ q ∈ l, q.2 ≠ R.ate c := by
  intro q hq
  have hsite : q ∈ (R.sites c).map (Site.visit c) := by
    cases pre with
    | nil =>
      simp only [List.nil_append, trail, List.cons.injEq] at h
      exact h.2 ▸ hq
    | cons a pre =>
      simp only [List.cons_append, trail, List.cons.injEq] at h
      rw [← h.2]
      exact List.mem_append_right _ (List.mem_cons_of_mem _ hq)
  obtain ⟨s, hs, rfl⟩ := List.mem_map.1 hsite
  exact addr_ne_ate hc hR hs

section Drain

variable (hc : c.Usable) (hpol : Flash.Polar c.eraseValue)
include hc hpol

/-- Back at the entry cursor with every key of the trail met, an advance walks the whole trail
again and stops nowhere: it ends with `notFound` when the steps left cover the trail, and with
a corrupt-table fault where they run out otherwise. -/
theorem drains_round {e : Engine} (hst : R.Stored c e) (it : Iterator) (steps : Nat) {limit : Nat}
    (hL : (R.trail c).length ≤ limit) (hw : it.walker = ⟨R.ate c, steps, limit⟩)
    (hfin : it.finished = false)
    (hseen : ∀ en x, (Slot.valid en, x) ∈ R.trail c → en.key ∈ it.seen) :
    ∃ f, Drains e it [] f ∧ ((R.trail c).length ≤ limit - steps → f = .kind .notFound) ∧
      (limit - steps < (R.trail c).length → f.is .corrupt) := by
  have hnil : liveAlong it.seen (R.trail c) = [] := liveAlong_of_seen hseen
  obtain ⟨-, herr⟩ := run_advance (l := (R.sites c).map (Site.visit c)) (p := (.erased, R.ate c))
    hst (chain_trail hc hpol hst.toFit)
    (ne_ate_of_trail hc hst.toFit (show [] ++ _ :: _ = R.trail c from rfl))
    (by simp only [trail, List.length_cons] at hL; omega) hw hfin
  by_cases hfits : (R.trail c).length ≤ limit - steps
  · obtain ⟨it', e', hrun, -, -⟩ := herr _ (advanceAlong_of_nil hnil hfits)
    exact ⟨_, .stop hrun, fun _ => rfl, fun h => absurd h (by omega)⟩
  · obtain ⟨it', e', hrun, -, -⟩ := herr _ (advanceAlong_of_nil_lt hnil (by omega))
    exact ⟨_, .stop hrun, fun h => absurd h hfits, fun _ => by simp [walkFault]⟩

/-- Advancing an iterator from a point of the trail of the ring, having met the keys of the
valid entries before it, stops at every entry `liveAlong` gives for the rest of the trail, in
order. Its walk then ends: with `notFound`, unless its last stop was the trail's last slot
and the walk limit is short of two rounds of the trail, where it may end with a corrupt-table
fault. -/
theorem drains_pass {limit : Nat} (hL : (R.trail c).length ≤ limit) :
    ∀ (ys : List (Entry × Address)) (pre l : List (Slot × Address)) (it : Iterator) (e : Engine),
      R.Stored c e → pre ++ l = R.trail c → l ≠ [] → liveAlong it.seen l = ys →
      (∀ en x, (Slot.valid en, x) ∈ pre → en.key ∈ it.seen) →
      it.walker = ⟨headAddr l (R.ate c), pre.length, limit⟩ → it.finished = false →
      ∃ f, Drains e it (ys.map fun y => EntryInfo.of y.1 y.2) f ∧
        (f = .kind .notFound ∨ limit < 2 * (R.trail c).length ∧ f.is .corrupt) := by
  intro ys
  induction ys with
  | nil =>
    intro pre l it e hst hT hl hlive _ hw hfin
    obtain ⟨p, l, rfl⟩ := List.exists_cons_of_ne_nil hl
    have hch := (chain_append.1 (hT ▸ chain_trail hc hpol hst.toFit)).2
    have hlen : pre.length + (p :: l).length ≤ limit := by
      rw [← List.length_append, hT]
      exact hL
    obtain ⟨-, herr⟩ := run_advance hst hch (ne_ate_of_trail hc hst.toFit hT)
      (by simp only [List.length_cons] at hlen; omega) hw hfin
    obtain ⟨it', e', hrun, -, -⟩ := herr _ (advanceAlong_of_nil hlive (by omega))
    exact ⟨_, .stop hrun, .inl rfl⟩
  | cons y ys ih =>
    intro pre l it e hst hT hl hlive hcov hw hfin
    obtain ⟨p, l, rfl⟩ := List.exists_cons_of_ne_nil hl
    have hch := (chain_append.1 (hT ▸ chain_trail hc hpol hst.toFit)).2
    have hlen : pre.length + (p :: l).length ≤ limit := by
      rw [← List.length_append, hT]
      exact hL
    obtain ⟨mid, seen', rest, hsplit, hrest, hadv, hlive', hsub, hcov'⟩ :=
      advanceAlong_of_cons hlive (b := limit - pre.length) (by omega)
    obtain ⟨hok, -⟩ := run_advance hst hch (ne_ate_of_trail hc hst.toFit hT)
      (by simp only [List.length_cons] at hlen; omega) hw hfin
    obtain ⟨e', hrun, hr⟩ := hok _ _ _ _ hadv
    have hinfo : ({ it with
        walker := ⟨headAddr rest (R.ate c), pre.length + ((p :: l).length - rest.length), limit⟩,
        seen := seen', current := some (EntryInfo.of y.1 y.2) } : Iterator).info =
          .ok (EntryInfo.of y.1 y.2) := by
      simp [Iterator.info, hfin]
    -- the keys met after the stop: those before it, and those of the valid entries up to it
    have hcov'' : ∀ en x, (Slot.valid en, x) ∈ pre ++ mid → en.key ∈ seen' := by
      intro en x hm
      rcases List.mem_append.1 hm with hm | hm
      · exact hsub _ (hcov en x hm)
      · exact hcov' en x hm
    have hT' : (pre ++ mid) ++ rest = R.trail c := by rw [List.append_assoc, ← hsplit, hT]
    by_cases hend : rest = []
    · -- the stop was the trail's last slot: the next advance walks the whole trail again
      subst hend
      have hround : pre.length + ((p :: l).length - 0) = (R.trail c).length := by
        rw [← hT, List.length_append, Nat.sub_zero]
      obtain ⟨f, hdrain, hnf, hcorrupt⟩ := drains_round hc hpol (hst.reads hr) { it with
          walker := ⟨headAddr [] (R.ate c), pre.length + ((p :: l).length - 0), limit⟩,
          seen := seen', current := some (EntryInfo.of y.1 y.2) }
        (R.trail c).length hL (by rw [hround]; rfl) hfin
        (fun en x hm => hcov'' en x (by rw [List.append_nil] at hT'; rw [hT']; exact hm))
      have hys : ys = [] := by
        rw [← hlive']
        rfl
      refine ⟨f, ?_, ?_⟩
      · rw [hys]
        exact .next hrun hinfo hdrain
      · by_cases h2 : (R.trail c).length ≤ limit - (R.trail c).length
        · exact .inl (hnf h2)
        · exact .inr ⟨by omega, hcorrupt (by omega)⟩
    · -- the trail goes on after the stop
      have hsteps : pre.length + ((p :: l).length - rest.length) = (pre ++ mid).length := by
        rw [hsplit, List.length_append, List.length_append, Nat.add_sub_cancel]
      obtain ⟨f, hdrain, hf⟩ := ih (pre ++ mid) rest { it with
          walker := ⟨headAddr rest (R.ate c), pre.length + ((p :: l).length - rest.length), limit⟩,
          seen := seen', current := some (EntryInfo.of y.1 y.2) }
        e' (hst.reads hr) hT' hend hlive' hcov'' (by rw [hsteps]) hfin
      exact ⟨f, .next hrun hinfo hdrain, hf⟩

omit hpol in
/-- The walk limit of a store covers the whole trail of its ring. -/
theorem length_trail_le {e : Engine} (hst : R.Stored c e) :
    (R.trail c).length ≤ e.store.walkLimit := by
  have := length_sites_lt hc hst.toFit hst.config
  simp only [trail, List.length_cons, List.length_map]
  omega

/-- An iterator opened on a store holding a ring stops at the entries `liveAlong` gives along
the whole trail, in order, and then ends with `notFound`; or, only when the walk limit is
short of two rounds of the trail, with a corrupt-table fault. -/
theorem drains_trail {e : Engine} (hst : R.Stored c e) :
    ∃ f, Drains e { walker := Walker.start e.store }
        ((liveAlong [] (R.trail c)).map fun y => EntryInfo.of y.1 y.2) f ∧
      (f = .kind .notFound ∨ e.store.walkLimit < 2 * (R.trail c).length ∧ f.is .corrupt) :=
  drains_pass hc hpol (length_trail_le hc hst) _ [] (R.trail c) _ e hst rfl
    (List.cons_ne_nil _ _) rfl (by simp)
    (by simp only [Walker.start, Walker.fromAddr, hst.ate, trail, headAddr, List.length_nil]) rfl

end Drain

end Ring

namespace StoreM

theorem run_iterator {e : Engine} (hm : e.store.mounted = true) :
    iterator.run.run e = (.ok { walker := Walker.start e.store }, e) := by
  simp only [iterator, run_bind, run_store, hm, Bool.not_true, Bool.false_eq_true, if_false]
  rfl

/-- Collecting keys from an iterator that drains to `infos` and then fails with `f` gives their
keys when `f` is `notFound`, and fails with `f` otherwise. -/
theorem run_keys_go {e : Engine} {it : Iterator} {infos : List EntryInfo} {f : Fault}
    (h : Drains e it infos f) :
    ∀ (fuel : Nat) (acc : List ByteArray), infos.length < fuel →
      ∃ e', (keys.go fuel it acc).run.run e =
        (if f.is .notFound then .ok (acc.reverse ++ infos.map (·.key)) else .error f, e') := by
  induction h with
  | @stop _ e' _ _ _ hadv =>
    intro fuel acc hfuel
    obtain ⟨fuel, rfl⟩ : ∃ n, fuel = n + 1 := ⟨fuel - 1, by simp at hfuel; omega⟩
    refine ⟨e', ?_⟩
    simp only [keys.go, run_bind, hadv, List.map_nil, List.append_nil]
    split <;> rfl
  | next hadv hinfo _ ih =>
    intro fuel acc hfuel
    obtain ⟨fuel, rfl⟩ : ∃ n, fuel = n + 1 := ⟨fuel - 1, by simp at hfuel; omega⟩
    obtain ⟨e', hgo⟩ := ih fuel _ (by simp at hfuel; omega)
    refine ⟨e', ?_⟩
    simp only [keys.go, run_bind, hadv, hinfo]
    rw [hgo]
    simp

end StoreM


/-- The stops of a walk report the keys of their entries. -/
theorem EntryInfo.map_key_of (l : List (Entry × Address)) :
    (l.map fun y => EntryInfo.of y.1 y.2).map (·.key) = l.map (·.1.keyBytes) := by
  simp [EntryInfo.of]

/-! ## The live keys of a ring -/

namespace Ring

variable {c : Config} {R : Ring}

/-- What a ring holds for a key is the value of the newest site of that key, unless it is a
deletion. -/
theorem view_eq_some_iff {k : Vector UInt8 24} {v : ByteArray} :
    R.view k = some v ↔ ∃ s, (R.sites c).find? (·.record.key = k) = some s ∧
      s.record.value = v ∧ v.size ≠ 0 := by
  rw [view, ← find?_sites (c := c)]
  cases hs : (R.sites c).find? (·.record.key = k) with
  | none => simp
  | some s =>
    by_cases h0 : s.record.value.size = 0
    · simp only [Option.map_some, h0, if_true, reduceCtorEq, false_iff, not_exists, not_and,
        Option.some.injEq]
      rintro s' rfl rfl
      exact absurd h0
    · simp only [Option.map_some, h0, if_false, Option.some.injEq]
      constructor
      · rintro rfl
        exact ⟨s, rfl, rfl, h0⟩
      · rintro ⟨s', rfl, rfl, -⟩
        rfl

/-- Along the trail, an iterator stops at the entry of the newest site of each key, when that
site holds a value. -/
theorem mem_liveAlong_trail (hc : c.Usable) (hR : R.Fit c) {en : Entry} {x : Address} :
    (en, x) ∈ liveAlong [] (R.trail c) ↔
      ∃ s, (R.sites c).find? (·.record.key = en.key) = some s ∧ s.entry = en ∧ s.addr c = x ∧
        s.record.value.size ≠ 0 := by
  rw [mem_liveAlong, firstEntry_trail]
  constructor
  · rintro ⟨-, hfirst, hlen⟩
    obtain ⟨s, hs, hsx⟩ := Option.map_eq_some_iff.1 hfirst
    obtain ⟨rfl, rfl⟩ := Prod.mk.inj hsx
    refine ⟨s, hs, rfl, rfl, fun h0 => hlen ?_⟩
    have := entry_length hc hR (List.mem_of_find?_eq_some hs)
    rw [h0] at this
    exact UInt16.toNat_inj.1 this
  · rintro ⟨s, hs, rfl, rfl, h0⟩
    refine ⟨List.not_mem_nil, by rw [hs]; rfl, fun hlen => h0 ?_⟩
    rw [← entry_length hc hR (List.mem_of_find?_eq_some hs), hlen]
    rfl

/-- Along sites of the ring, the keys an iterator stops at are the keys of the records `keep`
keeps, in order: a site's key is new to the walk and its entry has a length exactly when its
record is the first of its key and holds a value. The walk lists the keys it met newest first and
`keep` oldest first; only which keys they hold matters. -/
theorem liveAlong_visits (hc : c.Usable) (hR : R.Fit c) :
    ∀ (l : List Site), (∀ s ∈ l, s ∈ R.sites c) → ∀ (seen seen' : List (Vector UInt8 24)),
      (∀ k, k ∈ seen ↔ k ∈ seen') →
      (liveAlong seen (l.map (Site.visit c))).map (·.1.key) =
        (keep seen' (l.map Site.record)).map (·.key) := by
  intro l
  induction l with
  | nil => intro _ _ _ _; rfl
  | cons s l ih =>
    intro hl seen seen' hseen
    have htail : ∀ s' ∈ l, s' ∈ R.sites c := fun s' hs' => hl s' (List.mem_cons_of_mem _ hs')
    -- after this site its key is met on both sides
    have hnext : ∀ k, k ∈ s.record.key :: seen ↔ k ∈ seen' ++ [s.record.key] := by
      intro k
      rw [List.mem_cons, List.mem_append, List.mem_singleton, hseen k, or_comm]
    have hkey : s.entry.key = s.record.key := rfl
    have hl0 : s.entry.length = 0 ↔ s.record.value.size = 0 := by
      rw [← UInt16.toNat_inj, entry_length hc hR (hl s List.mem_cons_self)]
      rfl
    simp only [List.map_cons, Site.visit, liveAlong, keep, hkey, List.contains_iff_mem]
    by_cases hin : s.record.key ∈ seen
    · -- a key met before: neither side keeps the site, and the keys met stay the same
      have hin' : s.record.key ∈ seen' := (hseen _).1 hin
      rw [if_pos hin, if_neg (fun h => h.2 hin')]
      refine ih htail seen _ fun k => ?_
      rw [← hnext, List.mem_cons]
      exact ⟨Or.inr, fun h => h.elim (fun hk => hk ▸ hin) id⟩
    · have hin' : s.record.key ∉ seen' := fun h => hin ((hseen _).2 h)
      rw [if_neg hin]
      by_cases h0 : s.record.value.size = 0
      · -- a deletion: neither side keeps it, both meet its key
        have hb : (s.entry.length != 0) = false := by simp [hl0, h0]
        rw [hb, if_neg Bool.false_ne_true, if_neg (fun h => h.1 h0)]
        exact ih htail _ _ hnext
      · -- the newest record of a key, holding a value: both keep it
        have hb : (s.entry.length != 0) = true := by simp [hl0, h0]
        rw [hb, if_pos rfl, if_pos ⟨h0, hin'⟩, List.map_cons, List.map_cons, ih htail _ _ hnext]
        rfl

/-- An iterator over the trail of a ring stops at the keys of the records `keep` keeps, in the
order of the ring: the active sector first, newest entry first, then the closed sectors from the
newest. -/
theorem liveAlong_trail_keys (hc : c.Usable) (hR : R.Fit c) :
    (liveAlong [] (R.trail c)).map (·.1.key) = (keep [] R.records).map (·.key) := by
  -- the walk starts at the free slot, which it passes
  simp only [trail, liveAlong]
  rw [← map_record_ringSites (c := c)]
  exact liveAlong_visits hc hR _ (fun _ hs => hs) [] [] fun _ => Iff.rfl

/-- A walk from the entry cursor meets the free slot and then every record. -/
theorem length_trail : (R.trail c).length = R.records.length + 1 := by
  simp [trail, ← map_record_ringSites (c := c)]

end Ring

/-! ## The live keys of a session -/

namespace Session

variable {c : Config} {s : Session} {R : Ring}

/-- Each stop of an iterator over the trail of a faithful session is at a key the client expects
to hold a value of the stop's length, and at the first entry of that key along the trail. -/
theorem Faithful.stop (hc : c.Usable) (h : s.Faithful c R) {en : Entry} {x : Address}
    (hmem : (en, x) ∈ liveAlong [] (R.trail c)) :
    ∃ v, s.expected en.keyBytes = some v ∧ v.size = en.length.toNat ∧
      Entry.padKey? en.keyBytes = some en.key ∧ firstEntry en.key (R.trail c) = some (en, x) := by
  have hfirst := (mem_liveAlong.1 hmem).2.1
  obtain ⟨site, hs, rfl, rfl, h0⟩ := (Ring.mem_liveAlong_trail hc h.stored.toFit).1 hmem
  have hview : R.view site.entry.key = some site.record.value :=
    Ring.view_eq_some_iff.2 ⟨site, hs, rfl, h0⟩
  -- the live key is one a client wrote, so it reads back as that client's key
  obtain ⟨key, hkey⟩ := h.padded _ (by rw [hview]; exact Option.some_ne_none _)
  have hbytes : site.entry.keyBytes = key := Entry.keyBytes_of_padKey? hkey rfl
  refine ⟨site.record.value, ?_, ?_, hbytes ▸ hkey, hfirst⟩
  · rw [hbytes, ← h.agrees key _ hkey, hview]
  · exact (Ring.entry_length hc h.stored.toFit (List.mem_of_find?_eq_some hs)).symm

/-- Every key the client of a faithful session expects to hold a value is the key of a stop. -/
theorem Faithful.stops_at (hc : c.Usable) (h : s.Faithful c R) {key : ByteArray}
    (hkey : s.expected key ≠ none) :
    ∃ en x, (en, x) ∈ liveAlong [] (R.trail c) ∧ en.keyBytes = key := by
  obtain ⟨k, hk⟩ := h.usable key hkey
  obtain ⟨v, hv⟩ := Option.ne_none_iff_exists'.1 hkey
  obtain ⟨site, hs, rfl, h0⟩ := (Ring.view_eq_some_iff (c := c)).1 ((h.agrees key k hk).trans hv)
  have hsk : site.record.key = k := by simpa using List.find?_some hs
  refine ⟨site.entry, site.addr c, ?_, Entry.keyBytes_of_padKey? hk hsk⟩
  exact (Ring.mem_liveAlong_trail hc h.stored.toFit).2
    ⟨site, by rw [show site.entry.key = k from hsk]; exact hs, rfl, rfl, h0⟩

/-- Listing the keys of a faithful session drains the iterator over its trail: it names the keys
of the stops in order when the walk ends as `notFound`, and fails with the walk's fault
otherwise. -/
theorem Faithful.keys_of_drains (hc : c.Usable) (h : s.Faithful c R) {f : Fault}
    (hdrain : Drains s.engine { walker := Walker.start s.engine.store }
      ((liveAlong [] (R.trail c)).map fun y => EntryInfo.of y.1 y.2) f) :
    ∃ e', StoreM.keys.run.run s.engine = (if f.is .notFound then
      .ok ((liveAlong [] (R.trail c)).map (·.1.keyBytes)) else .error f, e') := by
  -- one more turn of the listing loop than the walk has stops
  have hfuel : ((liveAlong [] (R.trail c)).map fun y => EntryInfo.of y.1 y.2).length <
      s.engine.store.walkLimit + 1 := by
    have h1 : (liveAlong [] (R.trail c)).length ≤ (R.trail c).length := length_liveAlong_le
    have h2 := Ring.length_trail_le hc h.stored
    simp only [List.length_map]
    omega
  obtain ⟨e', hgo⟩ := StoreM.run_keys_go hdrain _ [] hfuel
  rw [List.reverse_nil, List.nil_append, EntryInfo.map_key_of] at hgo
  refine ⟨e', ?_⟩
  simp only [StoreM.keys, run_bind, StoreM.run_iterator h.mounted]
  exact hgo

/-- An iterator opens on the store of a faithful session and, advanced until it fails, stops once
at each key the client expects to hold a value and at no other key: each stop reports the key,
the length of the value expected of it, and the address of its newest entry, where the store's
own lookup of the key finds that entry. The advance after the last stop fails with `notFound`;
or, only when the walk limit is short of two rounds of the table, with a corrupt-table fault.
Listing the keys gives the keys of the stops, in order, in the first case, and fails with that
fault in the second. -/
theorem Faithful.iterator_drains (hc : c.Usable) (hpol : Flash.Polar c.eraseValue) (h : s.Faithful c R) :
    StoreM.iterator.run.run s.engine = (.ok { walker := Walker.start s.engine.store }, s.engine) ∧
    ∃ (infos : List EntryInfo) (f : Fault),
      Drains s.engine { walker := Walker.start s.engine.store } infos f ∧
      (infos.map (·.key)).Nodup ∧
      (∀ key, key ∈ infos.map (·.key) ↔ s.expected key ≠ none) ∧
      (∀ i ∈ infos, ∃ v k en e', s.expected i.key = some v ∧ v.size = i.length ∧
        Entry.padKey? i.key = some k ∧
        (StoreM.findNewest k).run.run s.engine = (.ok (some (en, i.addr)), e')) ∧
      (f = .kind .notFound ∨
        s.engine.store.walkLimit < 2 * (R.records.length + 1) ∧ f.is .corrupt) ∧
      ∃ e', StoreM.keys.run.run s.engine =
        (if f.is .notFound then .ok (infos.map (·.key)) else .error f, e') := by
  obtain ⟨f, hdrain, hf⟩ := Ring.drains_trail hc hpol h.stored
  -- the stops are the entries and addresses `liveAlong` gives along the trail
  refine ⟨StoreM.run_iterator h.mounted, (liveAlong [] (R.trail c)).map fun y => EntryInfo.of y.1 y.2,
    f, hdrain, ?_, ?_,
    ?_, ?_, ?_⟩
  · -- the keys of the stops differ, since their fields do and each field pads its key
    rw [EntryInfo.map_key_of]
    apply List.Nodup.of_map Entry.padKey?
    have hpad : ((liveAlong [] (R.trail c)).map (·.1.keyBytes)).map Entry.padKey? =
        ((liveAlong [] (R.trail c)).map (·.1.key)).map some := by
      simp only [List.map_map]
      apply List.map_congr_left
      intro ⟨en, x⟩ hy
      obtain ⟨-, -, -, hk, -⟩ := h.stop hc hy
      exact hk
    rw [hpad]
    exact nodup_liveAlong.map (Option.some_injective _)
  · intro key
    rw [EntryInfo.map_key_of]
    constructor
    · rintro hmem
      obtain ⟨⟨en, x⟩, hy, rfl⟩ := List.mem_map.1 hmem
      obtain ⟨v, hv, -⟩ := h.stop hc hy
      rw [hv]
      exact Option.some_ne_none _
    · intro hkey
      obtain ⟨en, x, hmem, rfl⟩ := h.stops_at hc hkey
      exact List.mem_map.2 ⟨(en, x), hmem, rfl⟩
  · intro i hi
    obtain ⟨⟨en, x⟩, hy, rfl⟩ := List.mem_map.1 hi
    obtain ⟨v, hv, hsize, hk, hfirst⟩ := h.stop hc hy
    obtain ⟨e', hfind, -⟩ := StoreM.run_findNewest hc hpol h.stored en.key
    refine ⟨v, en.key, en, e', hv, hsize, hk, ?_⟩
    rw [hfind, ← Ring.firstEntry_trail, hfirst]
    rfl
  · rcases hf with hf | ⟨hlimit, hcorrupt⟩
    · exact .inl hf
    · exact .inr ⟨Ring.length_trail (c := c) ▸ hlimit, hcorrupt⟩
  · -- listing the keys drains the same iterator
    rw [EntryInfo.map_key_of]
    exact h.keys_of_drains hc hdrain

/-- In every session a client reaches, iterating goes as `Faithful.iterator_drains` says: each key the
client expects to hold a value is listed once and no other, unless the walk limit is short of
two rounds of the table of a ring the session is faithful to, where the walk may end as
corrupt. -/
theorem Reachable.iterates (hv : c.validate = .ok ()) (hpol : Flash.Polar c.eraseValue)
    (hs : s.Reachable c) :
    StoreM.iterator.run.run s.engine = (.ok { walker := Walker.start s.engine.store }, s.engine) ∧
    ∃ (infos : List EntryInfo) (f : Fault),
      Drains s.engine { walker := Walker.start s.engine.store } infos f ∧
      (infos.map (·.key)).Nodup ∧
      (∀ key, key ∈ infos.map (·.key) ↔ s.expected key ≠ none) ∧
      (∀ i ∈ infos, ∃ v k en e', s.expected i.key = some v ∧ v.size = i.length ∧
        Entry.padKey? i.key = some k ∧
        (StoreM.findNewest k).run.run s.engine = (.ok (some (en, i.addr)), e')) ∧
      (f = .kind .notFound ∨ ∃ R : Ring, s.Faithful c R ∧
        s.engine.store.walkLimit < 2 * (R.records.length + 1) ∧ f.is .corrupt) ∧
      ∃ e', StoreM.keys.run.run s.engine =
        (if f.is .notFound then .ok (infos.map (·.key)) else .error f, e') := by
  obtain ⟨R, h⟩ := hs.faithful hv hpol
  obtain ⟨hit, infos, f, hdrain, hnodup, hmem, hstops, hf, hkeys⟩ :=
    h.iterator_drains (Config.usable_of_validate hv) hpol
  refine ⟨hit, infos, f, hdrain, hnodup, hmem, hstops, ?_, hkeys⟩
  rcases hf with hf | ⟨hlimit, hcorrupt⟩
  · exact .inl hf
  · exact .inr ⟨R, h, hlimit, hcorrupt⟩

/-- After the calls an iterator opens at the entry cursor and stops once at each key the client
expects to hold a value. -/
theorem iterates_rotated :
    sampleConfig.validate = .ok () ∧ Flash.Polar sampleConfig.eraseValue ∧
      rotated.Reachable sampleConfig ∧
      StoreM.iterator.run.run rotated.engine =
        (.ok { walker := Walker.start rotated.engine.store }, rotated.engine) ∧
      ∃ (infos : List EntryInfo) (f : Fault),
        Drains rotated.engine { walker := Walker.start rotated.engine.store } infos f ∧
        (infos.map (·.key)).Nodup ∧ ∀ key, key ∈ infos.map (·.key) ↔ rotated.expected key ≠ none := by
  obtain ⟨hit, infos, f, hdrain, hnodup, hmem, -⟩ :=
    Reachable.iterates (c := sampleConfig) rfl (.inr rfl) reachable_rotated
  exact ⟨rfl, .inr rfl, reachable_rotated, hit, infos, f, hdrain, hnodup, hmem⟩

/-- Listing the keys follows the places of the records in the ring, not the times they were
written. In every session a client reaches, on a ring the session is faithful to, the keys are
listed as `Ring.keep` keeps the records of the ring: the newest record of each key that holds a
value, the active sector first and newest entry first, then the closed sectors from the newest.
Listing fails instead only when the walk limit is short of two rounds of the table. A rotation
copies the survivors of the collected sector into the new active sector in the reverse of their
order (`Ring.rotate`), so two keys relocated together are listed the other way round after it. -/
theorem Reachable.keys_ring_order (hv : c.validate = .ok ()) (hpol : Flash.Polar c.eraseValue)
    (hs : s.Reachable c) :
    ∃ R, s.Faithful c R ∧ ∃ (f : Fault) (e' : Engine),
      (f = .kind .notFound ∨
        s.engine.store.walkLimit < 2 * (R.records.length + 1) ∧ f.is .corrupt) ∧
      StoreM.keys.run.run s.engine = (if f.is .notFound then
        .ok ((Ring.keep [] R.records).map fun r => (Entry.ofKeyField r.key 0 0).keyBytes)
        else .error f, e') := by
  have hc := Config.usable_of_validate hv
  obtain ⟨R, h⟩ := hs.faithful hv hpol
  obtain ⟨f, hdrain, hf⟩ := Ring.drains_trail hc hpol h.stored
  obtain ⟨e', hkeys⟩ := h.keys_of_drains hc hdrain
  -- the stops name the keys `keep` keeps, in the ring's order
  have horder : (liveAlong [] (R.trail c)).map (·.1.keyBytes) =
      (Ring.keep [] R.records).map fun r => (Entry.ofKeyField r.key 0 0).keyBytes := by
    have := congrArg (List.map fun k => (Entry.ofKeyField k 0 0).keyBytes)
      (Ring.liveAlong_trail_keys hc h.stored.toFit)
    simp only [List.map_map] at this
    exact this
  refine ⟨R, h, f, e', ?_, by rw [hkeys, horder]⟩
  rcases hf with hf | ⟨hlimit, hcorrupt⟩
  · exact .inl hf
  · exact .inr ⟨Ring.length_trail (c := c) ▸ hlimit, hcorrupt⟩

/-- After the calls, which rotated the ring once, the keys are listed in the order of a ring the
session is faithful to. -/
theorem keys_ring_order_rotated :
    sampleConfig.validate = .ok () ∧ Flash.Polar sampleConfig.eraseValue ∧
      rotated.Reachable sampleConfig ∧
      ∃ R, rotated.Faithful sampleConfig R ∧ ∃ (f : Fault) (e' : Engine),
        (f = .kind .notFound ∨
          rotated.engine.store.walkLimit < 2 * (R.records.length + 1) ∧ f.is .corrupt) ∧
        StoreM.keys.run.run rotated.engine = (if f.is .notFound then
          .ok ((Ring.keep [] R.records).map fun r => (Entry.ofKeyField r.key 0 0).keyBytes)
          else .error f, e') :=
  ⟨rfl, .inr rfl, reachable_rotated, Reachable.keys_ring_order rfl (.inr rfl) reachable_rotated⟩

end Session

end NorStore
