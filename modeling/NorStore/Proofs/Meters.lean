import Mathlib.Data.List.Nodup
import Mathlib.Data.String.Basic
import NorStore.Metrics.Registry

/-!
# Series identifiers

A series is identified by its name followed by its labels sorted by name, as
`name{k="v",…}`, or by the bare name when it has no labels (`sampleId`). The registry answers a
request for a name and labels with the value of the first series, in identifier order, whose
identifier is the requested one (`Registry.valueOf`). Nothing in an identifier is escaped.

*Ambiguity.* A name may itself spell a label set, so the bare name `a{b="c"}` and the name `a`
with the label `b="c"` have one identifier, and the registry answers the labelled series'
value when asked for the bare name (`sampleId_ambiguous`). Quotes in a label value and `=` in a
label name confuse identifiers in the same way.

*Plain names.* Call a name and labels *plain* when the name holds no `{`, no label name holds
`=` and no label value holds `"` (`Plain`). Their identifier reads back from left to right: the
name ends at the first `{` (`append_cons_cancel`), a label name at the next `=` and its value at
the next `"`, after which a `,` starts another label and a `}` ends the text
(`labelText_append_inj`, `labelsText_inj`). Plain names and labels with one identifier therefore
have one name and the same labels up to order (`sampleId_inj`); conversely labels that name each
label once sort to one list whatever their order (`sortedLabels_eq_of_perm`).

*Main statement.* `plain_sampleId_unambiguous`: over plain series and a plain request, a series
has the requested identifier exactly when it has the requested name and labels, and the registry
answers the value of such a series, or zero when there is none.
-/

namespace NorStore.Metrics

/-! ## Ambiguity -/

/-- The bare name `a{b="c"}` and the name `a` labelled `b="c"` share an identifier, and a registry
holding only the labelled series answers its value for the bare name. -/
theorem sampleId_ambiguous :
    sampleId "a\x7bb=\"c\"\x7d" [] = sampleId "a" [("b", "c")] ∧ "a\x7bb=\"c\"\x7d" ≠ "a" ∧
      (({} : Registry).add "a" [("b", "c")] 1).valueOf "a\x7bb=\"c\"\x7d" [] = 1 := by
  refine ⟨by simp [sampleId], by decide, ?_⟩
  simp [Registry.valueOf, Registry.samples, Registry.add, Registry.update, sampleId]

/-! ## The text of an identifier -/

/-- The text of one label in an identifier: its name, `="`, its value and `"`. -/
def labelText (p : String × String) : List Char :=
  p.1.toList ++ '=' :: '\x22' :: (p.2.toList ++ ['\x22'])

/-- The labels sorted by name, as an identifier lists them. -/
def sortedLabels (labels : List (String × String)) : List (String × String) :=
  labels.mergeSort fun a b => a.1 ≤ b.1

/-- The text of sorted labels after the `{` of an identifier, its closing `}` included. -/
def labelsText (ps : List (String × String)) : List Char :=
  List.intercalate [','] (ps.map labelText) ++ ['\x7d']

theorem toList_sampleId (name : String) (labels : List (String × String)) :
    (sampleId name labels).toList = if labels = [] then name.toList else
      name.toList ++ '\x7b' :: labelsText (sortedLabels labels) := by
  unfold sampleId
  cases labels with
  | nil => simp
  | cons p ps =>
    simp [String.toList_append, String.toList_intercalate, List.map_map, Function.comp_def]
    unfold labelsText sortedLabels
    rfl

theorem labelsText_singleton (p : String × String) : labelsText [p] = labelText p ++ ['\x7d'] := by
  simp [labelsText]

theorem labelsText_cons_cons (p q : String × String) (ps : List (String × String)) :
    labelsText (p :: q :: ps) = labelText p ++ ',' :: labelsText (q :: ps) := by
  simp [labelsText]

/-! ## Reading an identifier back -/

/-- A list splits uniquely at the first occurrence of an element that neither front holds. -/
theorem append_cons_cancel {α : Type} {c : α} :
    ∀ {x₁ x₂ y₁ y₂ : List α}, c ∉ x₁ → c ∉ x₂ → x₁ ++ c :: y₁ = x₂ ++ c :: y₂ → x₁ = x₂ ∧ y₁ = y₂
  | [], [], _, _, _, _, h => ⟨rfl, by simpa using h⟩
  | [], d :: x₂, _, _, _, h₂, h => by
    rw [List.nil_append, List.cons_append] at h
    obtain ⟨rfl, -⟩ := List.cons_eq_cons.1 h
    exact absurd List.mem_cons_self h₂
  | d :: x₁, [], _, _, h₁, _, h => by
    rw [List.nil_append, List.cons_append] at h
    obtain ⟨rfl, -⟩ := List.cons_eq_cons.1 h
    exact absurd List.mem_cons_self h₁
  | a :: x₁, b :: x₂, _, _, h₁, h₂, h => by
    rw [List.cons_append, List.cons_append] at h
    obtain ⟨rfl, htail⟩ := List.cons_eq_cons.1 h
    obtain ⟨rfl, rfl⟩ := append_cons_cancel (List.not_mem_of_not_mem_cons h₁)
      (List.not_mem_of_not_mem_cons h₂) htail
    exact ⟨rfl, rfl⟩

/-- A label whose text reads back: no `=` in its name, no `"` in its value. -/
def PlainLabel (p : String × String) : Prop :=
  '=' ∉ p.1.toList ∧ '\x22' ∉ p.2.toList

theorem labelText_append_inj {p q : String × String} (hp : PlainLabel p) (hq : PlainLabel q)
    {x y : List Char} (h : labelText p ++ x = labelText q ++ y) : p = q ∧ x = y := by
  simp only [labelText, List.append_assoc, List.cons_append] at h
  -- the name ends at the first `=`, the value at the next `"`
  obtain ⟨hname, h⟩ := append_cons_cancel hp.1 hq.1 h
  obtain ⟨hvalue, h⟩ := append_cons_cancel hp.2 hq.2 (List.cons_eq_cons.1 h).2
  exact ⟨Prod.ext (String.toList_injective hname) (String.toList_injective hvalue), by simpa using h⟩

theorem labelsText_inj : ∀ {ps qs : List (String × String)}, ps ≠ [] → qs ≠ [] →
    (∀ p ∈ ps, PlainLabel p) → (∀ q ∈ qs, PlainLabel q) → labelsText ps = labelsText qs → ps = qs
  | [p], [q], _, _, hp, hq, h => by
    rw [labelsText_singleton, labelsText_singleton] at h
    rw [(labelText_append_inj (hp p List.mem_cons_self) (hq q List.mem_cons_self) h).1]
  | [p], q :: q' :: qs, _, _, hp, hq, h => by
    rw [labelsText_singleton, labelsText_cons_cons] at h
    have := (labelText_append_inj (hp p List.mem_cons_self) (hq q List.mem_cons_self) h).2
    simp at this
  | p :: p' :: ps, [q], _, _, hp, hq, h => by
    rw [labelsText_singleton, labelsText_cons_cons] at h
    have := (labelText_append_inj (hp p List.mem_cons_self) (hq q List.mem_cons_self) h).2
    simp at this
  | p :: p' :: ps, q :: q' :: qs, _, _, hp, hq, h => by
    rw [labelsText_cons_cons, labelsText_cons_cons] at h
    obtain ⟨rfl, htail⟩ := labelText_append_inj (hp p List.mem_cons_self) (hq q List.mem_cons_self) h
    rw [labelsText_inj (List.cons_ne_nil _ _) (List.cons_ne_nil _ _)
      (fun r hr => hp r (List.mem_cons_of_mem _ hr)) (fun r hr => hq r (List.mem_cons_of_mem _ hr))
      (List.cons_eq_cons.1 htail).2]

/-- A name and labels whose identifier reads back: no `{` in the name, and every label plain. -/
def Plain (name : String) (labels : List (String × String)) : Prop :=
  '\x7b' ∉ name.toList ∧ ∀ p ∈ labels, PlainLabel p

instance (p : String × String) : Decidable (PlainLabel p) :=
  inferInstanceAs (Decidable (_ ∧ _))

instance (name : String) (labels : List (String × String)) : Decidable (Plain name labels) :=
  inferInstanceAs (Decidable (_ ∧ _))

theorem perm_sortedLabels (labels : List (String × String)) : (sortedLabels labels).Perm labels :=
  List.mergeSort_perm _ _

theorem sortedLabels_ne_nil {labels : List (String × String)} (h : labels ≠ []) :
    sortedLabels labels ≠ [] := by
  intro hnil
  have hperm := (perm_sortedLabels labels).symm
  rw [hnil] at hperm
  exact h hperm.eq_nil

/-- Plain names and labels with one identifier have one name, and their labels are the same
up to order. -/
theorem sampleId_inj {n₁ n₂ : String} {l₁ l₂ : List (String × String)} (h₁ : Plain n₁ l₁)
    (h₂ : Plain n₂ l₂) (h : sampleId n₁ l₁ = sampleId n₂ l₂) : n₁ = n₂ ∧ l₁.Perm l₂ := by
  have htext := congrArg String.toList h
  rw [toList_sampleId, toList_sampleId] at htext
  by_cases e₁ : l₁ = [] <;> by_cases e₂ : l₂ = [] <;> simp only [e₁, e₂, if_true, if_false] at htext
  · exact ⟨String.toList_injective htext, by rw [e₁, e₂]⟩
  · -- a bare name holds no `{`, a labelled identifier does
    exact absurd (htext ▸ List.mem_append_right _ List.mem_cons_self) h₁.1
  · exact absurd (htext.symm ▸ List.mem_append_right _ List.mem_cons_self) h₂.1
  · obtain ⟨hname, hlabels⟩ := append_cons_cancel h₁.1 h₂.1 htext
    have hsorted := labelsText_inj (sortedLabels_ne_nil e₁) (sortedLabels_ne_nil e₂)
      (fun p hp => h₁.2 p ((perm_sortedLabels l₁).mem_iff.1 hp))
      (fun q hq => h₂.2 q ((perm_sortedLabels l₂).mem_iff.1 hq)) hlabels
    have hperm₂ := perm_sortedLabels l₂
    rw [← hsorted] at hperm₂
    exact ⟨String.toList_injective hname, (perm_sortedLabels l₁).symm.trans hperm₂⟩

/-! ## Label order -/

/-- Labels with distinct names, listed in two orders, sort to one list. -/
theorem sortedLabels_eq_of_perm {l₁ l₂ : List (String × String)} (hp : l₁.Perm l₂)
    (hkeys : (l₁.map Prod.fst).Nodup) : sortedLabels l₁ = sortedLabels l₂ := by
  have htrans : ∀ a b c : String × String, decide (a.1 ≤ b.1) = true → decide (b.1 ≤ c.1) = true →
      decide (a.1 ≤ c.1) = true := by
    simp only [decide_eq_true_eq]
    exact fun _ _ _ => le_trans
  have htotal : ∀ a b : String × String, (decide (a.1 ≤ b.1) || decide (b.1 ≤ a.1)) = true := by
    simpa using fun a b : String × String => le_total a.1 b.1
  apply List.Perm.eq_of_pairwise _ (List.pairwise_mergeSort htrans htotal l₁)
    (List.pairwise_mergeSort htrans htotal l₂)
    ((perm_sortedLabels l₁).trans (hp.trans (perm_sortedLabels l₂).symm))
  -- labels of one list with the same name are the same label
  intro a b ha hb hab hba
  have hname : a.1 = b.1 := le_antisymm (by simpa using hab) (by simpa using hba)
  exact List.inj_on_of_nodup_map hkeys ((perm_sortedLabels l₁).mem_iff.1 ha)
    (hp.mem_iff.2 ((perm_sortedLabels l₂).mem_iff.1 hb)) hname

theorem sampleId_congr (name : String) {l₁ l₂ : List (String × String)} (hp : l₁.Perm l₂)
    (hkeys : (l₁.map Prod.fst).Nodup) : sampleId name l₁ = sampleId name l₂ := by
  have hempty : l₁.isEmpty = l₂.isEmpty := hp.isEmpty_eq
  have hsorted := sortedLabels_eq_of_perm hp hkeys
  unfold sampleId sortedLabels at *
  rw [hempty, hsorted]

/-! ## Answers of the registry -/

namespace Registry

/-- The registry answers the value of a series whose identifier is the one asked for, or zero
when no series has it. -/
theorem valueOf_cases (r : Registry) (name : String) (labels : List (String × String)) :
    (∃ s ∈ r.series, sampleId s.name s.labels = sampleId name labels ∧ r.valueOf name labels = s.value) ∨
      (r.valueOf name labels = 0 ∧ ∀ s ∈ r.series, sampleId s.name s.labels ≠ sampleId name labels) := by
  have hperm := List.mergeSort_perm (r.series.map fun s => (sampleId s.name s.labels, s.value))
    fun a b => a.1 ≤ b.1
  unfold valueOf
  cases hfind : r.samples.find? (·.1 == sampleId name labels) with
  | some sample =>
    obtain ⟨i, v⟩ := sample
    have hmem := hperm.mem_iff.1 (List.mem_of_find?_eq_some hfind)
    obtain ⟨s, hs, hsv⟩ := List.mem_map.1 hmem
    have hid : i = sampleId name labels := by simpa using List.find?_some hfind
    obtain ⟨rfl, rfl⟩ := Prod.mk.inj hsv
    exact .inl ⟨s, hs, hid, rfl⟩
  | none =>
    refine .inr ⟨rfl, fun s hs heq => ?_⟩
    have hmem : (sampleId s.name s.labels, s.value) ∈ r.samples :=
      hperm.mem_iff.2 (List.mem_map_of_mem hs)
    simpa [heq] using List.find?_eq_none.1 hfind _ hmem

end Registry

/-- Plain names and labels share an identifier exactly when they have one name and one label set,
up to order, once the labels name each label once. -/
theorem sampleId_eq_iff {n₁ n₂ : String} {l₁ l₂ : List (String × String)} (h₁ : Plain n₁ l₁)
    (h₂ : Plain n₂ l₂) (hkeys : (l₁.map Prod.fst).Nodup) :
    sampleId n₁ l₁ = sampleId n₂ l₂ ↔ n₁ = n₂ ∧ l₁.Perm l₂ := by
  refine ⟨sampleId_inj h₁ h₂, ?_⟩
  rintro ⟨rfl, hperm⟩
  exact sampleId_congr n₁ hperm hkeys

/-- Identifiers of plain names and labels are unambiguous: over series and a request that are
plain and name each label once, a series has the requested identifier exactly when it has the
name and labels asked for, up to the order the labels are listed in, and the registry answers the
value of such a series, or zero when there is none. -/
theorem plain_sampleId_unambiguous (r : Registry) (name : String) (labels : List (String × String))
    (hseries : ∀ s ∈ r.series, Plain s.name s.labels ∧ (s.labels.map Prod.fst).Nodup)
    (hplain : Plain name labels) :
    (∀ s ∈ r.series, sampleId s.name s.labels = sampleId name labels ↔
      s.name = name ∧ s.labels.Perm labels) ∧
    ((∃ s ∈ r.series, s.name = name ∧ s.labels.Perm labels ∧ r.valueOf name labels = s.value) ∨
      (r.valueOf name labels = 0 ∧ ∀ s ∈ r.series, ¬(s.name = name ∧ s.labels.Perm labels))) := by
  have hid : ∀ s ∈ r.series, sampleId s.name s.labels = sampleId name labels ↔
      s.name = name ∧ s.labels.Perm labels :=
    fun s hs => sampleId_eq_iff (hseries s hs).1 hplain (hseries s hs).2
  refine ⟨hid, ?_⟩
  rcases r.valueOf_cases name labels with ⟨s, hs, hsid, hv⟩ | ⟨hv, hnone⟩
  · obtain ⟨hname, hlabels⟩ := (hid s hs).1 hsid
    exact .inl ⟨s, hs, hname, hlabels, hv⟩
  · exact .inr ⟨hv, fun s hs hsame => hnone s hs ((hid s hs).2 hsame)⟩

/-- After one rotation of the user partition, asking for the rotations of the user partition. -/
theorem plain_sampleId_unambiguous_rotation :
    (∀ s ∈ (({} : Registry).recordRotation "user").series,
        Plain s.name s.labels ∧ (s.labels.map Prod.fst).Nodup) ∧
      Plain "nvs_sector_rotations_total" [("partition", "user")] ∧
      (∀ s ∈ (({} : Registry).recordRotation "user").series,
        sampleId s.name s.labels = sampleId "nvs_sector_rotations_total" [("partition", "user")] ↔
          s.name = "nvs_sector_rotations_total" ∧ s.labels.Perm [("partition", "user")]) ∧
      ((∃ s ∈ (({} : Registry).recordRotation "user").series,
          s.name = "nvs_sector_rotations_total" ∧ s.labels.Perm [("partition", "user")] ∧
          (({} : Registry).recordRotation "user").valueOf "nvs_sector_rotations_total"
            [("partition", "user")] = s.value) ∨
        ((({} : Registry).recordRotation "user").valueOf "nvs_sector_rotations_total"
            [("partition", "user")] = 0 ∧
          ∀ s ∈ (({} : Registry).recordRotation "user").series,
            ¬(s.name = "nvs_sector_rotations_total" ∧ s.labels.Perm [("partition", "user")]))) := by
  have hseries : ∀ s ∈ (({} : Registry).recordRotation "user").series,
      Plain s.name s.labels ∧ (s.labels.map Prod.fst).Nodup := by
    simp [Registry.recordRotation, Registry.add, Registry.update]
    decide
  have hplain : Plain "nvs_sector_rotations_total" [("partition", "user")] := by decide
  exact ⟨hseries, hplain, plain_sampleId_unambiguous _ _ _ hseries hplain⟩

end NorStore.Metrics
