import CoEmbed.Command.Train
import CoEmbed.Proofs.Threshold

/-!
# The Latest Time

A log for which no day is given is cut off right after its latest time, and so nothing is cut off
that has a time at all.

* `later_cases` — which of two times is the later one.
* `Tops`, `tops_of_foldlM_later` — a time that none of some others is later than.
* `lt_of_latest` — all times are before the whole number after the latest one.
* `isExact_of_cutoffText` — a cut-off that can be shown is compared as it is.
* `isBelow_of_lt` — what stands before such a cut-off is found to be before it.
* `early_of_latest` — a log that is cut off after its latest time keeps each row with a time.

## Time convention

A time is a number, and a missing one has no place on the line. No column with a text in it can be
compared with a cut-off, so where a log has been cut off there were none.
-/

namespace CoEmbed

open Numeral (Valued)

variable {α : Type} [Numeral α]

/-! ### The latest of some times -/

/-- The later of two times is the second one exactly if the first is **under it**. -/
theorem later_cases {m t m' : Setting α} (h : later m t = .ok m') :
    m' = t ∧ m.under t = .ok true ∨ m' = m ∧ m.under t = .ok false := by
  rw [later] at h
  cases hunder : m.under t with
  | error e =>
      rw [hunder] at h
      cases h
  | ok isUnder =>
      rw [hunder] at h
      obtain rfl := Except.ok.inj h
      cases isUnder with
      | true => exact .inl ⟨rfl, rfl⟩
      | false => exact .inr ⟨rfl, rfl⟩

variable [Valued α]

/-- A time that **none of some others is later than**, if it is a number. -/
structure Tops (m : Setting α) (times : List (Setting α)) : Prop where
  mem : m ∈ times
  le : ∀ u ∈ times, ∀ a b, u.value? = some a → m.value? = some b → a ≤ b

/-- The later of the latest time so far and another one is **the latest time** of all. -/
theorem Tops.later {m t m' : Setting α} {times : List (Setting α)} (h : Tops m times)
    (hm : later m t = .ok m') (htext : ∀ s, m ≠ .text s) : Tops m' (times ++ [t]) := by
  rcases later_cases hm with ⟨rfl, hunder⟩ | ⟨rfl, hunder⟩
  · refine ⟨List.mem_append_right _ (List.mem_singleton_self m'), fun u hu a b ha hb => ?_⟩
    cases hc : m.value? with
    | none =>
        -- nothing is under what is not a number, and that is under nothing
        rw [Setting.under, Setting.isNothing_of_value?_eq_none hc htext] at hunder
        cases hunder
    | some c =>
        obtain ⟨isUnder, hok, hiff⟩ := Setting.under_eq_ok hc hb
        obtain rfl := Except.ok.inj (hunder.symm.trans hok)
        rcases List.mem_append.1 hu with hu | hu
        · exact (h.le u hu a c ha hc).trans (hiff.1 rfl).le
        · obtain rfl := List.mem_singleton.1 hu
          exact (Option.some.inj (ha.symm.trans hb)).le
  · refine ⟨List.mem_append_left _ h.mem, fun u hu a b ha hb => ?_⟩
    rcases List.mem_append.1 hu with hu | hu
    · exact h.le u hu a b ha hb
    · obtain rfl := List.mem_singleton.1 hu
      obtain ⟨isUnder, hok, hiff⟩ := Setting.under_eq_ok hb ha
      obtain rfl := Except.ok.inj (hunder.symm.trans hok)
      exact not_lt.1 fun hlt => Bool.false_ne_true (hiff.2 hlt)

/-- The latest time of a list **tops it**. -/
theorem tops_of_foldlM_later {m m' : Setting α} {seen ts : List (Setting α)} (h : Tops m seen)
    (hm : ts.foldlM later m = .ok m') (htext : ∀ v ∈ seen ++ ts, ∀ s, v ≠ .text s) :
    Tops m' (seen ++ ts) := by
  induction ts generalizing m seen with
  | nil =>
      obtain rfl := Except.ok.inj hm
      rwa [List.append_nil]
  | cons t ts ih =>
      rw [List.foldlM_cons] at hm
      obtain ⟨m₁, hm₁, hm⟩ := bind_eq_ok_iff.1 hm
      rw [List.append_cons] at htext ⊢
      refine ih (h.later hm₁ (htext m ?_)) hm htext
      exact List.mem_append_left _ (List.mem_append_left _ h.mem)

/-- What has a whole number is **less than one above it**. -/
theorem Setting.lt_of_whole {m : Setting α} {k : ℤ} (h : m.whole = .ok k)
    (htext : ∀ s, m ≠ .text s) : ∃ b, m.value? = some b ∧ b < ((k + 1 : ℤ) : ℝ) := by
  cases m with
  | absent => cases h
  | text s => exact absurd rfl (htext s)
  | flag c =>
      obtain rfl := Except.ok.inj h
      refine ⟨_, rfl, EReal.coe_lt_coe_iff.2 (Int.cast_lt.2 ?_)⟩
      cases c <;> decide
  | integer n =>
      obtain rfl := Except.ok.inj h
      exact ⟨_, rfl, EReal.coe_lt_coe_iff.2 (Int.cast_lt.2 (Int.lt_succ n))⟩
  | real x =>
      simp only [whole] at h
      split at h
      · next hx =>
          obtain rfl := Except.ok.inj h
          obtain ⟨r, hr, htruncate, -⟩ := Valued.truncate hx
          refine ⟨Valued.value x, by rw [value?, hx, if_neg (Option.some_ne_none _).symm], ?_⟩
          rw [hr, htruncate]
          exact EReal.coe_lt_coe_iff.2 (lt_towardZero_add_one r)
      · cases h
      · cases h

/-- All times of a column are **before the whole number after the latest one**. -/
theorem lt_of_latest {times : List (Setting α)} {k : ℤ} (h : latest times = .ok k)
    (htext : ∀ v ∈ times, ∀ s, v ≠ .text s) {u : Setting α} (hu : u ∈ times) {a : EReal}
    (ha : u.value? = some a) : a < ((k + 1 : ℤ) : ℝ) := by
  rw [latest] at h
  have hpresent : u ∈ times.filter fun t => !t.isAbsent := by
    refine List.mem_filter.2 ⟨hu, ?_⟩
    cases u with
    | absent => cases ha
    | flag b => rfl
    | integer n => rfl
    | real x => rfl
    | text s => rfl
  cases htimes : times.filter fun t => !t.isAbsent with
  | nil =>
      rw [htimes] at hpresent
      cases hpresent
  | cons t ts =>
      rw [htimes] at h hpresent
      obtain ⟨m, hm, hwhole⟩ := bind_eq_ok_iff.1 h
      have htext' : ∀ v ∈ t :: ts, ∀ s, v ≠ .text s := fun v hv =>
        htext v (List.mem_filter.1 (htimes ▸ hv)).1
      have htop : Tops m ([t] ++ ts) := by
        refine tops_of_foldlM_later ⟨List.mem_singleton_self t, fun u hu a b ha hb => ?_⟩ hm htext'
        obtain rfl := List.mem_singleton.1 hu
        exact (Option.some.inj (ha.symm.trans hb)).le
      obtain ⟨b, hb, hlt⟩ := Setting.lt_of_whole hwhole (htext' m htop.mem)
      exact (htop.le u hpresent a b ha hb).trans_lt hlt

/-! ### The cut-off after the latest time -/

/-- A cut-off that can be shown is **exact**. -/
theorem isExact_of_cutoffText {c : ℤ} {shown : String} (h : cutoffText c = .ok shown) :
    IsExact c := by
  rw [cutoffText, timeText?] at h
  by_cases hnone : c = noTime
  · exact .inr hnone
  · rw [if_neg hnone] at h
    by_cases hshown : c.natAbs ≤ lastShown
    · exact .inl (hshown.trans (by decide))
    · rw [if_neg hshown] at h
      cases h

/-- What stands below an exact whole number **comes before it**. -/
theorem Setting.before_of_lt {u : Setting α} {a : EReal} (ha : u.value? = some a) {c : ℤ}
    (hc : IsExact c) (h : a < (c : ℝ)) : u.before (.integer c) = .ok true := by
  have hlt : ∀ x : α, Scalar.exceptional? x ≠ some .notANumber → Valued.value x = a →
      Scalar.lt x (Scalar.ofInt c) = true := by
    rintro x hx rfl
    obtain ⟨hnumber, hvalue⟩ := Valued.ofInt (α := α) hc
    exact Valued.lt_iff.2 ⟨hx, hnumber.trans_ne (Option.some_ne_none _).symm, by rwa [hvalue]⟩
  cases u with
  | absent => cases ha
  | text s => cases ha
  | flag b =>
      obtain rfl := Option.some.inj ha
      cases b with
      | true =>
          obtain ⟨hnumber, hvalue⟩ := Valued.one (α := α)
          exact congrArg Except.ok (hlt 1 (hnumber.trans_ne (Option.some_ne_none _).symm)
            (by rw [hvalue]; simp))
      | false =>
          obtain ⟨hnumber, hvalue⟩ := Valued.zero (α := α)
          exact congrArg Except.ok (hlt 0 (hnumber.trans_ne (Option.some_ne_none _).symm)
            (by rw [hvalue]; simp))
  | integer n =>
      obtain rfl := Option.some.inj ha
      exact congrArg Except.ok (decide_eq_true (Int.cast_lt.1 (EReal.coe_lt_coe_iff.1 h)))
  | real x =>
      rw [value?] at ha
      split at ha
      · cases ha
      · next hx => exact congrArg Except.ok (hlt x hx (Option.some.inj ha))

/-- What stands below an exact whole number **is found below it**, whatever column it stands in. -/
theorem isBelow_of_lt (column : List (Setting α)) {u : Setting α} {a : EReal}
    (ha : u.value? = some a) {c : ℤ} (hc : IsExact c) (h : a < (c : ℝ)) :
    IsBelow column u (.integer c) := by
  have hbefore := Setting.before_of_lt ha hc h
  rw [IsBelow]
  split
  · exact hbefore
  · exact hbefore
  · exact hbefore
  · obtain ⟨isUnder, hok, hiff⟩ := Setting.under_eq_ok (w := .integer c) ha rfl
    rw [hok, hiff.2 h]

/-- **A log for which no day is given loses no row with a time.** It is cut off after its latest
time, and that cut-off is compared as it is. -/
theorem early_of_latest [Machine] {f : Frame α} {day : Option String}
    (hday : day = none ∨ day = some "") {cutoff : ℤ} (hcutoff : cutoffTime day f = .ok cutoff)
    {shown : String} (hshown : cutoffText cutoff = .ok shown) {times : List (Setting α)}
    (htimes : f.column (.text "unixReviewTime") = .ok times) {mask : List Bool}
    (hmask : below times (.integer cutoff) = .ok mask) {k : ℕ} {u : Setting α}
    (hu : times[k]? = some u) (hpresent : u.isNothing = false) : mask[k]? = some true := by
  have hmem : u ∈ times := List.mem_of_getElem? hu
  have htext : ∀ v ∈ times, ∀ s, v ≠ .text s := fun v hv => ne_text_of_below hmask hv
  have hlast : (do return (← latest (← f.column (.text "unixReviewTime"))) + 1) = .ok cutoff := by
    rcases hday with rfl | rfl <;> exact hcutoff
  obtain ⟨times', htimes', hlast⟩ := bind_eq_ok_iff.1 hlast
  obtain rfl : times' = times := Except.ok.inj (htimes'.symm.trans htimes)
  obtain ⟨last, hlatest, hlast⟩ := bind_eq_ok_iff.1 hlast
  obtain rfl : last + 1 = cutoff := Except.ok.inj hlast
  cases ha : u.value? with
  | none =>
      rw [Setting.isNothing_of_value?_eq_none ha (htext u hmem)] at hpresent
      cases hpresent
  | some a =>
      refine ((below_eq_ok hmask).2 k u hu).2 ?_
      exact isBelow_of_lt _ ha (isExact_of_cutoffText hshown) (lt_of_latest hlatest htext hmem ha)

end CoEmbed
