import CoEmbed.Proofs.Placeholders
import CoEmbed.Proofs.Run

/-!
# Pairs that can be Scored

Whether a held-out pair has a validation loss depends on the tables alone: on the rows of its
user and its item, and for the rank metric on the items that the user has not had.

* `Training.Scorable` — a pair that a validation can score.
* `Model.mem_candidates_unseen` — the items that a pair may be compared with.
* `Model.validate_of_not_scorable` — other pairs have no loss.
* `Model.validate_of_scorable` — a pair that can be scored has one, unless it is a fault.
-/

namespace CoEmbed

variable {ρ α : Type} {n : ℕ}

/-! ### Pairs that can be scored -/

/-- A validation can **score** a pair of a user and an item: both have a row, and for the rank
metric there is another item that the user has not had. -/
structure Training.Scorable (t : Training ρ) (metric : Metric) (p : Key × Key) : Prop where
  user : p.1 ∈ t.userItems
  item : p.2 ∈ t.itemUsers
  other : metric = .auc →
    ∃ j ∈ t.itemUsers, j ≠ p.2 ∧ j ∉ (t.userItems.get? p.1).getD []

/-- Keys are drawn **among the candidates**, as many as are asked for or as there are. -/
theorem drawNegatives_eq_ok [Machine] {κ : Type} [DecidableEq κ] {negatives : ℤ}
    {positives known : List κ} {s : Source} {r : List κ × Source}
    (h : drawNegatives negatives positives known s = .ok r) :
    r.1.length = min negatives.toNat (candidates positives known).length ∧
      ∀ k ∈ r.1, k ∈ candidates positives known := by
  rw [drawNegatives, drawCount] at h
  by_cases hneg : negatives < 0
  · rw [if_pos hneg] at h
    cases h
  · rw [if_neg hneg] at h
    obtain rfl := Except.ok.inj h
    obtain ⟨hlength, -, hmem⟩ := Machine.legal.drawBy (nodup_candidates positives known)
      (Nat.min_le_right negatives.toNat _) s
    exact ⟨hlength, hmem⟩

namespace Model

/-- A model that has recorded **the items of each user** in its tables. -/
def Remembers (m : Model α n) (t : Training ρ) : Prop :=
  ∀ u ∈ t.userItems, m.histories.get? u = t.userItems.get? u

theorem Remembers.of_frame {m m' : Model α n} {t : Training ρ} (hr : m.Remembers t)
    (h : m.Frame m') : m'.Remembers t := fun u hu => by rw [h.histories, hr u hu]

/-- The candidates of a pair are the **other items** that the user has not had. -/
theorem mem_candidates_unseen {m : Model α n} {t : Training ρ} (hm : m.Covers t)
    (hr : m.Remembers t) {u : Key} (hu : u ∈ t.userItems) (i j : Key) :
    j ∈ candidates [i] (m.unseen u)
      ↔ j ∈ t.itemUsers ∧ j ≠ i ∧ j ∉ (t.userItems.get? u).getD [] := by
  rw [candidates, List.mem_filter, mem_distinct, unseen, List.mem_filter, hr u hu,
    ← Table.mem_iff, hm.beta j, decide_eq_true_iff, decide_eq_true_iff, List.mem_singleton]
  constructor
  · rintro ⟨⟨hj, hseen⟩, hne⟩
    exact ⟨hj, hne, hseen⟩
  · rintro ⟨hj, hne, hseen⟩
    exact ⟨⟨hj, hseen⟩, hne⟩

/-- The items that a pair is compared with are **candidates** of the pair. -/
theorem negativesFor_eq_ok [Machine] {m : Model α n} {u i : Key} {r : List Key × Source}
    (h : m.negativesFor u i = .ok r) :
    r.1.length = min m.hyper.negatives.toNat (candidates [i] (m.unseen u)).length ∧
      ∀ k ∈ r.1, k ∈ candidates [i] (m.unseen u) := by
  rw [negativesFor] at h
  obtain ⟨-, -, h⟩ := bind_eq_ok_iff.1 h
  exact drawNegatives_eq_ok h

variable [Scalar α]

/-- A loss that has to be finite is there, or a fault is. -/
theorem finiteLoss_ne_none (u i : Key) (x : α) : finiteLoss u i x ≠ .ok none := by
  rw [finiteLoss]
  split <;> nofun

/-- A score is compared with no other one only if **no item** is sampled that has a vector. -/
theorem rankLoss_eq_none {m : Model α n} {u i : Key} {x : α} {v : Vec α n} {ks : List Key}
    (h : m.rankLoss u i x v ks = .ok none) : m.scores v ks = [] := by
  rw [rankLoss] at h
  split at h
  · cases h
  · split at h
    · next hauc =>
        rw [auc] at hauc
        split at hauc
        · next hempty => simpa using hempty
        · cases hauc
    · exact absurd h (finiteLoss_ne_none u i _)

/-- Without sampled items there is nothing to compare with. -/
theorem rankLoss_nil (m : Model α n) (u i : Key) (x : α) (v : Vec α n) :
    m.rankLoss u i x v [] = .ok none := rfl

/-- A validation gives **no loss** to a pair that cannot be scored. -/
theorem validate_of_not_scorable [Machine] {m : Model α n} {t : Training ρ} (hm : m.Covers t)
    (hr : m.Remembers t) {p : Key × Key} (hp : ¬ t.Scorable m.hyper.metric p) (x : α) :
    (m.validate p.1 p.2).1 ≠ .ok (some x) := by
  intro h
  rw [validate] at h
  cases hu : m.theta.get? p.1 with
  | none =>
      simp only [hu] at h
      cases h
  | some u =>
      cases hv : m.beta.get? p.2 with
      | none =>
          simp only [hu, hv] at h
          cases h
      | some v =>
          have huser := (hm.theta p.1).1 (Table.mem_of_get? hu)
          have hitem := (hm.beta p.2).1 (Table.mem_of_get? hv)
          simp only [hu, hv] at h
          split at h
          · cases h
          · cases hmetric : m.hyper.metric with
            | objective =>
                exact hp ⟨huser, hitem, fun hauc => by rw [hmetric] at hauc; cases hauc⟩
            | auc =>
                have hempty : candidates [p.2] (m.unseen p.1) = [] := by
                  rw [List.eq_nil_iff_forall_not_mem]
                  intro j hj
                  have hcand := (mem_candidates_unseen hm hr huser p.2 j).1 hj
                  exact hp ⟨huser, hitem, fun _ => ⟨j, hcand⟩⟩
                simp only [hmetric] at h
                cases hdraw : m.negativesFor p.1 p.2 with
                | error f =>
                    simp only [hdraw] at h
                    cases h
                | ok r =>
                    have hnil : r.1 = [] := by
                      have hlen := (negativesFor_eq_ok hdraw).1
                      rw [hempty, List.length_nil, Nat.min_zero] at hlen
                      exact List.eq_nil_of_length_eq_zero hlen
                    obtain ⟨ks, s⟩ := r
                    obtain rfl : ks = [] := hnil
                    simp only [hdraw, rankLoss_nil] at h
                    cases h

/-- A pair that can be scored **has a loss**, or its validation is a fault. -/
theorem validate_of_scorable [Machine] {m : Model α n} {t : Training ρ} (hm : m.Covers t)
    (hr : m.Remembers t) (hneg : m.hyper.metric = .auc → 1 ≤ m.hyper.negatives) {p : Key × Key}
    (hp : t.Scorable m.hyper.metric p) : (m.validate p.1 p.2).1 ≠ .ok none := by
  intro h
  obtain ⟨u, hu⟩ := Table.exists_get? ((hm.theta p.1).2 hp.user)
  obtain ⟨v, hv⟩ := Table.exists_get? ((hm.beta p.2).2 hp.item)
  rw [validate] at h
  simp only [hu, hv] at h
  split at h
  · cases h
  · cases hmetric : m.hyper.metric with
    | objective =>
        simp only [hmetric, errorLoss] at h
        obtain ⟨e, -, h⟩ := bind_eq_ok_iff.1 h
        exact finiteLoss_ne_none _ _ _ h
    | auc =>
        simp only [hmetric] at h
        cases hdraw : m.negativesFor p.1 p.2 with
        | error f =>
            simp only [hdraw] at h
            cases h
        | ok r =>
            simp only [hdraw] at h
            obtain ⟨j, hj⟩ := hp.other hmetric
            have hcand := (mem_candidates_unseen hm hr hp.user p.2 j).2 hj
            obtain ⟨hlen, hsub⟩ := negativesFor_eq_ok hdraw
            have hpos := List.length_pos_of_mem hcand
            have hone := hneg hmetric
            have hne : r.1 ≠ [] := fun hnil => by
              rw [hnil, List.length_nil] at hlen
              omega
            obtain ⟨k, hk⟩ := List.exists_mem_of_ne_nil _ hne
            have hitem := ((mem_candidates_unseen hm hr hp.user p.2 k).1 (hsub k hk)).1
            obtain ⟨w, hw⟩ := Table.exists_get? ((hm.beta k).2 hitem)
            have hscore : Vec.dot u w ∈ m.scores u r.1 :=
              List.mem_filterMap.2 ⟨k, hk, by rw [hw]; rfl⟩
            rw [rankLoss_eq_none h] at hscore
            exact absurd hscore List.not_mem_nil

end Model

end CoEmbed
