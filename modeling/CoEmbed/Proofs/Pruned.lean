import CoEmbed.Proofs.Floating.Zeros
import CoEmbed.Proofs.Operation
import CoEmbed.Proofs.Strangers
import CoEmbed.Proofs.Trail

/-!
# Stale References

Tables may name users and items that a model does not know. The model learns from such tables
what it would learn from the same tables without the strangers.

* `Training.knownTo` — the tables without the rows of strangers, and without strangers in the
  rows of the others.
* `Model.Follows` — two models that differ in what they have counted, and in nothing else.
* `Model.follows_updateUsers`, `Model.follows_updateItems`, `Model.loss_knownTo` — sweeps and
  losses, with the strangers and without them.
* `strangers_have_no_effect` — what holds of every model that can be reached.

## Fault convention

A sweep that fails with the strangers fails without them too, with the same fault and after the
same steps.
-/

namespace CoEmbed

open Scalar (FaintZeros)

variable {ρ α : Type} {n : ℕ}

/-- The tables **without strangers**: a row stays if its own key is known, and lists those of its
keys that are known, in their order. -/
def Training.knownTo (t : Training ρ) (m : Model α n) : Training ρ where
  userItems := t.userItems.restrict (fun u => decide (u ∈ m.theta)) m.beta.among
  itemUsers := t.itemUsers.restrict (fun i => decide (i ∈ m.beta)) m.theta.among
  rows := t.rows.restrict (fun i => decide (i ∈ m.beta)) m.beta.amongEntries
  heldOut := t.heldOut

namespace Model

/-- Some row lists **strangers alone**. -/
def HasStrangeRow (m : Model α n) (rows : Table Key (Row ρ)) : Prop :=
  ∃ row ∈ rows.values, row ≠ [] ∧ ∀ e ∈ row, e.1 ∉ m.beta

/-- Two models that have kept the keys of `m₀`, and are the same **but for their counters**. -/
structure Follows (m₀ m m' : Model α n) : Prop where
  frame : m₀.Frame m
  counters : ∃ c, m' = m.withCounters c

theorem Follows.refl (m : Model α n) : m.Follows m m := ⟨Frame.refl m, m.counters, rfl⟩

/-- A step that keeps all keys, taken with **other counters**. -/
theorem Follows.of_map {m₀ : Model α n} {o : Outcome (Model α n)} (h : m₀.Frame o.state)
    (c : Counters) : Outcome.Agree m₀.Follows o (o.map fun m => m.withCounters c) :=
  ⟨rfl, h, c, rfl⟩

section

variable [Scalar α] [Operand ρ α]

/-! ### Rows without strangers -/

theorem updateBeta_among [FaintZeros α] (background : Mat α n n) (m : Model α n) (i : Key)
    (raters : List Key) (row : Row ρ) :
    updateBeta background m i (m.theta.among raters) (m.gamma.amongEntries row)
      = updateBeta background m i raters row := by
  rw [updateBeta, newBeta_among]
  rfl

theorem updateGamma_among (m : Model α n) (i : Key) (row : Row ρ) :
    updateGamma m i (m.beta.amongEntries row) = updateGamma m i row := by
  rw [updateGamma, newGamma_among]
  rfl

/-- The first bias is paired with one table and the second with the other; the **same keys** are
known to both. -/
theorem updateBiases_among {m : Model α n} (hkeys : m.gamma.keys = m.beta.keys) (i : Key)
    (row : Row ρ) : updateBiases m i (m.beta.amongEntries row) = updateBiases m i row := by
  have hsecond : ∀ bias, newBias i (m.beta.amongEntries row) m.gamma m.beta bias m.globalBias
      = newBias i row m.gamma m.beta bias m.globalBias := by
    intro bias
    exact newBias_among i row m.gamma m.beta bias _
  rw [updateBiases, updateBiases]
  rw [← Table.amongEntries_congr hkeys, newBias_among, Table.amongEntries_congr hkeys]
  cases newBias i row m.beta m.gamma (some m.gammaBias) m.globalBias with
  | error f => rfl
  | ok o =>
      cases o with
      | none =>
          dsimp only
          rw [hsecond]
      | some b =>
          dsimp only
          rw [hsecond]

theorem updateGlobal_among {m : Model α n} (hkeys : m.gamma.keys = m.beta.keys)
    (items : List Key) (rows : Table Key (Row ρ)) :
    updateGlobal m (m.beta.among items)
        (rows.restrict (fun i => decide (i ∈ m.beta)) m.beta.amongEntries)
      = updateGlobal m items rows := by
  rw [updateGlobal, ← Table.amongEntries_congr hkeys, newGlobalBias_among]
  rfl

/-! ### Counters -/

/-! A step computes its value from the parameters alone, whatever has been counted. -/

theorem updateBeta_withCounters (background : Mat α n n) (m : Model α n) (c : Counters) (i : Key)
    (raters : List Key) (row : Row ρ) :
    updateBeta background (m.withCounters c) i raters row
      = (updateBeta background m i raters row).map fun m => m.withCounters c := by
  have hvalue : newBeta i raters row (m.withCounters c).theta (m.withCounters c).gamma
      (m.withCounters c).seenBetaBias (m.withCounters c).seenGammaBias background
      (m.withCounters c).hyper.unobserved (m.withCounters c).hyper.observed
      (m.withCounters c).globalBias = newBeta i raters row m.theta m.gamma m.seenBetaBias
      m.seenGammaBias background m.hyper.unobserved m.hyper.observed m.globalBias := rfl
  rw [updateBeta, updateBeta, hvalue]
  cases newBeta i raters row m.theta m.gamma m.seenBetaBias m.seenGammaBias background
    m.hyper.unobserved m.hyper.observed m.globalBias <;> rfl

theorem updateGamma_withCounters (m : Model α n) (c : Counters) (i : Key) (row : Row ρ) :
    updateGamma (m.withCounters c) i row
      = (updateGamma m i row).map fun m => m.withCounters c := by
  have hvalue : newGamma i row (m.withCounters c).beta (m.withCounters c).seenBetaBias
      (m.withCounters c).seenGammaBias (m.withCounters c).hyper.ridgeGamma
      (m.withCounters c).globalBias = newGamma i row m.beta m.seenBetaBias m.seenGammaBias
      m.hyper.ridgeGamma m.globalBias := rfl
  rw [updateGamma, updateGamma, hvalue]
  rcases newGamma i row m.beta m.seenBetaBias m.seenGammaBias m.hyper.ridgeGamma m.globalBias
    with f | (_ | v) <;> rfl

theorem updateBiases_withCounters (m : Model α n) (c : Counters) (i : Key) (row : Row ρ) :
    updateBiases (m.withCounters c) i row
      = (updateBiases m i row).map fun m => m.withCounters c := by
  rw [updateBiases, updateBiases]
  dsimp only [withCounters]
  rcases newBias i row m.beta m.gamma (some m.gammaBias) m.globalBias with f | (_ | b)
  · rfl
  · dsimp only
    rcases newBias i row m.gamma m.beta (some m.betaBias) m.globalBias with f | (_ | b) <;> rfl
  · dsimp only
    rcases newBias i row m.gamma m.beta (some (m.betaBias.insert i (.real b))) m.globalBias
      with f | (_ | b) <;> rfl

theorem updateGlobal_withCounters (m : Model α n) (c : Counters) (items : List Key)
    (rows : Table Key (Row ρ)) :
    updateGlobal (m.withCounters c) items rows
      = (updateGlobal m items rows).map fun m => m.withCounters c := by
  rw [updateGlobal, updateGlobal]
  refine Outcome.map_ite Iff.rfl ?_ rfl
  dsimp only [withCounters]
  rcases newGlobalBias items rows m.beta m.gamma (some m.betaBias) (some m.gammaBias)
    with f | (_ | b) <;> rfl

/-! ### Sweeps -/

variable {m₀ m m' : Model α n}

/-- At a row of the **sweep over users** strangers among the items make no difference. -/
theorem follows_sweepUser (background : Mat α n n) (h : m₀.Follows m m') (row : Key × List Key) :
    Outcome.Agree m₀.Follows (sweepUser background m row)
      (sweepUser background m' (row.1, m₀.beta.among row.2)) := by
  obtain ⟨hframe, c, rfl⟩ := h
  have hframe' := hframe.trans (keeps_sweepUser background m row).frame
  rw [sweepUser] at hframe' ⊢
  rw [sweepUser]
  by_cases hu : row.1 ∈ m.theta
  · have hstep : newTheta (m₀.beta.among row.2) m.beta background m.hyper.unobserved
        m.hyper.observed
        = newTheta row.2 m.beta background m.hyper.unobserved m.hyper.observed := by
      rw [Table.among_congr hframe.beta.symm]
      exact newTheta_among m.beta row.2 background _ _
    rw [if_pos hu] at hframe' ⊢
    rw [if_pos (c := row.1 ∈ (m.withCounters c).theta) hu]
    dsimp only [countRow, count, withCounters] at hframe' ⊢
    rw [hstep]
    cases hv : newTheta row.2 m.beta background m.hyper.unobserved m.hyper.observed with
    | ok v =>
        rw [hv] at hframe'
        exact ⟨rfl, hframe', _, rfl⟩
    | error f =>
        rw [hv] at hframe'
        exact ⟨rfl, hframe', _, rfl⟩
  · rw [if_neg hu, if_neg (c := row.1 ∈ (m.withCounters c).theta) hu]
    exact ⟨rfl, hframe, c, rfl⟩

/-- A **sweep over users** learns nothing from strangers. -/
theorem follows_updateUsers (m : Model α n) (userItems : Table Key (List Key)) :
    Outcome.Agree m.Follows (m.updateUsers userItems)
      (m.updateUsers (userItems.restrict (fun u => decide (u ∈ m.theta)) m.beta.among)) := by
  rw [updateUsers, updateUsers]
  refine Outcome.Agree.bind (Outcome.Agree.each_kept ?_ ?_ (Follows.refl m) _) ?_
  · intro s s' row hs hrow
    have hu : row.1 ∉ s.theta := by
      rw [Table.mem_iff, hs.frame.theta]
      exact of_decide_eq_false hrow
    rw [sweepUser, if_neg hu]
  · intro s s' row hs _
    exact follows_sweepUser _ hs row
  · rintro s _ ⟨hframe, c, rfl⟩
    exact ⟨rfl, hframe.trans (Frame.withCounters s _), _, rfl⟩

/-- At a row of the **sweep over items** strangers among users and neighbours make no
difference. -/
theorem follows_sweepItem [FaintZeros α] (background : Mat α n n) (rows : Table Key (Row ρ))
    (h₀ : m₀.Aligned) (h : m₀.Follows m m')
    {row : Key × List Key} (hrow : row.1 ∈ m₀.beta) :
    Outcome.Agree m₀.Follows (sweepItem background rows m row)
      (sweepItem background
        (rows.restrict (fun i => decide (i ∈ m₀.beta)) m₀.beta.amongEntries) m'
        (row.1, m₀.theta.among row.2)) := by
  obtain ⟨hframe, c, rfl⟩ := h
  have hneighbors : ((rows.restrict (fun i => decide (i ∈ m₀.beta)) m₀.beta.amongEntries).get?
      row.1).getD [] = m₀.beta.amongEntries ((rows.get? row.1).getD []) :=
    Table.getD_restrict rows (p := fun i => decide (i ∈ m₀.beta)) rfl (decide_eq_true hrow)
  rcases sweepItem_cases background rows m row with ⟨hnot, -⟩ | ⟨-, c₁, hstep⟩
  · exact absurd (h₀.mem_of_frame hframe hrow).1 hnot
  rcases sweepItem_cases background
      (rows.restrict (fun i => decide (i ∈ m₀.beta)) m₀.beta.amongEntries) (m.withCounters c)
      (row.1, m₀.theta.among row.2) with ⟨hnot, -⟩ | ⟨-, c₂, hstep'⟩
  · exact absurd (h₀.mem_of_frame hframe hrow).1 hnot
  rw [hstep, hstep', hneighbors]
  refine Outcome.Agree.bind (Outcome.Agree.bind ?_ ?_) ?_
  · have hs : m₀.Frame (m.withCounters c₁) := hframe.trans (Frame.withCounters m c₁)
    obtain ⟨hmem, -⟩ := h₀.mem_of_frame hs hrow
    have hknown : (m₀.beta.amongEntries : Row ρ → _) = (m.withCounters c₁).gamma.amongEntries :=
      Table.amongEntries_congr (hs.beta.symm.trans (h₀.of_frame hs).gamma.symm)
    have hraters : m₀.theta.among = (m.withCounters c₁).theta.among :=
      Table.among_congr hs.theta.symm
    change Outcome.Agree _ _ (updateBeta background ((m.withCounters c₁).withCounters c₂) _ _ _)
    rw [hknown, hraters, updateBeta_withCounters background (m.withCounters c₁) c₂,
      updateBeta_among]
    exact Follows.of_map (hs.trans (keeps_updateBeta background hmem _ _).frame) c₂
  · rintro s _ ⟨hs, c', rfl⟩
    obtain ⟨-, hmem, -⟩ := h₀.mem_of_frame hs hrow
    rw [Table.amongEntries_congr hs.beta.symm, updateGamma_withCounters, updateGamma_among]
    exact Follows.of_map (hs.trans (keeps_updateGamma hmem _).frame) c'
  · rintro s _ ⟨hs, c', rfl⟩
    obtain ⟨-, -, hmem, hmem'⟩ := h₀.mem_of_frame hs hrow
    by_cases hb : s.hyper.useBias = true
    · rw [if_pos hb, if_pos (c := (s.withCounters c').hyper.useBias = true) hb,
        Table.amongEntries_congr hs.beta.symm, updateBiases_withCounters,
        updateBiases_among (h₀.of_frame hs).gamma]
      exact Follows.of_map (hs.trans (keeps_updateBiases hb hmem hmem' _).frame) c'
    · rw [if_neg hb, if_neg (c := (s.withCounters c').hyper.useBias = true) hb]
      exact ⟨rfl, hs, c', rfl⟩

/-- A **sweep over items** learns nothing from strangers. -/
theorem follows_updateItems [FaintZeros α] (h : m.Aligned) (itemUsers : Table Key (List Key))
    (rows : Table Key (Row ρ)) :
    Outcome.Agree m.Follows (m.updateItems itemUsers rows)
      (m.updateItems (itemUsers.restrict (fun i => decide (i ∈ m.beta)) m.theta.among)
        (rows.restrict (fun i => decide (i ∈ m.beta)) m.beta.amongEntries)) := by
  rw [updateItems, updateItems]
  refine Outcome.Agree.bind (Outcome.Agree.bind
    (Outcome.Agree.each_kept ?_ ?_ (Follows.refl m) _) ?_) ?_
  · intro s s' row hs hrow
    have hi : row.1 ∉ s.beta := by
      rw [Table.mem_iff, hs.frame.beta]
      exact of_decide_eq_false hrow
    rw [sweepItem, if_neg hi]
  · intro s s' row hs hrow
    exact follows_sweepItem _ rows h hs (of_decide_eq_true hrow)
  · rintro s _ ⟨hs, c, rfl⟩
    have hknown : (fun i => decide (i ∈ m.beta)) = fun i => decide (i ∈ s.beta) := by
      simp only [Table.mem_iff, hs.beta]
    rw [Table.keys_restrict, ← Table.among, updateGlobal_withCounters, hknown,
      Table.among_congr hs.beta.symm, Table.amongEntries_congr hs.beta.symm,
      updateGlobal_among (h.of_frame hs).gamma]
    exact Follows.of_map (hs.trans (keeps_updateGlobal s _ rows).frame) c
  · rintro s _ ⟨hs, c, rfl⟩
    exact ⟨rfl, hs.trans (Frame.withCounters s _), _, rfl⟩

/-! ### Losses -/

/-- The **loss** of the samples of some tables does not depend on strangers. -/
theorem loss_knownTo [One ρ] (h : m.Aligned) (t : Training ρ) :
    m.loss (t.knownTo m).samples = m.loss t.samples := by
  have hpreference : m.preferenceLoss (ρ := ρ) (userSamples (t.knownTo m).userItems)
      = m.preferenceLoss (userSamples t.userItems) :=
    preferenceLoss_restrict t.userItems m.beta m.theta _ _
  have hneighbor : m.neighborLoss (itemSamples (t.knownTo m).itemUsers (t.knownTo m).rows)
      = m.neighborLoss (itemSamples t.itemUsers t.rows) := by
    have hrows : (t.knownTo m).rows
        = t.rows.restrict (fun i => decide (i ∈ m.beta)) m.gamma.amongEntries := by
      rw [Table.amongEntries_congr h.gamma]
      rfl
    rw [hrows]
    exact neighborLoss_restrict t.itemUsers t.rows _ m.beta m.gamma _ _ _
  rw [loss, loss, separate_samples, separate_samples]
  simp only [bind, Except.bind, hpreference, hneighbor]

end

end Model

/-- **Strangers have no effect** on what is learned: in every state that a model can reach, sweeps
and losses are what they would be if no table named a user or an item that is not registered. -/
theorem strangers_have_no_effect [Machine] [Numeral α] [FaintZeros α] [One ρ] [Operand ρ α]
    {s : Settings α} {init : Option (VectorInit α)} {source : Source} {m₀ : Model α n}
    (hm : Model.ofSettings s init source = .ok ⟨n, m₀⟩) (ops : List (Operation ρ))
    (t : Training ρ) :
    let m := m₀.after ops
    let t' := t.knownTo m
    (m.updateUsers t'.userItems).map Model.parameters
        = (m.updateUsers t.userItems).map Model.parameters ∧
      (m.updateItems t'.itemUsers t'.rows).map Model.parameters
        = (m.updateItems t.itemUsers t.rows).map Model.parameters ∧
      m.loss t'.samples = m.loss t.samples := by
  intro m t'
  obtain ⟨h, g, heq, -, -⟩ := Model.ofSettings_eq_ok hm
  have hstart : m₀ = Model.empty h g source := eq_of_heq (Sigma.mk.inj heq).2
  have haligned : m.Aligned := by
    rw [show m = m₀.after ops from rfl, hstart]
    exact (Model.consistent_after (Model.consistent_empty h g source) ops).1.aligned
  have hparameters : ∀ m₁ m₂, m.Follows m₁ m₂ → m₂.parameters = m₁.parameters := by
    rintro m₁ _ ⟨-, c, rfl⟩
    rfl
  refine ⟨?_, ?_, Model.loss_knownTo haligned t⟩
  · exact (Model.follows_updateUsers m t.userItems).map_eq hparameters
  · exact (Model.follows_updateItems haligned t.itemUsers t.rows).map_eq hparameters

/-- Tables with rows of strangers, with strangers in the rows of others, and with a row that lists
**a stranger alone**. -/
def Training.haunted : Training Float where
  userItems := Table.ofList
    [(.text "u", [.text "a", .text "ghost", .text "b"]), (.text "ghost", [.text "a"])]
  itemUsers := Table.ofList
    [(.text "a", [.text "ghost", .text "u"]), (.text "ghost", [.text "u"]), (.text "b", [])]
  rows := Table.ofList
    [(.text "a", [(.text "b", 1), (.text "ghost", 3)]), (.text "b", [(.text "ghost", 2)]),
      (.text "ghost", [(.text "a", 1)])]
  heldOut := []

/-- Settings of a model with one factor and **with biases**. -/
def Settings.haunted : Settings Float
  | .factor | .negatives => .integer 1
  | .useBias | .updateGlobalBias => .flag true
  | .metric => .text "auc"
  | _ => .real 1

theorem Model.ofSettings_haunted :
    Model.ofSettings Settings.haunted (some ⟨.gaussian, 1, 1, 1⟩) ⟨7, 0⟩
      = .ok ⟨1, Model.empty ⟨1, 1, 1, 1, 1, ⟨.gaussian, 1, 1, 1⟩, .auc, 1, true, true⟩ 1 ⟨7, 0⟩⟩ := by
  have hconfidence : Settings.negativeConfidence Settings.haunted = .ok false := rfl
  have hridge : Settings.leastRidge Settings.haunted = .ok 1 := rfl
  have hpositive : Scalar.lt (1 : Float) 0 = false := by decide +kernel
  have hmetric : Metric.ofSetting (Settings.haunted .metric) = .ok .auc := rfl
  have hfew : Model.tooFewNegatives .auc (Settings.haunted .negatives) = .ok false := rfl
  refine bind_eq_ok_iff.2 ⟨1, rfl, bind_eq_ok_iff.2 ⟨false, hconfidence, ?_⟩⟩
  refine bind_eq_ok_iff.2 ⟨(), rfl, bind_eq_ok_iff.2 ⟨1, hridge, ?_⟩⟩
  refine bind_eq_ok_iff.2 ⟨(), refuseIf_eq_ok_iff.2 hpositive, ?_⟩
  refine bind_eq_ok_iff.2 ⟨(), rfl, bind_eq_ok_iff.2 ⟨.auc, hmetric, ?_⟩⟩
  exact bind_eq_ok_iff.2 ⟨false, hfew, rfl⟩

/-- A model with one user and two items, and tables that name **others** too. -/
theorem strangers_have_no_effect_haunted :
    let m₀ : Model Float 1 := Model.empty
      ⟨1, 1, 1, 1, 1, ⟨.gaussian, 1, 1, 1⟩, .auc, 1, true, true⟩ 1 ⟨7, 0⟩
    let ops : List (Operation Float) :=
      [.registerUsers [.text "u"], .registerItems [.text "a", .text "b"]]
    let m := m₀.after ops
    let t' := Training.haunted.knownTo m
    Model.ofSettings Settings.haunted (some ⟨.gaussian, 1, 1, 1⟩) ⟨7, 0⟩ = .ok ⟨1, m₀⟩ ∧
      m.HasStrangeRow Training.haunted.rows ∧
      t'.userItems.entries = [(.text "u", [.text "a", .text "b"])] ∧
      t'.itemUsers.entries = [(.text "a", [.text "u"]), (.text "b", [])] ∧
      t'.rows.entries = [(.text "a", [(.text "b", 1)]), (.text "b", [])] ∧
      (m.updateUsers t'.userItems).map Model.parameters
        = (m.updateUsers Training.haunted.userItems).map Model.parameters ∧
      (m.updateItems t'.itemUsers t'.rows).map Model.parameters
        = (m.updateItems Training.haunted.itemUsers Training.haunted.rows).map
          Model.parameters ∧
      m.loss t'.samples = m.loss Training.haunted.samples := by
  intro m₀ ops m t'
  refine ⟨Model.ofSettings_haunted, ?_, rfl, rfl, rfl,
    strangers_have_no_effect Model.ofSettings_haunted ops Training.haunted⟩
  have hkeys : m.beta.keys = [.text "a", .text "b"] := rfl
  refine ⟨[(.text "ghost", 2)], .tail _ (.head _), List.cons_ne_nil _ _, ?_⟩
  intro e he hknown
  rw [List.mem_singleton.1 he, Table.mem_iff, hkeys] at hknown
  revert hknown
  decide

end CoEmbed
