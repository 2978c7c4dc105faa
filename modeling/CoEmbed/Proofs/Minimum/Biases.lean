import CoEmbed.Proofs.Minimum.Rows
import CoEmbed.Proofs.Objective.Stationary

/-!
# Biases as Minima

A bias is a mean of what the rest of the model leaves of the weights in a row. It is the bias of the
item, or of the item as a neighbour, or of all pairs, and each mean leaves one bias out. The loss on
the neighbours' weights holds all of them.

* `biasError` — the error of a bias over the neighbours in a row.
* `isBest_of_newBias`, `isBest_newGlobalBias` — the means, where a loss differs from their errors by
  a constant.
* `neighborError_betaBias`, `neighborError_gammaBias` — the error of a row as a function of a bias.
* `Model.updateBiases_best` — what the update of an item's biases puts in place.
* `bias_updates_are_minima` — each bias is the one minimum.

## Neighbour convention

Neighbours without a vector are passed over and those listed twice count twice, in the means and in
the loss alike. The bias of an item that is its own neighbour is found before its bias as a
neighbour.
-/

open Matrix

namespace CoEmbed

variable {n : ℕ}

/-! ### The error of a bias -/

section

variable (own others : Factors ℝ n) (otherBias : Option (Table Key (Bias ℝ))) (globalBias : ℝ)
  (item : Key) (row : Row ℝ)

/-- The squared **error of a bias** of an item, over those neighbours in a row that have a
vector. -/
noncomputable def biasError (b : ℝ) : ℝ :=
  ((row.filter fun e => decide (e.1 ∈ others)).map fun e =>
    (e.2 - own.vectorAt item ⬝ᵥ others.vectorAt e.1 - b - (biasOf otherBias e.1).scalar
      - globalBias) ^ 2).sum

/-- The error of a bias is its squared distance from **what is left** of the weights. -/
theorem biasError_eq_sum_residuals (b : ℝ) :
    biasError own others otherBias globalBias item row b
      = ((residuals (own.vectorAt item) row others
          fun w j p => w - p - (biasOf otherBias j).scalar - globalBias).map
            fun r => (r - b) ^ 2).sum := by
  rw [biasError, residuals, List.map_map]
  refine congrArg List.sum (List.map_congr_left fun e _ => ?_)
  rw [Function.comp_apply]
  ring

/-- The error of a bias, **by key**. -/
theorem biasError_eq_sum (b : ℝ) :
    biasError own others otherBias globalBias item row b
      = ∑ j ∈ others.domain, ((weightsOf row j).map fun w =>
          (w - own.vectorAt item ⬝ᵥ others.vectorAt j - b - (biasOf otherBias j).scalar
            - globalBias) ^ 2).sum := by
  rw [biasError_eq_sum_residuals, sum_residuals]
  refine Finset.sum_congr rfl fun j _ => congrArg List.sum (List.map_congr_left fun w _ => ?_)
  ring

end

/-- A mean **fits best** what a loss counts as squared distances, up to a constant. -/
theorem isBest_meanOf {rs : List ℝ} {fits : Prop} {f : ℝ → Except Fault ℝ}
    (hfits : rs ≠ [] ↔ fits)
    (hf : ∃ c, ∀ x, f x = .ok ((rs.map fun r => (r - x) ^ 2).sum + c)) :
    IsBest fits f (meanOf rs) := by
  refine ⟨by rw [Model.meanOf_eq_none_iff, ← hfits, not_not], fun b hb => ?_⟩
  obtain ⟨c, hf⟩ := hf
  have hbowl : Bowl (fun x => (rs.map fun r => (r - x) ^ 2).sum + c) b :=
    Model.bowl_meanOf hb ⟨c, fun _ => rfl⟩
  refine .of_bowl Function.injective_id ?_ hbowl
  exact hf

/-- The new **bias of an item** fits best, for every loss that differs from the error of the bias by
a constant. -/
theorem isBest_of_newBias {own others : Factors ℝ n} {otherBias : Option (Table Key (Bias ℝ))}
    {globalBias : ℝ} {item : Key} {row : Row ℝ} {f : ℝ → Except Fault ℝ} {o : Option ℝ}
    (ho : newBias item row own others otherBias globalBias = .ok o)
    (hf : item ∈ own →
      ∃ c, ∀ x, f x = .ok (biasError own others otherBias globalBias item row x + c)) :
    IsBest (item ∈ own ∧ HasNeighbor others row) f o := by
  rw [newBias_eq] at ho
  obtain rfl := Except.ok.inj ho
  by_cases hitem : item ∈ own
  · obtain ⟨c, hf⟩ := hf hitem
    rw [if_pos hitem]
    refine isBest_meanOf (residuals_ne_nil_iff.trans (iff_and_self.2 fun _ => hitem))
      ⟨c, fun x => ?_⟩
    rw [hf, biasError_eq_sum_residuals]
  · rw [if_neg hitem]
    exact ⟨iff_of_true rfl fun h => hitem h.1, fun b hb => by cases hb⟩

/-! ### The error of rows as a function of one bias -/

section

variable (beta gamma : Factors ℝ n) (globalBias : ℝ) (i : Key)

/-- The error of a row as a function of the **bias of its item**. -/
theorem neighborError_betaBias (betaBias : Table Key (Bias ℝ))
    (gammaBias : Option (Table Key (Bias ℝ))) (row : Row ℝ) (x : ℝ) :
    neighborError gamma (some (betaBias.insert i (.real x))) gammaBias globalBias i row
        (beta.vectorAt i)
      = biasError beta gamma gammaBias globalBias i row x := by
  have hbias : (biasOf (some (betaBias.insert i (.real x))) i).scalar = x := by
    change biasAt (betaBias.insert i (.real x)) i = x
    rw [biasAt_insert, Function.update_self]
  rw [neighborError, biasError_eq_sum]
  refine Finset.sum_congr rfl fun j _ => congrArg List.sum (List.map_congr_left fun w _ => ?_)
  rw [restOf, hbias, dotProduct_comm]
  ring

/-- The error of a row as a function of the bias of **one neighbour**: the weights of that
neighbour, and the rest of the row. -/
theorem neighborError_gammaBias {gamma : Factors ℝ n} {i : Key} (hi : i ∈ gamma)
    (betaBias : Option (Table Key (Bias ℝ))) (gammaBias : Table Key (Bias ℝ)) (k : Key)
    (row : Row ℝ) (v : Fin n → ℝ) (x : ℝ) :
    neighborError gamma betaBias (some (gammaBias.insert i (.real x))) globalBias k row v
      = ((weightsOf row i).map fun w =>
          (w - gamma.vectorAt i ⬝ᵥ v - x - (biasOf betaBias k).scalar - globalBias) ^ 2).sum
        + ∑ j ∈ gamma.domain.erase i, ((weightsOf row j).map fun w =>
            (restOf betaBias (some gammaBias) globalBias k j w
              - gamma.vectorAt j ⬝ᵥ v) ^ 2).sum := by
  have hbias : ∀ j, (biasOf (some (gammaBias.insert i (.real x))) j).scalar
      = Function.update (biasAt gammaBias) i x j := congrFun (biasAt_insert gammaBias i x)
  rw [neighborError, ← Finset.add_sum_erase _ _ (Table.mem_domain.2 hi)]
  refine congrArg₂ (· + ·) ?_ (Finset.sum_congr rfl fun j hj => ?_)
  · refine congrArg List.sum (List.map_congr_left fun w _ => ?_)
    rw [restOf, hbias, Function.update_self]
    ring
  · refine congrArg List.sum (List.map_congr_left fun w _ => ?_)
    rw [restOf, hbias, Function.update_of_ne (Finset.ne_of_mem_erase hj)]
    rfl

/-- The error of the row of an item as a function of the **global bias**; strangers have none. -/
theorem sum_globalResiduals (rows : Table Key (Row ℝ))
    (betaBias gammaBias : Option (Table Key (Bias ℝ))) (x : ℝ) :
    ((globalResiduals rows beta gamma betaBias gammaBias i).map fun r => (r - x) ^ 2).sum
      = if i ∈ beta then neighborError gamma betaBias gammaBias x i ((rows.get? i).getD [])
          (beta.vectorAt i) else 0 := by
  rw [globalResiduals]
  by_cases hi : i ∈ beta
  · rw [if_pos hi, if_pos hi, sum_residuals, neighborError]
    refine Finset.sum_congr rfl fun j _ => congrArg List.sum (List.map_congr_left fun w _ => ?_)
    rw [restOf, dotProduct_comm]
    ring
  · rw [if_neg hi, if_neg hi]
    rfl

end

/-- The new **global bias** fits best, over the contexts of the items that it was found for. -/
theorem isBest_newGlobalBias {items : List Key} {rows : Table Key (Row ℝ)}
    {contexts : List (Key × List (Feature ℝ) × Option (Row ℝ))}
    (hitems : (contexts.map Prod.fst).Perm items) (hrows : ∀ e ∈ contexts, e.2.2 = rows.get? e.1)
    (beta gamma : Factors ℝ n) (betaBias gammaBias : Option (Table Key (Bias ℝ))) :
    IsBest (∃ i ∈ items, i ∈ beta ∧ HasNeighbor gamma ((rows.get? i).getD []))
      (neighborLoss (contexts.map fun e => Sample.item e.1 e.2.1 e.2.2) beta gamma betaBias
        gammaBias)
      (meanOf (items.flatMap (globalResiduals rows beta gamma betaBias gammaBias))) := by
  refine isBest_meanOf ?_ ⟨0, fun x => ?_⟩
  · rw [Ne, List.flatMap_eq_nil_iff]
    push Not
    refine exists_congr fun i => and_congr_right fun _ => ?_
    rw [globalResiduals]
    by_cases hi : i ∈ beta
    · rw [if_pos hi]
      exact residuals_ne_nil_iff.trans (iff_and_self.2 fun _ => hi)
    · rw [if_neg hi]
      exact iff_of_false (fun h => h rfl) fun h => hi h.1
  · let error (i : Key) : ℝ :=
      ((globalResiduals rows beta gamma betaBias gammaBias i).map fun r => (r - x) ^ 2).sum
    have hcontexts : contexts.map (fun e => if e.1 ∈ beta then
        neighborError gamma betaBias gammaBias x e.1 (e.2.2.getD []) (beta.vectorAt e.1) else 0)
          = (contexts.map Prod.fst).map error := by
      rw [List.map_map]
      refine List.map_congr_left fun e he => ?_
      rw [hrows e he]
      exact (sum_globalResiduals beta gamma e.1 rows betaBias gammaBias x).symm
    rw [neighborLoss_contexts, hcontexts, (hitems.map error).sum_eq, add_zero, List.map_flatMap,
      List.flatMap_def, List.sum_flatten, List.map_map]
    rfl

/-! ### The update of an item -/

namespace Model

/-- With biases in use, the loss on the neighbours' weights **sees both tables** of them. -/
theorem neighborLoss_of_useBias {m : Model ℝ n} (hb : m.hyper.useBias = true)
    (samples : List (Sample ℝ)) :
    m.neighborLoss samples = CoEmbed.neighborLoss samples m.beta m.gamma (some m.betaBias)
      (some m.gammaBias) m.globalBias := by
  rw [neighborLoss, seenBetaBias, seenGammaBias, if_pos hb, if_pos hb]

section

variable {m : Model ℝ n} {item : Key} {row : Row ℝ} {rows : Table Key (Row ℝ)}
  {contexts : List (Key × List (Feature ℝ) × Option (Row ℝ))}

/-- The new **bias of an item** fits best, over the context of the item with its row. -/
theorem isBest_betaBias (hb : m.hyper.useBias = true) {o : Option ℝ}
    (ho : newBias item ((rows.get? item).getD []) m.beta m.gamma (some m.gammaBias) m.globalBias
      = .ok o) (features : List (Feature ℝ)) :
    IsBest (item ∈ m.beta ∧ HasNeighbor m.gamma ((rows.get? item).getD []))
      (fun x => (m.setBetaBias item x).neighborLoss
        [Sample.item item features (rows.get? item)]) o := by
  refine isBest_of_newBias ho fun hitem => ⟨0, fun x => ?_⟩
  have hloss := neighborLoss_context m.gamma (some (m.betaBias.insert item (.real x)))
    (some m.gammaBias) m.globalBias hitem features (rows.get? item)
  rw [neighborError_betaBias] at hloss
  rw [neighborLoss_of_useBias (m := m.setBetaBias item x) hb, add_zero]
  exact hloss

/-- The new bias of an item **as a neighbour** fits best, over the contexts of all items. -/
theorem isBest_gammaBias (hb : m.hyper.useBias = true) (hs : SymmetricOn m.beta rows)
    (hcarries : Carries m.beta rows contexts) (hitem : item ∈ m.beta) {o : Option ℝ}
    (ho : newBias item ((rows.get? item).getD []) m.gamma m.beta (some m.betaBias) m.globalBias
      = .ok o) :
    IsBest (item ∈ m.gamma ∧ HasNeighbor m.beta ((rows.get? item).getD []))
      (fun x => (m.setGammaBias item x).neighborLoss
        (contexts.map fun e => Sample.item e.1 e.2.1 e.2.2)) o := by
  refine isBest_of_newBias ho fun hgamma => ⟨∑ k ∈ m.beta.domain, ∑ j ∈ m.gamma.domain.erase item,
    ((weightsOf ((rows.get? k).getD []) j).map fun w =>
      (restOf (some m.betaBias) (some m.gammaBias) m.globalBias k j w
        - m.gamma.vectorAt j ⬝ᵥ m.beta.vectorAt k) ^ 2).sum, fun x => ?_⟩
  have hloss := hcarries.neighborLoss_eq m.gamma (some m.betaBias)
    (some (m.gammaBias.insert item (.real x))) m.globalBias
  simp only [neighborError_gammaBias _ hgamma, Finset.sum_add_distrib] at hloss
  rw [neighborLoss_of_useBias (m := m.setGammaBias item x) hb, biasError_eq_sum,
    hs.sum_row_eq_sum_column hitem fun k w => (w - m.gamma.vectorAt item ⬝ᵥ m.beta.vectorAt k - x
      - (biasOf (some m.betaBias) k).scalar - m.globalBias) ^ 2]
  exact hloss

end

/-- The update of an item's biases writes the **best bias of the item**, and then the best bias of
the item as a neighbour. -/
theorem updateBiases_best {m : Model ℝ n} (hb : m.hyper.useBias = true)
    (rows : Table Key (Row ℝ)) (item : Key) (features : List (Feature ℝ))
    (contexts : List (Key × List (Feature ℝ) × Option (Row ℝ))) :
    let row := (rows.get? item).getD []
    ∃ o c, m.updateBiases item row = .done ((m.putBetaBias item o).putGammaBias item c) ∧
      IsBest (item ∈ m.beta ∧ HasNeighbor m.gamma row)
        (fun x => (m.setBetaBias item x).neighborLoss
          [Sample.item item features (rows.get? item)]) o ∧
      (item ∈ m.beta → SymmetricOn m.beta rows → Carries m.beta rows contexts →
        IsBest (item ∈ m.gamma ∧ HasNeighbor m.beta row)
          (fun x => ((m.putBetaBias item o).setGammaBias item x).neighborLoss
            (contexts.map fun e => Sample.item e.1 e.2.1 e.2.2)) c) := by
  intro row
  rcases updateBiases_cases m item row with
    ⟨o, c, ho, hc, hstep⟩ | ⟨f, hf, -⟩ | ⟨o, f, -, hf, -⟩
  · refine ⟨o, c, hstep, isBest_betaBias hb ho features, fun hitem hs hcarries => ?_⟩
    -- the first write changes no vector, and no bias of a neighbour
    have hframe : (m.putBetaBias item o).hyper = m.hyper ∧ (m.putBetaBias item o).beta = m.beta ∧
        (m.putBetaBias item o).gamma = m.gamma := by
      cases o <;> exact ⟨rfl, rfl, rfl⟩
    obtain ⟨hhyper, hbeta, hgamma⟩ := hframe
    have hbest := isBest_gammaBias (hhyper ▸ hb) (hbeta ▸ hs) (hbeta ▸ hcarries) (hbeta ▸ hitem) hc
    rwa [hbeta, hgamma] at hbest
  · rw [newBias_eq] at hf
    cases hf
  · rw [newBias_eq] at hf
    cases hf

end Model

/-- **Each bias is a minimum.** The bias that is found for an item is none if the item or all
neighbours in its row are strangers, and the best fit to them otherwise. What is written for an item
is the best bias over the context of the item, and then, with symmetric rows and one context for
each item, the best bias as a neighbour over all contexts. The global bias that is found for some
items is none if no pair of them can be compared, and the best one over their contexts otherwise. -/
theorem bias_updates_are_minima :
    (∀ (own others : Factors ℝ n) (otherBias : Option (Table Key (Bias ℝ))) (globalBias : ℝ)
        (item : Key) (row : Row ℝ),
      ∃ o, newBias item row own others otherBias globalBias = .ok o ∧
        IsBest (item ∈ own ∧ HasNeighbor others row)
          (fun b => .ok (biasError own others otherBias globalBias item row b)) o) ∧
    (∀ (m : Model ℝ n) (rows : Table Key (Row ℝ)) (item : Key) (features : List (Feature ℝ))
        (contexts : List (Key × List (Feature ℝ) × Option (Row ℝ))),
      m.hyper.useBias = true →
      let row := (rows.get? item).getD []
      ∃ o c, m.updateBiases item row = .done ((m.putBetaBias item o).putGammaBias item c) ∧
        IsBest (item ∈ m.beta ∧ HasNeighbor m.gamma row)
          (fun x => (m.setBetaBias item x).neighborLoss
            [Sample.item item features (rows.get? item)]) o ∧
        (item ∈ m.beta → SymmetricOn m.beta rows → Carries m.beta rows contexts →
          IsBest (item ∈ m.gamma ∧ HasNeighbor m.beta row)
            (fun x => ((m.putBetaBias item o).setGammaBias item x).neighborLoss
              (contexts.map fun e => Sample.item e.1 e.2.1 e.2.2)) c)) ∧
    ∀ (items : List Key) (rows : Table Key (Row ℝ))
        (contexts : List (Key × List (Feature ℝ) × Option (Row ℝ))) (beta gamma : Factors ℝ n)
        (betaBias gammaBias : Option (Table Key (Bias ℝ))),
      (contexts.map Prod.fst).Perm items → (∀ e ∈ contexts, e.2.2 = rows.get? e.1) →
      ∃ o, newGlobalBias items rows beta gamma betaBias gammaBias = .ok o ∧
        IsBest (∃ i ∈ items, i ∈ beta ∧ HasNeighbor gamma ((rows.get? i).getD []))
          (neighborLoss (contexts.map fun e => Sample.item e.1 e.2.1 e.2.2) beta gamma betaBias
            gammaBias) o := by
  refine ⟨fun own others otherBias globalBias item row => ?_,
    fun m rows item features contexts hb => m.updateBiases_best hb rows item features contexts,
    fun items rows contexts beta gamma betaBias gammaBias hitems hrows => ?_⟩
  · have ho := newBias_eq item row own others otherBias globalBias
    exact ⟨_, ho, isBest_of_newBias ho fun _ => ⟨0, fun _ => by rw [add_zero]⟩⟩
  · exact ⟨_, newGlobalBias_eq items rows beta gamma betaBias gammaBias,
      isBest_newGlobalBias hitems hrows beta gamma betaBias gammaBias⟩

/-- Two entangled items: all biases of one of them and the **global bias** are found. -/
theorem bias_updates_are_minima_entangled :
    let m : Model ℝ 1 := { Model.mutual with beta := Entangled.beta, gamma := Entangled.beta }
    let i := Key.text "a"
    let row := (Entangled.rows.get? i).getD []
    let samples := Entangled.contexts.map fun e => Sample.item e.1 e.2.1 e.2.2
    (∃ b, newBias i row m.beta m.gamma none 1 = .ok (some b) ∧
      UniqueMinimum (fun x => .ok (biasError m.beta m.gamma none 1 i row x)) Set.univ b) ∧
    (∃ b c, m.updateBiases i row = .done ((m.setBetaBias i b).setGammaBias i c) ∧
      UniqueMinimum (fun x => (m.setBetaBias i x).neighborLoss
        [Sample.item i [] (Entangled.rows.get? i)]) Set.univ b ∧
      UniqueMinimum (fun x => ((m.setBetaBias i b).setGammaBias i x).neighborLoss samples)
        Set.univ c) ∧
    ∃ b, newGlobalBias [.text "b", i, .text "nobody"] Entangled.rows m.beta m.gamma
        (some m.betaBias) none = .ok (some b) ∧
      UniqueMinimum (neighborLoss samples m.beta m.gamma (some m.betaBias) none) Set.univ b := by
  intro m i row samples
  obtain ⟨hitem, hupdate, hglobal⟩ := bias_updates_are_minima (n := 1)
  have hi : i ∈ Entangled.beta := Entangled.mem_beta.2 (.inl rfl)
  have hneighbor : HasNeighbor Entangled.beta row := ⟨_, List.mem_cons_self, hi⟩
  refine ⟨?_, ?_, ?_⟩
  · obtain ⟨o, ho, hbest⟩ := hitem m.beta m.gamma none 1 i row
    obtain ⟨b, rfl, hb⟩ := hbest.exists_eq_some ⟨hi, hneighbor⟩
    exact ⟨b, ho, hb⟩
  · obtain ⟨o, o', hstep, hbest, hneighbors⟩ :=
      hupdate m Entangled.rows i [] Entangled.contexts rfl
    obtain ⟨b, rfl, hb⟩ := hbest.exists_eq_some ⟨hi, hneighbor⟩
    have hbest' := hneighbors hi Entangled.symmetricOn Entangled.carries
    obtain ⟨c, rfl, hc⟩ := hbest'.exists_eq_some ⟨hi, hneighbor⟩
    exact ⟨b, c, hstep, hb, hc⟩
  · have hrows : ∀ e ∈ Entangled.contexts, e.2.2 = Entangled.rows.get? e.1 := by
      intro e he
      rcases List.mem_cons.1 he with rfl | he
      · rfl
      rcases List.mem_cons.1 he with rfl | he
      · rfl
      · rw [List.mem_singleton.1 he]
    obtain ⟨o, ho, hbest⟩ := hglobal [.text "b", i, .text "nobody"] Entangled.rows
      Entangled.contexts m.beta m.gamma (some m.betaBias) none (by decide) hrows
    obtain ⟨b, rfl, hb⟩ := hbest.exists_eq_some ⟨i, by decide, hi, hneighbor⟩
    exact ⟨b, ho, hb⟩

end CoEmbed
