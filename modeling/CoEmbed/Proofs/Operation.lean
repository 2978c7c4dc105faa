import CoEmbed.Machine.Standard
import CoEmbed.Model.Loss
import CoEmbed.Proofs.Objective.Fit

/-!
# Operations on a Model

Whatever is asked of a model, in whatever order, and whether it goes through or not: the items
have the same keys in all four of their tables, keys are only ever added at the end, and only a
registration adds any.

* `Operation` — what may be asked of a model.
* `Model.act`, `Model.after` — what an operation leaves behind, and what a sequence of them does.
* `Model.Keeps` — what a sweep leaves alone.
* `Model.Extends` — what a registration leaves alone.
* `Model.Consistent`, `Model.consistent_act` — the invariant, and that each operation keeps it.
* `consistent_after_operations` — the invariant over whole sequences of operations.

## Fault convention

An operation that fails leaves its state behind, and the next one goes on from there.
-/

namespace CoEmbed

variable {ρ α : Type} {n : ℕ}

/-! ### Operations -/

/-- What may be **asked of a model**. -/
inductive Operation (ρ : Type) where
  | registerUsers (users : List Key)
  | registerHistories (histories : Table Key (List Key))
  | registerItems (items : List Key)
  | updateUsers (userItems : Table Key (List Key))
  | updateItems (itemUsers : Table Key (List Key)) (rows : Table Key (Row ρ))
  | validate (user item : Key)
  | predict (user item : Key)
  | preferenceLoss (samples : List (Sample ρ))
  | neighborLoss (samples : List (Sample ρ))
  | ridgeLoss
  | loss (samples : List (Sample ρ))

/-- The operation **registers** keys. -/
def Operation.registers : Operation ρ → Bool
  | registerUsers _ | registerHistories _ | registerItems _ => true
  | updateUsers _ | updateItems _ _ | validate _ _ | predict _ _ | preferenceLoss _
  | neighborLoss _ | ridgeLoss | loss _ => false

/-- The fault of a computation, if it has one. -/
def faultOf {β : Type} : Except Fault β → Option Fault
  | .ok _ => none
  | .error f => some f

namespace Model

section

variable [Scalar α] [Operand ρ α]

/-- What an **operation** leaves of a model, and its fault if it has one. -/
def act [Machine] (m : Model α n) : Operation ρ → Outcome (Model α n)
  | .registerUsers users => m.registerUsers users
  | .registerHistories histories => m.registerHistories histories
  | .registerItems items => m.registerItems items
  | .updateUsers userItems => m.updateUsers userItems
  | .updateItems itemUsers rows => m.updateItems itemUsers rows
  | .validate user item =>
    ⟨m.withSource (m.validate user item).2, faultOf (m.validate user item).1⟩
  | .predict _ _ => .done m
  | .preferenceLoss samples => ⟨m, faultOf (m.preferenceLoss samples)⟩
  | .neighborLoss samples => ⟨m, faultOf (m.neighborLoss samples)⟩
  | .ridgeLoss => ⟨m, faultOf m.ridgeLoss⟩
  | .loss samples => ⟨m, faultOf (m.loss samples)⟩

/-- The model **after some operations**, those that fail included. -/
def after [Machine] (m : Model α n) (operations : List (Operation ρ)) : Model α n :=
  operations.foldl (fun m op => (m.act op).state) m

theorem after_append [Machine] (m : Model α n) (ops ops' : List (Operation ρ)) :
    m.after (ops ++ ops') = (m.after ops).after ops' := List.foldl_append

end

/-! ### What a sweep keeps -/

/-- The items have **the same keys in the same order** in all four of their tables. -/
structure Aligned (m : Model α n) : Prop where
  gamma : m.gamma.keys = m.beta.keys
  betaBias : m.betaBias.keys = m.beta.keys
  gammaBias : m.gammaBias.keys = m.beta.keys

theorem Aligned.of_frame {m m' : Model α n} (h : m.Aligned) (hframe : m.Frame m') :
    m'.Aligned where
  gamma := by rw [hframe.gamma, hframe.beta, h.gamma]
  betaBias := by rw [hframe.betaBias, hframe.beta, h.betaBias]
  gammaBias := by rw [hframe.gammaBias, hframe.beta, h.gammaBias]

/-- An item that is known is **known to all tables** of the items, whatever has been done to their
values. -/
theorem Aligned.mem_of_frame {m m' : Model α n} (h : m.Aligned) (hframe : m.Frame m') {i : Key}
    (hi : i ∈ m.beta) : i ∈ m'.beta ∧ i ∈ m'.gamma ∧ i ∈ m'.betaBias ∧ i ∈ m'.gammaBias := by
  have haligned := h.of_frame hframe
  simp only [Table.mem_iff, haligned.gamma, haligned.betaBias, haligned.gammaBias, hframe.beta]
  exact ⟨hi, hi, hi, hi⟩

/-- A sweep keeps hyperparameters, keys and histories, and those biases that the model **does not
learn**. -/
structure Keeps (m m' : Model α n) : Prop where
  frame : m.Frame m'
  betaBias : m.hyper.useBias = false → m'.betaBias = m.betaBias
  gammaBias : m.hyper.useBias = false → m'.gammaBias = m.gammaBias
  globalBias : m.hyper.updateGlobalBias = false → m'.globalBias = m.globalBias

namespace Keeps

variable {m m' m'' : Model α n}

theorem refl (m : Model α n) : m.Keeps m :=
  ⟨Frame.refl m, fun _ => rfl, fun _ => rfl, fun _ => rfl⟩

theorem trans (h : m.Keeps m') (h' : m'.Keeps m'') : m.Keeps m'' where
  frame := h.frame.trans h'.frame
  betaBias hb := (h'.betaBias (by rw [h.frame.hyper, hb])).trans (h.betaBias hb)
  gammaBias hb := (h'.gammaBias (by rw [h.frame.hyper, hb])).trans (h.gammaBias hb)
  globalBias hg := (h'.globalBias (by rw [h.frame.hyper, hg])).trans (h.globalBias hg)

/-- A step that writes no bias keeps them all. -/
theorem of_frame (h : m.Frame m') (hb : m'.betaBias = m.betaBias)
    (hg : m'.gammaBias = m.gammaBias) (hglobal : m'.globalBias = m.globalBias) : m.Keeps m' :=
  ⟨h, fun _ => hb, fun _ => hg, fun _ => hglobal⟩

theorem withCounters (m : Model α n) (c : Counters) : m.Keeps (m.withCounters c) :=
  of_frame (Frame.withCounters m c) rfl rfl rfl

theorem withSource (m : Model α n) (s : Source) : m.Keeps (m.withSource s) :=
  of_frame (Frame.withSource m s) rfl rfl rfl

/-- Biases are written only **where they are learnt**. -/
theorem putBetaBias (hb : m.hyper.useBias = true) {i : Key} (hi : i ∈ m.betaBias)
    (o : Option α) : m.Keeps (m.putBetaBias i o) := by
  have hnot : m.hyper.useBias ≠ false := by simp [hb]
  cases o with
  | none => exact refl m
  | some b => exact ⟨Frame.setBetaBias hi b, fun h => absurd h hnot, fun _ => rfl, fun _ => rfl⟩

/-- Biases of neighbours are written only **where they are learnt**. -/
theorem putGammaBias (hb : m.hyper.useBias = true) {i : Key} (hi : i ∈ m.gammaBias)
    (o : Option α) : m.Keeps (m.putGammaBias i o) := by
  have hnot : m.hyper.useBias ≠ false := by simp [hb]
  cases o with
  | none => exact refl m
  | some b => exact ⟨Frame.setGammaBias hi b, fun _ => rfl, fun h => absurd h hnot, fun _ => rfl⟩

end Keeps

section

variable [Scalar α] [Operand ρ α]

/-- The step at a **user** keeps everything but the vector of the user. -/
theorem keeps_sweepUser (background : Mat α n n) (m : Model α n) (row : Key × List Key) :
    m.Keeps (sweepUser background m row).state := by
  rcases sweepUser_cases background m row with
    ⟨-, hstep⟩ | ⟨hu, c, ⟨v, -, hstep⟩ | ⟨f, -, hstep⟩⟩
  · rw [hstep]
    exact Keeps.refl m
  · rw [hstep]
    have hset := Frame.setTheta (m := m.withCounters c) hu v
    exact (Keeps.withCounters m c).trans (Keeps.of_frame hset rfl rfl rfl)
  · rw [hstep]
    exact Keeps.withCounters m c

/-- A **sweep over users** keeps everything but the vectors of users. -/
theorem keeps_updateUsers (m : Model α n) (userItems : Table Key (List Key)) :
    m.Keeps (m.updateUsers userItems).state := by
  have heach : m.Keeps (Outcome.each
      (sweepUser (m.beta.background m.hyper.unobserved m.hyper.ridgeTheta)) m
      userItems.entries).state := by
    refine Outcome.each_invariant _ (fun m' => m.Keeps m') ?_ m _ (Keeps.refl m)
    intro m' row hm'
    exact hm'.trans (keeps_sweepUser _ m' row)
  exact Outcome.bind_invariant heach fun h => h.trans (Keeps.withCounters _ _)

theorem keeps_updateBeta (background : Mat α n n) {m : Model α n} {i : Key} (hi : i ∈ m.beta)
    (raters : List Key) (row : Row ρ) :
    m.Keeps (updateBeta background m i raters row).state := by
  rcases updateBeta_cases background m i raters row with ⟨v, -, hstep⟩ | ⟨f, -, hstep⟩
  · rw [hstep]
    exact Keeps.of_frame (Frame.setBeta hi v) rfl rfl rfl
  · rw [hstep]
    exact Keeps.refl m

theorem keeps_updateGamma {m : Model α n} {i : Key} (hi : i ∈ m.gamma) (row : Row ρ) :
    m.Keeps (updateGamma m i row).state := by
  rcases updateGamma_cases m i row with ⟨v, -, hstep⟩ | ⟨-, hstep⟩ | ⟨f, -, hstep⟩
  · rw [hstep]
    exact Keeps.of_frame (Frame.setGamma hi v) rfl rfl rfl
  · rw [hstep]
    exact Keeps.refl m
  · rw [hstep]
    exact Keeps.refl m

theorem keeps_updateBiases {m : Model α n} (hb : m.hyper.useBias = true) {i : Key}
    (hi : i ∈ m.betaBias) (hi' : i ∈ m.gammaBias) (row : Row ρ) :
    m.Keeps (updateBiases m i row).state := by
  rcases updateBiases_cases m i row with
    ⟨o, o', -, -, hstep⟩ | ⟨f, -, hstep⟩ | ⟨o, f, -, -, hstep⟩
  · rw [hstep]
    have hfirst := Keeps.putBetaBias hb hi o
    have hmem : i ∈ (m.putBetaBias i o).gammaBias := by
      rw [Table.mem_iff, hfirst.frame.gammaBias]
      exact hi'
    exact hfirst.trans (Keeps.putGammaBias (by rw [hfirst.frame.hyper, hb]) hmem o')
  · rw [hstep]
    exact Keeps.refl m
  · rw [hstep]
    exact Keeps.putBetaBias hb hi o

/-- The step at an **item** keeps all keys, if they are the same in all tables of the items. -/
theorem keeps_sweepItem (background : Mat α n n) (rows : Table Key (Row ρ)) {m : Model α n}
    (h : m.Aligned) (row : Key × List Key) :
    m.Keeps (sweepItem background rows m row).state := by
  rcases sweepItem_cases background rows m row with ⟨-, hstep⟩ | ⟨hi, c, hstep⟩
  · rw [hstep]
    exact Keeps.refl m
  · have hcounted := Keeps.withCounters m c
    rw [hstep]
    refine Outcome.bind_invariant (P := fun m' => m.Keeps m')
      (Outcome.bind_invariant (P := fun m' => m.Keeps m') ?_ fun hm' => ?_) fun hm' => ?_
    · exact hcounted.trans (keeps_updateBeta background (m := m.withCounters c) hi row.2 _)
    · obtain ⟨-, hgamma, -⟩ := h.mem_of_frame hm'.frame hi
      exact hm'.trans (keeps_updateGamma hgamma _)
    · obtain ⟨-, -, hbetaBias, hgammaBias⟩ := h.mem_of_frame hm'.frame hi
      split
      · next hb => exact hm'.trans (keeps_updateBiases hb hbetaBias hgammaBias _)
      · exact hm'

theorem keeps_updateGlobal (m : Model α n) (items : List Key) (rows : Table Key (Row ρ)) :
    m.Keeps (updateGlobal m items rows).state := by
  by_cases hg : m.hyper.updateGlobalBias = true
  · rcases updateGlobal_cases m items rows hg with ⟨b, -, hstep⟩ | ⟨-, hstep⟩ | ⟨f, -, hstep⟩
    · rw [hstep]
      refine ⟨Frame.setGlobalBias m b, fun _ => rfl, fun _ => rfl, fun hnot => ?_⟩
      rw [hg] at hnot
      cases hnot
    · rw [hstep]
      exact Keeps.refl m
    · rw [hstep]
      exact Keeps.refl m
  · rw [updateGlobal, if_neg hg]
    exact Keeps.refl m

/-- A **sweep over items** keeps all keys, if they are the same in all tables of the items. -/
theorem keeps_updateItems {m : Model α n} (h : m.Aligned) (itemUsers : Table Key (List Key))
    (rows : Table Key (Row ρ)) : m.Keeps (m.updateItems itemUsers rows).state := by
  have heach : m.Keeps (Outcome.each
      (sweepItem (m.theta.background m.hyper.unobserved m.hyper.ridgeBeta) rows) m
      itemUsers.entries).state := by
    refine Outcome.each_invariant _ (fun m' => m.Keeps m') ?_ m _ (Keeps.refl m)
    intro m' row hm'
    exact hm'.trans (keeps_sweepItem _ rows (h.of_frame hm'.frame) row)
  refine Outcome.bind_invariant (P := fun m' => m.Keeps m')
    (Outcome.bind_invariant (P := fun m' => m.Keeps m') heach fun h => ?_) fun h => ?_
  · exact h.trans (keeps_updateGlobal _ _ rows)
  · exact h.trans (Keeps.withCounters _ _)

/-- An operation that does not register keys **keeps** those that are there. -/
theorem keeps_act [Machine] {m : Model α n} (h : m.Aligned) {op : Operation ρ}
    (hop : op.registers = false) : m.Keeps (m.act op).state := by
  cases op with
  | registerUsers users => cases hop
  | registerHistories histories => cases hop
  | registerItems items => cases hop
  | updateUsers userItems => exact keeps_updateUsers m userItems
  | updateItems itemUsers rows => exact keeps_updateItems h itemUsers rows
  | validate user item => exact Keeps.withSource m _
  | predict user item => exact Keeps.refl m
  | preferenceLoss samples => exact Keeps.refl m
  | neighborLoss samples => exact Keeps.refl m
  | ridgeLoss => exact Keeps.refl m
  | loss samples => exact Keeps.refl m

end

/-! ### What a registration keeps -/

/-- A model whose tables have only **grown at their ends**; the global bias is as it was. -/
structure Extends (m m' : Model α n) : Prop where
  hyper : m'.hyper = m.hyper
  theta : m.theta.Extends m'.theta
  beta : m.beta.Extends m'.beta
  gamma : m.gamma.Extends m'.gamma
  betaBias : m.betaBias.Extends m'.betaBias
  gammaBias : m.gammaBias.Extends m'.gammaBias
  globalBias : m'.globalBias = m.globalBias

end Model

theorem Table.Extends.refl {κ ν : Type} [DecidableEq κ] (t : Table κ ν) : t.Extends t :=
  ⟨List.prefix_refl t.keys, fun _ _ => rfl⟩

namespace Model

theorem Extends.refl (m : Model α n) : m.Extends m :=
  ⟨rfl, .refl _, .refl _, .refl _, .refl _, .refl _, rfl⟩

section

variable [Scalar α]

/-- Registering **users** adds vectors of users, and nothing else. -/
theorem extends_registerUsers [Machine] (m : Model α n) (ks : List Key) :
    m.Extends (m.registerUsers ks).state := by
  rw [registerUsers]
  split
  · exact ⟨rfl, Table.extends_register _ _ _ _, .refl _, .refl _, .refl _, .refl _, rfl⟩
  · exact Extends.refl m

/-- Registering **items** adds to each of their tables. -/
theorem extends_registerItems [Machine] (m : Model α n) (ks : List Key) :
    m.Extends (m.registerItems ks).state := by
  rw [registerItems]
  split
  · exact ⟨rfl, .refl _, Table.extends_register _ _ _ _, Table.extends_register _ _ _ _,
      Table.extends_register _ _ _ _, Table.extends_register _ _ _ _, rfl⟩
  · exact Extends.refl m

variable [Operand ρ α]

/-- An operation that registers keys makes the tables **grow at their ends**. -/
theorem extends_act [Machine] (m : Model α n) {op : Operation ρ} (hop : op.registers = true) :
    m.Extends (m.act op).state := by
  cases op with
  | registerUsers users => exact extends_registerUsers m users
  | registerHistories histories =>
      obtain ⟨hhyper, htheta, hbeta, hgamma, hbb, hgb, hglobal⟩ := extends_registerUsers
        { m with
          histories := histories.entries.foldl (fun h e => h.insert e.1 e.2) m.histories }
        histories.keys
      exact ⟨hhyper, htheta, hbeta, hgamma, hbb, hgb, hglobal⟩
  | registerItems items => exact extends_registerItems m items
  | updateUsers userItems => cases hop
  | updateItems itemUsers rows => cases hop
  | validate user item => cases hop
  | predict user item => cases hop
  | preferenceLoss samples => cases hop
  | neighborLoss samples => cases hop
  | ridgeLoss => cases hop
  | loss samples => cases hop

end

/-! ### The invariant -/

/-- What holds of a model with hyperparameters `h` and initial global bias `g`, **whatever has
been done to it**. -/
structure Consistent [Scalar α] (h : Hyper α) (g : α) (m : Model α n) : Prop where
  hyper : m.hyper = h
  aligned : m.Aligned
  /-- Every vector has as many entries as the model has factors. -/
  lengths : ∀ v ∈ m.theta.values ++ m.beta.values ++ m.gamma.values, v.toList.length = n
  betaBias : h.useBias = false → ∀ i b, m.betaBias.get? i = some b → b = .real 0
  gammaBias : h.useBias = false → ∀ i b, m.gammaBias.get? i = some b → b = .real 0
  globalBias : h.updateGlobalBias = false → m.globalBias = g

/-- Keys are only added **at the end**. -/
structure Grows (m m' : Model α n) : Prop where
  theta : m.theta.keys <+: m'.theta.keys
  beta : m.beta.keys <+: m'.beta.keys
  gamma : m.gamma.keys <+: m'.gamma.keys
  betaBias : m.betaBias.keys <+: m'.betaBias.keys
  gammaBias : m.gammaBias.keys <+: m'.gammaBias.keys

namespace Grows

variable {m m' m'' : Model α n}

theorem trans (h : m.Grows m') (h' : m'.Grows m'') : m.Grows m'' where
  theta := h.theta.trans h'.theta
  beta := h.beta.trans h'.beta
  gamma := h.gamma.trans h'.gamma
  betaBias := h.betaBias.trans h'.betaBias
  gammaBias := h.gammaBias.trans h'.gammaBias

theorem of_frame (h : m.Frame m') : m.Grows m' :=
  ⟨h.theta ▸ List.prefix_refl _, h.beta ▸ List.prefix_refl _, h.gamma ▸ List.prefix_refl _,
    h.betaBias ▸ List.prefix_refl _, h.gammaBias ▸ List.prefix_refl _⟩

theorem of_extends (h : m.Extends m') : m.Grows m' :=
  ⟨h.theta.keys, h.beta.keys, h.gamma.keys, h.betaBias.keys, h.gammaBias.keys⟩

end Grows

section

variable [Scalar α] {h : Hyper α} {g : α}

/-- The model without parameters is consistent. -/
theorem consistent_empty (h : Hyper α) (g : α) (source : Source) :
    (empty h g source : Model α n).Consistent h g := by
  refine ⟨rfl, ⟨rfl, rfl, rfl⟩, fun v _ => Vector.length_toList, ?_, ?_, fun _ => rfl⟩
  · intro _ i b hb
    cases hb
  · intro _ i b hb
    cases hb

/-- What a sweep keeps leaves the model consistent. -/
theorem Consistent.of_keeps {m m' : Model α n} (hm : m.Consistent h g) (hkeeps : m.Keeps m') :
    m'.Consistent h g where
  hyper := hkeeps.frame.hyper.trans hm.hyper
  aligned := hm.aligned.of_frame hkeeps.frame
  lengths v _ := Vector.length_toList
  betaBias hb := by
    rw [hkeeps.betaBias (by rw [hm.hyper, hb])]
    exact hm.betaBias hb
  gammaBias hb := by
    rw [hkeeps.gammaBias (by rw [hm.hyper, hb])]
    exact hm.gammaBias hb
  globalBias hg := (hkeeps.globalBias (by rw [hm.hyper, hg])).trans (hm.globalBias hg)

/-- Registering users leaves the tables of the items alone. -/
theorem consistent_registerUsers [Machine] {m : Model α n} (hm : m.Consistent h g) (ks : List Key) :
    (m.registerUsers ks).state.Consistent h g := by
  obtain ⟨hhyper, ⟨hgamma, hbb, hgb⟩, -, hzero, hzero', hglobal⟩ := hm
  rw [registerUsers]
  split
  · exact ⟨hhyper, ⟨hgamma, hbb, hgb⟩, fun v _ => Vector.length_toList, hzero, hzero', hglobal⟩
  · exact ⟨hhyper, ⟨hgamma, hbb, hgb⟩, fun v _ => Vector.length_toList, hzero, hzero', hglobal⟩

/-- New biases are **zero**. -/
theorem forall_get?_zeroBiases {t : Table Key (Bias α)}
    (h : ∀ i b, t.get? i = some b → b = .real 0) (ks : List Key) :
    ∀ i b, (zeroBiases t ks).get? i = some b → b = .real 0 :=
  @Table.forall_get?_register _ _ _ Unit (fun _ => (Bias.real 0, ())) (fun b => b = .real 0)
    (fun _ => rfl) t h ks ()

/-- Registering items adds **the same keys** to each of their tables, with biases of zero. -/
theorem consistent_registerItems [Machine] {m : Model α n} (hm : m.Consistent h g) (ks : List Key) :
    (m.registerItems ks).state.Consistent h g := by
  rw [registerItems]
  split
  · refine ⟨hm.hyper, ⟨?_, ?_, ?_⟩, fun v _ => Vector.length_toList, ?_, ?_, hm.globalBias⟩
    · exact (Table.keys_register _ _ _ _).trans
        (hm.aligned.gamma ▸ (Table.keys_register _ _ _ _).symm)
    · exact (Table.keys_register _ _ _ _).trans
        (hm.aligned.betaBias ▸ (Table.keys_register _ _ _ _).symm)
    · exact (Table.keys_register _ _ _ _).trans
        (hm.aligned.gammaBias ▸ (Table.keys_register _ _ _ _).symm)
    · intro hb
      exact forall_get?_zeroBiases (hm.betaBias hb) ks
    · intro hb
      exact forall_get?_zeroBiases (hm.gammaBias hb) ks
  · exact hm

variable [Operand ρ α]

/-- **Every operation** keeps the model consistent. -/
theorem consistent_act [Machine] {m : Model α n} (hm : m.Consistent h g) (op : Operation ρ) :
    (m.act op).state.Consistent h g := by
  cases hop : op.registers with
  | false => exact hm.of_keeps (keeps_act hm.aligned hop)
  | true =>
      cases op with
      | registerUsers users => exact consistent_registerUsers hm users
      | registerHistories histories =>
          obtain ⟨hhyper, haligned, hlengths, hzero, hzero', hglobal⟩ := hm
          have hrecorded : Consistent h g { m with
              histories := histories.entries.foldl (fun h e => h.insert e.1 e.2) m.histories } :=
            ⟨hhyper, ⟨haligned.gamma, haligned.betaBias, haligned.gammaBias⟩, hlengths, hzero,
              hzero', hglobal⟩
          exact consistent_registerUsers hrecorded histories.keys
      | registerItems items => exact consistent_registerItems hm items
      | updateUsers userItems => cases hop
      | updateItems itemUsers rows => cases hop
      | validate user item => cases hop
      | predict user item => cases hop
      | preferenceLoss samples => cases hop
      | neighborLoss samples => cases hop
      | ridgeLoss => cases hop
      | loss samples => cases hop

/-- Every operation adds keys **at the end** alone. -/
theorem grows_act [Machine] {m : Model α n} (hm : m.Consistent h g) (op : Operation ρ) :
    m.Grows (m.act op).state := by
  cases hop : op.registers with
  | false => exact Grows.of_frame (keeps_act hm.aligned hop).frame
  | true => exact Grows.of_extends (extends_act m hop)

/-- **Sequences of operations** keep the model consistent, and add keys at the end alone. -/
theorem consistent_after [Machine] {m : Model α n} (hm : m.Consistent h g)
    (ops : List (Operation ρ)) : (m.after ops).Consistent h g ∧ m.Grows (m.after ops) := by
  induction ops generalizing m with
  | nil => exact ⟨hm, Grows.of_frame (Frame.refl m)⟩
  | cons op ops ih =>
      obtain ⟨hrest, hgrows⟩ := ih (consistent_act hm op)
      exact ⟨hrest, (grows_act hm op).trans hgrows⟩

end

end Model

/-- **A model stays consistent over whole runs**: after any operations on the model of some
settings, those that fail included, the items have the same keys in all of their tables, every
vector has as many entries as there are factors, biases that are not learnt are zero, and a global
bias that is not learnt is the one in the settings. More operations add keys at the end alone; one
that does not register keys keeps them all, and one that does keeps what is known of the old
ones. -/
theorem consistent_after_operations [Machine] [Numeral α] [Operand ρ α] {s : Settings α}
    {init : Option (VectorInit α)} {source : Source} {m : Model α n}
    (hm : Model.ofSettings s init source = .ok ⟨n, m⟩) (ops : List (Operation ρ)) :
    ∃ (h : Hyper α) (g : α), s.Describes n h g ∧ (m.after ops).Consistent h g ∧
      (∀ more : List (Operation ρ), (m.after ops).Grows (m.after (ops ++ more))) ∧
      ∀ op : Operation ρ,
        (op.registers = false → (m.after ops).Keeps ((m.after ops).act op).state) ∧
        (op.registers = true → (m.after ops).Extends ((m.after ops).act op).state) := by
  obtain ⟨h, g, heq, hs, -⟩ := Model.ofSettings_eq_ok hm
  have hstart : m = Model.empty h g source := eq_of_heq (Sigma.mk.inj heq).2
  have hconsistent : (m.after ops).Consistent h g := by
    rw [hstart]
    exact (Model.consistent_after (Model.consistent_empty h g source) ops).1
  refine ⟨h, g, hs, hconsistent, fun more => ?_, fun op => ⟨?_, ?_⟩⟩
  · rw [Model.after_append]
    exact (Model.consistent_after hconsistent more).2
  · exact Model.keeps_act hconsistent.aligned
  · exact Model.extends_act _

/-- A model without biases whose second registration of items **names an old one again**, between
sweeps that meet items and users that are not registered. -/
theorem consistent_after_operations_unbiased :
    letI := Spelling.silent
    let settings := ((Settings.ones .auc 1).set .useBias (.flag false)).set .updateGlobalBias
      (.flag false)
    let m : Model ℝ 1 := Model.empty
      ⟨1, 1, 1, 1, 1, ⟨.gaussian, 1, 1, 1⟩, .auc, 1, false, false⟩ 1 ⟨7, 0⟩
    let ops : List (Operation ℝ) :=
      [.registerUsers [.text "u"], .registerItems [.text "b"],
        .updateUsers Training.mutual.userItems,
        .updateItems Training.mutual.itemUsers Training.mutual.rows,
        .registerItems [.text "a", .text "b"], .validate (.text "u") (.text "a"),
        .updateItems Training.mutual.itemUsers Training.mutual.rows]
    Model.ofSettings settings (some ⟨.gaussian, 1, 1, 1⟩) ⟨7, 0⟩ = .ok ⟨1, m⟩ ∧
      ∃ (h : Hyper ℝ) (g : ℝ), settings.Describes 1 h g ∧ (m.after ops).Consistent h g ∧
        (∀ more : List (Operation ℝ), (m.after ops).Grows (m.after (ops ++ more))) ∧
        ∀ op : Operation ℝ,
          (op.registers = false → (m.after ops).Keeps ((m.after ops).act op).state) ∧
          (op.registers = true → (m.after ops).Extends ((m.after ops).act op).state) := by
  let _ := Spelling.silent
  intro settings m ops
  have hm : Model.ofSettings settings (some ⟨.gaussian, 1, 1, 1⟩) ⟨7, 0⟩ = .ok ⟨1, m⟩ :=
    Model.ofSettings_ones .auc 1 false ⟨7, 0⟩
  exact ⟨hm, consistent_after_operations hm ops⟩

end CoEmbed
