import CoEmbed.Proofs.Exact.Bowl
import CoEmbed.Proofs.Exact.Update
import CoEmbed.Recommender

/-!
# Points and Blocks

The parameters of a model as a point, and the blocks of it that an update replaces: the vector
of one user, one of the two vectors or one of the two biases of one item, the global bias.

* `Point`, `Model.point` — the parameters as functions of keys.
* `Block` — a part of a point that can be read and replaced.
* `Block.Stationary` — the partial derivative of an objective along a block vanishes.
* `Settles` — a change of the parameters that never raises an objective, lowers it strictly if
  it changes anything, and changes nothing exactly where a condition holds.
* `Settles.trans`, `Block.settles` — such changes compose, and putting the bottom of a bowl in
  place is one.

## Potential convention

That an iteration leaves everything as it was says little about its steps, unless no step can
undo another one. The objective is what rules this out: along a chain of settling steps it
never rises, so if the ends agree no step has changed anything.
-/

namespace CoEmbed

/-- The **parameters** of a model as functions of keys. -/
@[ext]
structure Point (n : ℕ) where
  theta : Key → Fin n → ℝ
  beta : Key → Fin n → ℝ
  gamma : Key → Fin n → ℝ
  betaBias : Key → ℝ
  gammaBias : Key → ℝ
  globalBias : ℝ

variable {n : ℕ}

/-- The parameters of a model. -/
noncomputable def Model.point (m : Model ℝ n) : Point n where
  theta := m.theta.vectorAt
  beta := m.beta.vectorAt
  gamma := m.gamma.vectorAt
  betaBias := biasAt m.betaBias
  gammaBias := biasAt m.gammaBias
  globalBias := m.globalBias

/-! ### Blocks -/

/-- A part of a point that can be **read and replaced**. -/
structure Block (n : ℕ) (E : Type) where
  get : Point n → E
  set : Point n → E → Point n
  get_set : ∀ p x, get (set p x) = x
  set_get : ∀ p, set p (get p) = p

namespace Block

/-- The vector of a user. -/
def theta (u : Key) : Block n (Fin n → ℝ) where
  get p := p.theta u
  set p x := { p with theta := Function.update p.theta u x }
  get_set _ _ := Function.update_self ..
  set_get p := by rw [Function.update_eq_self]

/-- The vector of an item. -/
def beta (i : Key) : Block n (Fin n → ℝ) where
  get p := p.beta i
  set p x := { p with beta := Function.update p.beta i x }
  get_set _ _ := Function.update_self ..
  set_get p := by rw [Function.update_eq_self]

/-- The vector of an item as a neighbour. -/
def gamma (i : Key) : Block n (Fin n → ℝ) where
  get p := p.gamma i
  set p x := { p with gamma := Function.update p.gamma i x }
  get_set _ _ := Function.update_self ..
  set_get p := by rw [Function.update_eq_self]

/-- The bias of an item. -/
def betaBias (i : Key) : Block n ℝ where
  get p := p.betaBias i
  set p x := { p with betaBias := Function.update p.betaBias i x }
  get_set _ _ := Function.update_self ..
  set_get p := by rw [Function.update_eq_self]

/-- The bias of an item as a neighbour. -/
def gammaBias (i : Key) : Block n ℝ where
  get p := p.gammaBias i
  set p x := { p with gammaBias := Function.update p.gammaBias i x }
  get_set _ _ := Function.update_self ..
  set_get p := by rw [Function.update_eq_self]

/-- The bias that all pairs share. -/
def globalBias : Block n ℝ where
  get p := p.globalBias
  set p x := { p with globalBias := x }
  get_set _ _ := rfl
  set_get _ := rfl

/-- A block is put back as it was exactly if its old value is written. -/
theorem set_eq_iff {E : Type} (b : Block n E) (p : Point n) (x : E) :
    b.set p x = p ↔ b.get p = x := by
  constructor
  · intro h
    rw [← b.get_set p x, h]
  · rintro rfl
    exact b.set_get p

/-- The **partial derivative** of an objective along a block vanishes. -/
def Stationary {E : Type} [NormedAddCommGroup E] [NormedSpace ℝ E] (b : Block n E)
    (J : Point n → ℝ) (p : Point n) : Prop :=
  HasFDerivAt (fun x => J (b.set p x)) (0 : E →L[ℝ] ℝ) (b.get p)

end Block

/-! ### Settling steps -/

/-- A change of the parameters from `p` to `q` that **settles** them: the objective `J` is not
raised, it is lowered if anything changes, and nothing changes exactly where `S` holds. -/
structure Settles (J : Point n → ℝ) (S : Point n → Prop) (p q : Point n) : Prop where
  le : J q ≤ J p
  lt : q ≠ p → J q < J p
  eq_iff : q = p ↔ S p

namespace Settles

variable {J : Point n → ℝ} {S T : Point n → Prop} {p q r : Point n}

/-- Changing nothing settles. -/
theorem refl (p : Point n) (h : S p) : Settles J S p p :=
  ⟨le_rfl, fun hne => absurd rfl hne, iff_of_true rfl h⟩

/-- The condition may be replaced by an equivalent one. -/
theorem congr (h : Settles J S p q) (hST : S p ↔ T p) : Settles J T p q :=
  ⟨h.le, h.lt, h.eq_iff.trans hST⟩

/-- **One settling step after another settles**: if both ends agree the objective is the same
at all three points, so neither step has changed anything. -/
theorem trans (h : Settles J S p q) (h' : Settles J T q r) :
    Settles J (fun x => S x ∧ T x) p r := by
  have hback : r = p → q = p := fun hrp => by
    by_contra hne
    have h1 := h.lt hne
    have h2 := h'.le
    rw [hrp] at h2
    exact absurd h1 (not_lt.2 h2)
  refine ⟨h'.le.trans h.le, fun hne => ?_, ⟨fun hrp => ?_, fun hS => ?_⟩⟩
  · by_cases hqp : q = p
    · exact (h'.lt fun hrq => hne (hrq.trans hqp)).trans_le h.le
    · exact h'.le.trans_lt (h.lt hqp)
  · have hqp := hback hrp
    refine ⟨h.eq_iff.1 hqp, ?_⟩
    have hT := h'.eq_iff.1 (hrp.trans hqp.symm)
    rwa [hqp] at hT
  · have hqp := h.eq_iff.2 hS.1
    subst hqp
    exact h'.eq_iff.2 hS.2

end Settles

/-- Putting the **bottom of a bowl** into a block settles, and changes nothing exactly where
the partial derivative along the block vanishes. -/
theorem Block.settles {E : Type} [NormedAddCommGroup E] [NormedSpace ℝ E] {J : Point n → ℝ}
    {b : Block n E} {p : Point n} {x₀ : E} (h : Bowl (fun x => J (b.set p x)) x₀) :
    Settles J (b.Stationary J) p (b.set p x₀) := by
  have hp : J (b.set p (b.get p)) = J p := by rw [b.set_get]
  refine ⟨?_, fun hne => ?_, ?_⟩
  · have := h.le (b.get p)
    rwa [hp] at this
  · have := h.lt (x := b.get p) fun e => hne ((b.set_eq_iff p x₀).2 e)
    rwa [hp] at this
  · rw [b.set_eq_iff, Block.Stationary, h.hasFDerivAt_zero_iff]

end CoEmbed
