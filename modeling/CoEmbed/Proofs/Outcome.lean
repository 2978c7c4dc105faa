import CoEmbed.Outcome

/-!
# Runs without a Fault

An operation that is made of steps goes through exactly if each of its steps does, and what the
steps establish one after the other holds in the end.

* `bind_eq_ok_iff`, `getElem?_of_mapM`, `exists_of_mem_mapM` — the parts of a computation that has a
  result.
* `exists_ok_of_any` — a computation that can be carried out, with a test of its result.
* `exists_foldlM`, `exists_mapM`, `foldlM_map_eq` — a computation in steps, and its results taken
  together.
* `Outcome.bind_of_done`, `Outcome.bind_done_iff` — going on after a step that went through.
* `Outcome.bind_invariant` — what every step keeps holds in the end, also after a fault.
* `Outcome.each_prefix` — what is known after each part of a list is known after all of it.
* `Outcome.each_done` — steps that never fail make a run that does not fail.
* `Outcome.each_of_fault` — a run that fails has gone through up to the member at which it fails.
* `Outcome.map_bind`, `Outcome.map_ite`, `Outcome.map_each` — steps that do the same seen through
  a function.
* `Outcome.writing`, `Outcome.map_writing` — a step that writes what it computes.
* `Outcome.Agree`, `Outcome.Agree.each_kept` — two runs side by side, one of which leaves out what
  the other passes over.
* `Mirrored`, `Outcome.Mirrored` — results and outcomes seen through a function, with faults that
  agree in their kind.
* `Outcome.passed`, `Outcome.passed_eq` — how far a run gets; mirrored runs get equally far.
-/

namespace CoEmbed

/-- A computation with two parts has a result exactly if **both parts** have one. -/
theorem bind_eq_ok_iff {ε α β : Type} {x : Except ε α} {f : α → Except ε β} {b : β} :
    (x >>= f) = .ok b ↔ ∃ a, x = .ok a ∧ f a = .ok b := by
  cases x with
  | error e =>
      constructor
      · intro h
        cases h
      · rintro ⟨a, h, -⟩
        cases h
  | ok a =>
      constructor
      · exact fun h => ⟨a, rfl, h⟩
      · rintro ⟨a', h, h'⟩
        obtain rfl := Except.ok.inj h
        exact h'

/-- A computation has a result that **passes a test** if the test, carried out on it, says so. -/
theorem exists_ok_of_any {ε α : Type} {x : Except ε α} {p : α → Bool}
    (h : x.toOption.any p = true) : ∃ a, x = .ok a ∧ p a = true := by
  cases x with
  | error e => cases h
  | ok a => exact ⟨a, rfl, h⟩

/-- A loop whose steps never fail **ends**. -/
theorem exists_foldlM {ε σ β : Type} {step : σ → β → Except ε σ}
    (h : ∀ s x, ∃ s', step s x = .ok s') (xs : List β) (s : σ) :
    ∃ s', xs.foldlM step s = .ok s' := by
  induction xs generalizing s with
  | nil => exact ⟨s, rfl⟩
  | cons x xs ih =>
      obtain ⟨s', hs'⟩ := h s x
      obtain ⟨s'', hs''⟩ := ih s'
      exact ⟨s'', by rw [List.foldlM_cons]; exact bind_eq_ok_iff.2 ⟨s', hs', hs''⟩⟩

/-- A loop that goes on with the **results of a computation** may have them all first. -/
theorem foldlM_map_eq {ε σ β γ : Type} (f : β → Except ε γ) (g : σ → γ → σ) (xs : List β) (s : σ) :
    xs.foldlM (fun s x => (f x).map (g s)) s = (xs.mapM f).map fun ys => ys.foldl g s := by
  induction xs generalizing s with
  | nil => rfl
  | cons x xs ih =>
      rw [List.foldlM_cons, List.mapM_cons]
      cases f x with
      | error e => rfl
      | ok y =>
          refine (ih (g s y)).trans ?_
          cases xs.mapM f <;> rfl

/-- A computation over a list has **a result for each member**, in order. -/
theorem getElem?_of_mapM {ε β γ : Type} {g : β → Except ε γ} {xs : List β} {ys : List γ}
    (h : xs.mapM g = .ok ys) :
    ys.length = xs.length ∧
      ∀ (k : Nat) x, xs[k]? = some x → ∃ y, ys[k]? = some y ∧ g x = .ok y := by
  induction xs generalizing ys with
  | nil =>
      obtain rfl : [] = ys := Except.ok.inj h
      exact ⟨rfl, fun k x hx => by cases hx⟩
  | cons z xs ih =>
      rw [List.mapM_cons] at h
      obtain ⟨y, hy, h⟩ := bind_eq_ok_iff.1 h
      obtain ⟨ys', hys, h⟩ := bind_eq_ok_iff.1 h
      obtain rfl : y :: ys' = ys := Except.ok.inj h
      obtain ⟨hlength, hmember⟩ := ih hys
      refine ⟨congrArg Nat.succ hlength, fun k x hx => ?_⟩
      cases k with
      | zero =>
          obtain rfl := Option.some.inj hx
          exact ⟨y, rfl, hy⟩
      | succ k => exact hmember k x hx

/-- A computation over a list goes through if it does **at each member**. -/
theorem exists_mapM {ε β γ : Type} {g : β → Except ε γ} {xs : List β}
    (h : ∀ x ∈ xs, ∃ y, g x = .ok y) : ∃ ys, xs.mapM g = .ok ys := by
  induction xs with
  | nil => exact ⟨[], rfl⟩
  | cons x xs ih =>
      obtain ⟨y, hy⟩ := h x List.mem_cons_self
      obtain ⟨ys, hys⟩ := ih fun z hz => h z (List.mem_cons_of_mem x hz)
      exact ⟨y :: ys, by
        rw [List.mapM_cons]; exact bind_eq_ok_iff.2 ⟨y, hy, bind_eq_ok_iff.2 ⟨ys, hys, rfl⟩⟩⟩

/-- What a computation over a list gives is its result **at some member**. -/
theorem exists_of_mem_mapM {ε β γ : Type} {g : β → Except ε γ} {xs : List β} {ys : List γ}
    (h : xs.mapM g = .ok ys) {y : γ} (hy : y ∈ ys) : ∃ x ∈ xs, g x = .ok y := by
  obtain ⟨hlength, hmember⟩ := getElem?_of_mapM h
  obtain ⟨k, hk, rfl⟩ := List.mem_iff_getElem.1 hy
  obtain ⟨y, hy, hx⟩ := hmember k _ (List.getElem?_eq_getElem (hlength ▸ hk))
  rw [List.getElem?_eq_getElem hk] at hy
  obtain rfl := Option.some.inj hy
  exact ⟨_, List.getElem_mem _, hx⟩

namespace Outcome

variable {σ ρ : Type}

/-- After a step that went through, its state is **gone on with**. -/
theorem bind_of_done {o : Outcome σ} (h : o.fault = none) (next : σ → Outcome σ) :
    o.bind next = next o.state := by
  rw [bind, h]

/-- A fault ends what it is found in. -/
theorem bind_of_fault {o : Outcome σ} {f : Fault} (h : o.fault = some f) (next : σ → Outcome σ) :
    o.bind next = o := by
  rw [bind, h]

/-- Two steps go through exactly if **both** do. -/
theorem bind_done_iff {o : Outcome σ} {next : σ → Outcome σ} :
    (o.bind next).fault = none ↔ o.fault = none ∧ (next o.state).fault = none := by
  cases h : o.fault with
  | none => rw [bind_of_done h, eq_self_iff_true, true_and]
  | some f => rw [bind_of_fault h, h, eq_false (Option.some_ne_none f), false_and]

/-- What holds after a step, and is kept by the next one, holds **in the end**, also after a
fault. -/
theorem bind_invariant {P : σ → Prop} {o : Outcome σ} {next : σ → Outcome σ} (h : P o.state)
    (hnext : P o.state → P (next o.state).state) : P (o.bind next).state := by
  cases hf : o.fault with
  | none =>
      rw [bind_of_done hf]
      exact hnext h
  | some f =>
      rw [bind_of_fault hf]
      exact h

/-- What is known after **each part** of a list is known after all of it, if the run goes
through. -/
theorem each_prefix {step : σ → ρ → Outcome σ} (P : List ρ → σ → Prop) {s : σ} {rs : List ρ}
    (h : P [] s) (hf : (each step s rs).fault = none)
    (hstep : ∀ past r s, r ∈ rs → P past s → (step s r).fault = none →
      P (past ++ [r]) (step s r).state) : P rs (each step s rs).state := by
  have key : ∀ ts past s, (∀ r ∈ ts, r ∈ rs) → P past s → (each step s ts).fault = none →
      P (past ++ ts) (each step s ts).state := by
    intro ts
    induction ts with
    | nil =>
        intro past s _ hp _
        rwa [List.append_nil]
    | cons r ts ih =>
        intro past s hsub hp hdone
        obtain ⟨hr, hrest⟩ := bind_done_iff.1 hdone
        rw [each, bind_of_done hr, List.append_cons]
        have hnext := hstep past r s (hsub r List.mem_cons_self) hp hr
        exact ih _ _ (fun r' hr' => hsub r' (List.mem_cons_of_mem r hr')) hnext hrest
  exact key rs [] s (fun _ hr => hr) h hf

/-- Steps that **never fail** where something holds, and keep it, make a run that does not
fail. -/
theorem each_done {step : σ → ρ → Outcome σ} (I : σ → Prop) {s : σ} {rs : List ρ} (h : I s)
    (hstep : ∀ s, ∀ r ∈ rs, I s → (step s r).fault = none ∧ I (step s r).state) :
    (each step s rs).fault = none ∧ I (each step s rs).state := by
  induction rs generalizing s with
  | nil => exact ⟨rfl, h⟩
  | cons r rs ih =>
      obtain ⟨hr, hI⟩ := hstep s r List.mem_cons_self h
      rw [each, bind_of_done hr]
      exact ih hI fun s r' hr' => hstep s r' (List.mem_cons_of_mem r hr')

/-- A run that fails has **gone through up to the member** at which it fails, and ends there. -/
theorem each_of_fault {step : σ → ρ → Outcome σ} {s : σ} {rs : List ρ} {f : Fault}
    (hf : (each step s rs).fault = some f) :
    ∃ past r rest, rs = past ++ r :: rest ∧ (each step s past).fault = none ∧
      (step (each step s past).state r).fault = some f ∧
      (each step s rs).state = (step (each step s past).state r).state := by
  induction rs generalizing s with
  | nil => cases hf
  | cons r rs ih =>
      rw [each] at hf ⊢
      cases hr : (step s r).fault with
      | some e =>
          rw [bind_of_fault hr] at hf ⊢
          exact ⟨[], r, rs, rfl, rfl, hf, rfl⟩
      | none =>
          rw [bind_of_done hr] at hf ⊢
          obtain ⟨past, r', rest, rfl, hpast, hfail, hstate⟩ := ih hf
          have hcons : each step s (r :: past) = each step (step s r).state past := by
            rw [each, bind_of_done hr]
          refine ⟨r :: past, r', rest, rfl, ?_⟩
          rw [hcons]
          exact ⟨hpast, hfail, hstate⟩

/-! ### Outcomes seen through a function -/

/-- The outcome with its state sent **through a function**. -/
def map {τ : Type} (f : σ → τ) (o : Outcome σ) : Outcome τ := ⟨f o.state, o.fault⟩

/-- Steps that do the same **seen through a function** do so one after the other. -/
theorem map_bind {τ : Type} {f : σ → τ} {o : Outcome σ} {o' : Outcome τ} {next : σ → Outcome σ}
    {next' : τ → Outcome τ} (ho : o' = o.map f) (h : ∀ s, next' (f s) = (next s).map f) :
    o'.bind next' = (o.bind next).map f := by
  subst ho
  cases hf : o.fault with
  | none => rw [bind_of_done hf, bind_of_done (o := o.map f) hf, map, h]
  | some e => rw [bind_of_fault hf, bind_of_fault (o := o.map f) hf]

/-- Steps that do the same seen through a function, on **either side of a condition**, do the same
as a whole. -/
theorem map_ite {τ : Type} {f : σ → τ} {c c' : Prop} [Decidable c] [Decidable c']
    {o p : Outcome σ} {o' p' : Outcome τ} (hc : c' ↔ c) (ho : o' = o.map f) (hp : p' = p.map f) :
    (if c' then o' else p') = (if c then o else p).map f := by
  by_cases h : c
  · rw [if_pos h, if_pos (hc.2 h), ho]
  · rw [if_neg h, if_neg (mt hc.1 h), hp]

/-- A run whose steps do the same seen through a function **does the same as a whole**. -/
theorem map_each {τ : Type} (f : σ → τ) {step : σ → ρ → Outcome σ} {step' : τ → ρ → Outcome τ}
    (h : ∀ s r, step' (f s) r = (step s r).map f) (s : σ) (rs : List ρ) :
    each step' (f s) rs = (each step s rs).map f := by
  induction rs generalizing s with
  | nil => rfl
  | cons r rs ih => exact map_bind (h s r) ih

/-- The outcome of **writing** what a computation comes to. -/
def writing {α : Type} (s : σ) (write : α → σ) : Except Fault α → Outcome σ
  | .ok a => done (write a)
  | .error e => failed s e

/-- Where a result is sent through a function, what is written is **the function's value**. -/
theorem writing_map {α β : Type} (s : σ) (write : β → σ) (g : α → β) (x : Except Fault α) :
    writing s write (x.map g) = writing s (fun a => write (g a)) x := by
  cases x <;> rfl

/-- Writing one result does the same seen through a function if **what is written** does. -/
theorem map_writing {α τ : Type} {f : σ → τ} {s : σ} {write : α → σ} {write' : α → τ}
    (h : ∀ a, write' a = f (write a)) (x : Except Fault α) :
    writing (f s) write' x = (writing s write x).map f := by
  cases x with
  | ok a => exact congrArg done (h a)
  | error e => rfl

/-! ### Outcomes side by side -/

/-- Two outcomes with **the same fault**, whose states are related. -/
structure Agree {τ : Type} (R : σ → τ → Prop) (o : Outcome σ) (o' : Outcome τ) : Prop where
  fault : o'.fault = o.fault
  state : R o.state o'.state

namespace Agree

variable {τ : Type} {R : σ → τ → Prop}

/-- Steps that agree where states are related agree **one after the other**. -/
theorem bind {o : Outcome σ} {o' : Outcome τ} {next : σ → Outcome σ} {next' : τ → Outcome τ}
    (h : Agree R o o') (hnext : ∀ s s', R s s' → Agree R (next s) (next' s')) :
    Agree R (o.bind next) (o'.bind next') := by
  obtain ⟨hfault, hstate⟩ := h
  cases hf : o.fault with
  | none =>
      rw [bind_of_done hf, bind_of_done (hfault.trans hf)]
      exact hnext _ _ hstate
  | some f =>
      rw [bind_of_fault hf, bind_of_fault (hfault.trans hf)]
      exact ⟨hfault, hstate⟩

/-- A run over a list agrees with one over a part of it, whose members may have been changed, if
**what is left out is passed over**. -/
theorem each_kept {ρ' : Type} {step : σ → ρ → Outcome σ} {step' : τ → ρ' → Outcome τ} {p : ρ → Bool}
    {g : ρ → ρ'} (hskip : ∀ s s' r, R s s' → p r = false → step s r = .done s)
    (hkeep : ∀ s s' r, R s s' → p r = true → Agree R (step s r) (step' s' (g r))) {s : σ} {s' : τ}
    (h : R s s') (rs : List ρ) :
    Agree R (each step s rs) (each step' s' ((rs.filter p).map g)) := by
  induction rs generalizing s s' with
  | nil => exact ⟨rfl, h⟩
  | cons r rs ih =>
      rw [List.filter_cons, each]
      cases hp : p r with
      | true => exact (hkeep s s' r h hp).bind fun _ _ hnext => ih hnext
      | false =>
          rw [hskip s s' r h hp, bind_of_done rfl]
          exact ih h

/-- States that are related **look the same** through a function. -/
theorem map_eq {ξ : Type} {f : σ → ξ} {f' : τ → ξ} {o : Outcome σ} {o' : Outcome τ}
    (h : Agree R o o') (hf : ∀ s s', R s s' → f' s' = f s) : o'.map f' = o.map f := by
  rw [map, map, h.fault, hf _ _ h.state]

end Agree

end Outcome

/-! ### Results and outcomes with faults of the same kind -/

/-- Two computations that come to **the same seen through a function**, or fail with faults of the
same kind. -/
inductive Mirrored {α β : Type} (f : α → β) : Except Fault α → Except Fault β → Prop
  | ok (a : α) : Mirrored f (.ok a) (.ok (f a))
  | error {e e' : Fault} (h : e'.kind = e.kind) : Mirrored f (.error e) (.error e')

theorem Mirrored.map {α β α' β' : Type} {f : α → β} {f' : α' → β'} {g : α → α'} {g' : β → β'}
    (hg : ∀ a, g' (f a) = f' (g a)) {x : Except Fault α} {y : Except Fault β}
    (h : Mirrored f x y) : Mirrored f' (x.map g) (y.map g') := by
  rcases h with a | h
  · change Mirrored f' (.ok (g a)) (.ok (g' (f a)))
    rw [hg]
    exact .ok (g a)
  · exact .error h

namespace Outcome

variable {σ τ ρ : Type} {f : σ → τ}

/-- Two outcomes whose states are the same seen through a function, with faults **of the same
kind**. -/
structure Mirrored (f : σ → τ) (o : Outcome σ) (o' : Outcome τ) : Prop where
  state : o'.state = f o.state
  kind : o'.fault.map Fault.kind = o.fault.map Fault.kind

theorem Mirrored.of_map {o : Outcome σ} {o' : Outcome τ} (h : o' = o.map f) : Mirrored f o o' := by
  subst h
  exact ⟨rfl, rfl⟩

/-- Steps that write what they compute mirror one another if the computations do. -/
theorem Mirrored.writing {α β : Type} {g : α → β} {x : Except Fault α} {y : Except Fault β}
    (h : CoEmbed.Mirrored g x y) (s : σ) {write : α → σ} {write' : β → τ}
    (hw : ∀ a, write' (g a) = f (write a)) :
    Mirrored f (writing s write x) (writing (f s) write' y) := by
  rcases h with a | h
  · exact ⟨hw a, rfl⟩
  · exact ⟨rfl, congrArg some h⟩

theorem Mirrored.fault_eq_none_iff {o : Outcome σ} {o' : Outcome τ} (h : Mirrored f o o') :
    o'.fault = none ↔ o.fault = none := by
  rw [← Option.map_eq_none_iff (f := Fault.kind), h.kind, Option.map_eq_none_iff]

theorem Mirrored.exists_fault {o : Outcome σ} {o' : Outcome τ} (h : Mirrored f o o') {e : Fault}
    (hf : o.fault = some e) : ∃ e', o'.fault = some e' :=
  Option.ne_none_iff_exists'.1 (mt h.fault_eq_none_iff.1 (hf ▸ Option.some_ne_none e))

/-- Steps that mirror one another do so **one after the other**. -/
theorem Mirrored.bind {o : Outcome σ} {o' : Outcome τ} {next : σ → Outcome σ}
    {next' : τ → Outcome τ} (h : Mirrored f o o')
    (hnext : ∀ s, Mirrored f (next s) (next' (f s))) :
    Mirrored f (o.bind next) (o'.bind next') := by
  cases hf : o.fault with
  | none =>
      rw [bind_of_done hf, bind_of_done (h.fault_eq_none_iff.2 hf), h.state]
      exact hnext o.state
  | some e =>
      obtain ⟨e', hf'⟩ := h.exists_fault hf
      rw [bind_of_fault hf, bind_of_fault hf']
      exact h

theorem Mirrored.ite {c c' : Prop} [Decidable c] [Decidable c'] {o p : Outcome σ}
    {o' p' : Outcome τ} (hc : c' ↔ c) (ho : Mirrored f o o') (hp : Mirrored f p p') :
    Mirrored f (if c then o else p) (if c' then o' else p') := by
  by_cases h : c
  · rwa [if_pos h, if_pos (hc.2 h)]
  · rwa [if_neg h, if_neg (mt hc.1 h)]

section

variable {step : σ → ρ → Outcome σ} {step' : τ → ρ → Outcome τ}

/-- A run whose steps mirror one another **does so as a whole**. -/
theorem Mirrored.each (h : ∀ s r, Mirrored f (step s r) (step' (f s) r)) (s : σ) (rs : List ρ) :
    Mirrored f (Outcome.each step s rs) (Outcome.each step' (f s) rs) := by
  induction rs generalizing s with
  | nil => exact ⟨rfl, rfl⟩
  | cons r rs ih => exact (h s r).bind ih

/-- How many members of a list a run **gets through** before it fails or ends. -/
def passed (step : σ → ρ → Outcome σ) : σ → List ρ → Nat
  | _, [] => 0
  | s, r :: rs => match (step s r).fault with
    | none => passed step (step s r).state rs + 1
    | some _ => 0

/-- Runs that mirror one another **get equally far**. -/
theorem passed_eq (h : ∀ s r, Mirrored f (step s r) (step' (f s) r)) (s : σ) (rs : List ρ) :
    passed step' (f s) rs = passed step s rs := by
  induction rs generalizing s with
  | nil => rfl
  | cons r rs ih =>
      cases hf : (step s r).fault with
      | none =>
          simp only [passed, hf, (h s r).fault_eq_none_iff.2 hf, (h s r).state, ih]
      | some e =>
          obtain ⟨e', hf'⟩ := (h s r).exists_fault hf
          simp only [passed, hf, hf']

end

end Outcome

end CoEmbed
