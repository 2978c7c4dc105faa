import CoEmbed.Machine.Standard
import CoEmbed.Proofs.Outcome
import CoEmbed.Proofs.Table
import CoEmbed.Weights

/-!
# Filling a Table of Vectors

Vectors come into a table in two ways: they are assigned, with a check of their length, or they are
drawn for the keys that have none, without one. Whatever is mixed of the two, and whatever of it
fails, the vectors are all of one length and the keys stand in the order in which they came in.

* `Weights.register_eq`, `Weights.register_of_known`, `Weights.register_of_error` — what a
  registration comes to.
* `Weights.register_append` — two registrations one after the other.
* `Weights.Call`, `Weights.act`, `Weights.after`, `Weights.stored` — calls on a table.
* `Weights.set_leaves`, `Weights.set_of_fits` — flat lists are vectors.
* `Weights.Grows`, `Weights.grows_act`, `Weights.grows_after` — what one call does to a table, and
  what any number of calls do.
* `Weights.filled` — the table after any calls, and its next registration.
* `Weights.not_always_registered` — a registration that is refused.

## Refusal convention

A call that fails stores nothing. An assignment fails if what is assigned is no vector, or one of
another length. A registration fails at its first new key, before anything is drawn, if the length
of the table is no count or the scheme cannot be drawn from; without a new key it does not look at
either.
-/

namespace CoEmbed

/-! ### Registrations -/

variable {α : Type} [Numeral α]

/-- The entries of the **next vector**, and the source after it. -/
def VectorInit.next [Machine] (init : VectorInit α) (m : ℕ) (s : Source) : List α × Source :=
  ((init.draw m s).1.toList, (init.draw m s).2)

@[simp] theorem VectorInit.length_next [Machine] (init : VectorInit α) (m : ℕ)
    (s : Source) : (init.next m s).1.length = m :=
  Vector.length_toList

namespace Weights

/-- The coordinates of a vector can be drawn exactly if the setting is **a count**. -/
theorem coordinates_eq_ok_iff {n : Setting α} {m : ℕ} :
    coordinates n = .ok m ↔ n.count = .ok (m : ℤ) := by
  have counted (z : ℤ) : (do
      if z < 0 then throw .badValue else return z.toNat : Except Fault ℕ) = .ok m ↔
        (.ok z : Except Fault ℤ) = .ok (m : ℤ) := by
    by_cases hz : z < 0
    · rw [if_pos hz]
      constructor
      · intro h
        cases h
      · intro h
        obtain rfl := Except.ok.inj h
        omega
    · rw [if_neg hz]
      change (.ok z.toNat : Except Fault ℕ) = .ok m ↔ _
      rw [Except.ok.injEq, Except.ok.injEq]
      omega
  have refused {f g : Fault} :
      (.error f : Except Fault ℕ) = .ok m ↔ (.error g : Except Fault ℤ) = .ok (m : ℤ) := by
    constructor <;> intro h <;> cases h
  cases n with
  | absent => exact refused
  | flag b => exact counted _
  | integer z => exact counted z
  | real x => exact refused
  | text t => exact refused

/-- Vectors of a length can be **drawn** for a table: the number of factors is a count, and the
scheme can be drawn from. -/
structure Supplies (n : Setting α) (init : VectorInit α) (m : ℕ) : Prop where
  count : n.count = .ok (m : ℤ)
  drawable : init.drawable = true

/-- A vector that is drawn for a table **fits** it. -/
theorem Supplies.fits {n : Setting α} {init : VectorInit α} {m : ℕ} (h : Supplies n init m) :
    fits m n = true := by
  obtain ⟨hcount, -⟩ := h
  cases n with
  | absent => cases hcount
  | flag b =>
      have hm := Except.ok.inj hcount
      refine decide_eq_true (Int.ofNat_inj.1 (hm.symm.trans ?_))
      cases b <;> rfl
  | integer z => exact decide_eq_true (Except.ok.inj hcount).symm
  | real x => cases hcount
  | text t => cases hcount

section

variable [Machine]

theorem create_of_supplies {n : Setting α} {init : VectorInit α} {m : ℕ} (h : Supplies n init m)
    (s : Source) : create (some n) init s = .ok (init.next m s) := by
  rw [create, h.drawable, coordinates_eq_ok_iff.2 h.count]
  rfl

/-- Where no vectors can be drawn, creating one **fails**. -/
theorem exists_create_error {factor : Option (Setting α)} {init : VectorInit α}
    (h : ∀ n m, factor = some n → ¬ Supplies n init m) (s : Source) :
    ∃ f, create factor init s = .error f := by
  cases factor with
  | none => exact ⟨.badType, rfl⟩
  | some n =>
      rw [create]
      cases hdraw : init.drawable with
      | false => exact ⟨.overflow, rfl⟩
      | true =>
          cases hcount : coordinates n with
          | error f => exact ⟨f, rfl⟩
          | ok m => exact absurd ⟨coordinates_eq_ok_iff.1 hcount, hdraw⟩ (h n m rfl)

theorem enrol_of_mem {init : VectorInit α} {r : Registration α} {k : Key}
    (h : k ∈ r.weights.rows) : enrol init r k = .done r :=
  if_pos h

/-- Registering keys that are **all known** does nothing. -/
theorem register_of_known {w : Weights α} {ks : List Key} (h : w.rows.fresh ks = [])
    (init : VectorInit α) (s : Source) : w.register ks init s = .done ⟨w, 0, s⟩ := by
  rw [Table.fresh_eq_nil_iff] at h
  rw [register]
  induction ks with
  | nil => rfl
  | cons k ks ih =>
      rw [Outcome.each, enrol_of_mem (h k List.mem_cons_self), Outcome.bind_of_done rfl]
      exact ih fun l hl => h l (List.mem_cons_of_mem k hl)

/-- Where a vector cannot be created, a registration with a new key **fails at once**. -/
theorem register_of_error {w : Weights α} {ks : List Key} (hnew : w.rows.fresh ks ≠ [])
    {init : VectorInit α} {s : Source} {f : Fault} (h : create w.factor init s = .error f) :
    w.register ks init s = .failed ⟨w, 0, s⟩ f := by
  rw [register]
  induction ks with
  | nil => exact absurd rfl hnew
  | cons k ks ih =>
      by_cases hk : k ∈ w.rows
      · rw [Outcome.each, enrol_of_mem hk, Outcome.bind_of_done rfl]
        rw [Table.fresh_cons_of_mem hk] at hnew
        exact ih hnew
      · have hfail : enrol init ⟨w, 0, s⟩ k = .failed ⟨w, 0, s⟩ f := by
          rw [enrol, if_neg hk, h]
        rw [Outcome.each, hfail, Outcome.bind_of_fault rfl]

/-- Where vectors can be drawn, a registration **creates one for each new key** and counts them. -/
theorem register_eq {w : Weights α} {n : Setting α} (hn : w.factor = some n)
    {init : VectorInit α} {m : ℕ} (h : Supplies n init m) (ks : List Key) (s : Source) :
    w.register ks init s = .done ⟨⟨some n, (w.rows.register (init.next m) ks s).1⟩,
      (w.rows.fresh ks).length, (w.rows.register (init.next m) ks s).2⟩ := by
  -- the count starts anywhere, as the rest of a list is counted on from its first key
  have key : ∀ rows added s, Outcome.each (enrol init) ⟨⟨some n, rows⟩, added, s⟩ ks
      = .done ⟨⟨some n, (rows.register (init.next m) ks s).1⟩, added + (rows.fresh ks).length,
        (rows.register (init.next m) ks s).2⟩ := by
    induction ks with
    | nil => exact fun _ _ _ => rfl
    | cons k ks ih =>
        intro rows added s
        rw [Outcome.each, Table.register]
        by_cases hk : k ∈ rows
        · rw [enrol_of_mem hk, Outcome.bind_of_done rfl, if_pos hk, Table.fresh_cons_of_mem hk]
          exact ih rows added s
        · have hdone : enrol init ⟨⟨some n, rows⟩, added, s⟩ k
              = .done ⟨⟨some n, rows.insert k (init.next m s).1⟩, added + 1,
                (init.next m s).2⟩ := by
            rw [enrol, if_neg hk, create_of_supplies h]
          rw [hdone, Outcome.bind_of_done rfl, if_neg hk, Table.fresh_cons_of_not_mem hk]
          refine (ih _ _ _).trans ?_
          rw [List.length_cons, Nat.add_right_comm, Nat.add_assoc]
  obtain ⟨factor, rows⟩ := w
  obtain rfl : factor = some n := hn
  refine (key rows 0 s).trans ?_
  rw [Nat.zero_add]

/-- The registration with some more keys **counted before** it. -/
def Registration.plus (added : ℕ) (r : Registration α) : Registration α :=
  { r with added := added + r.added }

/-- Registering two lists **one after the other** registers both: the table, the count, the source
and the fault, if there is one, are the same. -/
theorem register_append (w : Weights α) (ks ls : List Key) (init : VectorInit α) (s : Source) :
    w.register (ks ++ ls) init s = (w.register ks init s).bind fun r =>
      (r.weights.register ls init r.source).map (Registration.plus r.added) := by
  have counted (added : ℕ) (r : Registration α) (k : Key) :
      enrol init (r.plus added) k = (enrol init r k).map (Registration.plus added) := by
    obtain ⟨w, count, s⟩ := r
    refine Outcome.map_ite Iff.rfl rfl ?_
    dsimp only [Registration.plus]
    cases create w.factor init s <;> rfl
  rw [register, Outcome.each_append, ← register]
  congr 1
  funext r
  exact Outcome.map_each (Registration.plus r.added) (counted r.added) ⟨r.weights, 0, r.source⟩ ls

end

/-! ### Calls -/

/-- A **call** on a table: an assignment, or a registration with its scheme and its source. -/
inductive Call (α : Type) where
  | assign (k : Key) (x : Nested α)
  | register (ks : List Key) (init : VectorInit α) (s : Source)

/-- The keys that a call is about. -/
def Call.keys : Call α → List Key
  | .assign k _ => [k]
  | .register ks _ _ => ks

/-- What a call **comes to** for the table. -/
def act [Machine] (w : Weights α) : Call α → Outcome (Weights α)
  | .assign k x => w.set k x
  | .register ks init s => (w.register ks init s).map Registration.weights

/-- The table **after some calls**, each of which finds what the last one left, also if that one
failed. -/
def after [Machine] (w : Weights α) (calls : List (Call α)) : Weights α :=
  calls.foldl (fun w c => (w.act c).state) w

/-- The keys that calls **store vectors under**, in order and as often as they do; calls that fail
store none. -/
def stored [Machine] (w : Weights α) : List (Call α) → List Key
  | [] => []
  | c :: calls =>
    (if (w.act c).fault.isNone then c.keys else []) ++ stored (w.act c).state calls

/-- A table that has **grown** by vectors under some keys: the number of factors has stayed, or has
been taken from a vector, the keys stand in the order in which they first came in, and every vector
that was not there before fits. -/
structure Grows (w w' : Weights α) (ks : List Key) : Prop where
  factor : ∀ n, w.factor = some n → w'.factor = some n
  taken : ∀ n, w'.factor = some n → w.factor = some n ∨ ∃ m : ℕ, n = .integer m
  keys : w'.rows.keys = distinct (w.rows.keys ++ ks)
  fits : ∀ k v, w'.rows.get? k = some v →
    w.rows.get? k = some v ∨ ∃ n, w'.factor = some n ∧ fits v.length n = true

theorem Grows.refl (w : Weights α) : Grows w w [] where
  factor _ h := h
  taken _ h := .inl h
  keys := by rw [List.append_nil, distinct_of_nodup w.rows.nodup_keys]
  fits _ _ h := .inl h

theorem Grows.trans {w w' w'' : Weights α} {ks ls : List Key} (h : Grows w w' ks)
    (h' : Grows w' w'' ls) : Grows w w'' (ks ++ ls) where
  factor n hn := h'.factor n (h.factor n hn)
  taken n hn := by
    rcases h'.taken n hn with hn | hm
    · exact h.taken n hn
    · exact .inr hm
  keys := by rw [h'.keys, h.keys, distinct_distinct_append, List.append_assoc]
  fits k v hv := by
    rcases h'.fits k v hv with hv | hnew
    · rcases h.fits k v hv with hold | ⟨n, hn, hfits⟩
      · exact .inl hold
      · exact .inr ⟨n, h'.factor n hn, hfits⟩
    · exact .inr hnew

/-- Storing a vector that fits makes a table **grow by its key**. -/
theorem grows_insert {w : Weights α} {n : Setting α} {k : Key} {v : List α}
    (hn : ∀ m, w.factor = some m → m = n)
    (htaken : w.factor = some n ∨ ∃ m : ℕ, n = .integer m) (hfits : fits v.length n = true) :
    Grows w ⟨some n, w.rows.insert k v⟩ [k] where
  factor m hm := congrArg some (hn m hm).symm
  taken m hm := by
    obtain rfl := Option.some.inj hm
    exact htaken
  keys := w.rows.keys_insert_eq_distinct k v
  fits l u hu := by
    rw [Table.get?_insert] at hu
    by_cases hl : l = k
    · rw [if_pos hl] at hu
      obtain rfl := Option.some.inj hu
      exact .inr ⟨n, rfl, hfits⟩
    · rw [if_neg hl] at hu
      exact .inl hu

/-- A flat list of scalars is assigned as **a vector**. -/
theorem set_leaves (w : Weights α) (k : Key) (v : List α) :
    w.set k (.node (v.map .leaf)) = w.store k v := by
  have hleaves : (v.map Nested.leaf).mapM Tensor.ofNested
      = (.ok (v.map fun x => ⟨[], [x]⟩) : Except Fault (List (Tensor α))) := by
    induction v with
    | nil => rfl
    | cons x v ih => rw [List.map_cons, List.mapM_cons, ih, Tensor.ofNested]; rfl
  have hread : Tensor.ofNested (.node (v.map .leaf)) = .ok ⟨[v.length], v⟩ := by
    rw [Tensor.ofNested, hleaves]
    cases v with
    | nil => rfl
    | cons x v => simp [Tensor.stack, Tensor.mostAxes, List.flatMap_map, bind, Except.bind]
  rw [set, hread]

/-- A flat list that **fits** is stored under its key. -/
theorem set_of_fits {w : Weights α} {v : List α}
    (h : ∀ n, w.factor = some n → fits v.length n = true) (k : Key) :
    ∃ n, w.set k (.node (v.map .leaf)) = .done ⟨some n, w.rows.insert k v⟩ := by
  rw [set_leaves, store]
  split
  · exact ⟨_, rfl⟩
  · next n hn =>
      rw [if_pos (h n hn)]
      exact ⟨n, rfl⟩

/-- An assignment goes through and makes the table **grow by its key**, or fails and leaves the
table as it was. -/
theorem set_cases (w : Weights α) (k : Key) (x : Nested α) :
    (∃ w', w.set k x = .done w' ∧ Grows w w' [k]) ∨ ∃ f, w.set k x = .failed w f := by
  rw [set]
  split
  · next f _ => exact .inr ⟨f, rfl⟩
  · split
    · next t _ _ _ =>
        rw [store]
        split
        · next hnone =>
            refine .inl ⟨_, rfl, grows_insert (fun m hm => ?_) (.inr ⟨_, rfl⟩) (by simp [fits])⟩
            rw [hnone] at hm
            cases hm
        · next n hn =>
            split
            · next hfits =>
                refine .inl ⟨_, rfl, grows_insert (fun m hm => ?_) (.inl hn) hfits⟩
                exact Option.some.inj (hm.symm.trans hn)
            · exact .inr ⟨_, rfl⟩
    · exact .inr ⟨_, rfl⟩

/-- A table that takes the entries of another one has **grown by its keys** from nothing. -/
theorem grows_ofTable {factor : Option (Setting α)} {items : Table Key (Nested α)} {w : Weights α}
    (h : ofTable factor items = .ok w) : Grows (empty factor) w items.keys := by
  rw [ofTable, Outcome.result] at h
  split at h
  · next hdone =>
      obtain rfl := Except.ok.inj h
      refine Outcome.each_prefix (fun past w => Grows (empty factor) w (past.map Prod.fst))
        (Grows.refl _) hdone fun past e w _ hpast hset => ?_
      rw [List.map_append]
      refine hpast.trans ?_
      rcases w.set_cases e.1 e.2 with ⟨w', hdone, hgrows⟩ | ⟨f, hfailed⟩
      · rw [hdone]
        exact hgrows
      · rw [hfailed] at hset
        cases hset
  · cases h

section

variable [Machine]

/-- A registration goes through and makes the table **grow by its keys**, or fails and leaves the
table and the source as they were. -/
theorem register_cases (w : Weights α) (ks : List Key) (init : VectorInit α) (s : Source) :
    (∃ r, w.register ks init s = .done r ∧ Grows w r.weights ks) ∨
      ∃ f, w.register ks init s = .failed ⟨w, 0, s⟩ f := by
  by_cases hnew : w.rows.fresh ks = []
  · refine .inl ⟨_, register_of_known hnew init s, ?_⟩
    refine { Grows.refl w with keys := ?_ }
    rw [← Table.keys_append_fresh, hnew, List.append_nil]
  · by_cases hsupply : ∃ n m, w.factor = some n ∧ Supplies n init m
    · obtain ⟨n, m, hn, hsupply⟩ := hsupply
      refine .inl ⟨_, register_eq hn hsupply ks s, ?_⟩
      refine ⟨fun l hl => hn.symm.trans hl, fun l hl => .inl (hn.trans hl),
        Table.keys_register _ _ _ _, fun k v hv => ?_⟩
      rcases Table.exists_of_get?_register hv with hold | ⟨s', rfl⟩
      · exact .inl hold
      · refine .inr ⟨n, rfl, ?_⟩
        rw [VectorInit.length_next]
        exact hsupply.fits
    · obtain ⟨f, hf⟩ := exists_create_error (fun n m hn h => hsupply ⟨n, m, hn, h⟩) s
      exact .inr ⟨f, register_of_error hnew hf⟩

/-- A call makes the table **grow by its keys**, if it goes through, and leaves it as it was
otherwise. -/
theorem grows_act (w : Weights α) (c : Call α) :
    Grows w (w.act c).state (if (w.act c).fault.isNone then c.keys else []) := by
  cases c with
  | assign k x =>
      rcases w.set_cases k x with ⟨w', hdone, hgrows⟩ | ⟨f, hfailed⟩
      · rw [act, hdone]
        exact hgrows
      · rw [act, hfailed]
        exact Grows.refl w
  | register ks init s =>
      rcases w.register_cases ks init s with ⟨r, hdone, hgrows⟩ | ⟨f, hfailed⟩
      · rw [act, hdone]
        exact hgrows
      · rw [act, hfailed]
        exact Grows.refl w

/-- Any calls make a table **grow by the keys** that they store vectors under. -/
theorem grows_after (w : Weights α) (calls : List (Call α)) :
    Grows w (w.after calls) (w.stored calls) := by
  induction calls generalizing w with
  | nil => exact Grows.refl w
  | cons c calls ih => exact (w.grows_act c).trans (ih (w.act c).state)

/-- What a **registration** does once the number of factors is set. -/
theorem register_spec {w : Weights α} {n : Setting α} (hn : w.factor = some n) (ks : List Key)
    (init : VectorInit α) (s : Source) :
    let new := w.rows.fresh ks
    (new = [] → w.register ks init s = .done ⟨w, 0, s⟩) ∧
      (∀ m, Supplies n init m →
        let drawn := Table.created (init.next m) new.length s
        ∃ rows, w.register ks init s = .done ⟨⟨some n, rows⟩, new.length, drawn.2⟩ ∧
          rows.entries = w.rows.entries ++ new.zip drawn.1) ∧
      (new ≠ [] → (∀ m, ¬ Supplies n init m) →
        ∃ f, w.register ks init s = .failed ⟨w, 0, s⟩ f) := by
  intro new
  refine ⟨fun hnew => register_of_known hnew init s, fun m hm => ?_, fun hnew hrefused => ?_⟩
  · obtain ⟨hentries, hsource⟩ := Table.entries_register (init.next m) w.rows ks s
    refine ⟨_, ?_, hentries⟩
    rw [register_eq hn hm, hsource]
  · have hnone : ∀ l m, w.factor = some l → ¬ Supplies l init m := by
      intro l m hl
      obtain rfl := Option.some.inj (hn.symm.trans hl)
      exact hrefused m
    obtain ⟨f, hf⟩ := exists_create_error hnone s
    exact ⟨f, register_of_error hnew hf⟩

/-- A table of vectors that is **built and then filled** by any assignments and registrations,
whether or not they go through.

Every vector has as many entries as the table takes. That number is the one that was given, or was
taken from the first vector, and it does not change any more. An assignment stores a flat list that
fits; where it fails, the table is as it was. The keys stand in the order in which a vector was
first stored under them. A registration with new keys counts them, draws one vector for each of
them, in the order in which they first appear, and puts the vectors behind the entries that were
there, provided that vectors can be drawn; otherwise it fails, and the table and the source are as
they were. Without new keys it does nothing. Two registrations one after the other do what one does
with both lists. -/
theorem filled {factor : Option (Setting α)} {items : Table Key (Nested α)} {start : Weights α}
    (h : ofTable factor items = .ok start) (calls : List (Call α)) :
    let w := start.after calls
    (∀ k v, w.rows.get? k = some v → ∃ n, w.factor = some n ∧ fits v.length n = true) ∧
      (∀ n, factor = some n → w.factor = some n) ∧
      (∀ n, w.factor = some n → factor = some n ∨ ∃ m : ℕ, n = .integer m) ∧
      (∀ n later, w.factor = some n → (w.after later).factor = some n) ∧
      (∀ k v, (∀ n, w.factor = some n → fits v.length n = true) →
        ∃ n, w.set k (.node (v.map .leaf)) = .done ⟨some n, w.rows.insert k v⟩) ∧
      (∀ k x f, (w.set k x).fault = some f → (w.set k x).state = w) ∧
      w.rows.keys = distinct (items.keys ++ start.stored calls) ∧
      (∀ n, w.factor = some n → ∀ ks init s,
        let new := w.rows.fresh ks
        (new = [] → w.register ks init s = .done ⟨w, 0, s⟩) ∧
          (∀ m, Supplies n init m →
            let drawn := Table.created (init.next m) new.length s
            ∃ rows, w.register ks init s = .done ⟨⟨some n, rows⟩, new.length, drawn.2⟩ ∧
              rows.entries = w.rows.entries ++ new.zip drawn.1) ∧
          (new ≠ [] → (∀ m, ¬ Supplies n init m) →
            ∃ f, w.register ks init s = .failed ⟨w, 0, s⟩ f)) ∧
      ∀ ks ls init s, w.register (ks ++ ls) init s = (w.register ks init s).bind fun r =>
        (r.weights.register ls init r.source).map (Registration.plus r.added) := by
  intro w
  have hgrows := (grows_ofTable h).trans (start.grows_after calls)
  refine ⟨fun k v hv => ?_, hgrows.factor, hgrows.taken,
    fun n later hn => (w.grows_after later).factor n hn, fun k v hv => set_of_fits hv k,
    fun k x f hf => ?_, hgrows.keys, fun n hn ks init s => register_spec hn ks init s,
    register_append w⟩
  · rcases hgrows.fits k v hv with hnone | hfits
    · cases hnone
    · exact hfits
  · rcases w.set_cases k x with ⟨w', hdone, -⟩ | ⟨e, hfailed⟩
    · rw [hdone] at hf
      cases hf
    · rw [hfailed]
      rfl

end

/-- A table that takes the length of its vectors from the first one: a shorter vector is refused,
and a registration passes over the key that is known and the key that it has met before. -/
theorem filled_mixed :
    let items : Table Key (Nested Float) := .ofList [(.text "b", .node [.leaf 1, .leaf 2])]
    let start : Weights Float := ⟨some (.integer 2), .ofList [(.text "b", [1, 2])]⟩
    let calls : List (Call Float) := [.assign (.text "a") (.node [.leaf 3]),
      .register [.text "c", .text "b", .text "c"] ⟨.gaussian, 1, 1, 0⟩ ⟨0, 0⟩,
      .assign (.text "a") (.node [.leaf 3, .leaf 4])]
    ofTable none items = .ok start ∧
      (start.after calls).rows.keys = [.text "b", .text "c", .text "a"] ∧
      (start.after calls).factor = some (.integer 2) := by
  intro items start calls
  have hbuilt : ofTable none items = .ok start := by
    change ((set (empty none) (.text "b") (.node ([1, 2].map .leaf))).bind .done).result = _
    rw [set_leaves]
    rfl
  obtain ⟨-, -, -, -, -, -, hkeys, -⟩ := filled hbuilt calls
  obtain ⟨-, -, -, hfactor, -⟩ := filled hbuilt []
  refine ⟨hbuilt, hkeys.trans ?_, hfactor _ calls rfl⟩
  have hshort (w : Weights Float) : w.set (.text "a") (.node [.leaf 3]) = w.store (.text "a") [3] :=
    set_leaves w (.text "a") [3]
  have hlong (w : Weights Float) :
      w.set (.text "a") (.node [.leaf 3, .leaf 4]) = w.store (.text "a") [3, 4] :=
    set_leaves w (.text "a") [3, 4]
  have hstored : start.stored calls = [.text "c", .text "b", .text "c", .text "a"] := by
    simp only [calls, stored, act, hshort, hlong]
    rfl
  rw [hstored]
  decide

/-- An interval whose ends are finite and whose **length is not** makes a scheme that is accepted,
and a registration of a new key with it fails; so does one with a gathered scheme in a table that
has been given a number of factors below zero. -/
theorem not_always_registered :
    let w : Weights Float := empty (some (.integer 1))
    let below : Weights Float := empty (some (.integer (-1)))
    let options : VectorInit.Options Float := ⟨.real 1e308, .real 1, .real 0⟩
    w.rows.fresh [.text "a"] = [.text "a"] ∧
      (∃ init, VectorInit.ofOptions .random options = .ok init ∧
        (w.register [.text "a"] init ⟨0, 0⟩).fault = some .overflow) ∧
      (below.register [.text "a"] ⟨.gaussian, 1, 1, 0⟩ ⟨0, 0⟩).fault = some .badValue := by
  intro w below options
  have hrefused := exists_ok_of_any (x := VectorInit.ofOptions .random options)
    (p := fun init => decide ((w.register [.text "a"] init ⟨0, 0⟩).fault = some .overflow))
    (by decide +kernel)
  obtain ⟨init, haccepted, hfault⟩ := hrefused
  exact ⟨by decide, ⟨init, haccepted, of_decide_eq_true hfault⟩, by decide +kernel⟩

end Weights

end CoEmbed
