import Mathlib
import CoEmbed.Distinct
import CoEmbed.Table

/-!
# Sums over Tables

A table is a finite map, and a sum over its entries is a sum over its set of keys. A list of
keys is a finite multiset, and a sum over it counts each key as often as it is listed.

* `Table.domain` — the finite set of keys.
* `Table.ext_get?` — a table is its list of keys together with its values.
* `Table.get?_of_perm` — a table with its entries in another order.
* `Table.get?_mapValues`, `Table.mapValues_mapValues`, `Table.mapValues_insert` — values sent
  through a function.
* `foldl_kept`, `foldlM_kept` — folds that pass over some members of a list.
* `Table.fresh_eq`, `Table.keys_append_fresh` — the new keys of a list.
* `Table.created`, `Table.entries_register`, `Table.keys_register` — registration creates one value
  for each new key.
* `Table.get?_foldl_insert`, `Table.entries_foldl_insert` — what inserting lists does.
* `Table.Extends`, `Table.extends_register` — a table that has only grown at its end.
* `Table.sum_entries` — a sum over the entries, by key.
* `sum_map_eq_sum_count` — a sum over a list of keys, by key and multiplicity.
* `weightsOf`, `sum_map_eq_sum_weightsOf` — the same for a list of weighted keys.
-/

namespace CoEmbed

variable {κ ν M : Type*} [DecidableEq κ] [AddCommMonoid M]

/-! ### Folds over a part of a list -/

/-- Members of a list that a fold **passes over** may be left out. -/
theorem foldl_kept {σ β : Type} {f : σ → β → σ} {p : β → Bool}
    (hskip : ∀ s b, p b = false → f s b = s) (s : σ) (bs : List β) :
    (bs.filter p).foldl f s = bs.foldl f s := by
  rw [List.foldl_filter]
  congr 1
  funext s b
  cases hb : p b with
  | true => exact if_pos rfl
  | false =>
      rw [hskip s b hb]
      exact ite_self _

/-- Members of a list that a fold with faults **passes over** may be left out. -/
theorem foldlM_kept {ε σ β : Type} {f : σ → β → Except ε σ} {p : β → Bool}
    (hskip : ∀ s b, p b = false → f s b = .ok s) (s : σ) (bs : List β) :
    (bs.filter p).foldlM f s = bs.foldlM f s := by
  rw [List.foldlM_filter]
  congr 1
  funext s b
  cases hb : p b with
  | true => exact if_pos rfl
  | false =>
      rw [hskip s b hb]
      exact ite_self _

/-! ### Tables as finite maps -/

namespace Table

variable {κ ν : Type} [DecidableEq κ]

/-- The finite **set of keys** of a table. -/
def domain (t : Table κ ν) : Finset κ := t.keys.toFinset

@[simp] theorem mem_domain {t : Table κ ν} {k : κ} : k ∈ t.domain ↔ k ∈ t := List.mem_toFinset

theorem domain_insert (t : Table κ ν) (k : κ) (v : ν) :
    (t.insert k v).domain = Insert.insert k t.domain := by
  ext l
  rw [mem_domain, mem_insert, Finset.mem_insert, mem_domain]

/-- An entry of a table is the value of its key. -/
theorem get?_of_mem_entries {t : Table κ ν} {e : κ × ν} (h : e ∈ t.entries) :
    t.get? e.1 = some e.2 := by
  obtain ⟨es, hes⟩ := t
  induction es with
  | nil => exact absurd h List.not_mem_nil
  | cons d ds ih =>
      rw [List.map_cons, List.nodup_cons] at hes
      rw [get?, valueIn]
      rcases List.mem_cons.1 h with rfl | he
      · exact if_pos rfl
      · have hne : d.1 ≠ e.1 := fun hk => by
          rw [hk] at hes
          exact hes.1 (List.mem_map_of_mem he)
        rw [if_neg hne]
        exact ih hes.2 he

/-- The value of a key is an entry. -/
theorem mem_entries_of_get? {t : Table κ ν} {k : κ} {v : ν} (h : t.get? k = some v) :
    (k, v) ∈ t.entries := by
  have hk : k ∈ t.entries.map Prod.fst := by
    by_contra hk
    rw [get?_eq_none_iff.2 hk] at h
    cases h
  obtain ⟨e, he, rfl⟩ := List.mem_map.1 hk
  rw [get?_of_mem_entries he] at h
  obtain rfl := Option.some.inj h
  exact he

/-- What holds of the key of every entry holds of **every key**. -/
theorem forall_mem_entries {κ ν : Type} (t : Table κ ν) (P : κ → Prop) :
    (∀ e ∈ t.entries, P e.1) ↔ ∀ k ∈ t, P k :=
  List.forall_mem_map.symm

/-- A known key has a value. -/
theorem exists_get? {t : Table κ ν} {k : κ} (h : k ∈ t) : ∃ v, t.get? k = some v :=
  Option.isSome_iff_exists.1 (get?_isSome_iff.2 h)

theorem mem_of_get? {t : Table κ ν} {k : κ} {v : ν} (h : t.get? k = some v) : k ∈ t :=
  get?_isSome_iff.1 (by rw [h]; rfl)

omit [DecidableEq κ] in
/-- A table is **its entries**. -/
theorem ext_entries {t u : Table κ ν} (h : t.entries = u.entries) : t = u := by
  obtain ⟨es, hes⟩ := t
  obtain ⟨fs, hfs⟩ := u
  obtain rfl : es = fs := h
  rfl

/-- A table is **its keys and their values**. -/
theorem ext_get? {t u : Table κ ν} (hk : t.keys = u.keys)
    (hv : ∀ k ∈ t, t.get? k = u.get? k) : t = u := by
  have key : ∀ w : Table κ ν, w.entries.map (fun e => (e.1, some e.2))
      = w.keys.map fun k => (k, w.get? k) := fun w => by
    rw [keys, List.map_map]
    exact List.map_congr_left fun e he =>
      congrArg (Prod.mk e.1) (get?_of_mem_entries he).symm
  have hsame : t.entries.map (fun e => (e.1, some e.2))
      = u.entries.map fun e => (e.1, some e.2) := by
    rw [key t, key u, ← hk]
    exact List.map_congr_left fun k hk' => congrArg (Prod.mk k) (hv k hk')
  have hinj : Function.Injective fun e : κ × ν => (e.1, some e.2) := by
    rintro ⟨a, x⟩ ⟨b, y⟩ h
    obtain ⟨hab, hxy⟩ := Prod.mk.inj h
    exact Prod.ext hab (Option.some.inj hxy)
  exact ext_entries (List.map_injective_iff.2 hinj hsame)

/-- Tables with the same entries in **another order** have the same values. -/
theorem get?_of_perm {t u : Table κ ν} (h : t.entries.Perm u.entries) (k : κ) :
    t.get? k = u.get? k := by
  ext v
  constructor
  · exact fun hv => get?_of_mem_entries (h.mem_iff.1 (mem_entries_of_get? hv))
  · exact fun hv => get?_of_mem_entries (h.mem_iff.2 (mem_entries_of_get? hv))

/-- Looking up all keys gives **all values**, in order. -/
theorem filterMap_get?_keys (t : Table κ ν) : t.keys.filterMap t.get? = t.values := by
  rw [keys, values, List.filterMap_map, ← List.filterMap_eq_map]
  exact List.filterMap_congr fun e he => get?_of_mem_entries he

/-- The value of a key after all values have been **sent through a function**. -/
theorem get?_mapValues {μ : Type} (f : κ → ν → μ) (t : Table κ ν) (k : κ) :
    (t.mapValues f).get? k = (t.get? k).map (f k) := by
  obtain ⟨es, hes⟩ := t
  induction es with
  | nil => rfl
  | cons e es ih =>
      rw [List.map_cons, List.nodup_cons] at hes
      have htail := ih hes.2
      simp only [get?, mapValues, List.map_cons, valueIn] at htail ⊢
      by_cases h : e.1 = k
      · rw [if_pos h, if_pos h, h]
        rfl
      · rw [if_neg h, if_neg h]
        exact htail

omit [DecidableEq κ] in
theorem mem_mapValues {μ : Type} {f : κ → ν → μ} {t : Table κ ν} {k : κ} :
    k ∈ t.mapValues f ↔ k ∈ t := by
  rw [mem_iff, keys_mapValues, mem_iff]

/-- A value may be written before or after all values are sent through a function. -/
theorem mapValues_insert {μ : Type} (f : κ → ν → μ) (t : Table κ ν) (k : κ) (v : ν) :
    (t.insert k v).mapValues f = (t.mapValues f).insert k (f k v) := by
  refine ext_get? ?_ fun l _ => ?_
  · rw [keys_mapValues, keys_insert, keys_insert, keys_mapValues]
    exact if_congr mem_mapValues.symm rfl rfl
  · rw [get?_mapValues, get?_insert, get?_insert, get?_mapValues]
    by_cases h : l = k
    · rw [if_pos h, if_pos h, h]
      rfl
    · rw [if_neg h, if_neg h]

/-- Functions that agree on **the entries** of a table send it to the same table. -/
theorem mapValues_congr {μ : Type} {f g : κ → ν → μ} {t : Table κ ν}
    (h : ∀ k v, t.get? k = some v → f k v = g k v) : t.mapValues f = t.mapValues g := by
  refine ext_get? (by rw [keys_mapValues, keys_mapValues]) fun k _ => ?_
  rw [get?_mapValues, get?_mapValues]
  cases hv : t.get? k with
  | none => rfl
  | some v => exact congrArg some (h k v hv)

/-- Values sent through two functions **one after the other**. -/
theorem mapValues_mapValues {μ ξ : Type} (g : κ → μ → ξ) (f : κ → ν → μ) (t : Table κ ν) :
    (t.mapValues f).mapValues g = t.mapValues fun k v => g k (f k v) := by
  refine ext_get? (by rw [keys_mapValues, keys_mapValues, keys_mapValues]) fun k _ => ?_
  rw [get?_mapValues, get?_mapValues, get?_mapValues, Option.map_map]
  rfl

/-- A sum over the entries of a table is a **sum over its keys**. -/
theorem sum_entries {M : Type*} [AddCommMonoid M] (t : Table κ ν) (f : κ → Option ν → M) :
    (t.entries.map fun e => f e.1 (some e.2)).sum = ∑ k ∈ t.domain, f k (t.get? k) := by
  rw [domain, List.sum_toFinset _ t.nodup_keys, keys, List.map_map]
  refine congrArg List.sum (List.map_congr_left fun e he => ?_)
  rw [Function.comp_apply, get?_of_mem_entries he]

/-! ### New keys -/

/-- The new keys are the distinct members of **the part that is not known**. -/
theorem fresh_eq (t : Table κ ν) (ks : List κ) :
    t.fresh ks = distinct (ks.filter fun k => decide (k ∉ t)) := by
  induction ks using List.reverseRecOn with
  | nil => rfl
  | append_singleton ks k ih =>
      rw [fresh, List.foldl_append, ← fresh, ih, List.filter_append, distinct_append]
      by_cases ht : k ∈ t <;> by_cases hk : k ∈ ks <;> simp [distinct, ht, hk]

theorem fresh_cons_of_mem {t : Table κ ν} {k : κ} (h : k ∈ t) (ks : List κ) :
    t.fresh (k :: ks) = t.fresh ks := by
  rw [fresh_eq, fresh_eq, List.filter_cons_of_neg (by simpa using h)]

/-- A new key comes first, and is **known from then on**. -/
theorem fresh_cons_of_not_mem {t : Table κ ν} {k : κ} (h : k ∉ t) (v : ν) (ks : List κ) :
    t.fresh (k :: ks) = k :: (t.insert k v).fresh ks := by
  rw [fresh_eq, fresh_eq, List.filter_cons_of_pos (by simpa using h), distinct, filter_distinct,
    List.filter_filter]
  congr 3
  funext l
  simp

theorem fresh_eq_nil_iff {t : Table κ ν} {ks : List κ} :
    t.fresh ks = [] ↔ ∀ k ∈ ks, k ∈ t := by
  constructor
  · intro h l hl
    by_contra hnew
    have hmem : l ∈ t.fresh ks := by
      rw [fresh_eq, mem_distinct, List.mem_filter]
      exact ⟨hl, decide_eq_true hnew⟩
    rw [h] at hmem
    exact List.not_mem_nil hmem
  · intro h
    rw [fresh_eq, List.filter_eq_nil_iff.2 fun l hl => by simpa using h l hl]
    rfl

/-- The keys of a table and then the new ones are the **distinct members** of both. -/
theorem keys_append_fresh (t : Table κ ν) (ks : List κ) :
    t.keys ++ t.fresh ks = distinct (t.keys ++ ks) := by
  rw [distinct_append, distinct_of_nodup t.nodup_keys, filter_distinct, fresh_eq]
  rfl

theorem keys_insert_eq_distinct (t : Table κ ν) (k : κ) (v : ν) :
    (t.insert k v).keys = distinct (t.keys ++ [k]) := by
  rw [← keys_append_fresh, keys_insert]
  by_cases h : k ∈ t
  · rw [if_pos h, fresh_eq_nil_iff.2 (by simpa using h), List.append_nil]
  · rw [if_neg h, fresh_cons_of_not_mem h v]
    rfl

/-! ### Registration -/

/-- Some values **created one after the other**, and the state after them. -/
def created {σ : Type} (create : σ → ν × σ) : ℕ → σ → List ν × σ
  | 0, s => ([], s)
  | n + 1, s =>
    let rest := created create n (create s).2
    ((create s).1 :: rest.1, rest.2)

theorem length_created {σ : Type} (create : σ → ν × σ) (n : ℕ) (s : σ) :
    (created create n s).1.length = n := by
  induction n generalizing s with
  | zero => rfl
  | succ n ih => exact congrArg Nat.succ (ih (create s).2)

/-- Every value that is created is **created from some state**. -/
theorem exists_of_mem_created {σ : Type} {create : σ → ν × σ} {n : ℕ} {s : σ} {v : ν}
    (h : v ∈ (created create n s).1) : ∃ s', v = (create s').1 := by
  induction n generalizing s with
  | zero => exact absurd h List.not_mem_nil
  | succ n ih =>
      rcases List.mem_cons.1 h with rfl | hrest
      · exact ⟨s, rfl⟩
      · exact ih hrest

/-- Registration creates **one value for each new key**, in order, puts them behind the entries that
were there, and ends with the state after the last of them. -/
theorem entries_register {σ : Type} (create : σ → ν × σ) (t : Table κ ν) (ks : List κ) (s : σ) :
    let made := created create (t.fresh ks).length s
    (register create t ks s).1.entries = t.entries ++ (t.fresh ks).zip made.1 ∧
      (register create t ks s).2 = made.2 := by
  induction ks generalizing t s with
  | nil => exact ⟨(List.append_nil _).symm, rfl⟩
  | cons k ks ih =>
      rw [register]
      by_cases hk : k ∈ t
      · rw [if_pos hk, fresh_cons_of_mem hk]
        exact ih t s
      · obtain ⟨hentries, hstate⟩ := ih (t.insert k (create s).1) (create s).2
        rw [if_neg hk, fresh_cons_of_not_mem hk (create s).1, hentries, hstate,
          entries_insert_of_not_mem hk, List.append_assoc]
        exact ⟨rfl, rfl⟩

/-- The keys after registration depend on **the keys before** it alone, whatever is created: they
are the distinct members of what was known and what is registered. -/
theorem keys_register {σ : Type} (create : σ → ν × σ) (t : Table κ ν) (ks : List κ) (s : σ) :
    (register create t ks s).1.keys = distinct (t.keys ++ ks) := by
  rw [keys, (entries_register create t ks s).1, List.map_append, List.map_fst_zip,
    ← keys_append_fresh]
  · rfl
  · exact (length_created create _ s).ge

/-- Registration makes **every key of the list** known, and no other. -/
theorem mem_register {σ : Type} (create : σ → ν × σ) (t : Table κ ν) (ks : List κ) (s : σ)
    (k : κ) : k ∈ (register create t ks s).1 ↔ k ∈ t ∨ k ∈ ks := by
  rw [mem_iff, keys_register, mem_distinct, List.mem_append, mem_iff]

/-- Registering **new keys**, none of them twice, puts them at the end. -/
theorem keys_register_of_new {σ : Type} (create : σ → ν × σ) {t : Table κ ν} {ks : List κ}
    (hnodup : ks.Nodup) (hnew : ∀ k ∈ ks, k ∉ t) (s : σ) :
    (register create t ks s).1.keys = t.keys ++ ks := by
  rw [keys_register, distinct_append, distinct_of_nodup t.nodup_keys, distinct_of_nodup hnodup,
    List.filter_eq_self.2]
  exact fun k hk => decide_eq_true (hnew k hk)

/-- A value after registration was there before, or has been **created**. -/
theorem exists_of_get?_register {σ : Type} {create : σ → ν × σ} {t : Table κ ν} {ks : List κ}
    {s : σ} {k : κ} {v : ν} (h : (register create t ks s).1.get? k = some v) :
    t.get? k = some v ∨ ∃ s', v = (create s').1 := by
  have hmem := mem_entries_of_get? h
  rw [(entries_register create t ks s).1, List.mem_append] at hmem
  rcases hmem with hold | hcreated
  · exact .inl (get?_of_mem_entries hold)
  · exact .inr (exists_of_mem_created (List.of_mem_zip hcreated).2)

/-- A table that has only **grown at its end**: no key has been removed or moved, and no known key
has another value. -/
structure Extends (t u : Table κ ν) : Prop where
  keys : t.keys <+: u.keys
  get? : ∀ k ∈ t, u.get? k = t.get? k

/-- Registration makes a table grow **at its end**. -/
theorem extends_register {σ : Type} (create : σ → ν × σ) (t : Table κ ν) (ks : List κ) (s : σ) :
    t.Extends (register create t ks s).1 := by
  refine ⟨?_, fun k hk => get?_register_of_mem create t ks s hk⟩
  rw [keys_register, ← keys_append_fresh]
  exact List.prefix_append t.keys (t.fresh ks)

/-- What holds of all values, and of every value that may be created, holds of all values **after
registration**. -/
theorem forall_get?_register {σ : Type} {create : σ → ν × σ} {P : ν → Prop}
    (hcreate : ∀ s, P (create s).1) {t : Table κ ν} (h : ∀ k v, t.get? k = some v → P v)
    (ks : List κ) (s : σ) : ∀ k v, (register create t ks s).1.get? k = some v → P v := by
  intro k v hv
  rcases exists_of_get?_register hv with hold | ⟨s', rfl⟩
  · exact h k v hold
  · exact hcreate s'

/-! ### Lists of entries -/

/-- Inserting **new keys** adds their entries at the end, in order. -/
theorem entries_foldl_insert {ι : Type} {key : ι → κ} (f : ι → ν) {is : List ι}
    (hnodup : (is.map key).Nodup) {t : Table κ ν} (hnew : ∀ i ∈ is, key i ∉ t) :
    (is.foldl (fun t i => t.insert (key i) (f i)) t).entries
      = t.entries ++ is.map fun i => (key i, f i) := by
  induction is generalizing t with
  | nil => exact (List.append_nil _).symm
  | cons i is ih =>
      obtain ⟨hi, his⟩ := List.nodup_cons.1 hnodup
      rw [List.foldl_cons, ih his, entries_insert_of_not_mem (hnew i List.mem_cons_self),
        List.append_assoc]
      · rfl
      · intro j hj hmem
        rcases mem_insert.1 hmem with heq | hold
        · exact hi (heq ▸ List.mem_map_of_mem hj)
        · exact hnew j (List.mem_cons_of_mem i hj) hold

/-- A list of entries without repeated keys is **the table of itself**. -/
theorem entries_ofList {es : List (κ × ν)} (h : (es.map Prod.fst).Nodup) :
    (ofList es).entries = es := by
  refine (entries_foldl_insert Prod.snd h fun e _ => not_mem_empty e.1).trans ?_
  exact List.map_id es

/-- A list of entries makes **its keys** known, and no other. -/
theorem mem_ofList {es : List (κ × ν)} {k : κ} : k ∈ ofList es ↔ k ∈ es.map Prod.fst := by
  have key : ∀ t : Table κ ν,
      k ∈ es.foldl (fun t e => t.insert e.1 e.2) t ↔ k ∈ t ∨ k ∈ es.map Prod.fst := by
    induction es with
    | nil => exact fun t => by simp
    | cons e es ih =>
        intro t
        rw [List.foldl_cons, ih, mem_insert, List.map_cons, List.mem_cons, ← or_assoc,
          or_comm (a := k = e.1)]
  exact (key empty).trans (or_iff_right (not_mem_empty k))

/-- What a key has is **one of the values** that are listed for it. -/
theorem mem_of_get?_ofList {es : List (κ × ν)} {k : κ} {v : ν} (h : (ofList es).get? k = some v) :
    (k, v) ∈ es := by
  have key : ∀ t : Table κ ν, (es.foldl (fun t e => t.insert e.1 e.2) t).get? k = some v →
      t.get? k = some v ∨ (k, v) ∈ es := by
    clear h
    induction es with
    | nil => exact fun t => .inl
    | cons e es ih =>
        intro t h
        rcases ih _ h with hold | hmem
        · rw [get?_insert] at hold
          split at hold
          · next heq =>
              obtain rfl := Option.some.inj hold
              exact .inr (heq ▸ List.mem_cons_self)
          · exact .inl hold
        · exact .inr (List.mem_cons_of_mem e hmem)
  exact (key empty h).resolve_left (Option.some_ne_none v).symm

/-- After some entries are inserted, a key that is **not listed twice** has the value listed for it,
or what it had. -/
theorem get?_foldl_insert_of_count {es : List (κ × ν)} {k : κ}
    (h : (es.map Prod.fst).count k ≤ 1) (t : Table κ ν) :
    (es.foldl (fun t e => t.insert e.1 e.2) t).get? k = (valueIn k es).or (t.get? k) := by
  induction es generalizing t with
  | nil => rfl
  | cons e es ih =>
      rw [List.map_cons, List.count_cons] at h
      rw [List.foldl_cons, ih (by omega), get?_insert, valueIn]
      by_cases he : e.1 = k
      · rw [if_pos (beq_iff_eq.2 he)] at h
        have hrest : k ∉ es.map Prod.fst := List.count_eq_zero.1 (by omega)
        rw [valueIn_eq_none_iff.2 hrest, if_pos he.symm, if_pos he]
        rfl
      · rw [if_neg (Ne.symm he), if_neg he]

/-- After the entries of a table are inserted, its keys have **the values listed there**, and the
others what they had. -/
theorem get?_foldl_insert_or (t u : Table κ ν) (k : κ) :
    (u.entries.foldl (fun t e => t.insert e.1 e.2) t).get? k = (u.get? k).or (t.get? k) :=
  get?_foldl_insert_of_count (List.nodup_iff_count_le_one.1 u.nodup k) t

/-- After the entries of a table are inserted, **each of its keys** has the value listed for
it. -/
theorem get?_foldl_insert (t u : Table κ ν) {k : κ} (h : k ∈ u) :
    (u.entries.foldl (fun t e => t.insert e.1 e.2) t).get? k = u.get? k := by
  obtain ⟨v, hv⟩ := exists_get? h
  rw [get?_foldl_insert_or, hv]
  rfl

end Table

/-! ### Lists of keys with multiplicities -/

/-- A sum over a list of keys counts **each key as often as it is listed**; keys at which the
summand vanishes may be left out. -/
theorem sum_map_eq_sum_count (D : Finset κ) (ks : List κ) (f : κ → M)
    (hf : ∀ k, k ∉ D → f k = 0) : (ks.map f).sum = ∑ k ∈ D, ks.count k • f k := by
  induction ks with
  | nil => simp
  | cons k ks ih =>
      have hstep : ∀ j, (k :: ks).count j • f j = ks.count j • f j + if k = j then f j else 0 := by
        intro j
        rw [List.count_cons, add_smul]
        by_cases h : k = j <;> simp [h]
      rw [List.map_cons, List.sum_cons, ih, Finset.sum_congr rfl fun j _ => hstep j,
        Finset.sum_add_distrib, Finset.sum_ite_eq, add_comm]
      by_cases hk : k ∈ D
      · rw [if_pos hk]
      · rw [if_neg hk, hf k hk]

/-- Members at which the summand vanishes may be filtered out of a sum over a list. -/
theorem sum_map_filter {ι : Type*} (p : ι → Bool) (xs : List ι) (f : ι → M)
    (hf : ∀ x ∈ xs, p x = false → f x = 0) : ((xs.filter p).map f).sum = (xs.map f).sum := by
  induction xs with
  | nil => rfl
  | cons x xs ih =>
      have ih := ih fun y hy => hf y (List.mem_cons_of_mem x hy)
      rw [List.filter_cons, List.map_cons, List.sum_cons]
      cases hp : p x with
      | true => rw [if_pos rfl, List.map_cons, List.sum_cons, ih]
      | false => rw [if_neg Bool.false_ne_true, ih, hf x List.mem_cons_self hp, zero_add]

/-- The **weights** that a list of weighted keys gives to one key, in order. -/
def weightsOf {ω : Type*} (row : List (κ × ω)) (k : κ) : List ω :=
  row.filterMap fun e => if e.1 = k then some e.2 else none

@[simp] theorem weightsOf_nil {ω : Type*} (k : κ) : weightsOf ([] : List (κ × ω)) k = [] := rfl

theorem weightsOf_cons {ω : Type*} (e : κ × ω) (row : List (κ × ω)) (k : κ) :
    weightsOf (e :: row) k = if e.1 = k then e.2 :: weightsOf row k else weightsOf row k := by
  by_cases h : e.1 = k <;> simp [weightsOf, h]

/-- A table lists **one value** for each of its keys. -/
theorem weightsOf_entries {κ ν : Type} [DecidableEq κ] (t : Table κ ν) (k : κ) :
    weightsOf t.entries k = (t.get? k).toList := by
  obtain ⟨es, hes⟩ := t
  rw [Table.get?]
  induction es with
  | nil => rfl
  | cons e es ih =>
      rw [List.map_cons, List.nodup_cons] at hes
      have htail := ih hes.2
      rw [weightsOf_cons, Table.valueIn, htail]
      by_cases h : e.1 = k
      · rw [if_pos h, if_pos h, Table.valueIn_eq_none_iff.2 (h ▸ hes.1)]
        rfl
      · rw [if_neg h, if_neg h]

/-- A key is given as many weights as **it is listed** times. -/
theorem length_weightsOf {ω : Type*} (row : List (κ × ω)) (k : κ) :
    (weightsOf row k).length = (row.map Prod.fst).count k := by
  induction row with
  | nil => rfl
  | cons e row ih =>
      rw [weightsOf_cons, List.map_cons, List.count_cons, ← ih]
      by_cases h : e.1 = k <;> simp [h]

/-- A weight is given to a key if **the pair is listed**. -/
theorem mem_weightsOf {ω : Type*} {row : List (κ × ω)} {k : κ} {w : ω} :
    w ∈ weightsOf row k ↔ (k, w) ∈ row := by
  induction row with
  | nil => exact iff_of_false List.not_mem_nil List.not_mem_nil
  | cons e row ih =>
      obtain ⟨j, x⟩ := e
      rw [weightsOf_cons, List.mem_cons, ← ih]
      by_cases h : j = k <;> simp [h, Ne.symm]

/-- A weight is given to a key as often as the pair is listed. -/
theorem count_weightsOf {ω : Type*} [DecidableEq ω] (row : List (κ × ω)) (k : κ) (w : ω) :
    (weightsOf row k).count w = row.count (k, w) := by
  induction row with
  | nil => rfl
  | cons e row ih =>
      obtain ⟨j, x⟩ := e
      rw [weightsOf_cons, List.count_cons, ← ih]
      by_cases hj : j = k <;> by_cases hx : x = w <;> simp [hj, hx]

/-- A sum over a list of weighted keys, **by key**; keys at which the summand vanishes may be
left out. -/
theorem sum_map_eq_sum_weightsOf {ω : Type*} (D : Finset κ) (row : List (κ × ω))
    (f : κ → ω → M) (hf : ∀ k, k ∉ D → ∀ w, f k w = 0) :
    (row.map fun e => f e.1 e.2).sum = ∑ k ∈ D, ((weightsOf row k).map (f k)).sum := by
  induction row with
  | nil => simp
  | cons e row ih =>
      have hstep : ∀ k, ((weightsOf (e :: row) k).map (f k)).sum
          = ((weightsOf row k).map (f k)).sum + if e.1 = k then f k e.2 else 0 := by
        intro k
        rw [weightsOf_cons]
        by_cases h : e.1 = k <;> simp [h, add_comm]
      rw [List.map_cons, List.sum_cons, ih, Finset.sum_congr rfl fun k _ => hstep k,
        Finset.sum_add_distrib, Finset.sum_ite_eq, add_comm]
      by_cases hk : e.1 ∈ D
      · rw [if_pos hk]
      · rw [if_neg hk, hf e.1 hk e.2]

end CoEmbed
