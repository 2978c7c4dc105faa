/-!
# Tables

A table gives each of its keys one value and keeps its keys in the order in which they
first came in. Every parameter, every adjacency list and every counter of this library is
an entry of a table.

* `Table.get?`, `Table.insert`, `Table.erase` — the operations on one key.
* `Table.ofList` — the table of a list of entries.
* `Table.register` — creates a value for every key that has none.
* `Table.keys_insert`, `Table.get?_insert` — what an insertion does to keys and values.
* `Table.register_append` — registering two lists one after the other registers both.

## Order convention

An insertion at a known key replaces the value and keeps the place; an insertion at a new
key puts it last. No operation but `erase` removes or moves a key.
-/

namespace CoEmbed

/-- An **insertion-ordered table**: a list of entries in which no key occurs twice. -/
structure Table (κ ν : Type) where
  entries : List (κ × ν)
  nodup : (entries.map Prod.fst).Nodup

namespace Table

variable {κ ν σ : Type}

/-- The table without entries. -/
def empty : Table κ ν := ⟨[], List.nodup_nil⟩

instance : Inhabited (Table κ ν) := ⟨empty⟩

/-- The keys, in order. -/
def keys (t : Table κ ν) : List κ := t.entries.map Prod.fst

/-- The values, in the order of their keys. -/
def values (t : Table κ ν) : List ν := t.entries.map Prod.snd

/-- The number of entries. -/
def size (t : Table κ ν) : Nat := t.entries.length

instance : Membership κ (Table κ ν) := ⟨fun t k => k ∈ t.keys⟩

theorem mem_iff {t : Table κ ν} {k : κ} : k ∈ t ↔ k ∈ t.keys := Iff.rfl

@[simp] theorem not_mem_empty (k : κ) : k ∉ (empty : Table κ ν) := by simp [mem_iff, keys, empty]

theorem nodup_keys (t : Table κ ν) : t.keys.Nodup := t.nodup

/-- The table with every value sent through a function that may look at the key. -/
def mapValues {μ : Type} (f : κ → ν → μ) (t : Table κ ν) : Table κ μ where
  entries := t.entries.map fun e => (e.1, f e.1 e.2)
  nodup := by simpa [Function.comp_def] using t.nodup

@[simp] theorem keys_mapValues {μ : Type} (f : κ → ν → μ) (t : Table κ ν) :
    (t.mapValues f).keys = t.keys := by
  simp [keys, mapValues, Function.comp_def]

variable [DecidableEq κ]

instance (k : κ) (t : Table κ ν) : Decidable (k ∈ t) := inferInstanceAs (Decidable (k ∈ t.keys))

/-- The first value that a list of entries gives a key. -/
def valueIn (k : κ) : List (κ × ν) → Option ν
  | [] => none
  | e :: es => if e.1 = k then some e.2 else valueIn k es

/-- The **value of a key**, if it has one. -/
def get? (t : Table κ ν) (k : κ) : Option ν := valueIn k t.entries

/-- The entries with the value of one key replaced. -/
def replaced (k : κ) (v : ν) (es : List (κ × ν)) : List (κ × ν) :=
  es.map fun e => if e.1 = k then (e.1, v) else e

@[simp] theorem map_fst_replaced (k : κ) (v : ν) (es : List (κ × ν)) :
    (replaced k v es).map Prod.fst = es.map Prod.fst := by
  induction es with
  | nil => rfl
  | cons e es ih =>
    simp only [replaced, List.map_cons] at ih ⊢
    rw [ih]
    split <;> rfl

/-- **Gives a key a value**, in its old place or at the end. -/
def insert (t : Table κ ν) (k : κ) (v : ν) : Table κ ν :=
  if h : k ∈ t then ⟨replaced k v t.entries, by rw [map_fst_replaced]; exact t.nodup⟩
  else
    ⟨t.entries ++ [(k, v)], by
      rw [List.map_append, List.map_singleton, List.nodup_append]
      refine ⟨t.nodup, by simp, ?_⟩
      intro a ha b hb hab
      rw [List.mem_singleton] at hb
      rw [hab, hb] at ha
      exact h ha⟩

/-- Removes a key. -/
def erase (t : Table κ ν) (k : κ) : Table κ ν where
  entries := t.entries.filter fun e => e.1 ≠ k
  nodup := List.Pairwise.sublist (List.Sublist.map Prod.fst List.filter_sublist) t.nodup

/-- The **table of a list of entries**: a repeated key keeps its first place and takes its
last value. -/
def ofList (es : List (κ × ν)) : Table κ ν := es.foldl (fun t e => t.insert e.1 e.2) empty

/-- Creates a value for every key that has none, in the order of the keys; `create` turns a
state into a value and the next state. -/
def register (create : σ → ν × σ) : Table κ ν → List κ → σ → Table κ ν × σ
  | t, [], s => (t, s)
  | t, k :: ks, s =>
    if k ∈ t then register create t ks s
    else register create (t.insert k (create s).1) ks (create s).2

/-- The keys that no table entry carries, each once, in order of first appearance. -/
def fresh (t : Table κ ν) (ks : List κ) : List κ :=
  ks.foldl (fun new k => if k ∈ t ∨ k ∈ new then new else new ++ [k]) []

theorem entries_insert_of_mem {t : Table κ ν} {k : κ} (h : k ∈ t) (v : ν) :
    (t.insert k v).entries = replaced k v t.entries := by
  simp [insert, h]

theorem entries_insert_of_not_mem {t : Table κ ν} {k : κ} (h : k ∉ t) (v : ν) :
    (t.insert k v).entries = t.entries ++ [(k, v)] := by
  simp [insert, h]

/-- An insertion at a known key keeps the keys. -/
theorem keys_insert_of_mem {t : Table κ ν} {k : κ} (h : k ∈ t) (v : ν) :
    (t.insert k v).keys = t.keys := by
  simp [keys, entries_insert_of_mem h]

/-- An insertion at a new key adds it at the end. -/
theorem keys_insert_of_not_mem {t : Table κ ν} {k : κ} (h : k ∉ t) (v : ν) :
    (t.insert k v).keys = t.keys ++ [k] := by
  simp [keys, entries_insert_of_not_mem h]

/-- An insertion adds its key, at the end unless it is known, and nothing else. -/
theorem keys_insert (t : Table κ ν) (k : κ) (v : ν) :
    (t.insert k v).keys = if k ∈ t then t.keys else t.keys ++ [k] := by
  split
  · next h => exact keys_insert_of_mem h v
  · next h => exact keys_insert_of_not_mem h v

@[simp] theorem mem_insert {t : Table κ ν} {k l : κ} {v : ν} :
    l ∈ t.insert k v ↔ l = k ∨ l ∈ t := by
  by_cases h : k ∈ t
  · rw [mem_iff, keys_insert_of_mem h, mem_iff]
    exact ⟨Or.inr, fun h' => h'.elim (fun e => e ▸ h) id⟩
  · rw [mem_iff, keys_insert_of_not_mem h, mem_iff, List.mem_append, List.mem_singleton, or_comm]

theorem valueIn_replaced (k l : κ) (v : ν) (es : List (κ × ν)) :
    valueIn l (replaced k v es)
      = if l = k ∧ l ∈ es.map Prod.fst then some v else valueIn l es := by
  induction es with
  | nil => simp [replaced, valueIn]
  | cons e es ih =>
    rw [replaced, List.map_cons, ← replaced]
    by_cases he : e.1 = k <;> by_cases hl : e.1 = l <;> grind [valueIn]

theorem valueIn_append (l : κ) (es fs : List (κ × ν)) :
    valueIn l (es ++ fs) = (valueIn l es).or (valueIn l fs) := by
  induction es with
  | nil => rfl
  | cons e es ih => by_cases h : e.1 = l <;> simp [valueIn, h, ih]

theorem valueIn_eq_none_iff {es : List (κ × ν)} {k : κ} :
    valueIn k es = none ↔ k ∉ es.map Prod.fst := by
  induction es with
  | nil => simp [valueIn]
  | cons e es ih => grind [valueIn]

/-- A key has no value exactly when it is no key of the table. -/
theorem get?_eq_none_iff {t : Table κ ν} {k : κ} : t.get? k = none ↔ k ∉ t :=
  valueIn_eq_none_iff

theorem get?_isSome_iff {t : Table κ ν} {k : κ} : (t.get? k).isSome = true ↔ k ∈ t := by
  by_cases h : k ∈ t
  · simp only [h, iff_true]
    cases hv : t.get? k with
    | none => exact absurd h (get?_eq_none_iff.1 hv)
    | some v => rfl
  · simp [h, get?_eq_none_iff.2 h]

@[simp] theorem get?_empty (k : κ) : (empty : Table κ ν).get? k = none := rfl

/-- After an insertion its key has the new value and every other key the old one. -/
theorem get?_insert (t : Table κ ν) (k l : κ) (v : ν) :
    (t.insert k v).get? l = if l = k then some v else t.get? l := by
  by_cases h : k ∈ t
  · rw [get?, entries_insert_of_mem h, valueIn_replaced, get?]
    by_cases hl : l = k
    · subst hl
      simp only [true_and, if_true]
      exact if_pos h
    · simp [hl]
  · rw [get?, entries_insert_of_not_mem h, get?, valueIn_append]
    by_cases hl : l = k
    · subst hl
      have : valueIn l t.entries = none := valueIn_eq_none_iff.2 h
      simp [this, valueIn]
    · simp [hl, Ne.symm hl, valueIn]

@[simp] theorem get?_insert_self (t : Table κ ν) (k : κ) (v : ν) :
    (t.insert k v).get? k = some v := by
  simp [get?_insert]

theorem get?_insert_of_ne (t : Table κ ν) {k l : κ} (h : l ≠ k) (v : ν) :
    (t.insert k v).get? l = t.get? l := by
  simp [get?_insert, h]

@[simp] theorem keys_erase (t : Table κ ν) (k : κ) :
    (t.erase k).keys = t.keys.filter fun l => decide (l ≠ k) := by
  simp [keys, erase, List.filter_map, Function.comp_def]

/-- Registering two lists one after the other is registering both at once. -/
theorem register_append (create : σ → ν × σ) (t : Table κ ν) (ks ls : List κ) (s : σ) :
    register create t (ks ++ ls) s
      = register create (register create t ks s).1 ls (register create t ks s).2 := by
  induction ks generalizing t s with
  | nil => rfl
  | cons k ks ih =>
    simp only [List.cons_append, register]
    split
    · exact ih t s
    · exact ih _ _

/-- Registration keeps every entry it finds. -/
theorem get?_register_of_mem (create : σ → ν × σ) (t : Table κ ν) (ks : List κ) (s : σ)
    {k : κ} (h : k ∈ t) : (register create t ks s).1.get? k = t.get? k := by
  induction ks generalizing t s with
  | nil => rfl
  | cons l ks ih =>
    simp only [register]
    split
    · exact ih t s h
    · next hl =>
      have hne : k ≠ l := fun e => hl (e ▸ h)
      rw [ih _ _ (mem_insert.2 (Or.inr h)), get?_insert_of_ne _ hne]

end Table

end CoEmbed
