import CoEmbed.Store
import CoEmbed.Proofs.Table

/-!
# The Store is a Map

Each operation of the store goes from a name to a file, or back, in its own way: a save and a load
put the suffix behind the name, and a listing takes it off again. Both ways are inverse to one
another, so what is kept is a map from names to artifacts.

* `Plain`, `Storable` — names that lead to no other directory, and those that a file can have.
* `artifactName?_eq_some_iff` — the file of an artifact, and the artifact of a file.
* `Store.place_eq_ok_iff` — where a plain name leads to.
* `Store.mem_names_iff`, `Store.nodup_names` — what is listed.
* `lastKept`, `Store.get?_kept` — what a list of saves leaves under a name.
* `store_is_a_map` — saves, loads and listings, after any list of saves.

## Failure convention

A save that cannot be carried out leaves the store as it was. Loads and listings only read.
-/

namespace CoEmbed

variable {ω : Type}

/-! ### Names and files -/

/-- A name **without a slash**. -/
def Plain (name : String) : Prop := '/' ∉ name.toList

instance (name : String) : Decidable (Plain name) :=
  inferInstanceAs (Decidable ('/' ∉ name.toList))

/-- A plain name that an artifact can be **kept under**: its file has a name that is not too long,
and no character in it that ends a path. -/
def Storable (name : String) : Prop :=
  Char.ofNat 0 ∉ name.toList ∧ (artifactFile name).utf8ByteSize ≤ longestName

instance (name : String) : Decidable (Storable name) := inferInstanceAs (Decidable (_ ∧ _))

/-- Artifacts with different names have **different files**. -/
theorem artifactFile_injective : Function.Injective artifactFile :=
  fun _ _ h => (String.append_left_inj artifactSuffix).1 h

theorem toList_artifactFile (name : String) :
    (artifactFile name).toList = name.toList ++ artifactSuffix.toList := String.toList_append

/-- A character that is not in the suffix is in the file's name if it is in **the artifact's**. -/
theorem mem_toList_artifactFile {c : Char} (hc : c ∉ artifactSuffix.toList) (name : String) :
    c ∈ (artifactFile name).toList ↔ c ∈ name.toList := by
  rw [toList_artifactFile, List.mem_append, or_iff_left hc]

/-- The file of an artifact has a longer name than **any step** of a path. -/
theorem isStep_artifactFile (name : String) : Store.isStep (artifactFile name) = false := by
  have hne : ∀ t : String, t.length < artifactSuffix.length → artifactFile name ≠ t := by
    rintro t ht rfl
    rw [artifactFile, String.length_append] at ht
    omega
  simp [Store.isStep, hne "" (by decide), hne "." (by decide), hne ".." (by decide)]

/-- A path without a slash has **one part**. -/
theorem pathParts_of_plain {path : String} (h : Plain path) : pathParts path = [path] := by
  rw [pathParts, List.splitOn_eq_singleton h, List.map_singleton, String.ofList_toList]

theorem endsWith_iff {s t : String} : s.endsWith t = true ↔ t.toList <:+ s.toList := by
  rw [← String.endsWith_toSlice, String.Slice.endsWith_string_iff, String.copy_toSlice]

/-- The name in a file is the one that **the file is named after**. -/
theorem artifactName?_eq_some_iff {file name : String} :
    artifactName? file = some name ↔ file = artifactFile name := by
  -- what is left when as many characters are taken off as the suffix has
  have hstem : ∀ stem : List Char, file.toList = stem ++ artifactSuffix.toList →
      file.toList.take (file.length - artifactSuffix.length) = stem := by
    intro stem h
    rw [← String.length_toList, ← String.length_toList, h, List.length_append, Nat.add_sub_cancel,
      List.take_left]
  rw [artifactName?]
  constructor
  · intro h
    split at h
    · next hsuffix =>
        obtain ⟨stem, hfile⟩ := endsWith_iff.1 hsuffix
        rw [hstem stem hfile.symm] at h
        rw [← Option.some.inj h, ← String.toList_inj, toList_artifactFile, String.toList_ofList,
          hfile]
    · cases h
  · rintro rfl
    have hfile := toList_artifactFile name
    have hsuffix : (artifactFile name).endsWith artifactSuffix = true :=
      endsWith_iff.2 ⟨name.toList, hfile.symm⟩
    rw [if_pos hsuffix, hstem name.toList hfile, String.ofList_toList]

namespace Store

variable {s : Store ω} {name : String}

/-! ### Where a name leads to -/

/-- A plain name leads to **a file in the directory**, if a file can have the name. -/
theorem place_eq_ok_iff (hname : Plain name) {p : Place} :
    s.place (artifactFile name) = .ok p ↔ Storable name ∧ p = ⟨0, artifactFile name⟩ := by
  have hplain : Plain (artifactFile name) := mt (mem_toList_artifactFile (by decide) name).1 hname
  have hnull := mem_toList_artifactFile (c := Char.ofNat 0) (by decide) name
  have hrelative : (artifactFile name).startsWith "/" = false := by
    rw [← Bool.not_eq_true, String.startsWith_string_iff]
    exact fun h => hplain (h.subset List.mem_cons_self)
  have hlast : s.walk 0 [artifactFile name]
      = if longestName < (artifactFile name).utf8ByteSize then .error .unusablePath
        else .ok ⟨0, artifactFile name⟩ := by
    simp [walk, last, isStep_artifactFile]
  rw [place, pathParts_of_plain hplain, hrelative]
  by_cases hn : Char.ofNat 0 ∈ name.toList
  · rw [if_pos (List.contains_iff_mem.2 (hnull.2 hn))]
    simp [Storable, hn]
  rw [if_neg (mt List.contains_iff_mem.1 (mt hnull.1 hn))]
  by_cases hsize : (artifactFile name).utf8ByteSize ≤ longestName
  · have hlimit : ¬ pathLimit ≤ (artifactFile name).utf8ByteSize := by
      rw [longestName] at hsize
      rw [pathLimit]
      omega
    rw [if_neg hlimit]
    simp [hlast, Nat.not_lt.2 hsize, Storable, hn, hsize, eq_comm]
  · simp [hlast, Nat.lt_of_not_le hsize, Storable, hn, hsize]

/-- A save goes through exactly if **the name is storable**, and writes one file. -/
theorem save_eq_ok_iff (hname : Plain name) {x : ω} {s' : Store ω} :
    s.save name x = .ok s' ↔
      Storable name ∧ s' = { s with files := s.files.insert ⟨0, artifactFile name⟩ (some x) } := by
  rw [save]
  cases hp : s.place (artifactFile name) with
  | ok p =>
      obtain ⟨hstorable, rfl⟩ := (place_eq_ok_iff hname).1 hp
      rw [iff_true_intro hstorable, true_and]
      exact ⟨fun h => (Except.ok.inj h).symm, fun h => congrArg Except.ok h.symm⟩
  | error f =>
      refine iff_of_false (fun h => by cases h) fun h => ?_
      rw [(place_eq_ok_iff hname).2 ⟨h.1, rfl⟩] at hp
      cases hp

/-- What is found under a plain name is **what its file holds**. -/
theorem find?_eq (hname : Plain name) :
    s.find? name = if Storable name then s.files.get? ⟨0, artifactFile name⟩ else none := by
  rw [find?]
  cases hp : s.place (artifactFile name) with
  | ok p =>
      obtain ⟨hstorable, rfl⟩ := (place_eq_ok_iff hname).1 hp
      rw [if_pos hstorable]
  | error f =>
      rw [if_neg]
      intro hstorable
      rw [(place_eq_ok_iff hname).2 ⟨hstorable, rfl⟩] at hp
      cases hp

/-- A save changes **no other name**. -/
theorem find?_of_save (hname : Plain name) {other : String} (hother : Plain other)
    (hne : other ≠ name) {x : ω} {s' : Store ω} (h : s.save name x = .ok s') :
    s'.find? other = s.find? other := by
  obtain ⟨-, rfl⟩ := (save_eq_ok_iff hname).1 h
  have hfile : Place.mk 0 (artifactFile other) ≠ ⟨0, artifactFile name⟩ :=
    fun h => hne (artifactFile_injective (Place.mk.inj h).2)
  rw [find?_eq hother, find?_eq hother, Table.get?_insert_of_ne _ hfile]

section

variable (typeOf : ω → String) (expected : String) (isInstance : ω → Bool)

/-- Where nothing is found, a load finds **no file**. -/
theorem loadInstance_of_none (h : s.find? name = none) :
    s.loadInstance typeOf expected isInstance name = .error (.noArtifact name (s.path name)) := by
  rw [loadInstance, h]

/-- Where an artifact is found, a load comes to it **if it is an instance** of the class. -/
theorem loadInstance_of_some {x : ω} (h : s.find? name = some (some x)) :
    s.loadInstance typeOf expected isInstance name
      = if isInstance x then .ok x else .error (.wrongArtifact name (typeOf x) expected) := by
  rw [loadInstance, h]

/-- A load finds no file **just where nothing is found**: an artifact of another class is a fault of
another kind. -/
theorem loadInstance_missing_iff {o : Option ω} (h : s.find? name = o.map some) :
    (∃ f, s.loadInstance typeOf expected isInstance name = .error f ∧ f.kind = .file)
      ↔ o = none := by
  cases o with
  | none => exact iff_of_true ⟨_, loadInstance_of_none typeOf expected isInstance h, rfl⟩ rfl
  | some x =>
      refine iff_of_false ?_ (Option.some_ne_none x)
      rintro ⟨f, hf, hkind⟩
      rw [loadInstance_of_some typeOf expected isInstance h] at hf
      split at hf
      · cases hf
      · obtain rfl := Except.error.inj hf
        cases hkind

end

/-! ### What is listed -/

/-- A name is listed exactly if **its file is there**. -/
theorem mem_names_iff : name ∈ s.names ↔ Place.mk 0 (artifactFile name) ∈ s.files := by
  rw [names, artifactNames, List.mem_filterMap, Table.mem_iff]
  simp only [artifactName?_eq_some_iff, (List.mergeSort_perm _ _).mem_iff, List.mem_map,
    List.mem_filter, decide_eq_true_eq]
  constructor
  · rintro ⟨_, ⟨⟨above, file⟩, ⟨hmem, rfl⟩, rfl⟩, rfl⟩
    exact hmem
  · exact fun hmem => ⟨_, ⟨_, ⟨hmem, rfl⟩, rfl⟩, rfl⟩

/-- No name is listed **twice**. -/
theorem nodup_names (s : Store ω) : s.names.Nodup := by
  have hplaces : (s.files.keys.filter fun p => p.above = 0).Nodup := s.files.nodup_keys.filter _
  have hfiles : ((s.files.keys.filter fun p => p.above = 0).map Place.file).Nodup := by
    refine List.Nodup.map_on ?_ hplaces
    rintro ⟨above, file⟩ hp ⟨above', file'⟩ hp' rfl
    obtain rfl : above = 0 := of_decide_eq_true (List.mem_filter.1 hp).2
    obtain rfl : above' = 0 := of_decide_eq_true (List.mem_filter.1 hp').2
    rfl
  rw [names, artifactNames]
  refine List.Nodup.filterMap ?_ ((List.mergeSort_perm _ _).nodup_iff.2 hfiles)
  intro file file' name hfile hfile'
  rw [artifactName?_eq_some_iff.1 hfile, artifactName?_eq_some_iff.1 hfile']

/-! ### Lists of saves -/

/-- The store after some **saves**, each of which may fail. -/
def kept (s : Store ω) (saves : List (String × ω)) : Store ω :=
  saves.foldl (fun s e => ((s.save e.1 e.2).toOption.getD s)) s

end Store

/-- What a list of saves leaves under a name: the artifact that was **saved last**, if the name is
storable. -/
def lastKept (saves : List (String × ω)) (name : String) : Option ω :=
  if Storable name then (saves.reverse.find? fun e => decide (e.1 = name)).map Prod.snd else none

/-- One more save **replaces** what was kept under its name. -/
theorem lastKept_append (saves : List (String × ω)) (e : String × ω) (name : String) :
    lastKept (saves ++ [e]) name
      = if e.1 = name ∧ Storable name then some e.2 else lastKept saves name := by
  rw [lastKept, lastKept, List.reverse_append, List.reverse_singleton, List.singleton_append,
    List.find?_cons]
  by_cases hs : Storable name <;> by_cases he : e.1 = name <;> simp [hs, he]

namespace Store

theorem kept_append (s : Store ω) (saves : List (String × ω)) (e : String × ω) :
    s.kept (saves ++ [e]) = ((s.kept saves).save e.1 e.2).toOption.getD (s.kept saves) :=
  List.foldl_append

/-- After some saves the files hold **what was saved last**. -/
theorem get?_kept (dir : String) {saves : List (String × ω)} (hplain : ∀ e ∈ saves, Plain e.1)
    (name : String) :
    ((empty dir).kept saves).files.get? ⟨0, artifactFile name⟩
      = (lastKept saves name).map some := by
  induction saves using List.reverseRecOn with
  | nil => simp [lastKept, kept, empty]
  | append_singleton saves e ih =>
      have hlast : Plain e.1 := hplain e (List.mem_append_right saves List.mem_cons_self)
      have ih := ih fun e' he' => hplain e' (List.mem_append_left [e] he')
      rw [kept_append, lastKept_append]
      cases hsave : ((empty dir).kept saves).save e.1 e.2 with
      | error f =>
          have hnot : ¬ (e.1 = name ∧ Storable name) := by
            rintro ⟨rfl, hstorable⟩
            rw [(save_eq_ok_iff hlast).2 ⟨hstorable, rfl⟩] at hsave
            cases hsave
          rw [if_neg hnot]
          exact ih
      | ok s' =>
          obtain ⟨hstorable, rfl⟩ := (save_eq_ok_iff hlast).1 hsave
          change (Table.insert _ _ _).get? _ = _
          by_cases he : e.1 = name
          · subst he
            rw [Table.get?_insert_self, if_pos ⟨rfl, hstorable⟩]
            rfl
          · have hfile : Place.mk 0 (artifactFile name) ≠ ⟨0, artifactFile e.1⟩ :=
              fun h => he (artifactFile_injective (Place.mk.inj h).2).symm
            rw [Table.get?_insert_of_ne _ hfile, if_neg fun h => he h.1]
            exact ih

/-- After some saves a plain name finds **what was saved last** under it. -/
theorem find?_kept (dir : String) {saves : List (String × ω)} (hplain : ∀ e ∈ saves, Plain e.1)
    (hname : Plain name) :
    ((empty dir).kept saves).find? name = (lastKept saves name).map some := by
  rw [find?_eq hname, get?_kept dir hplain]
  by_cases hs : Storable name
  · rw [if_pos hs]
  · rw [if_neg hs, lastKept, if_neg hs]
    rfl

/-- After some saves **just the names** are listed that something is kept under. -/
theorem mem_names_kept (dir : String) {saves : List (String × ω)}
    (hplain : ∀ e ∈ saves, Plain e.1) :
    name ∈ ((empty dir).kept saves).names ↔ ∃ x, lastKept saves name = some x := by
  rw [mem_names_iff, ← Table.get?_isSome_iff, get?_kept dir hplain, Option.isSome_map,
    Option.isSome_iff_exists]

end Store

/-- **The store is a map from names to artifacts.** After any saves under plain names, whether or
not they went through, each name is listed once that something is kept under, and no other. Under a
plain name, a save goes through if a file can have the name, and changes what no other plain name
loads; a load finds no file exactly if nothing is kept, which is to say if the name is not listed,
and otherwise it comes to the artifact that was saved last, if that is an instance of the class
asked for. -/
theorem store_is_a_map (dir : String) (saves : List (String × ω))
    (hplain : ∀ e ∈ saves, Plain e.1) :
    let s := (Store.empty dir).kept saves
    s.names.Nodup ∧ (∀ name, name ∈ s.names ↔ ∃ x, lastKept saves name = some x) ∧
      ∀ name, Plain name →
        (∀ x, (∃ s', s.save name x = .ok s') ↔ Storable name) ∧
        (∀ x s', s.save name x = .ok s' → ∀ other, Plain other → other ≠ name →
          ∀ (typeOf : ω → String) expected isInstance,
            s'.loadInstance typeOf expected isInstance other
              = s.loadInstance typeOf expected isInstance other) ∧
        ∀ (typeOf : ω → String) expected isInstance,
          let loaded := s.loadInstance typeOf expected isInstance name
          ((∃ f, loaded = .error f ∧ f.kind = .file) ↔ lastKept saves name = none) ∧
            ((∃ f, loaded = .error f ∧ f.kind = .file) ↔ name ∉ s.names) ∧
            ∀ x, lastKept saves name = some x →
              (isInstance x = true → loaded = .ok x) ∧
              (isInstance x = false →
                loaded = .error (.wrongArtifact name (typeOf x) expected)) := by
  intro s
  have hlisted : ∀ name, name ∈ s.names ↔ ∃ x, lastKept saves name = some x :=
    fun name => Store.mem_names_kept dir hplain
  refine ⟨Store.nodup_names s, hlisted, fun name hname => ⟨fun x => ?_, ?_, ?_⟩⟩
  · refine ⟨fun ⟨s', h⟩ => ((Store.save_eq_ok_iff hname).1 h).1, fun h => ?_⟩
    exact ⟨_, (Store.save_eq_ok_iff hname).2 ⟨h, rfl⟩⟩
  · intro x s' hsave other hother hne typeOf expected isInstance
    have hpath : s'.path other = s.path other := by
      obtain ⟨-, rfl⟩ := (Store.save_eq_ok_iff hname).1 hsave
      rfl
    rw [Store.loadInstance, Store.find?_of_save hname hother hne hsave, hpath]
    rfl
  · intro typeOf expected isInstance loaded
    have hfind : s.find? name = (lastKept saves name).map some := Store.find?_kept dir hplain hname
    have hmissing : (∃ f, loaded = .error f ∧ f.kind = .file) ↔ lastKept saves name = none :=
      Store.loadInstance_missing_iff typeOf expected isInstance hfind
    refine ⟨hmissing, ?_, fun x hx => ?_⟩
    · rw [hmissing, hlisted, Option.eq_none_iff_forall_ne_some, not_exists]
    · rw [hx] at hfind
      have hloaded := Store.loadInstance_of_some typeOf expected isInstance hfind
      exact ⟨fun h => hloaded.trans (if_pos h),
        fun h => hloaded.trans (if_neg (Bool.eq_false_iff.1 h))⟩

/-- Numbers are saved under the name of a file, under no name at all, and twice under one name: the
last number is loaded as an even one, and the number under the other name is not. -/
theorem store_is_a_map_overwritten :
    let saves : List (String × ℕ) := [("a", 1), ("a.joblib", 3), ("", 5), ("a", 2)]
    let s := (Store.empty "models").kept saves
    (∀ e ∈ saves, Plain e.1) ∧ s.names.Nodup ∧ "a" ∈ s.names ∧ "a.joblib" ∈ s.names ∧
      "" ∈ s.names ∧ "a.joblib.joblib" ∉ s.names ∧
      s.loadInstance (fun _ => "int") "even" (fun k => decide (k % 2 = 0)) "a" = .ok 2 ∧
      s.loadInstance (fun _ => "int") "even" (fun k => decide (k % 2 = 0)) "a.joblib"
        = .error (.wrongArtifact "a.joblib" "int" "even") := by
  intro saves s
  have hplain : ∀ e ∈ saves, Plain e.1 := by decide
  obtain ⟨hnodup, hlisted, hnames⟩ := store_is_a_map "models" saves hplain
  have hload (name : String) (hname : Plain name) := (hnames name hname).2.2 (fun _ => "int") "even"
    fun k => decide (k % 2 = 0)
  refine ⟨hplain, hnodup, (hlisted "a").2 ⟨2, by decide⟩, (hlisted "a.joblib").2 ⟨3, by decide⟩,
    (hlisted "").2 ⟨5, by decide⟩, ?_, ?_, ?_⟩
  · rintro hmem
    obtain ⟨x, hx⟩ := (hlisted "a.joblib.joblib").1 hmem
    cases (by decide : lastKept saves "a.joblib.joblib" = none).symm.trans hx
  · exact ((hload "a" (by decide)).2.2 2 (by decide)).1 rfl
  · exact ((hload "a.joblib" (by decide)).2.2 3 (by decide)).2 rfl

end CoEmbed
