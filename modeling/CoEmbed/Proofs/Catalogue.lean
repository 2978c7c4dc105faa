import CoEmbed.Proofs.Artifacts

/-!
# The Order of the Names

A listing puts files in order, and takes the suffix off their names when that is done. Names are
then in order themselves unless one of them is another one with something behind it: there the
suffix of the shorter name was compared with what the longer one goes on with.

* `eq_append_or_append_lt`, `append_lt_append_iff`, `lt_append` — texts with something behind them.
* `artifactFile_lt_iff` — files in order, and their names.
* `Store.pairwise_files` — the files of a listing are in order.
* `Store.pairwise_names_iff` — when the names are.
* `listed_by_file` — the listing after any list of saves.
* `not_listed_by_name` — two names that are listed the other way round.

## Suffix convention

The suffix starts with a dot, so a name that goes on with a hyphen or a blank is listed before the
name that it goes on from, and one that goes on with a letter or a digit behind it.
-/

namespace CoEmbed

variable {ω : Type}

/-! ### Texts with a suffix -/

/-- Where one list comes before another, it is the other's **beginning**, or the lists part at some
place, and what stands behind them does not matter. -/
theorem eq_append_or_append_lt {β : Type} [LinearOrder β] {xs ys : List β} (h : xs < ys) :
    (∃ zs, ys = xs ++ zs) ∨ ∀ us vs, xs ++ us < ys ++ vs := by
  induction xs generalizing ys with
  | nil => exact .inl ⟨ys, rfl⟩
  | cons x xs ih =>
      cases ys with
      | nil => exact absurd h (List.not_lt_nil _)
      | cons y ys =>
          rcases List.cons_lt_cons_iff.1 h with hlt | ⟨rfl, hlt⟩
          · exact .inr fun us vs => List.cons_lt_cons_iff.2 (.inl hlt)
          · rcases ih hlt with ⟨zs, rfl⟩ | hpart
            · exact .inl ⟨zs, rfl⟩
            · exact .inr fun us vs => List.cons_lt_cons_iff.2 (.inr ⟨rfl, hpart us vs⟩)

/-- A common beginning **does not matter**. -/
theorem append_lt_append_iff {β : Type} [LinearOrder β] {xs us vs : List β} :
    xs ++ us < xs ++ vs ↔ us < vs :=
  StrictMono.lt_iff_lt (f := (xs ++ ·)) fun _ _ => List.append_left_lt

/-- A text comes before **what goes on from it**. -/
theorem lt_append (name : String) {extension : String} (h : extension ≠ "") :
    name < name ++ extension := by
  obtain ⟨c, cs, hcs⟩ := List.exists_cons_of_ne_nil (mt String.toList_eq_nil_iff.1 h)
  have hlt : name.toList ++ [] < name.toList ++ c :: cs :=
    List.append_left_lt (List.nil_lt_cons c cs)
  rw [String.lt_iff_toList_lt, String.toList_append, hcs]
  rwa [List.append_nil] at hlt

/-- The files of two names in order are in order as well, unless the later name **goes on from the
earlier one** with something that comes before the suffix. -/
theorem artifactFile_lt_iff {name other : String} (h : name < other) :
    artifactFile name < artifactFile other ↔
      ∀ extension, other = name ++ extension →
        artifactSuffix < extension ++ artifactSuffix := by
  rw [String.lt_iff_toList_lt, toList_artifactFile, toList_artifactFile]
  constructor
  · rintro hfile extension rfl
    rw [String.toList_append, List.append_assoc, append_lt_append_iff] at hfile
    rwa [String.lt_iff_toList_lt, String.toList_append]
  · intro hextension
    rcases eq_append_or_append_lt (String.lt_iff_toList_lt.1 h) with ⟨zs, hzs⟩ | hpart
    · have hother : other = name ++ String.ofList zs := by
        rw [← String.toList_inj, String.toList_append, String.toList_ofList, hzs]
      have hsuffix := hextension _ hother
      rw [String.lt_iff_toList_lt, String.toList_append, String.toList_ofList] at hsuffix
      rwa [hzs, List.append_assoc, append_lt_append_iff]
    · exact hpart _ _

/-! ### Listings -/

namespace Store

/-- The files of a listing are **in order**, and each is there once. -/
theorem pairwise_files (s : Store ω) :
    s.names.Pairwise fun name other => artifactFile name < artifactFile other := by
  set files := (s.files.keys.filter fun p => p.above = 0).map Place.file with hfiles
  have hsorted : (files.mergeSort fun a b => decide (a ≤ b)).Pairwise (· ≤ ·) := by
    refine (List.pairwise_mergeSort (fun a b c hab hbc => ?_) (fun a b => ?_) files).imp
      of_decide_eq_true
    · exact decide_eq_true ((of_decide_eq_true hab).trans (of_decide_eq_true hbc))
    · rw [Bool.or_eq_true, decide_eq_true_iff, decide_eq_true_iff]
      exact le_total a b
  have hle : s.names.Pairwise fun name other => artifactFile name ≤ artifactFile other := by
    refine hsorted.filterMap _ fun file file' hle name hname name' hname' => ?_
    rwa [← artifactName?_eq_some_iff.1 hname, ← artifactName?_eq_some_iff.1 hname']
  refine hle.imp₂ (fun name other hle hne => ?_) s.nodup_names
  exact lt_of_le_of_ne hle fun h => hne (artifactFile_injective h)

/-- The names of a listing are in order exactly if **no name goes on from another** with something
that comes before the suffix. -/
theorem pairwise_names_iff (s : Store ω) :
    s.names.Pairwise (· < ·) ↔ ∀ name extension, extension ≠ "" → name ∈ s.names →
      name ++ extension ∈ s.names → artifactSuffix < extension ++ artifactSuffix := by
  have hfiles := s.pairwise_files
  constructor
  · intro hnames name extension hne hname hother
    have hlt := lt_append name hne
    -- in a listing that is in order, the shorter name stands before the longer one
    suffices hfile : artifactFile name < artifactFile (name ++ extension) from
      (artifactFile_lt_iff hlt).1 hfile extension rfl
    obtain ⟨i, hi, hname⟩ := List.mem_iff_getElem.1 hname
    obtain ⟨j, hj, hother⟩ := List.mem_iff_getElem.1 hother
    rw [← hother, ← hname] at hlt ⊢
    rcases lt_trichotomy i j with hij | rfl | hij
    · exact List.pairwise_iff_getElem.1 hfiles i j hi hj hij
    · exact absurd hlt (lt_irrefl _)
    · exact absurd hlt (List.pairwise_iff_getElem.1 hnames j i hj hi hij).not_gt
  · intro hextension
    refine hfiles.imp_of_mem fun {name other} hname hother hfile => ?_
    by_contra hnot
    rcases (not_lt.1 hnot).eq_or_lt with rfl | hlt
    · exact hfile.false
    · refine hfile.not_gt ((artifactFile_lt_iff hlt).2 ?_)
      rintro extension rfl
      refine hextension other extension ?_ hother hname
      rintro rfl
      exact hlt.ne String.append_empty.symm

end Store

/-- What is kept under a name has been **saved under it**. -/
theorem exists_of_lastKept {saves : List (String × ω)} {name : String} {x : ω}
    (h : lastKept saves name = some x) : ∃ e ∈ saves, e.1 = name := by
  rw [lastKept] at h
  split at h
  · obtain ⟨e, he, -⟩ := Option.map_eq_some_iff.1 h
    have hname := List.find?_some he
    exact ⟨e, List.mem_reverse.1 (List.mem_of_find?_eq_some he), of_decide_eq_true hname⟩
  · cases h

/-- **Saved models are listed in the order of their files.** After any saves under plain names,
whether or not they went through, each name is listed once that something is kept under, and no
other, and the files that the names stand for are in strictly ascending order. The names are in
strictly ascending order themselves exactly if none of them is another one with something behind it
that comes before the suffix. -/
theorem listed_by_file (dir : String) (saves : List (String × ω))
    (hplain : ∀ e ∈ saves, Plain e.1) :
    let s := (Store.empty dir).kept saves
    (∀ name, name ∈ s.names ↔ ∃ x, lastKept saves name = some x) ∧
      (s.names.map artifactFile).Pairwise (· < ·) ∧
      (s.names.Pairwise (· < ·) ↔ ∀ name extension, extension ≠ "" → name ∈ s.names →
        name ++ extension ∈ s.names → artifactSuffix < extension ++ artifactSuffix) := by
  intro s
  refine ⟨fun name => Store.mem_names_kept dir hplain, ?_, s.pairwise_names_iff⟩
  exact List.pairwise_map.2 s.pairwise_files

/-- A name that goes on from another one with a dot is listed behind it, as a letter comes after the
first letter of the suffix; one of the two is saved twice. -/
theorem listed_by_file_dotted :
    let saves : List (String × ℕ) := [("a.z", 1), ("a", 2), ("a.z", 3)]
    let s := (Store.empty "models").kept saves
    (∀ e ∈ saves, Plain e.1) ∧ "a" ∈ s.names ∧ "a.z" ∈ s.names ∧ s.names.Pairwise (· < ·) := by
  intro saves s
  have hplain : ∀ e ∈ saves, Plain e.1 := by decide
  obtain ⟨hlisted, -, horder⟩ := listed_by_file "models" saves hplain
  have hsaved : ∀ name ∈ s.names, name = "a" ∨ name = "a.z" := by
    intro name hname
    obtain ⟨x, hx⟩ := (hlisted name).1 hname
    obtain ⟨e, he, rfl⟩ := exists_of_lastKept hx
    simp only [saves, List.mem_cons, List.not_mem_nil, or_false] at he
    rcases he with rfl | rfl | rfl
    · exact .inr rfl
    · exact .inl rfl
    · exact .inr rfl
  refine ⟨hplain, (hlisted "a").2 ⟨2, by decide⟩, (hlisted "a.z").2 ⟨3, by decide⟩,
    horder.2 fun name extension hne hname hother => ?_⟩
  rcases hsaved name hname with rfl | rfl <;> rcases hsaved _ hother with h | h
  · exact absurd (String.append_eq_left_iff.1 h) hne
  · obtain rfl : extension = ".z" := (String.append_right_inj "a").1 h
    decide
  · have hlength := congrArg String.length h
    rw [String.length_append] at hlength
    exact absurd ((Nat.le_add_right _ _).trans hlength.le) (by decide)
  · exact absurd (String.append_eq_left_iff.1 h) hne

/-- A model and a second one, whose name goes on with a hyphen, are listed **the other way round**,
though the first name comes before the second. -/
theorem not_listed_by_name :
    let saves : List (String × ℕ) := [("a", 1), ("a-b", 2)]
    (∀ e ∈ saves, Plain e.1) ∧ "a" < "a-b" ∧
      ¬ ((Store.empty "models").kept saves).names.Pairwise (· < ·) := by
  intro saves
  have hplain : ∀ e ∈ saves, Plain e.1 := by decide
  have hlisted : ∀ name, (lastKept saves name).isSome = true →
      name ∈ ((Store.empty "models").kept saves).names := fun name h =>
    (Store.mem_names_kept "models" hplain).2 (Option.isSome_iff_exists.1 h)
  refine ⟨hplain, by decide, fun hordered => ?_⟩
  have hsuffix := (Store.pairwise_names_iff _).1 hordered "a" "-b" (by decide)
    (hlisted "a" (by decide)) (hlisted "a-b" (by decide))
  exact absurd hsuffix (by decide)

end CoEmbed
