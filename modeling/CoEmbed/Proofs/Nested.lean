import CoEmbed.Proofs.Exact.Draw
import CoEmbed.Proofs.Floating.Draw
import CoEmbed.Proofs.Floating.Ordered
import CoEmbed.Proofs.Repeats

/-!
# Nested Splits

A pair draws its lot whatever the share of pairs to hold out is. Of two splits of one log, the one
with the larger share holds out what the other holds out, and more.

* `dealt_mono` — the sides of two splits, one of which holds out more.
* `Frame.Nested` — the splits of a log at every share.
* `Frame.lots`, `Tables.ofFrame_eq_lots` — what is dealt out, whatever the share is.
* `Frame.nested_of_lots`, `Frame.exists_nested` — where the splits of a log come from.
* `splits_nested_and_blind_to_repeats` — they are nested, and blind to repeated rows.

## Share convention

A share is compared as a number, in whatever form it is given. Shares below zero hold out as much
as zero does, and shares above one as much as one does.

## Rounding convention

Nothing here is about exact arithmetic: floating point numbers are in order where they can be
compared, and their draws lie in the unit interval as well. What rounding can do is to bring a time
up to the cut-off, and the last theorem shows a log in which a repeated row does so.
-/

namespace CoEmbed

/-- The side of a split that takes more **contains** the other. -/
theorem dealt_mono {κ : Type} {side side' : ℕ → Bool} (h : ∀ k, side k = true → side' k = true)
    (xs : List κ) : (dealt side xs).Sublist (dealt side' xs) :=
  (List.monotone_filter_right xs.zipIdx fun e => h e.2).map Prod.fst

/-- A side that takes everything is **the list**. -/
theorem dealt_eq_self {κ : Type} {side : ℕ → Bool} (h : ∀ k, side k = true) (xs : List κ) :
    dealt side xs = xs := by
  rw [dealt, List.filter_eq_self.2 fun e _ => h e.2, List.zipIdx_map_fst]

/-- A side that takes nothing is **empty**. -/
theorem dealt_eq_nil {κ : Type} {side : ℕ → Bool} (h : ∀ k, side k = false) (xs : List κ) :
    dealt side xs = [] := by
  rw [dealt, List.filter_eq_nil_iff.2 fun e _ => by rw [h e.2]; exact Bool.false_ne_true,
    List.map_nil]

variable {α : Type} [Numeral α]

/-- The **splits of a log** at every share: the tables are those of the pairs that are trained on,
each pair is on one of two sides, and the larger of two shares moves pairs to the side that is held
out and none back. -/
structure Frame.Nested [Machine] (f : Frame α) (s : Selection α) (pairs : List (Key × Key))
    (training heldOut : α → List (Key × Key)) : Prop where
  outcome : ∀ share x, share.number = .ok x →
    Tables.ofFrame f { s with share := share } = .ok (.ofPairs (training x) (heldOut x))
  nodup : pairs.Nodup
  perm : ∀ x, (training x ++ heldOut x).Perm pairs
  training_sublist : ∀ x, (training x).Sublist pairs
  heldOut_sublist : ∀ x, (heldOut x).Sublist pairs
  none_heldOut : ∀ x, Scalar.le x 0 = true → training x = pairs ∧ heldOut x = []
  all_heldOut : ∀ x, Scalar.le 1 x = true → training x = [] ∧ heldOut x = pairs
  mono : ∀ x x', Scalar.le x x' = true →
    (heldOut x).Sublist (heldOut x') ∧ (training x').Sublist (training x)
  userRows : ∀ x x' u, Scalar.le x x' = true →
    (((Tables.ofPairs (training x') (heldOut x')).userItems.get? u).getD []).Sublist
      (((Tables.ofPairs (training x) (heldOut x)).userItems.get? u).getD [])
  itemRows : ∀ x x' i, Scalar.le x x' = true →
    (((Tables.ofPairs (training x') (heldOut x')).itemUsers.get? i).getD []).Sublist
      (((Tables.ofPairs (training x) (heldOut x)).itemUsers.get? i).getD [])

/-- The rows of tables **shrink** with the pairs that are trained on. -/
theorem Tables.rows_sublist {training training' : List (Key × Key)}
    (h : training'.Sublist training) (heldOut heldOut' : List (Key × Key)) :
    (∀ u, (((ofPairs training' heldOut').userItems.get? u).getD []).Sublist
      (((ofPairs training heldOut).userItems.get? u).getD [])) ∧
    ∀ i, (((ofPairs training' heldOut').itemUsers.get? i).getD []).Sublist
      (((ofPairs training heldOut).itemUsers.get? i).getD []) := by
  refine ⟨fun u => ?_, fun i => ?_⟩
  · simp only [ofPairs, getD_grouped]
    exact ((h.filter _).filter _).map _
  · simp only [ofPairs, getD_grouped]
    exact ((h.map _).filter _).map _

/-- What is **dealt out** when a log is split: the distinct pairs with enough users, and the source
of their draws. -/
def Frame.lots (f : Frame α) (s : Selection α) : Except Fault (List (Key × Key) × Source) := do
  let log ← f.pairs s
  let enough ← s.enough
  let source ← Source.ofSeed (← s.seed.count)
  if s.isOneColumn then throw .badValue
  return (distinct (popular enough log), source)

/-- Tables are those of **the two sides** of what is dealt out. -/
theorem Tables.ofFrame_eq_lots [Machine] (f : Frame α) (s : Selection α) {share : Setting α} {x : α}
    (hx : share.number = .ok x) :
    ofFrame f { s with share := share } = (f.lots s).map fun lots =>
      ofPairs (dealt (fun k => !Scalar.lt (lots.2.unit k) x) lots.1)
        (dealt (fun k => Scalar.lt (lots.2.unit k) x) lots.1) := by
  have hpairs : f.pairs { s with share := share } = f.pairs s := rfl
  have henough : Selection.enough { s with share := share } = s.enough := rfl
  have hone : Selection.isOneColumn { s with share := share } = s.isOneColumn := rfl
  rw [ofFrame, Frame.lots, hpairs, henough, hone]
  cases f.pairs s with
  | error fault => rfl
  | ok log =>
      cases s.enough with
      | error fault => rfl
      | ok enough =>
          cases s.seed.count with
          | error fault => rfl
          | ok seed =>
              cases hsource : Source.ofSeed seed with
              | error fault => simp only [bind, Except.bind, Except.map, hsource]
              | ok source =>
                  simp only [bind, Except.bind, Except.map, hsource, hx, split, divide_units]
                  cases s.isOneColumn <;> rfl

/-- No pair is dealt out **twice**. -/
theorem Frame.nodup_of_lots {f : Frame α} {s : Selection α} {lots : List (Key × Key) × Source}
    (h : f.lots s = .ok lots) : lots.1.Nodup := by
  obtain ⟨log, -, h⟩ := bind_eq_ok_iff.1 h
  obtain ⟨enough, -, h⟩ := bind_eq_ok_iff.1 h
  obtain ⟨seed, -, h⟩ := bind_eq_ok_iff.1 h
  obtain ⟨source, -, h⟩ := bind_eq_ok_iff.1 h
  cases hone : s.isOneColumn with
  | true =>
      simp only [hone] at h
      cases h
  | false =>
      simp only [hone] at h
      obtain rfl := Except.ok.inj h
      exact nodup_distinct _

/-- What is dealt out of a log that can be read are **the wanted pairs**. -/
theorem Selection.Reading.exists_lots {f : Frame α} {s : Selection α} (r : s.Reading f) :
    ∃ pairs, f.lots s = .ok (pairs, r.source) ∧ r.Lists pairs := by
  obtain ⟨rows, hrows, hshows⟩ := r.exists_rows
  obtain ⟨seed, hseed, hsource⟩ := bind_eq_ok_iff.1 r.seed
  refine ⟨_, ?_, r.lists_distinct hshows⟩
  refine bind_eq_ok_iff.2 ⟨_, hrows, bind_eq_ok_iff.2 ⟨_, r.enough_eq_ok, ?_⟩⟩
  refine bind_eq_ok_iff.2 ⟨seed, hseed, bind_eq_ok_iff.2 ⟨r.source, hsource, ?_⟩⟩
  simp only [r.separate]
  rfl

section

variable [Numeral.Ordered α]

/-- A larger share moves **no pair back** to the side that is trained on. -/
theorem dealt_mono_share [Machine] {κ : Type} (source : Source) {x x' : α}
    (h : Scalar.le x x' = true) (pairs : List κ) :
    (dealt (fun k => Scalar.lt (source.unit k) x) pairs).Sublist
      (dealt (fun k => Scalar.lt (source.unit k) x') pairs) ∧
    (dealt (fun k => !Scalar.lt (source.unit k) x') pairs).Sublist
      (dealt (fun k => !Scalar.lt (source.unit k) x) pairs) := by
  have hmore : ∀ k, Scalar.lt (source.unit k) x = true → Scalar.lt (source.unit k) x' = true :=
    fun k hk => Numeral.Ordered.lt_of_lt_of_le hk h
  refine ⟨dealt_mono hmore pairs, dealt_mono (fun k hk => ?_) pairs⟩
  rw [Bool.not_eq_true'] at hk ⊢
  exact Bool.eq_false_iff.2 fun h => Bool.eq_false_iff.1 hk (hmore k h)

/-- No draw falls below **zero**. -/
theorem unit_not_below [Machine] [Scalar.Draws α] (source : Source) {x : α}
    (h : Scalar.le x 0 = true) (k : ℕ) : Scalar.lt (source.unit k) x = false := by
  by_contra hk
  have hbelow := Numeral.Ordered.lt_of_lt_of_le (Bool.not_eq_false _ ▸ hk) h
  rw [Scalar.Draws.unit_lt_zero] at hbelow
  cases hbelow

/-- Every draw falls below **one**. -/
theorem unit_below [Machine] [Scalar.Draws α] (source : Source) {x : α} (h : Scalar.le 1 x = true)
    (k : ℕ) : Scalar.lt (source.unit k) x = true :=
  Numeral.Ordered.lt_of_lt_of_le (Scalar.Draws.unit_lt_one source k) h

variable [Scalar.Draws α]

/-- What is dealt out of a log **gives its splits**. -/
theorem Frame.nested_of_lots [Machine] {f : Frame α} {s : Selection α} {pairs : List (Key × Key)}
    {source : Source} (h : f.lots s = .ok (pairs, source)) :
    f.Nested s pairs (fun x => dealt (fun k => !Scalar.lt (source.unit k) x) pairs)
      (fun x => dealt (fun k => Scalar.lt (source.unit k) x) pairs) where
  outcome share x hx := by
    rw [Tables.ofFrame_eq_lots f s hx, h]
    rfl
  nodup := nodup_of_lots h
  perm x := dealt_append_perm _ _
  training_sublist x := dealt_sublist _ _
  heldOut_sublist x := dealt_sublist _ _
  none_heldOut x hx := by
    have hnone := unit_not_below source hx
    exact ⟨dealt_eq_self (fun k => by rw [hnone, Bool.not_false]) _, dealt_eq_nil hnone _⟩
  all_heldOut x hx := by
    have hall := unit_below source hx
    exact ⟨dealt_eq_nil (fun k => by rw [hall, Bool.not_true]) _, dealt_eq_self hall _⟩
  mono x x' hx := dealt_mono_share source hx pairs
  userRows x x' u hx := (Tables.rows_sublist (dealt_mono_share source hx pairs).2 _ _).1 u
  itemRows x x' i hx := (Tables.rows_sublist (dealt_mono_share source hx pairs).2 _ _).2 i

/-- A log has splits at every share, or **the same fault** at every share. -/
theorem Frame.exists_nested [Machine] (f : Frame α) (s : Selection α) :
    (∃ fault, ∀ share x, share.number = .ok x →
      Tables.ofFrame f { s with share := share } = .error fault) ∨
    ∃ pairs training heldOut, f.Nested s pairs training heldOut := by
  cases h : f.lots s with
  | error fault =>
      refine .inl ⟨fault, fun share x hx => ?_⟩
      rw [Tables.ofFrame_eq_lots f s hx, h]
      rfl
  | ok lots => exact .inr ⟨_, _, _, nested_of_lots h⟩

/-- **The splits of a log are nested, and blind to repeated rows.** Whatever the share of pairs to
hold out is, the same pairs are dealt out, or building the tables ends with the same fault: the
wanted pairs, where the log can be read. Of two shares the larger one holds out what the other does,
in the same order, and trains on nothing else; at zero nothing is held out, and at one everything
is. A further row changes no table if a row before it shows its pair, the other rows are what they
were, and come before the cut-off where they did. This is so for a row that is put into the columns
as they stand and fits them. -/
theorem splits_nested_and_blind_to_repeats [Machine] (f : Frame α) (s : Selection α) :
    ((∃ fault, ∀ share x, share.number = .ok x →
        Tables.ofFrame f { s with share := share } = .error fault) ∨
      ∃ pairs training heldOut, f.Nested s pairs training heldOut) ∧
    (∀ r : s.Reading f, ∃ pairs training heldOut,
      f.Nested s pairs training heldOut ∧ r.Lists pairs) ∧
    (∀ f' p u i, f.Inserts s f' p u i → (∃ k < p, f.Shows s k (u.key, i.key)) → ∀ share,
      Tables.ofFrame f' { s with share := share } = Tables.ofFrame f { s with share := share }) ∧
    ∀ p row, f.Fits s p row →
      (∃ k < p, f.Shows s k
        ((Frame.entry row s.userColumn).key, (Frame.entry row s.itemColumn).key)) → ∀ share,
      Tables.ofFrame (f.insertRow p row) { s with share := share }
        = Tables.ofFrame f { s with share := share } := by
  refine ⟨f.exists_nested s, fun r => ?_, fun f' p u i => Tables.ofFrame_of_inserts, ?_⟩
  · obtain ⟨pairs, hlots, hlists⟩ := r.exists_lots
    exact ⟨pairs, _, _, Frame.nested_of_lots hlots, hlists⟩
  · intro p row hfits hshown
    obtain ⟨k, hkp, hk⟩ := hshown
    exact Tables.ofFrame_of_inserts (hfits.inserts hkp hk) ⟨k, hkp, hk⟩

end

/-- A log of three rows before a cut-off, with its first row repeated after the cut-off, in the
second place. -/
theorem splits_nested_and_blind_to_repeats_three_rows :
    letI := Spelling.silent
    let f : Frame ℝ := .ofColumns
      [("reviewerID", [.text "u", .text "v", .text "u"]),
        ("asin", [.text "a", .text "b", .text "b"]),
        ("unixReviewTime", [.integer 1, .integer 2, .integer 3])]
    let s : Selection ℝ :=
      { Selection.standard with minUsers := .integer 0, cutoff := .integer 5 }
    let row : String → Setting ℝ := fun name =>
      if name = "reviewerID" then .text "u" else if name = "asin" then .text "a" else .integer 9
    ∃ (r : s.Reading f) (pairs : List (Key × Key)) (training heldOut : ℝ → List (Key × Key)),
      r.Lists pairs ∧ (.text "u", .text "a") ∈ pairs ∧
      (heldOut (1 / 3)).Sublist (heldOut (1 / 2)) ∧ training 0 = pairs ∧ heldOut 1 = pairs ∧
      (∀ share, Tables.ofFrame (f.insertRow 1 row) { s with share := share }
        = Tables.ofFrame f { s with share := share }) ∧
      ∀ share x, share.number = .ok x → Tables.ofFrame (f.insertRow 1 row) { s with share := share }
        = .ok (.ofPairs (training x) (heldOut x)) := by
  let _ := Spelling.silent
  intro f s row
  let times : List (Setting ℝ) := [.integer 1, .integer 2, .integer 3]
  let r : s.Reading f :=
    { users := [.text "u", .text "v", .text "u"]
      items := [.text "a", .text "b", .text "b"]
      times := times
      least := Scalar.ofInt 0
      share := 0
      source := ⟨31, 0⟩
      rectangular := Frame.length_ofColumns _
      userColumn := rfl
      itemColumn := rfl
      timeColumn := fun _ => rfl
      comparable := fun _ => ⟨[true, true, true], rfl⟩
      separate := rfl
      minUsers := rfl
      ratio := rfl
      seed := rfl }
  have hfits : f.Fits s 1 row := by
    have hbelow : below (times.insertIdx 1 (.integer 9)) (.integer 5)
        = .ok [true, false, true, true] := rfl
    exact Frame.fits_real rfl hbelow
  have hshown : f.Shows s 0 (.text "u", .text "a") := ⟨_, rfl, rfl⟩
  have hinserts : f.Inserts s (f.insertRow 1 row) 1 (.text "u") (.text "a") :=
    hfits.inserts Nat.one_pos hshown
  obtain ⟨-, hreading, hother, hrow⟩ := splits_nested_and_blind_to_repeats f s
  obtain ⟨pairs, training, heldOut, hnested, hlists⟩ := hreading r
  refine ⟨r, pairs, training, heldOut, hlists, (hlists.mem _).2 ⟨?_, by decide, ?_⟩, ?_, ?_, ?_, ?_,
    fun share x hx => ?_⟩
  · exact ⟨0, (Frame.shows_iff r 0 _).1 hshown⟩
  · have hleast : r.least = 0 := (Scalar.ofInt_real 0).trans Int.cast_zero
    rw [hleast, Scalar.le_real, Scalar.ofNat_real]
    exact Nat.cast_nonneg _
  · exact (hnested.mono _ _ (Scalar.le_real.2 (by norm_num))).1
  · exact (hnested.none_heldOut 0 (Scalar.le_real.2 le_rfl)).1
  · exact (hnested.all_heldOut 1 (Scalar.le_real.2 le_rfl)).2
  · exact hrow 1 row hfits ⟨0, Nat.one_pos, hshown⟩
  · rw [hother _ 1 _ _ hinserts ⟨0, Nat.one_pos, hshown⟩]
    exact hnested.outcome share x hx

/-- A repeated row whose time is missing turns the whole numbers of its column into reals, and a
time just below the cut-off is **rounded to it**: the first row of this log comes before the cut-off
as long as the second is not repeated. -/
theorem not_blind_to_repeat_without_time :
    let columns : List (String × List (Setting Float)) :=
      [("reviewerID", [.text "u", .text "v"]), ("asin", [.text "a", .text "b"]),
        ("unixReviewTime", [.integer 9007199254740992, .integer 0])]
    let row : String → Setting Float := fun name =>
      if name = "reviewerID" then .text "v" else if name = "asin" then .text "b" else .absent
    let f : Frame Float := .ofValues columns
    let f' : Frame Float := .ofValues (columns.map fun c => (c.1, c.2.insertIdx 2 (row c.1)))
    let s : Selection Float := { Selection.standard with cutoff := .integer 9007199254740993 }
    f.Shows s 1 ((Frame.entry row s.userColumn).key, (Frame.entry row s.itemColumn).key) ∧
      (Tables.ofFrame f s).toOption.map Tables.users = some [.text "u", .text "v"] ∧
      (Tables.ofFrame f' s).toOption.map Tables.users = some [.text "v"] := by
  intro columns row f f' s
  refine ⟨?_, by decide +kernel, by decide +kernel⟩
  obtain ⟨rows, hrows, hrow⟩ := exists_ok_of_any (x := f.rows s)
    (p := fun rows => decide (rows[1]? = some ((Key.text "v", Key.text "b"), true)))
    (by decide +kernel)
  exact ⟨rows, hrows, of_decide_eq_true hrow⟩

end CoEmbed
