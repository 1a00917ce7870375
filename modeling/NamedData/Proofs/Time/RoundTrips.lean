import NamedData.Time.RoundTrips
import Mathlib.Data.List.Perm.Basic
import Mathlib.Data.List.Sort
import Mathlib.Order.Bounds.Basic

/-!
# What a summary of round-trip times says

A summary does not depend on the order of the samples. Its percentile `p` is the smallest sample
that at least `p` percent of the samples do not exceed: the rank, which is `p` percent of the count
rounded up, counts the samples up to that one in ascending order. The mean is the sum divided by the
count, as long as the count fits into 32 bits.

## Main definitions

* `RoundTrips.ReachedBy`, the samples that a percentage of all samples do not exceed
* `RoundTrips.Summarises`, what a summary says about the samples

## Main statements

* `RoundTrips.ofSamples_perm`, the order of the samples does not matter
* `RoundTrips.isLeast_percentile`
* `RoundTrips.ofSamples_summarises`
-/
namespace NamedData.RoundTrips

variable {samples samples' : List Nat} {l : List Nat} {p q v w : Nat}

/-! ## Sorting the samples -/

theorem insertSample_eq_orderedInsert (t : Nat) (l : List Nat) :
    insertSample t l = l.orderedInsert (· ≤ ·) t := by
  induction l with
  | nil => rfl
  | cons s rest ih =>
    by_cases hle : t ≤ s <;> simp [insertSample, List.orderedInsert, hle, ih]

theorem sorted_eq_insertionSort (samples : List Nat) :
    (ofSamples samples).sorted = samples.insertionSort (· ≤ ·) := by
  have hinsert : insertSample = List.orderedInsert (· ≤ ·) :=
    funext fun t => funext fun l => insertSample_eq_orderedInsert t l
  rw [ofSamples, hinsert]
  rfl

theorem perm_sorted (samples : List Nat) : (ofSamples samples).sorted.Perm samples := by
  rw [sorted_eq_insertionSort]
  exact List.perm_insertionSort _ samples

theorem pairwise_sorted (samples : List Nat) : (ofSamples samples).sorted.Pairwise (· ≤ ·) := by
  rw [sorted_eq_insertionSort]
  exact List.pairwise_insertionSort _ samples

/-- **The order of the samples** does not matter. -/
theorem ofSamples_perm (h : samples.Perm samples') : ofSamples samples = ofSamples samples' := by
  have hperm := (perm_sorted samples).trans (h.trans (perm_sorted samples').symm)
  have hsorted : (ofSamples samples).sorted = (ofSamples samples').sorted :=
    hperm.eq_of_pairwise (fun _ _ _ _ => Nat.le_antisymm) (pairwise_sorted samples)
      (pairwise_sorted samples')
  exact congrArg RoundTrips.mk hsorted

theorem length_sorted (samples : List Nat) : (ofSamples samples).sorted.length = samples.length :=
  (perm_sorted samples).length_eq

theorem sorted_ne_nil (hne : samples ≠ []) : (ofSamples samples).sorted ≠ [] := by
  rw [← List.length_pos_iff, length_sorted]
  exact List.length_pos_iff.mpr hne

/-! ## Counting in a sorted list -/

/-- The samples up to a place in the list are no larger than the one there. -/
theorem lt_countP_getElem (hsorted : l.Pairwise (· ≤ ·)) {i : Nat} (hi : i < l.length) :
    i < l.countP (· ≤ l[i]) := by
  have hall : ∀ a ∈ l.take (i + 1), a ≤ l[i] := by
    intro a ha
    obtain ⟨j, hj, rfl⟩ := List.mem_take_iff_getElem.mp ha
    rcases Nat.eq_or_lt_of_le (show j ≤ i by omega) with rfl | hlt
    · exact le_rfl
    · exact List.pairwise_iff_getElem.mp hsorted j i _ hi hlt
  have hlength : (l.take (i + 1)).countP (· ≤ l[i]) = (l.take (i + 1)).length :=
    List.countP_eq_length.mpr fun a ha => decide_eq_true (hall a ha)
  have hcount := (List.take_sublist (i + 1) l).countP_le (p := fun a => decide (a ≤ l[i]))
  rw [hlength, List.length_take] at hcount
  omega

/-- The samples below the one at a place in the list are before that place. -/
theorem countP_le_of_lt_getElem (hsorted : l.Pairwise (· ≤ ·)) {i : Nat} (hi : i < l.length)
    (hlt : w < l[i]) : l.countP (· ≤ w) ≤ i := by
  have hnone : (l.drop i).countP (· ≤ w) = 0 := by
    refine List.countP_eq_zero.mpr fun a ha => ?_
    obtain ⟨j, hj, rfl⟩ := List.mem_drop_iff_getElem.mp ha
    have hle : l[i] ≤ l[i + j] := by
      rcases Nat.eq_or_lt_of_le (Nat.le_add_right i j) with heq | hlt
      · simp [← heq]
      · exact List.pairwise_iff_getElem.mp hsorted i (i + j) hi _ hlt
    simpa using hlt.trans_le hle
  have hfront := List.countP_le_length (p := fun a => decide (a ≤ w)) (l := l.take i)
  rw [← List.take_append_drop i l, List.countP_append, hnone]
  rw [List.length_take] at hfront
  omega

/-! ## Percentiles -/

/-- The samples that at least `p` percent of the samples do not exceed. -/
def ReachedBy (samples : List Nat) (p : Nat) : Set Nat :=
  {v | v ∈ samples ∧ p * samples.length ≤ 100 * samples.countP (· ≤ v)}

/-- The more samples are to be no larger, the fewer reach that. -/
theorem reachedBy_anti (hle : p ≤ q) : ReachedBy samples q ⊆ ReachedBy samples p := by
  rintro v ⟨hmem, hcount⟩
  exact ⟨hmem, (Nat.mul_le_mul_right _ hle).trans hcount⟩

theorem rank_sub_one_lt {n : Nat} (hn : 0 < n) (hp : p ≤ 100) : (p * n + 99) / 100 - 1 < n := by
  have hle : p * n ≤ 100 * n := Nat.mul_le_mul_right n hp
  omega

/-- **The percentile** is the smallest sample that as many of the samples do not exceed. -/
theorem isLeast_percentile (hne : samples ≠ []) (p : Nat) :
    ∃ v, (ofSamples samples).percentile? p = some v ∧
      IsLeast (ReachedBy samples (min p 100)) v := by
  have hsorted := pairwise_sorted samples
  have hperm := perm_sorted samples
  have hpos : 0 < samples.length := List.length_pos_iff.mpr hne
  unfold percentile? count
  rw [length_sorted]
  generalize hp : min p 100 = p'
  generalize hrank : (p' * samples.length + 99) / 100 = rank
  have hi : rank - 1 < (ofSamples samples).sorted.length := by
    rw [length_sorted, ← hrank]
    exact rank_sub_one_lt hpos (hp ▸ Nat.min_le_right p 100)
  refine ⟨_, List.getElem?_eq_getElem hi, ⟨?_, ?_⟩, ?_⟩
  · exact hperm.mem_iff.mp (List.getElem_mem hi)
  · have hcount := lt_countP_getElem hsorted hi
    rw [hperm.countP_eq] at hcount
    omega
  · rintro w ⟨hmem, hcount⟩
    refine Nat.le_of_not_lt fun hlt => ?_
    have hbelow := countP_le_of_lt_getElem hsorted hi hlt
    rw [hperm.countP_eq] at hbelow
    -- the sample itself is one of those that it is not below
    have hself : 0 < samples.countP (· ≤ w) := List.countP_pos_iff.mpr ⟨w, hmem, by simp⟩
    omega

theorem percentile?_zero (r : RoundTrips) : r.percentile? 0 = r.min? := by
  rw [min?, List.head?_eq_getElem?, percentile?, Nat.zero_min, Nat.zero_mul]

theorem percentile?_of_hundred_le (r : RoundTrips) (hp : 100 ≤ p) : r.percentile? p = r.max? := by
  have hrank : (100 * r.count + 99) / 100 = r.sorted.length := by
    rw [count]
    omega
  rw [max?, List.getLast?_eq_getElem?, percentile?, Nat.min_eq_right hp, hrank]

/-! ## The smallest and the largest sample, and the mean -/

theorem isLeast_min (hne : samples ≠ []) :
    ∃ v, (ofSamples samples).min? = some v ∧ IsLeast {v | v ∈ samples} v := by
  obtain ⟨v, hv, hleast⟩ := isLeast_percentile hne 0
  rw [percentile?_zero] at hv
  refine ⟨v, hv, hleast.1.1, fun w hw => hleast.2 ⟨hw, ?_⟩⟩
  rw [Nat.zero_min, Nat.zero_mul]
  exact Nat.zero_le _

theorem isGreatest_max (hne : samples ≠ []) :
    ∃ v, (ofSamples samples).max? = some v ∧ IsGreatest {v | v ∈ samples} v := by
  obtain ⟨v, hv, ⟨hmem, hcount⟩, -⟩ := isLeast_percentile hne 100
  rw [percentile?_of_hundred_le _ le_rfl] at hv
  rw [Nat.min_self] at hcount
  refine ⟨v, hv, hmem, fun w hw => ?_⟩
  have hall : samples.countP (· ≤ v) = samples.length :=
    Nat.le_antisymm List.countP_le_length (by omega)
  simpa using List.countP_eq_length.mp hall w hw

theorem sum_bounds (h : ∀ s ∈ l, v ≤ s ∧ s ≤ w) (total : Nat) :
    total + l.length * v ≤ l.foldl (· + ·) total ∧
      l.foldl (· + ·) total ≤ total + l.length * w := by
  induction l generalizing total with
  | nil => simp
  | cons s rest ih =>
    obtain ⟨⟨hlow, hhigh⟩, hrest⟩ := List.forall_mem_cons.mp h
    obtain ⟨hlow', hhigh'⟩ := ih hrest (total + s)
    rw [List.foldl_cons, List.length_cons, Nat.succ_mul, Nat.succ_mul]
    omega

theorem mean?_ofSamples (hne : samples ≠ []) (hfew : samples.length < UInt32.size) :
    (ofSamples samples).mean? = some (samples.foldl (· + ·) 0 / samples.length) := by
  have hcomm : RightCommutative fun a b : Nat => a + b := ⟨Nat.add_right_comm⟩
  have hsum : (ofSamples samples).sorted.foldl (· + ·) 0 = samples.foldl (· + ·) 0 :=
    (perm_sorted samples).foldl_eq 0
  have hcount : (UInt32.ofNat (ofSamples samples).count).toNat = samples.length := by
    rw [count, length_sorted, UInt32.toNat_ofNat_of_lt' hfew]
  rw [mean?, if_neg (by simpa using sorted_ne_nil hne), hsum, hcount]

/-! ## The whole summary -/

/-- What a summary says about the samples. -/
structure Summarises (r : RoundTrips) (samples : List Nat) : Prop where
  /-- A percentile is the smallest sample that as many percent of the samples do not exceed. -/
  isLeast_percentile : ∀ p ≤ 100, ∃ v, r.percentile? p = some v ∧ IsLeast (ReachedBy samples p) v
  percentile?_zero : r.percentile? 0 = r.min?
  /-- Percentiles do not decrease. -/
  percentile?_mono : ∀ p q, p ≤ q →
    ∃ v w, r.percentile? p = some v ∧ r.percentile? q = some w ∧ v ≤ w
  percentile?_of_hundred_le : ∀ p, 100 ≤ p → r.percentile? p = r.max?
  isLeast_min : ∃ v, r.min? = some v ∧ IsLeast {v | v ∈ samples} v
  isGreatest_max : ∃ v, r.max? = some v ∧ IsGreatest {v | v ∈ samples} v
  /-- The mean is the sum divided by the count, rounded down. -/
  mean?_eq : r.mean? = some (samples.foldl (· + ·) 0 / samples.length)
  /-- The mean is neither below all samples nor above them. -/
  min_le_mean_le_max : ∃ least mean most, r.min? = some least ∧ r.mean? = some mean ∧
    r.max? = some most ∧ least ≤ mean ∧ mean ≤ most

/-- **A summary** of samples, if there are any and fewer than 32 bits can count, says the same in
whatever order they are, and says it of these samples. -/
theorem ofSamples_summarises (hne : samples ≠ []) (hfew : samples.length < UInt32.size) :
    (ofSamples samples).Summarises samples ∧
      ∀ samples', samples.Perm samples' → ofSamples samples' = ofSamples samples := by
  have hmean := mean?_ofSamples hne hfew
  refine ⟨⟨?_, percentile?_zero _, ?_, fun _ => percentile?_of_hundred_le _, isLeast_min hne,
    isGreatest_max hne, hmean, ?_⟩, fun samples' hperm => (ofSamples_perm hperm).symm⟩
  · intro p hp
    have hleast := isLeast_percentile hne p
    rwa [Nat.min_eq_left hp] at hleast
  · intro p q hle
    obtain ⟨v, hv, hleast⟩ := isLeast_percentile hne p
    obtain ⟨w, hw, hleast'⟩ := isLeast_percentile hne q
    have hsub : ReachedBy samples (min q 100) ⊆ ReachedBy samples (min p 100) :=
      reachedBy_anti (by omega)
    exact ⟨v, w, hv, hw, hleast.2 (hsub hleast'.1)⟩
  · obtain ⟨least, hmin, hleast⟩ := isLeast_min hne
    obtain ⟨most, hmax, hmost⟩ := isGreatest_max hne
    obtain ⟨hlow, hhigh⟩ := sum_bounds (fun s hs => ⟨hleast.2 hs, hmost.2 hs⟩) 0
    have hpos : 0 < samples.length := List.length_pos_iff.mpr hne
    refine ⟨least, _, most, hmin, hmean, hmax, ?_, ?_⟩
    · rw [Nat.le_div_iff_mul_le hpos]
      rwa [Nat.zero_add, Nat.mul_comm] at hlow
    · refine Nat.div_le_of_le_mul ?_
      rwa [Nat.zero_add] at hhigh

/-- Two thirds of three samples do not exceed the smaller value: 66 percent, but not 67. -/
theorem tied_summarises :
    (ofSamples [2, 7, 2]).Summarises [2, 7, 2] ∧
      (ofSamples [2, 7, 2]).percentile? 66 = some 2 ∧
      (ofSamples [2, 7, 2]).percentile? 67 = some 7 :=
  ⟨(ofSamples_summarises (by decide) (by decide)).1, rfl, rfl⟩

end NamedData.RoundTrips
