import NamedData.Proofs.DeadNonceList.Remembered

/-!
# How large the dead nonce list gets

Whatever is added, and even if time runs backwards, the size is the number of pairs and no larger
than the capacity, no name is kept without nonces, and each pair has a stamp in the queue. So a
list that is over its capacity always finds a pair to drop. Stamps of pairs that were added again
wait in the queue until they come to the front or are dropped all at once. As long as time does not
run backwards this keeps the queue at twice the capacity or below.

## Main definitions

* `DeadNonceList.Sound`, what holds whatever was added

## Main statements

* `DeadNonceList.size_trim_le`, trimming brings a list down to its capacity
* `DeadNonceList.Sound.add`, one addition
* `DeadNonceList.length_queue_add_le`, one addition in the order of time
* `DeadNonceList.bounds_addAll`, any number of additions
-/
namespace NamedData.DeadNonceList

variable {l : DeadNonceList} {s : Stamp} {queue : List Stamp} {t : Instant}

/-! ## Names without nonces -/

/-- Each name in the index has a nonce. -/
def NamesHaveNonces (l : DeadNonceList) : Prop :=
  ∀ n nonces, l.index.get? n = some nonces → nonces.isEmpty = false

theorem namesHaveNonces_forget (h : l.NamesHaveNonces) (s : Stamp) :
    (l.forget s).NamesHaveNonces := by
  by_cases hcurrent : l.IsCurrent s
  · obtain ⟨nonces, hn, hc⟩ := Option.bind_eq_some_iff.mp hcurrent
    intro n nonces' hn'
    simp only [forget, hn, hc, if_true] at hn'
    split at hn'
    · rw [SortedMap.get?_erase] at hn'
      exact h n nonces' (Option.ite_none_left_eq_some.mp hn').2
    · next hrest =>
      rw [SortedMap.get?_insert] at hn'
      split at hn'
      · obtain rfl := Option.some.inj hn'
        exact Bool.eq_false_iff.mpr hrest
      · exact h n nonces' hn'
  · rw [forget_of_not_isCurrent hcurrent]
    exact h

theorem namesHaveNonces_foldl_forget (h : l.NamesHaveNonces) (old : List Stamp) :
    (old.foldl forget l).NamesHaveNonces := by
  induction old generalizing l with
  | nil => exact h
  | cons s rest ih => exact ih (namesHaveNonces_forget h s)

theorem namesHaveNonces_purge (h : l.NamesHaveNonces) (now : Instant) :
    (l.purge now).NamesHaveNonces := by
  rw [purge_eq]
  exact namesHaveNonces_foldl_forget h _

theorem namesHaveNonces_stamped (h : l.NamesHaveNonces) (s : Stamp) :
    (l.stamped s).NamesHaveNonces := by
  have hindex : (l.stamped s).index = (l.record s).index := by
    unfold stamped
    dsimp only
    split <;> rfl
  intro n nonces hn
  rw [hindex] at hn
  simp only [record, SortedMap.get?_insert] at hn
  split at hn
  · obtain rfl := Option.some.inj hn
    refine Bool.eq_false_iff.mpr fun hempty => ?_
    have hnone := SortedMap.get?_of_isEmpty hempty s.nonce
    rw [SortedMap.get?_insert, if_pos rfl] at hnone
    cases hnone
  · exact h n nonces hn

theorem namesHaveNonces_trim (h : l.NamesHaveNonces) (queue : List Stamp) :
    (l.trim queue).NamesHaveNonces := by
  obtain ⟨gone, kept, -, heq, -⟩ := trim_spec l queue
  rw [heq]
  exact namesHaveNonces_foldl_forget h gone

/-! ## The size -/

theorem size_foldl_forget_le (old : List Stamp) (l : DeadNonceList) :
    (old.foldl forget l).size ≤ l.size := by
  induction old generalizing l with
  | nil => exact le_rfl
  | cons s rest ih =>
    refine (ih (l.forget s)).trans ?_
    rw [size_forget]
    split
    · exact Nat.sub_le _ _
    · exact le_rfl

theorem size_purge_le (l : DeadNonceList) (now : Instant) : (l.purge now).size ≤ l.size := by
  rw [purge_eq]
  exact size_foldl_forget_le _ l

/-- **Trimming** finds enough pairs to drop, if the queue has a stamp of each. -/
theorem size_trim_le (hcount : l.Counted) (hqueue : ∀ s, l.IsCurrent s → s ∈ queue) :
    (l.trim queue).size ≤ l.capacity := by
  induction queue generalizing l with
  | nil =>
    have hnone : l.pairs = ∅ := by
      refine Finset.eq_empty_of_forall_notMem fun p hp => ?_
      obtain ⟨s, hs, -⟩ := mem_pairs.mp hp
      exact List.not_mem_nil (hqueue s hs)
    have hzero : l.size = 0 := by rw [hcount, hnone, Finset.card_empty]
    exact hzero.le.trans (Nat.zero_le _)
  | cons s rest ih =>
    rw [trim]
    split
    · next hle => exact hle
    · have hcapacity : (l.forget s).capacity = l.capacity :=
        (sameBounds_foldl_forget [s] l).capacity
      rw [← hcapacity]
      refine ih (counted_forget hcount s) fun s' hs' => ?_
      obtain ⟨hs', hne⟩ := isCurrent_forget.mp hs'
      exact (List.mem_cons.mp (hqueue s' hs')).resolve_left hne

/-! ## Whatever is added -/

/-- What holds of a list whatever was added to it. -/
structure Sound (l : DeadNonceList) : Prop where
  /-- The size is the number of pairs in the index. -/
  size_eq : l.size = l.pairs.card
  size_le : l.size ≤ l.capacity
  /-- No name is kept without nonces. -/
  namesHaveNonces : l.NamesHaveNonces
  /-- Each pair has a stamp in the queue, with the time that is stored for it. -/
  mem_queue : ∀ n c t, l.addedAt? n c = some t → ⟨t, n, c⟩ ∈ l.queue

theorem Sound.accurate (sound : l.Sound) : l.Accurate :=
  ⟨sound.size_eq, fun hs => sound.mem_queue _ _ _ hs⟩

theorem Accurate.sound (acc : l.Accurate) (hsize : l.size ≤ l.capacity)
    (hnames : l.NamesHaveNonces) : l.Sound :=
  ⟨acc.counted, hsize, hnames, fun _ _ _ hadded => acc.mem_queue hadded⟩

theorem sound_empty (lifetime : Millis) (capacity : Nat) : Sound { lifetime, capacity } :=
  (accurate_of_isEmpty lifetime capacity).sound (Nat.zero_le _) (fun _ _ h => by cases h)

theorem Sound.add (sound : l.Sound) (n : Name) (c : Nonce) (now : Instant) :
    (l.add n c now).Sound := by
  have hbounds := sameBounds_purge l now
  have hnames := namesHaveNonces_purge sound.namesHaveNonces now
  refine (accurate_add sound.accurate n c now).sound ?_ ?_
  · rw [(sameBounds_add l n c now).capacity, add_eq]
    split
    · exact (size_purge_le l now).trans sound.size_le
    · have acc := accurate_stamped (accurate_purge sound.accurate now) ⟨now, n, c⟩
      rw [← hbounds.capacity, ← (sameBounds_stamped _ ⟨now, n, c⟩).capacity]
      exact size_trim_le acc.counted fun _ => acc.mem_queue
  · rw [add_eq]
    split
    · exact hnames
    · exact namesHaveNonces_trim (namesHaveNonces_stamped hnames _) _

theorem Sound.addAll (sound : l.Sound) (stamps : List Stamp) : (l.addAll stamps).Sound := by
  induction stamps generalizing l with
  | nil => exact sound
  | cons s rest ih => exact ih (sound.add _ _ _)

/-! ## The queue -/

theorem InOrder.purge (inOrder : l.InOrder t) (now : Instant) : (l.purge now).InOrder t where
  accurate := accurate_purge inOrder.accurate now
  chronological := inOrder.chronological.of_sublist (queue_purge_sublist l now)
  tidy := tidy_purge inOrder.chronological inOrder.tidy now
  length_le := by
    rw [current_purge inOrder.accurate inOrder.chronological, (sameBounds_purge l now).capacity]
    exact (List.length_filter_le _ _).trans inOrder.length_le

/-- A queue that got too long is left with one stamp for each pair. -/
theorem queue_stamped (l : DeadNonceList) (s : Stamp) :
    (l.stamped s).queue.length ≤ 2 * l.capacity ∨ (l.stamped s).queue = (l.stamped s).current := by
  unfold stamped
  dsimp only
  split
  · right
    rw [current]
    exact (List.filter_eq_self.mpr fun s' hs' => (List.mem_filter.mp hs').2).symm
  · next hshort => exact .inl (Nat.le_of_not_lt hshort)

theorem length_queue_stamped_le (inOrder : l.InOrder t) (hle : t ≤ s.time)
    (hnew : ¬ l.IsCurrent s) (hcapacity : l.capacity ≠ 0) :
    (l.stamped s).queue.length ≤ 2 * l.capacity := by
  rcases queue_stamped l s with hshort | hcompacted
  · exact hshort
  · have hothers := List.length_filter_le (fun s' : Stamp => s'.pair ≠ s.pair) l.current
    have hlength := inOrder.length_le
    rw [hcompacted, current_stamped inOrder.accurate inOrder.chronological inOrder.tidy hle hnew,
      List.length_append, List.length_singleton]
    omega

/-- **One addition** in the order of time keeps the queue at twice the capacity or below. -/
theorem length_queue_add_le (inOrder : l.InOrder t) (hle : t ≤ s.time)
    (hqueue : l.queue.length ≤ 2 * l.capacity) :
    (l.add s.name s.nonce s.time).queue.length ≤ 2 * l.capacity := by
  have hcapacity := (sameBounds_purge l s.time).capacity
  rw [add_eq]
  split
  · exact (queue_purge_sublist l s.time).length_le.trans hqueue
  · next hnew =>
    rw [not_or] at hnew
    rw [← hcapacity]
    exact (queue_trim_sublist _).length_le.trans
      (length_queue_stamped_le (inOrder.purge s.time) hle hnew.2 hnew.1)

theorem length_queue_addAll_le {stamps : List Stamp} (inOrder : l.InOrder t)
    (hle : ∀ s ∈ stamps, t ≤ s.time) (hsorted : stamps.Pairwise fun s s' => s.time ≤ s'.time)
    (hqueue : l.queue.length ≤ 2 * l.capacity) :
    (l.addAll stamps).queue.length ≤ 2 * l.capacity := by
  induction stamps generalizing l t with
  | nil => exact hqueue
  | cons s rest ih =>
    obtain ⟨hfirst, hrest⟩ := List.pairwise_cons.mp hsorted
    have hs := hle s List.mem_cons_self
    have hcapacity := (sameBounds_add l s.name s.nonce s.time).capacity
    rw [← hcapacity]
    refine ih (inOrder.add hs) hfirst hrest ?_
    rw [hcapacity]
    exact length_queue_add_le inOrder hs hqueue

/-- **The bounds of the list.** Whatever was added, in any order of times, the size is the number of
pairs and no larger than the capacity, no name is kept without nonces, and each pair has its stamp
in the queue. If time did not run backwards the queue is no longer than twice the capacity. -/
theorem bounds_addAll (lifetime : Millis) (capacity : Nat) (stamps : List Stamp) :
    let l := addAll stamps { lifetime, capacity }
    l.Sound ∧ l.capacity = capacity ∧
      ((stamps.Pairwise fun s s' => s.time ≤ s'.time) → l.queue.length ≤ 2 * capacity) := by
  refine ⟨(sound_empty lifetime capacity).addAll stamps, (sameBounds_addAll stamps _).capacity, ?_⟩
  exact fun hsorted => length_queue_addAll_le (inOrder_empty lifetime capacity)
    (fun _ _ => Nat.zero_le _) hsorted (Nat.zero_le _)

/-- A pair that is added four times, in a list with room for it alone, leaves two stamps at most. -/
theorem refreshed_bounds :
    let stamps : List Stamp := (List.range 4).map fun t => ⟨t, .root, 7⟩
    (stamps.Pairwise fun s s' => s.time ≤ s'.time) ∧
      (addAll stamps { lifetime := 10, capacity := 1 }).size = 1 ∧
      (addAll stamps { lifetime := 10, capacity := 1 }).queue.length ≤ 2 := by
  intro stamps
  have hsorted : stamps.Pairwise fun s s' => s.time ≤ s'.time := by decide
  exact ⟨hsorted, by decide, (bounds_addAll 10 1 stamps).2.2 hsorted⟩

end NamedData.DeadNonceList
