import NamedData.Proofs.DeadNonceList.Memory

/-!
# What the dead nonce list remembers, as a plain list

The pairs that are remembered, each with the time it was added last, make a plain list in the order
of these times. Adding a pair drops those that are a lifetime old, moves the pair to the end, and
drops what is over the capacity from the front. The dead nonce list keeps more than that: stamps of
pairs that were added again stay in its queue for a while. They do not show.

## Main definitions

* `DeadNonceList.current`, the stamps in the queue that are not superseded
* `DeadNonceList.remember`, an addition to a plain list
* `DeadNonceList.Tidy`

## Main statements

* `DeadNonceList.current_purge`, `DeadNonceList.current_stamped`, `DeadNonceList.current_trim`
* `DeadNonceList.current_add`, one addition
* `DeadNonceList.addAll_remembers`, any number of them
-/
namespace NamedData.DeadNonceList

variable {l : DeadNonceList} {s s' : Stamp} {n : Name} {c : Nonce} {t now : Instant}
  {lifetime : Millis} {capacity : Nat}

/-- The stamps that are the latest of their pairs, oldest first. -/
def current (l : DeadNonceList) : List Stamp := l.queue.filter fun s => l.IsCurrent s

/-- The plain list `stamps` after the pair of `s` is added at its time. -/
def remember (lifetime : Millis) (capacity : Nat) (stamps : List Stamp) (s : Stamp) : List Stamp :=
  let fresh := stamps.filter fun s' => s.time - s'.time < lifetime
  if capacity = 0 then fresh
  else
    let added := if s ∈ fresh then fresh else (fresh.filter fun s' => s'.pair ≠ s.pair) ++ [s]
    added.drop (added.length - capacity)

/-- No stamp is in the queue twice, and a stamp that is superseded has its successor there. -/
structure Tidy (l : DeadNonceList) : Prop where
  nodup : l.queue.Nodup
  exists_current : ∀ s ∈ l.queue, ∃ s', l.IsCurrent s' ∧ s'.pair = s.pair ∧ s.time ≤ s'.time

theorem mem_current (acc : l.Accurate) : s ∈ l.current ↔ l.IsCurrent s := by
  simp only [current, List.mem_filter, decide_eq_true_eq, and_iff_right_iff_imp]
  exact acc.mem_queue

theorem size_eq_length_current (acc : l.Accurate) (tidy : l.Tidy) :
    l.size = l.current.length := by
  have hnodup : (l.current.map Stamp.pair).Nodup := by
    refine (tidy.nodup.filter _).map_on ?_
    intro s hs s' hs' hpair
    exact ((mem_current acc).mp hs).eq ((mem_current acc).mp hs') hpair
  have hpairs : l.pairs = (l.current.map Stamp.pair).toFinset := by
    ext p
    simp only [mem_pairs, List.mem_toFinset, List.mem_map, mem_current acc]
  have hcount : l.size = l.pairs.card := acc.counted
  rw [hcount, hpairs, List.toFinset_card_of_nodup hnodup, List.length_map]

/-- A stamp that is current has been added, so one that is not and is as late as any is new. -/
theorem not_mem_queue (acc : l.Accurate) (chron : l.Chronological t) (tidy : l.Tidy)
    (hle : t ≤ s.time) (hnew : ¬ l.IsCurrent s) : s ∉ l.queue := by
  intro hmem
  obtain ⟨s', hs', hpair, hafter⟩ := tidy.exists_current s hmem
  have hbefore := chron.le_now s' (acc.mem_queue hs')
  have htime : s'.time = s.time := Nat.le_antisymm (Nat.le_trans hbefore hle) hafter
  exact hnew (Stamp.eq_of_pair_eq hpair htime ▸ hs')

/-! ## Purging -/

/-- The front of the queue comes off, and what is left is still tidy. -/
theorem tidy_foldl_forget (chron : l.Chronological t) (tidy : l.Tidy) {old rest : List Stamp}
    (hq : l.queue = old ++ rest) :
    ({ old.foldl forget l with queue := rest } : DeadNonceList).Tidy := by
  have hnodup := tidy.nodup
  have hsorted := chron.sorted
  rw [hq] at hnodup hsorted
  obtain ⟨_, hrest, hapart⟩ := List.nodup_append.mp hnodup
  refine ⟨hrest, ?_⟩
  intro s hs
  obtain ⟨s', hs', hpair, hafter⟩ := tidy.exists_current s (hq ▸ List.mem_append_right _ hs)
  refine ⟨s', isCurrent_foldl_forget.mpr ⟨hs', ?_⟩, hpair, hafter⟩
  -- a successor that came off before `s` would be `s` itself
  intro hold
  have hbefore := (List.pairwise_append.mp hsorted).2.2 s' hold s hs
  have htime : s'.time = s.time := Nat.le_antisymm hbefore hafter
  exact hapart s' hold s hs (Stamp.eq_of_pair_eq hpair htime)

theorem tidy_purge (chron : l.Chronological t) (tidy : l.Tidy) (now : Instant) :
    (l.purge now).Tidy := by
  rw [purge_eq]
  exact tidy_foldl_forget chron tidy List.takeWhile_append_dropWhile.symm

theorem queue_purge (chron : l.Chronological t) (now : Instant) :
    (l.purge now).queue = l.queue.filter fun s => ¬ l.IsStale now s := by
  rw [purge_eq]
  have hsorted := chron.sorted
  simp only
  generalize l.queue = queue at hsorted
  induction queue with
  | nil => rfl
  | cons first rest ih =>
    obtain ⟨hfirst, hrest⟩ := List.pairwise_cons.mp hsorted
    by_cases hstale : l.IsStale now first
    · simp only [List.dropWhile_cons, List.filter_cons, hstale, decide_true, if_true,
        not_true_eq_false, decide_false, Bool.false_eq_true, if_false]
      exact ih hrest
    · -- what follows is no older
      have hall : ∀ s ∈ first :: rest, ¬ l.IsStale now s := by
        intro s hs hstale'
        rcases List.mem_cons.mp hs with rfl | hs
        · exact hstale hstale'
        · exact hstale (Nat.le_trans hstale' (Nat.sub_le_sub_left (hfirst s hs) now))
      rw [List.dropWhile_cons, if_neg (by simpa using hstale), List.filter_eq_self.mpr]
      exact fun s hs => decide_eq_true (hall s hs)

/-- **Purging** drops the pairs that are a lifetime old. -/
theorem current_purge (acc : l.Accurate) (chron : l.Chronological t) (now : Instant) :
    (l.purge now).current = l.current.filter fun s => now - s.time < l.lifetime := by
  simp only [current, queue_purge chron, List.filter_filter]
  refine List.filter_congr fun s _ => ?_
  rw [← Bool.decide_and, ← Bool.decide_and, decide_eq_decide, isCurrent_purge acc chron, IsStale,
    Nat.not_le, and_assoc, and_self, and_comm]

/-! ## Stamping -/

theorem tidy_stamped (acc : l.Accurate) (chron : l.Chronological t) (tidy : l.Tidy)
    (hle : t ≤ s.time) (hnew : ¬ l.IsCurrent s) : (l.stamped s).Tidy := by
  have hsuccessor : ∀ s' ∈ l.queue ++ [s],
      ∃ s'', (l.record s).IsCurrent s'' ∧ s''.pair = s'.pair ∧ s'.time ≤ s''.time := by
    intro s' hs'
    rcases List.mem_append.mp hs' with hs' | hs'
    · obtain ⟨s'', hs'', hpair, hafter⟩ := tidy.exists_current s' hs'
      by_cases hsame : s''.pair = s.pair
      · exact ⟨s, isCurrent_record.mpr (.inl rfl), hsame.symm.trans hpair,
          Nat.le_trans (chron.le_now s' hs') hle⟩
      · exact ⟨s'', isCurrent_record.mpr (.inr ⟨hs'', hsame⟩), hpair, hafter⟩
    · rw [List.mem_singleton.mp hs']
      exact ⟨s, isCurrent_record.mpr (.inl rfl), rfl, Nat.le_refl _⟩
  have hnodup : (l.queue ++ [s]).Nodup := by
    refine List.nodup_append.mpr ⟨tidy.nodup, List.nodup_singleton s, ?_⟩
    rintro s' hs' s'' hs'' rfl
    rw [List.mem_singleton.mp hs''] at hs'
    exact not_mem_queue acc chron tidy hle hnew hs'
  unfold stamped
  dsimp only
  split
  · exact ⟨hnodup.filter _, fun s' hs' => hsuccessor s' (List.mem_of_mem_filter hs')⟩
  · exact ⟨hnodup, hsuccessor⟩

/-- **Stamping** moves a pair to the end. -/
theorem current_stamped (acc : l.Accurate) (chron : l.Chronological t) (tidy : l.Tidy)
    (hle : t ≤ s.time) (hnew : ¬ l.IsCurrent s) :
    (l.stamped s).current = (l.current.filter fun s' => s'.pair ≠ s.pair) ++ [s] := by
  -- compacting does not touch the stamps that are current
  have hqueue : (l.stamped s).current =
      (l.queue ++ [s]).filter fun s' => (l.stamped s).IsCurrent s' := by
    unfold current stamped
    dsimp only
    split
    · exact List.filter_filter.trans (List.filter_congr fun s' _ => Bool.and_self _)
    · rfl
  have hlast : (l.stamped s).IsCurrent s := isCurrent_stamped.mpr (.inl rfl)
  rw [hqueue, List.filter_append, List.filter_singleton, decide_eq_true hlast, current,
    List.filter_filter]
  refine congrArg (· ++ [s]) (List.filter_congr fun s' hs' => ?_)
  have hne : s' ≠ s := by
    rintro rfl
    exact not_mem_queue acc chron tidy hle hnew hs'
  rw [← Bool.decide_and, decide_eq_decide, isCurrent_stamped, or_iff_right hne, and_comm]

/-! ## Trimming -/

theorem size_forget (l : DeadNonceList) (s : Stamp) :
    (l.forget s).size = if l.IsCurrent s then l.size - 1 else l.size := by
  split
  · next h =>
    obtain ⟨nonces, hn, hc⟩ := Option.bind_eq_some_iff.mp h
    simp only [forget, hn, hc, if_true]
  · next h => rw [forget_of_not_isCurrent h]

/-- **Trimming** drops what is over the capacity from the front. -/
theorem current_trim_of_size {queue : List Stamp} (hnodup : queue.Nodup)
    (hsize : l.size = (queue.filter fun s => l.IsCurrent s).length) :
    (l.trim queue).current = (queue.filter fun s => l.IsCurrent s).drop (l.size - l.capacity) := by
  induction queue generalizing l with
  | nil => simp [trim, current]
  | cons s rest ih =>
    obtain ⟨hs, hrest⟩ := List.nodup_cons.mp hnodup
    rw [trim]
    split
    · next hle =>
      rw [Nat.sub_eq_zero_of_le hle]
      rfl
    · next hover =>
      have hcapacity : (l.forget s).capacity = l.capacity :=
        (sameBounds_foldl_forget [s] l).capacity
      have hfilter : (rest.filter fun s' => (l.forget s).IsCurrent s') =
          rest.filter fun s' => l.IsCurrent s' := by
        refine List.filter_congr fun s' hs' => ?_
        rw [decide_eq_decide, isCurrent_forget]
        refine and_iff_left ?_
        rintro rfl
        exact hs hs'
      have hforget := size_forget l s
      by_cases hcurrent : l.IsCurrent s
      · simp only [List.filter_cons, hcurrent, decide_true, if_true, List.length_cons] at hsize ⊢
        rw [if_pos hcurrent] at hforget
        have hdrop : l.size - l.capacity = (l.size - 1 - l.capacity) + 1 := by omega
        rw [ih hrest (by rw [hfilter]; omega), hfilter, hcapacity, hforget, hdrop,
          List.drop_succ_cons]
      · simp only [List.filter_cons, hcurrent, decide_false, Bool.false_eq_true, if_false]
          at hsize ⊢
        rw [if_neg hcurrent] at hforget
        rw [ih hrest (by rw [hfilter]; omega), hfilter, hcapacity, hforget]

theorem current_trim (acc : l.Accurate) (tidy : l.Tidy) :
    (l.trim l.queue).current = l.current.drop (l.current.length - l.capacity) := by
  have hsize := size_eq_length_current acc tidy
  rw [current_trim_of_size tidy.nodup hsize, hsize]
  rfl

theorem tidy_trim (chron : l.Chronological t) (tidy : l.Tidy) : (l.trim l.queue).Tidy := by
  obtain ⟨gone, kept, hqueue, heq, _⟩ := trim_spec l l.queue
  rw [heq]
  exact tidy_foldl_forget chron tidy hqueue

/-! ## Adding -/

theorem tidy_add (acc : l.Accurate) (chron : l.Chronological t) (tidy : l.Tidy) (hle : t ≤ now)
    (n : Name) (c : Nonce) : (l.add n c now).Tidy := by
  have hpurge := tidy_purge chron tidy now
  rw [add_eq]
  split
  · exact hpurge
  · next hnew =>
    rw [not_or] at hnew
    have hacc := accurate_purge acc now
    have hchron := chron.of_sublist (queue_purge_sublist l now)
    exact tidy_trim (chronological_stamped (s := ⟨now, n, c⟩) hchron hle)
      (tidy_stamped hacc hchron hpurge hle hnew.2)

/-- **One addition** does to the current stamps what it does to a plain list. -/
theorem current_add (acc : l.Accurate) (chron : l.Chronological t) (tidy : l.Tidy)
    (hle : t ≤ s.time) (hbound : l.current.length ≤ l.capacity) :
    (l.add s.name s.nonce s.time).current = remember l.lifetime l.capacity l.current s := by
  have hpurge := current_purge acc chron s.time
  have hacc := accurate_purge acc s.time
  have hcapacity := (sameBounds_purge l s.time).capacity
  have hmem : s ∈ (l.purge s.time).current ↔ (l.purge s.time).IsCurrent s := mem_current hacc
  have hfresh : (l.current.filter fun s' => s.time - s'.time < l.lifetime).length ≤ l.capacity :=
    Nat.le_trans (List.length_filter_le _ _) hbound
  rw [remember, ← hpurge]
  by_cases hzero : l.capacity = 0
  · rw [add_eq, if_pos (.inl (hcapacity.trans hzero)), if_pos hzero]
  · rw [if_neg hzero]
    by_cases hkept : (l.purge s.time).IsCurrent s
    · rw [add_eq, if_pos (.inr hkept), if_pos (hmem.mpr hkept), hpurge]
      dsimp only
      rw [Nat.sub_eq_zero_of_le hfresh, List.drop_zero]
    · have hchron := chron.of_sublist (queue_purge_sublist l s.time)
      have htidy := tidy_purge chron tidy s.time
      have hadd : l.add s.name s.nonce s.time =
          ((l.purge s.time).stamped s).trim ((l.purge s.time).stamped s).queue := by
        rw [add_eq]
        exact if_neg (not_or.mpr ⟨hcapacity ▸ hzero, hkept⟩)
      rw [hadd, if_neg (mt hmem.mp hkept), current_trim (accurate_stamped hacc s)
        (tidy_stamped hacc hchron htidy hle hkept), current_stamped hacc hchron htidy hle hkept,
        (sameBounds_stamped _ s).capacity, hcapacity]

theorem length_remember_le {stamps : List Stamp} (hbound : stamps.length ≤ capacity) :
    (remember lifetime capacity stamps s).length ≤ capacity := by
  unfold remember
  dsimp only
  split
  · exact Nat.le_trans (List.length_filter_le _ _) hbound
  · rw [List.length_drop]
    omega

/-! ## Any number of additions -/

/-- The list is as it is after additions in the order of time, the last of them no later than
`now`. -/
structure InOrder (l : DeadNonceList) (now : Instant) : Prop where
  accurate : l.Accurate
  chronological : l.Chronological now
  tidy : l.Tidy
  length_le : l.current.length ≤ l.capacity

theorem inOrder_empty (lifetime : Millis) (capacity : Nat) :
    InOrder { lifetime, capacity } 0 where
  accurate := accurate_of_isEmpty lifetime capacity
  chronological := ⟨.nil, List.forall_mem_nil _⟩
  tidy := ⟨.nil, List.forall_mem_nil _⟩
  length_le := Nat.zero_le _

theorem InOrder.add (inOrder : l.InOrder t) (hle : t ≤ s.time) :
    (l.add s.name s.nonce s.time).InOrder s.time where
  accurate := accurate_add inOrder.accurate _ _ _
  chronological := chronological_add inOrder.chronological hle _ _
  tidy := tidy_add inOrder.accurate inOrder.chronological inOrder.tidy hle _ _
  length_le := by
    rw [current_add inOrder.accurate inOrder.chronological inOrder.tidy hle inOrder.length_le,
      (sameBounds_add _ _ _ _).capacity]
    exact length_remember_le inOrder.length_le

theorem current_addAll {stamps : List Stamp} (inOrder : l.InOrder t)
    (hle : ∀ s ∈ stamps, t ≤ s.time) (hsorted : stamps.Pairwise fun s s' => s.time ≤ s'.time) :
    (∃ t', (l.addAll stamps).InOrder t') ∧
      (l.addAll stamps).current = stamps.foldl (remember l.lifetime l.capacity) l.current := by
  induction stamps generalizing l t with
  | nil => exact ⟨⟨t, inOrder⟩, rfl⟩
  | cons s rest ih =>
    obtain ⟨hfirst, hrest⟩ := List.pairwise_cons.mp hsorted
    have hs := hle s List.mem_cons_self
    have hbounds := sameBounds_add l s.name s.nonce s.time
    have hadd := current_add inOrder.accurate inOrder.chronological inOrder.tidy hs
      inOrder.length_le
    have hlater := ih (inOrder.add hs) hfirst hrest
    rw [hadd, hbounds.lifetime, hbounds.capacity] at hlater
    exact hlater

/-- **The list remembers** what the plain list has, as long as time does not run backwards. -/
theorem addAll_remembers (lifetime : Millis) (capacity : Nat) {stamps : List Stamp}
    (hsorted : stamps.Pairwise fun s s' => s.time ≤ s'.time) :
    let l := addAll stamps { lifetime, capacity }
    let remembered := stamps.foldl (remember lifetime capacity) []
    (∀ n c t, l.Has n c t ↔ ∃ s ∈ remembered, s.pair = (n, c) ∧ t - s.time < lifetime) ∧
      l.size = remembered.length ∧ remembered.length ≤ capacity := by
  obtain ⟨⟨t', inOrder⟩, hcurrent⟩ := current_addAll (inOrder_empty lifetime capacity)
    (fun _ _ => Nat.zero_le _) hsorted
  have hbounds := sameBounds_addAll stamps { lifetime, capacity }
  refine ⟨?_, ?_, ?_⟩
  · intro n c t
    change _ ↔ ∃ s ∈ stamps.foldl _ (current { lifetime, capacity }), _
    rw [← hcurrent, Has, hbounds.lifetime]
    simp only [mem_current inOrder.accurate]
    constructor
    · rintro ⟨time, htime, hfresh⟩
      exact ⟨⟨time, n, c⟩, htime, rfl, hfresh⟩
    · rintro ⟨s, hs, hpair, hfresh⟩
      exact ⟨s.time, addedAt?_of_isCurrent hs hpair, hfresh⟩
  · rw [size_eq_length_current inOrder.accurate inOrder.tidy, hcurrent]
    rfl
  · have hle := inOrder.length_le
    rw [hcurrent, hbounds.capacity] at hle
    exact hle

/-- Three nonces of a name, the first of which is added again before the third. -/
def addedAgain : List Stamp :=
  [⟨0, ⟨[.ofChars ['a']]⟩, 1⟩, ⟨1, ⟨[.ofChars ['a']]⟩, 2⟩, ⟨3, ⟨[.ofChars ['a']]⟩, 1⟩,
    ⟨4, ⟨[.ofChars ['a']]⟩, 3⟩]

/-- A list with room for two keeps the nonce that was added again, and not the second one. -/
theorem addedAgain_remembered :
    (addedAgain.Pairwise fun s s' => s.time ≤ s'.time) ∧
      (∀ n c t, (addAll addedAgain { lifetime := 10, capacity := 2 }).Has n c t ↔
        ∃ s ∈ ([⟨3, ⟨[.ofChars ['a']]⟩, 1⟩, ⟨4, ⟨[.ofChars ['a']]⟩, 3⟩] : List Stamp),
          s.pair = (n, c) ∧ t - s.time < 10) ∧
      (addAll addedAgain { lifetime := 10, capacity := 2 }).size = 2 := by
  have hsorted : addedAgain.Pairwise fun s s' => s.time ≤ s'.time := by decide
  have hremembered : addedAgain.foldl (remember 10 2) [] =
      [⟨3, ⟨[.ofChars ['a']]⟩, 1⟩, ⟨4, ⟨[.ofChars ['a']]⟩, 3⟩] := by decide +kernel
  have hall := addAll_remembers 10 2 hsorted
  rw [hremembered] at hall
  exact ⟨hsorted, hall.1, hall.2.1⟩

end NamedData.DeadNonceList
