import NamedData.DeadNonceList
import NamedData.Proofs.SortedMap
import Mathlib.Data.Finset.Card
import Mathlib.Data.List.TakeWhile

/-!
# The operations of the dead nonce list

The list is seen through its current stamps, of which each pair that it remembers has one. A
list is accurate if its size is the number of pairs and its queue has all current stamps. As long
as time does not run backwards the queue is in the order of time, so that purging takes away the
pairs that are a lifetime old, and trimming those that were added first.

## Main definitions

* `DeadNonceList.pairs`
* `DeadNonceList.Accurate`, `DeadNonceList.Chronological`

## Main statements

* `DeadNonceList.isCurrent_forget`, `DeadNonceList.isCurrent_record`,
  `DeadNonceList.isCurrent_purge`: which stamps are current afterwards
* `DeadNonceList.trim_spec`, `DeadNonceList.isCurrent_trim`
* `DeadNonceList.accurate_add`, `DeadNonceList.chronological_add`
-/
namespace NamedData.DeadNonceList

/-- What was stamped. -/
def Stamp.pair (s : Stamp) : Name × Nonce := (s.name, s.nonce)

/-- The pairs in the index. -/
def pairs (l : DeadNonceList) : Finset (Name × Nonce) :=
  (l.index.toList.flatMap fun b => b.2.keys.map (b.1, ·)).toFinset

variable {l : DeadNonceList} {s s' : Stamp} {n : Name} {c : Nonce} {t now : Instant}

theorem Stamp.eq_of_pair_eq (hp : s.pair = s'.pair) (ht : s.time = s'.time) : s = s' := by
  cases s
  cases s'
  simp only [pair, Prod.mk.injEq] at hp ht
  rw [hp.1, hp.2, ht]

theorem addedAt?_of_isCurrent (h : l.IsCurrent s) (hp : s.pair = (n, c)) :
    l.addedAt? n c = some s.time := by
  obtain ⟨rfl, rfl⟩ := Prod.mk.inj hp
  exact h

theorem IsCurrent.eq (h : l.IsCurrent s) (h' : l.IsCurrent s') (hp : s.pair = s'.pair) :
    s = s' :=
  Stamp.eq_of_pair_eq hp (Option.some.inj ((addedAt?_of_isCurrent h hp).symm.trans h'))

theorem mem_pairs {p : Name × Nonce} : p ∈ l.pairs ↔ ∃ s, l.IsCurrent s ∧ s.pair = p := by
  simp only [pairs, List.mem_toFinset, List.mem_flatMap, List.mem_map, Prod.exists,
    SortedMap.mem_keys_iff, IsCurrent, addedAt?, Option.bind_eq_some_iff,
    SortedMap.get?_eq_some_iff (m := l.index)]
  constructor
  · rintro ⟨n, nonces, hn, c, ⟨t, hc⟩, rfl⟩
    exact ⟨⟨t, n, c⟩, ⟨nonces, hn, hc⟩, rfl⟩
  · rintro ⟨⟨t, n, c⟩, ⟨nonces, hn, hc⟩, rfl⟩
    exact ⟨n, nonces, hn, c, ⟨t, hc⟩, rfl⟩

/-! ## Forgetting and recording -/

theorem forget_of_not_isCurrent (h : ¬ l.IsCurrent s) : l.forget s = l := by
  unfold forget
  split
  · rfl
  · next nonces hn =>
    rw [IsCurrent, addedAt?, hn] at h
    exact if_neg h

/-- A pair that is forgotten is the only one. -/
theorem addedAt?_forget (h : l.IsCurrent s) (n : Name) (c : Nonce) :
    (l.forget s).addedAt? n c =
      if n = s.name ∧ c = s.nonce then none else l.addedAt? n c := by
  obtain ⟨nonces, hn, hc⟩ := Option.bind_eq_some_iff.mp h
  have hindex : (l.forget s).index.get? n =
      if n = s.name then
        if (nonces.erase s.nonce).isEmpty then none else some (nonces.erase s.nonce)
      else l.index.get? n := by
    simp only [forget, hn, hc, if_true]
    split
    · exact SortedMap.get?_erase _ _ _
    · exact SortedMap.get?_insert _ _ _ _
  rw [addedAt?, hindex]
  by_cases hname : n = s.name
  · have hrest : (nonces.erase s.nonce).get? c =
        if c = s.nonce then none else l.addedAt? n c := by
      rw [SortedMap.get?_erase, addedAt?, hname, hn, Option.bind_some]
    simp only [hname, if_true, true_and] at hrest ⊢
    rw [← hrest]
    -- a name without nonces is not kept
    split
    · next hempty => rw [SortedMap.get?_of_isEmpty hempty, Option.bind_none]
    · rfl
  · simp only [hname, if_false, false_and]
    rfl

theorem isCurrent_forget : (l.forget s).IsCurrent s' ↔ l.IsCurrent s' ∧ s' ≠ s := by
  by_cases h : l.IsCurrent s
  · rw [IsCurrent, addedAt?_forget h]
    constructor
    · intro hcurrent
      obtain ⟨hne, hcurrent⟩ := Option.ite_none_left_eq_some.mp hcurrent
      refine ⟨hcurrent, ?_⟩
      rintro rfl
      exact hne ⟨rfl, rfl⟩
    · rintro ⟨hcurrent, hne⟩
      rw [if_neg]
      · exact hcurrent
      · rintro ⟨hname, hnonce⟩
        exact hne (hcurrent.eq h (Prod.ext hname hnonce))
  · rw [forget_of_not_isCurrent h]
    constructor
    · intro hcurrent
      refine ⟨hcurrent, ?_⟩
      rintro rfl
      exact h hcurrent
    · exact And.left

/-- The nonces under a name, of which there may be none. -/
theorem get?_getD_eq_addedAt? (l : DeadNonceList) (n : Name) (c : Nonce) :
    ((l.index.get? n).getD ∅).get? c = l.addedAt? n c := by
  rw [addedAt?]
  cases l.index.get? n <;> rfl

theorem addedAt?_record (l : DeadNonceList) (s : Stamp) (n : Name) (c : Nonce) :
    (l.record s).addedAt? n c =
      if n = s.name ∧ c = s.nonce then some s.time else l.addedAt? n c := by
  simp only [addedAt?, record, SortedMap.get?_insert]
  by_cases hname : n = s.name
  · rw [if_pos hname, Option.bind_some, SortedMap.get?_insert, hname]
    by_cases hnonce : c = s.nonce
    · simp [hnonce]
    · simp only [hnonce, and_false, if_false]
      exact get?_getD_eq_addedAt? l s.name c
  · simp [hname]

theorem isCurrent_record :
    (l.record s).IsCurrent s' ↔ s' = s ∨ l.IsCurrent s' ∧ s'.pair ≠ s.pair := by
  rw [IsCurrent, addedAt?_record]
  by_cases hpair : s'.name = s.name ∧ s'.nonce = s.nonce
  · have hp : s'.pair = s.pair := Prod.ext hpair.1 hpair.2
    rw [if_pos hpair, Option.some.injEq]
    constructor
    · exact fun ht => .inl (Stamp.eq_of_pair_eq hp ht.symm)
    · rintro (rfl | ⟨_, hne⟩)
      · rfl
      · exact absurd hp hne
  · have hne : s'.pair ≠ s.pair := fun hp => hpair (Prod.mk.inj hp)
    rw [if_neg hpair]
    constructor
    · exact fun hcurrent => .inr ⟨hcurrent, hne⟩
    · rintro (rfl | ⟨hcurrent, _⟩)
      · exact absurd rfl hne
      · exact hcurrent

/-! ## The size -/

/-- The size says how many pairs there are. -/
def Counted (l : DeadNonceList) : Prop := l.size = l.pairs.card

theorem counted_forget (hcount : l.Counted) (s : Stamp) : (l.forget s).Counted := by
  by_cases h : l.IsCurrent s
  · have hpairs : (l.forget s).pairs = l.pairs.erase s.pair := by
      ext p
      simp only [mem_pairs, Finset.mem_erase, isCurrent_forget]
      constructor
      · rintro ⟨s', ⟨hs', hne⟩, rfl⟩
        exact ⟨fun hp => hne (hs'.eq h hp), s', hs', rfl⟩
      · rintro ⟨hne, s', hs', rfl⟩
        exact ⟨s', ⟨hs', fun heq => hne (congrArg Stamp.pair heq)⟩, rfl⟩
    have hsize : (l.forget s).size = l.size - 1 := by
      obtain ⟨nonces, hn, hc⟩ := Option.bind_eq_some_iff.mp h
      simp only [forget, hn, hc, if_true]
    rw [Counted, hpairs, Finset.card_erase_of_mem (mem_pairs.mpr ⟨s, h, rfl⟩), hsize, hcount]
  · rw [forget_of_not_isCurrent h]
    exact hcount

theorem counted_record (hcount : l.Counted) (s : Stamp) : (l.record s).Counted := by
  have hpairs : (l.record s).pairs = insert s.pair l.pairs := by
    ext p
    simp only [mem_pairs, Finset.mem_insert, isCurrent_record]
    constructor
    · rintro ⟨s', rfl | ⟨hs', _⟩, rfl⟩
      · exact .inl rfl
      · exact .inr ⟨s', hs', rfl⟩
    · rintro (rfl | ⟨s', hs', rfl⟩)
      · exact ⟨s, .inl rfl, rfl⟩
      · by_cases hp : s'.pair = s.pair
        · exact ⟨s, .inl rfl, hp.symm⟩
        · exact ⟨s', .inr ⟨hs', hp⟩, rfl⟩
  have hcontains : ((l.index.get? s.name).getD ∅).contains s.nonce = true ↔ s.pair ∈ l.pairs := by
    rw [SortedMap.contains, get?_getD_eq_addedAt?, Option.isSome_iff_exists, mem_pairs]
    constructor
    · rintro ⟨t, ht⟩
      exact ⟨⟨t, s.name, s.nonce⟩, ht, rfl⟩
    · rintro ⟨s', hs', hp⟩
      exact ⟨s'.time, addedAt?_of_isCurrent hs' hp⟩
  rw [Counted, hpairs]
  by_cases hmem : s.pair ∈ l.pairs
  · rw [Finset.insert_eq_of_mem hmem, ← hcount]
    exact if_pos (hcontains.mpr hmem)
  · rw [Finset.card_insert_of_notMem hmem, ← hcount]
    exact if_neg (mt hcontains.mp hmem)

/-! ## Forgetting the front of the queue -/

variable {old : List Stamp}

theorem isCurrent_foldl_forget :
    (old.foldl forget l).IsCurrent s ↔ l.IsCurrent s ∧ s ∉ old := by
  induction old generalizing l with
  | nil => simp
  | cons s' rest ih =>
    rw [List.foldl_cons, ih, isCurrent_forget, List.mem_cons, not_or, and_assoc]

theorem counted_foldl_forget (hcount : l.Counted) (old : List Stamp) :
    (old.foldl forget l).Counted := by
  induction old generalizing l with
  | nil => exact hcount
  | cons s rest ih => exact ih (counted_forget hcount s)

/-- Only the index and its size are touched, whatever the queue is. -/
theorem forget_eq (l : DeadNonceList) (s : Stamp) :
    ∃ index size, ∀ queue, { l with queue }.forget s = { l with queue, index, size } := by
  by_cases h : l.IsCurrent s
  · obtain ⟨nonces, hn, hc⟩ := Option.bind_eq_some_iff.mp h
    refine ⟨(l.forget s).index, (l.forget s).size, fun queue => ?_⟩
    simp only [forget, hn, hc, if_true]
  · refine ⟨l.index, l.size, fun queue => ?_⟩
    have h' : ¬ IsCurrent { l with queue } s := h
    exact forget_of_not_isCurrent h'

theorem foldl_forget_eq (old : List Stamp) (l : DeadNonceList) :
    ∃ index size, ∀ queue,
      old.foldl forget { l with queue } = { l with queue, index, size } := by
  induction old generalizing l with
  | nil => exact ⟨_, _, fun _ => rfl⟩
  | cons s rest ih =>
    obtain ⟨index, size, hfirst⟩ := forget_eq l s
    obtain ⟨index', size', hrest⟩ := ih { l with index, size }
    exact ⟨index', size', fun queue => by rw [List.foldl_cons, hfirst, hrest]⟩

theorem foldl_forget_setQueue (old queue : List Stamp) (l : DeadNonceList) :
    old.foldl forget { l with queue } = { old.foldl forget l with queue } := by
  obtain ⟨index, size, heq⟩ := foldl_forget_eq old l
  rw [heq queue, heq l.queue]

/-- The lists have the same lifetime and the same capacity. -/
structure SameBounds (l l' : DeadNonceList) : Prop where
  lifetime : l'.lifetime = l.lifetime
  capacity : l'.capacity = l.capacity

theorem SameBounds.trans {l' l'' : DeadNonceList} (h : SameBounds l l') (h' : SameBounds l' l'') :
    SameBounds l l'' where
  lifetime := h'.lifetime.trans h.lifetime
  capacity := h'.capacity.trans h.capacity

theorem sameBounds_foldl_forget (old : List Stamp) (l : DeadNonceList) :
    SameBounds l (old.foldl forget l) := by
  obtain ⟨index, size, heq⟩ := foldl_forget_eq old l
  rw [heq l.queue]
  exact ⟨rfl, rfl⟩

/-- The size is right, and the queue has the stamp of every pair. -/
structure Accurate (l : DeadNonceList) : Prop where
  counted : l.Counted
  mem_queue : ∀ {s}, l.IsCurrent s → s ∈ l.queue

/-- The queue is in the order of time, and nothing in it is later than `now`. -/
structure Chronological (l : DeadNonceList) (now : Instant) : Prop where
  sorted : l.queue.Pairwise fun s s' => s.time ≤ s'.time
  le_now : ∀ s ∈ l.queue, s.time ≤ now

/-- The front of the queue comes off, with the pairs that have their stamp there. -/
theorem accurate_foldl_forget (acc : l.Accurate) {rest : List Stamp} (hq : l.queue = old ++ rest) :
    ({ old.foldl forget l with queue := rest } : DeadNonceList).Accurate where
  counted := counted_foldl_forget acc.counted old
  mem_queue {s} hs := by
    obtain ⟨hs, hold⟩ := isCurrent_foldl_forget.mp hs
    have hmem := acc.mem_queue hs
    rw [hq] at hmem
    exact (List.mem_append.mp hmem).resolve_left hold

theorem Chronological.of_sublist {l' : DeadNonceList} (chron : l.Chronological now)
    (hsub : l'.queue.Sublist l.queue) : l'.Chronological now where
  sorted := chron.sorted.sublist hsub
  le_now s hs := chron.le_now s (hsub.subset hs)

/-! ## Purging -/

/-- The stamp is a lifetime old. -/
def IsStale (l : DeadNonceList) (now : Instant) (s : Stamp) : Prop := l.lifetime ≤ now - s.time

instance (l : DeadNonceList) (now : Instant) (s : Stamp) : Decidable (l.IsStale now s) :=
  inferInstanceAs (Decidable (_ ≤ _))

theorem purge_eq (l : DeadNonceList) (now : Instant) :
    l.purge now =
      { (l.queue.takeWhile fun s => l.IsStale now s).foldl forget l with
        queue := l.queue.dropWhile fun s => l.IsStale now s } :=
  foldl_forget_setQueue _ _ l

theorem sameBounds_purge (l : DeadNonceList) (now : Instant) : SameBounds l (l.purge now) := by
  rw [purge_eq]
  exact ⟨(sameBounds_foldl_forget _ l).lifetime, (sameBounds_foldl_forget _ l).capacity⟩

theorem accurate_purge (acc : l.Accurate) (now : Instant) : (l.purge now).Accurate := by
  rw [purge_eq]
  exact accurate_foldl_forget acc List.takeWhile_append_dropWhile.symm

theorem queue_purge_sublist (l : DeadNonceList) (now : Instant) :
    (l.purge now).queue.Sublist l.queue := by
  rw [purge_eq]
  exact List.dropWhile_sublist _

/-- What comes before a stale stamp is stale as well, so the front of the queue has all of
them. -/
theorem mem_takeWhile_isStale {queue : List Stamp}
    (hsorted : queue.Pairwise fun s s' => s.time ≤ s'.time) (hmem : s ∈ queue)
    (hstale : l.IsStale now s) : s ∈ queue.takeWhile fun s => l.IsStale now s := by
  induction queue with
  | nil => cases hmem
  | cons first rest ih =>
    obtain ⟨hfirst, hrest⟩ := List.pairwise_cons.mp hsorted
    have hle : first.time ≤ s.time := by
      rcases List.mem_cons.mp hmem with rfl | hmem
      · exact Nat.le_refl _
      · exact hfirst s hmem
    have hstale' : l.IsStale now first := Nat.le_trans hstale (Nat.sub_le_sub_left hle now)
    simp only [List.takeWhile_cons, hstale', decide_true, if_true, List.mem_cons]
    rcases List.mem_cons.mp hmem with rfl | hmem
    · exact .inl rfl
    · exact .inr (ih hrest hmem)

/-- **Purging** takes away the pairs that are a lifetime old. -/
theorem isCurrent_purge (acc : l.Accurate) (chron : l.Chronological t) :
    (l.purge now).IsCurrent s ↔ l.IsCurrent s ∧ ¬ l.IsStale now s := by
  have hpurge : (l.purge now).IsCurrent s ↔
      l.IsCurrent s ∧ s ∉ l.queue.takeWhile fun s => l.IsStale now s := by
    rw [purge_eq]
    exact isCurrent_foldl_forget
  rw [hpurge]
  constructor
  · rintro ⟨hs, hmem⟩
    exact ⟨hs, fun hstale => hmem (mem_takeWhile_isStale chron.sorted (acc.mem_queue hs) hstale)⟩
  · rintro ⟨hs, hfresh⟩
    exact ⟨hs, fun hmem => hfresh (by simpa using List.mem_takeWhile_imp hmem)⟩

/-! ## Trimming -/

/-- **Trimming** takes stamps off the front of the queue for as long as there are too many
pairs. -/
theorem trim_spec (l : DeadNonceList) (queue : List Stamp) :
    ∃ gone kept, queue = gone ++ kept ∧
      l.trim queue = { gone.foldl forget l with queue := kept } ∧
      ∀ before s after, gone = before ++ s :: after →
        l.capacity < (before.foldl forget l).size := by
  induction queue generalizing l with
  | nil =>
    refine ⟨[], [], rfl, rfl, ?_⟩
    intro before s after heq
    cases before <;> cases heq
  | cons s rest ih =>
    rw [trim]
    split
    · refine ⟨[], s :: rest, rfl, rfl, ?_⟩
      intro before s after heq
      cases before <;> cases heq
    · next hover =>
      obtain ⟨gone, kept, rfl, htrim, hsize⟩ := ih (l.forget s)
      have hcapacity : (l.forget s).capacity = l.capacity :=
        (sameBounds_foldl_forget [s] l).capacity
      refine ⟨s :: gone, kept, rfl, htrim, ?_⟩
      intro before s' after heq
      rcases List.cons_eq_append_iff.mp heq with ⟨rfl, _⟩ | ⟨before', rfl, rfl⟩
      · exact Nat.lt_of_not_le hover
      · rw [← hcapacity]
        exact hsize before' s' after rfl

theorem sameBounds_trim (l : DeadNonceList) (queue : List Stamp) :
    SameBounds l (l.trim queue) := by
  obtain ⟨gone, _, _, heq, _⟩ := trim_spec l queue
  rw [heq]
  exact ⟨(sameBounds_foldl_forget gone l).lifetime, (sameBounds_foldl_forget gone l).capacity⟩

theorem accurate_trim (acc : l.Accurate) : (l.trim l.queue).Accurate := by
  obtain ⟨gone, kept, hqueue, heq, _⟩ := trim_spec l l.queue
  rw [heq]
  exact accurate_foldl_forget acc hqueue

theorem queue_trim_sublist (l : DeadNonceList) : (l.trim l.queue).queue.Sublist l.queue := by
  obtain ⟨gone, kept, hqueue, heq, _⟩ := trim_spec l l.queue
  rw [heq, hqueue]
  exact List.sublist_append_right _ _

/-- A pair is not trimmed away if fewer than the capacity were added since. -/
theorem isCurrent_trim (acc : l.Accurate) (chron : l.Chronological now) (hs : l.IsCurrent s)
    {others : Finset (Name × Nonce)} (hfew : others.card < l.capacity)
    (hothers : ∀ s', l.IsCurrent s' → s.time ≤ s'.time → s'.pair ≠ s.pair → s'.pair ∈ others) :
    (l.trim l.queue).IsCurrent s := by
  obtain ⟨gone, kept, hqueue, heq, hsize⟩ := trim_spec l l.queue
  have hgone : (l.trim l.queue).IsCurrent s ↔ l.IsCurrent s ∧ s ∉ gone := by
    rw [heq]
    exact isCurrent_foldl_forget
  refine hgone.mpr ⟨hs, fun hmem => ?_⟩
  obtain ⟨before, after, rfl, hbefore⟩ := List.eq_append_cons_of_mem hmem
  -- when `s` goes, the pairs left are its own and those that were stamped after it
  have hover := hsize before s after rfl
  have hleft : (before.foldl forget l).pairs ⊆ insert s.pair others := by
    intro p hp
    obtain ⟨s', hs', rfl⟩ := mem_pairs.mp hp
    obtain ⟨hs', hnot⟩ := isCurrent_foldl_forget.mp hs'
    rw [Finset.mem_insert]
    by_cases hpair : s'.pair = s.pair
    · exact .inl hpair
    · refine .inr (hothers s' hs' ?_ hpair)
      have hsorted := chron.sorted
      have hmem' := acc.mem_queue hs'
      rw [hqueue, List.append_assoc, List.cons_append] at hsorted hmem'
      have hrest := (List.mem_append.mp hmem').resolve_left hnot
      rcases List.mem_cons.mp hrest with rfl | hrest
      · exact Nat.le_refl _
      · exact (List.pairwise_cons.mp (List.pairwise_append.mp hsorted).2.1).1 s' hrest
  have hcard := Finset.card_le_card hleft
  have hinsert := Finset.card_insert_le s.pair others
  have hcount : (before.foldl forget l).size = _ := counted_foldl_forget acc.counted before
  omega

/-! ## Adding -/

/-- The list with a new stamp, before any are trimmed. -/
def stamped (l : DeadNonceList) (s : Stamp) : DeadNonceList :=
  let l := { l.record s with queue := l.queue ++ [s] }
  if 2 * l.capacity < l.queue.length then l.compact else l

theorem add_eq (l : DeadNonceList) (n : Name) (c : Nonce) (now : Instant) :
    l.add n c now =
      if (l.purge now).capacity = 0 ∨ (l.purge now).addedAt? n c = some now then l.purge now
      else ((l.purge now).stamped ⟨now, n, c⟩).trim ((l.purge now).stamped ⟨now, n, c⟩).queue :=
  rfl

theorem isCurrent_stamped :
    (l.stamped s).IsCurrent s' ↔ s' = s ∨ l.IsCurrent s' ∧ s'.pair ≠ s.pair := by
  have hstamped : (l.stamped s).IsCurrent s' ↔ (l.record s).IsCurrent s' := by
    unfold stamped
    dsimp only
    split
    · rfl
    · rfl
  rw [hstamped, isCurrent_record]

theorem accurate_stamped (acc : l.Accurate) (s : Stamp) : (l.stamped s).Accurate := by
  have happend : Accurate { l.record s with queue := l.queue ++ [s] } := by
    refine ⟨counted_record acc.counted s, ?_⟩
    intro s' hs'
    rw [List.mem_append, List.mem_singleton]
    rcases isCurrent_record.mp hs' with heq | ⟨hs', _⟩
    · exact .inr heq
    · exact .inl (acc.mem_queue hs')
  unfold stamped
  dsimp only
  split
  · refine ⟨happend.counted, ?_⟩
    intro s' hs'
    exact List.mem_filter.mpr ⟨happend.mem_queue hs', decide_eq_true hs'⟩
  · exact happend

theorem chronological_stamped (chron : l.Chronological t) (hle : t ≤ s.time) :
    (l.stamped s).Chronological s.time := by
  have hbefore : ∀ s' ∈ l.queue, s'.time ≤ s.time := fun s' hs' =>
    Nat.le_trans (chron.le_now s' hs') hle
  have happend : Chronological { l.record s with queue := l.queue ++ [s] } s.time := by
    constructor
    · refine List.pairwise_append.mpr ⟨chron.sorted, List.pairwise_singleton _ _, ?_⟩
      intro s' hs' s'' hs''
      rw [List.mem_singleton.mp hs'']
      exact hbefore s' hs'
    · intro s' hs'
      rcases List.mem_append.mp hs' with hs' | hs'
      · exact hbefore s' hs'
      · rw [List.mem_singleton.mp hs']
  unfold stamped
  dsimp only
  split
  · exact happend.of_sublist List.filter_sublist
  · exact happend

theorem sameBounds_stamped (l : DeadNonceList) (s : Stamp) : SameBounds l (l.stamped s) := by
  unfold stamped
  dsimp only
  split
  · exact ⟨rfl, rfl⟩
  · exact ⟨rfl, rfl⟩

theorem sameBounds_add (l : DeadNonceList) (n : Name) (c : Nonce) (now : Instant) :
    SameBounds l (l.add n c now) := by
  have hpurge := sameBounds_purge l now
  rw [add_eq]
  split
  · exact hpurge
  · exact (hpurge.trans (sameBounds_stamped _ _)).trans (sameBounds_trim _ _)

theorem accurate_add (acc : l.Accurate) (n : Name) (c : Nonce) (now : Instant) :
    (l.add n c now).Accurate := by
  rw [add_eq]
  split
  · exact accurate_purge acc now
  · exact accurate_trim (accurate_stamped (accurate_purge acc now) _)

theorem chronological_add (chron : l.Chronological t) (hle : t ≤ now) (n : Name) (c : Nonce) :
    (l.add n c now).Chronological now := by
  have hpurge := chron.of_sublist (queue_purge_sublist l now)
  rw [add_eq]
  split
  · exact ⟨hpurge.sorted, fun s hs => Nat.le_trans (hpurge.le_now s hs) hle⟩
  · exact (chronological_stamped hpurge hle).of_sublist (queue_trim_sublist _)

/-- A current stamp is the new one, or it was current before. -/
theorem isCurrent_of_add (hs : (l.add n c now).IsCurrent s) :
    s = ⟨now, n, c⟩ ∨ l.IsCurrent s := by
  have hpurge : (l.purge now).IsCurrent s → l.IsCurrent s := by
    rw [purge_eq]
    exact fun hs => (isCurrent_foldl_forget.mp hs).1
  rw [add_eq] at hs
  split at hs
  · exact .inr (hpurge hs)
  · obtain ⟨gone, _, _, heq, _⟩ := trim_spec ((l.purge now).stamped ⟨now, n, c⟩)
      ((l.purge now).stamped ⟨now, n, c⟩).queue
    rw [heq] at hs
    rcases isCurrent_stamped.mp (isCurrent_foldl_forget.mp hs).1 with hs | ⟨hs, _⟩
    · exact .inl hs
    · exact .inr (hpurge hs)

end NamedData.DeadNonceList
