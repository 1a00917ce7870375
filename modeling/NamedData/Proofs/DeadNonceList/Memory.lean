import NamedData.Proofs.DeadNonceList.Operations

/-!
# How long the dead nonce list remembers

A pair stays in the list for its lifetime, unless as many other pairs as the list has room for
are added in that time. It does not matter how often pairs are added again, or how many older
pairs there are.

## Main definitions

* `DeadNonceList.addAll`
* `DeadNonceList.StampedSince`, `DeadNonceList.OthersSince`

## Main statements

* `DeadNonceList.stampedSince_add`, one addition
* `DeadNonceList.has_addAll`, any number of them
-/
namespace NamedData.DeadNonceList

variable {l : DeadNonceList} {s : Stamp} {n : Name} {c : Nonce} {t now : Instant}
  {p : Name × Nonce} {others : Finset (Name × Nonce)}

/-- The list has a stamp of the pair `p` that is not before `t`. -/
def StampedSince (l : DeadNonceList) (p : Name × Nonce) (t : Instant) : Prop :=
  ∃ s, l.IsCurrent s ∧ s.pair = p ∧ t ≤ s.time

/-- The pairs with a stamp not before `t` are `p` and some of `others`. -/
def OthersSince (l : DeadNonceList) (p : Name × Nonce) (t : Instant)
    (others : Finset (Name × Nonce)) : Prop :=
  ∀ s, l.IsCurrent s → t ≤ s.time → s.pair ≠ p → s.pair ∈ others

theorem OthersSince.mono {t' : Instant} (hothers : l.OthersSince p t others) (hle : t ≤ t') :
    l.OthersSince p t' others :=
  fun s hs ht => hothers s hs (Nat.le_trans hle ht)

theorem othersSince_add (hothers : l.OthersSince p t others)
    (hnew : t ≤ s.time → s.pair ≠ p → s.pair ∈ others) :
    (l.add s.name s.nonce s.time).OthersSince p t others := by
  intro s' hs' ht hne
  rcases isCurrent_of_add hs' with rfl | hs'
  · exact hnew ht hne
  · exact hothers s' hs' ht hne

/-- A pair is there once it was added. -/
theorem isCurrent_add_self (acc : l.Accurate) (chron : l.Chronological t) (hle : t ≤ s.time)
    (hfew : others.card < l.capacity) (hothers : l.OthersSince s.pair s.time others) :
    (l.add s.name s.nonce s.time).IsCurrent s := by
  rw [add_eq]
  split
  · next hkept =>
    rcases hkept with hzero | hkept
    · rw [(sameBounds_purge l s.time).capacity] at hzero
      omega
    · exact hkept
  · have hacc := accurate_stamped (accurate_purge acc s.time) s
    have hchron := chronological_stamped
      (chron.of_sublist (queue_purge_sublist l s.time)) hle
    rw [← (sameBounds_purge l s.time).capacity, ← (sameBounds_stamped _ s).capacity] at hfew
    refine isCurrent_trim hacc hchron (isCurrent_stamped.mpr (.inl rfl)) hfew ?_
    intro s' hs' ht hne
    rcases isCurrent_stamped.mp hs' with rfl | ⟨hs', _⟩
    · exact absurd rfl hne
    · exact hothers s' ((isCurrent_purge acc chron).mp hs').1 ht hne

/-- A pair that is not stale stays when another one is added, unless too many are later. -/
theorem isCurrent_add_of_ne (acc : l.Accurate) (chron : l.Chronological t) (hle : t ≤ now)
    (hs : l.IsCurrent s) (hfresh : ¬ l.IsStale now s) (hne : s.pair ≠ (n, c))
    (hfew : others.card < l.capacity) (hothers : l.OthersSince s.pair s.time others)
    (hnew : (n, c) ∈ others) : (l.add n c now).IsCurrent s := by
  have hpurge := (isCurrent_purge acc chron).mpr ⟨hs, hfresh⟩
  rw [add_eq]
  split
  · exact hpurge
  · have hacc := accurate_stamped (accurate_purge acc now) ⟨now, n, c⟩
    have hchron := chronological_stamped (s := ⟨now, n, c⟩)
      (chron.of_sublist (queue_purge_sublist l now)) hle
    rw [← (sameBounds_purge l now).capacity,
      ← (sameBounds_stamped _ ⟨now, n, c⟩).capacity] at hfew
    refine isCurrent_trim hacc hchron (isCurrent_stamped.mpr (.inr ⟨hpurge, hne⟩)) hfew ?_
    intro s' hs' ht hne'
    rcases isCurrent_stamped.mp hs' with rfl | ⟨hs', _⟩
    · exact hnew
    · exact hothers s' ((isCurrent_purge acc chron).mp hs').1 ht hne'

/-- One addition keeps a pair in the list for its lifetime, or brings it in. -/
theorem stampedSince_add (acc : l.Accurate) (chron : l.Chronological now) (hle : now ≤ s.time)
    (hlate : s.time < t + l.lifetime) (hfew : others.card < l.capacity)
    (hothers : l.OthersSince p t others) (hnew : t ≤ s.time → s.pair ≠ p → s.pair ∈ others)
    (hin : l.StampedSince p t ∨ s.pair = p ∧ t ≤ s.time) :
    (l.add s.name s.nonce s.time).StampedSince p t := by
  have hself : s.pair = p → t ≤ s.time → (l.add s.name s.nonce s.time).StampedSince p t := by
    rintro rfl ht
    exact ⟨s, isCurrent_add_self acc chron hle hfew (hothers.mono ht), rfl, ht⟩
  rcases hin with ⟨s', hs', rfl, ht⟩ | ⟨hpair, ht⟩
  · have hbefore : s'.time ≤ s.time := Nat.le_trans (chron.le_now s' (acc.mem_queue hs')) hle
    by_cases hpair : s.pair = s'.pair
    · exact hself hpair (Nat.le_trans ht hbefore)
    · have hfresh : ¬ l.IsStale s.time s' :=
        Nat.not_le.mpr (Nat.sub_lt_left_of_lt_add hbefore
          (Nat.lt_of_lt_of_le hlate (Nat.add_le_add_right ht _)))
      exact ⟨s', isCurrent_add_of_ne acc chron hle hs' hfresh (Ne.symm hpair) hfew
        (hothers.mono ht) (hnew (Nat.le_trans ht hbefore) hpair), rfl, ht⟩
  · exact hself hpair ht

/-- Add one pair after the other, each at its own time. -/
def addAll (stamps : List Stamp) (l : DeadNonceList) : DeadNonceList :=
  stamps.foldl (fun l s => l.add s.name s.nonce s.time) l

theorem addAll_append (stamps stamps' : List Stamp) (l : DeadNonceList) :
    l.addAll (stamps ++ stamps') = (l.addAll stamps).addAll stamps' :=
  List.foldl_append

theorem sameBounds_addAll (stamps : List Stamp) (l : DeadNonceList) :
    SameBounds l (l.addAll stamps) := by
  induction stamps generalizing l with
  | nil => exact ⟨rfl, rfl⟩
  | cons s rest ih => exact (sameBounds_add l _ _ _).trans (ih _)

theorem stampedSince_addAll {stamps : List Stamp} (acc : l.Accurate) (chron : l.Chronological now)
    (hle : ∀ s ∈ stamps, now ≤ s.time) (hsorted : stamps.Pairwise fun s s' => s.time ≤ s'.time)
    (hlate : ∀ s ∈ stamps, s.time < t + l.lifetime) (hfew : others.card < l.capacity)
    (hothers : l.OthersSince p t others)
    (hnew : ∀ s ∈ stamps, t ≤ s.time → s.pair ≠ p → s.pair ∈ others)
    (hin : l.StampedSince p t ∨ ∃ s ∈ stamps, s.pair = p ∧ t ≤ s.time) :
    (l.addAll stamps).StampedSince p t := by
  induction stamps generalizing l now with
  | nil => exact hin.resolve_right (by simp)
  | cons s rest ih =>
    rw [List.forall_mem_cons] at hle hlate hnew
    obtain ⟨hfirst, hrest⟩ := List.pairwise_cons.mp hsorted
    refine ih (accurate_add acc _ _ _) (chronological_add chron hle.1 _ _) hfirst hrest ?_ ?_
      (othersSince_add hothers hnew.1) hnew.2 ?_
    · rw [(sameBounds_add _ _ _ _).lifetime]
      exact hlate.2
    · rw [(sameBounds_add _ _ _ _).capacity]
      exact hfew
    · by_cases hin' : l.StampedSince p t ∨ s.pair = p ∧ t ≤ s.time
      · exact .inl (stampedSince_add acc chron hle.1 hlate.1 hfew hothers hnew.1 hin')
      · rw [not_or] at hin'
        obtain ⟨s', hmem, hs'⟩ := hin.resolve_left hin'.1
        rcases List.mem_cons.mp hmem with rfl | hmem
        · exact absurd hs' hin'.2
        · exact .inr ⟨s', hmem, hs'⟩

theorem accurate_of_isEmpty (lifetime : Millis) (capacity : Nat) :
    Accurate { lifetime, capacity } where
  counted := rfl
  mem_queue h := by cases h

/-- **A pair that is added stays for its lifetime** in a list that was empty at first, if fewer
other pairs than the capacity are added from then on. -/
theorem has_addAll {lifetime : Millis} {capacity : Nat} {stamps : List Stamp}
    (hsorted : stamps.Pairwise fun s s' => s.time ≤ s'.time) (hmem : s ∈ stamps)
    (hend : ∀ s' ∈ stamps, s'.time ≤ now) (hlate : now < s.time + lifetime)
    (hfew : others.card < capacity)
    (hnew : ∀ s' ∈ stamps, s.time ≤ s'.time → s'.pair ≠ s.pair → s'.pair ∈ others) :
    (addAll stamps { lifetime, capacity }).Has s.name s.nonce now := by
  have hsince : (addAll stamps { lifetime, capacity }).StampedSince s.pair s.time := by
    have hchron : Chronological { lifetime, capacity } 0 := ⟨.nil, List.forall_mem_nil _⟩
    refine stampedSince_addAll (accurate_of_isEmpty lifetime capacity) hchron
      (fun _ _ => Nat.zero_le _) hsorted ?_ hfew ?_ hnew (.inr ⟨s, hmem, rfl, Nat.le_refl _⟩)
    · exact fun s' hs' => Nat.lt_of_le_of_lt (hend s' hs') hlate
    · intro s' hs'
      cases hs'
  obtain ⟨s', hs', hpair, ht⟩ := hsince
  refine ⟨s'.time, addedAt?_of_isCurrent hs' hpair, ?_⟩
  rw [(sameBounds_addAll _ _).lifetime]
  exact Nat.lt_of_le_of_lt (Nat.sub_le_sub_left ht now)
    (Nat.sub_lt_left_of_lt_add (hend s hmem) hlate)

end NamedData.DeadNonceList
