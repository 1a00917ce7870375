import NamedData.ContentStore
import NamedData.Proofs.SortedMap

/-!
# The queues of the content store

Every stored packet has one place in one of the two queues, and every place in a queue is that of
a stored packet. Removing a packet removes its place and no other, and a packet that is stored
gets the last place of its queue.

## Main definitions

* `ContentStore.queue`, one of the two queues
* `ContentStore.Sound`, the packets and the places belong together

## Main statements

* `Sound.erase`, `Sound.put`
* `Sound.toList_queue_erase`, `Sound.toList_queue_put`, what becomes of a queue
* `Sound.size_eq`, there are as many places as packets
-/
namespace NamedData.ContentStore

variable {cs : ContentStore} {n n' : Name} {e : Entry} {mark : Bool} {seq : Nat} {p : Place}

/-- The queue of the Data that nobody asked for, or of the Data that was asked for. -/
def queue (cs : ContentStore) (unsolicited : Bool) : SortedMap Nat Name :=
  if unsolicited then cs.unsolicited else cs.solicited

/-- A packet has a place in one queue, which is that for its kind, under the number of its last
use. -/
structure Sound (cs : ContentStore) : Prop where
  queue_iff : ∀ {mark seq n}, (cs.queue mark).get? seq = some n ↔
    ∃ e, cs.entries.get? n = some e ∧ e.unsolicited = mark ∧ e.seq = seq
  /-- Uses are numbered. -/
  seq_lt : ∀ {n e}, cs.entries.get? n = some e → e.seq < cs.nextSeq

theorem sound_withCapacity (capacity : Nat) : (withCapacity capacity).Sound where
  queue_iff {mark seq n} := by
    cases mark <;> simp [queue, withCapacity]
  seq_lt := nofun

/-! ## Removing and storing -/

theorem queue_dequeue (cs : ContentStore) (seq : Nat) (unsolicited mark : Bool) :
    (cs.dequeue seq unsolicited).queue mark =
      if mark = unsolicited then (cs.queue mark).erase seq else cs.queue mark := by
  cases unsolicited <;> cases mark <;> rfl

theorem queue_enqueue (cs : ContentStore) (seq : Nat) (unsolicited : Bool) (n : Name)
    (mark : Bool) : (cs.enqueue seq unsolicited n).queue mark =
      if mark = unsolicited then (cs.queue mark).insert seq n else cs.queue mark := by
  cases unsolicited <;> cases mark <;> rfl

/-- Taking a use out of its queue changes nothing else. -/
theorem release_eq (cs : ContentStore) (n : Name) : ∃ solicited unsolicited,
    cs.release n = { cs with solicited, unsolicited } := by
  unfold release dequeue
  split
  · exact ⟨_, _, rfl⟩
  · split <;> exact ⟨_, _, rfl⟩

@[simp] theorem nextSeq_erase (cs : ContentStore) (n : Name) :
    (cs.erase n).nextSeq = cs.nextSeq := by
  obtain ⟨_, _, hrelease⟩ := release_eq cs n
  rw [erase, hrelease]

@[simp] theorem capacity_erase (cs : ContentStore) (n : Name) :
    (cs.erase n).capacity = cs.capacity := by
  obtain ⟨_, _, hrelease⟩ := release_eq cs n
  rw [erase, hrelease]

@[simp] theorem capacity_put (cs : ContentStore) (n : Name) (e : Entry) :
    (cs.put n e).capacity = cs.capacity := by
  unfold put enqueue
  split <;> rfl

/-- What is stored takes the place of older Data of its name. -/
theorem put_release (cs : ContentStore) (n : Name) (e : Entry) :
    (cs.release n).put n e = (cs.erase n).put n e := by
  obtain ⟨_, _, hrelease⟩ := release_eq cs n
  simp only [put, erase, enqueue, hrelease]
  split <;> simp only [SortedMap.insert_erase]

theorem release_of_get? (hget : cs.entries.get? n = some e) :
    cs.release n = cs.dequeue e.seq e.unsolicited := by
  rw [release, hget]

namespace Sound

/-- A packet with the place of another one is the same. -/
theorem name_eq (sound : cs.Sound) (hget : cs.entries.get? n = some e)
    (hplace : (cs.queue e.unsolicited).get? e.seq = some n') : n' = n := by
  rw [sound.queue_iff.mpr ⟨e, hget, rfl, rfl⟩, Option.some.injEq] at hplace
  exact hplace.symm

/-- Removing a packet removes its place. -/
theorem toList_queue_erase (sound : cs.Sound) (n : Name) (mark : Bool) :
    ((cs.erase n).queue mark).toList = (cs.queue mark).toList.filter fun b => b.2 ≠ n := by
  have hplace : ∀ b ∈ (cs.queue mark).toList,
      ∃ e, cs.entries.get? b.2 = some e ∧ e.unsolicited = mark ∧ e.seq = b.1 :=
    fun b hb => sound.queue_iff.mp (SortedMap.get?_eq_some_iff.mpr hb)
  have hqueue : (cs.erase n).queue mark = (cs.release n).queue mark := by cases mark <;> rfl
  rw [hqueue]
  cases hget : cs.entries.get? n with
  | none =>
    rw [release, hget]
    refine (List.filter_eq_self.mpr fun b hb => decide_eq_true ?_).symm
    rintro rfl
    obtain ⟨e, he, -⟩ := hplace b hb
    rw [hget] at he
    cases he
  | some e =>
    rw [release_of_get? hget, queue_dequeue]
    split
    · next hmark =>
      refine List.filter_congr fun b hb => ?_
      rw [Bool.eq_iff_iff, bne_iff_ne, decide_eq_true_eq, not_iff_not,
        Std.LawfulEqOrd.compare_eq_iff_eq]
      constructor
      · intro hseq
        refine sound.name_eq hget ?_
        rw [← hmark, ← hseq]
        exact SortedMap.get?_eq_some_iff.mpr hb
      · rintro rfl
        obtain ⟨e', he', -, hseq⟩ := hplace b hb
        rw [hget, Option.some.injEq] at he'
        rw [he', hseq]
    · next hmark =>
      refine (List.filter_eq_self.mpr fun b hb => decide_eq_true ?_).symm
      rintro rfl
      obtain ⟨e', he', hmark', -⟩ := hplace b hb
      rw [hget, Option.some.injEq] at he'
      exact hmark (he' ▸ hmark'.symm)

theorem erase (sound : cs.Sound) (n : Name) : (cs.erase n).Sound where
  queue_iff {mark seq n'} := by
    rw [SortedMap.get?_eq_some_iff, sound.toList_queue_erase, List.mem_filter, decide_eq_true_eq,
      ← SortedMap.get?_eq_some_iff, sound.queue_iff]
    simp only [ContentStore.erase, SortedMap.get?_erase]
    by_cases hn : n' = n <;> simp [hn]
  seq_lt {n' e} hget := by
    rw [nextSeq_erase]
    simp only [ContentStore.erase, SortedMap.get?_erase] at hget
    split at hget
    · cases hget
    · exact sound.seq_lt hget

/-- A packet that is stored gets the last place of its queue. -/
theorem toList_queue_put (sound : cs.Sound) (n : Name) (e : Entry) (mark : Bool) :
    ((cs.put n e).queue mark).toList = if mark = e.unsolicited then
      (cs.queue mark).toList ++ [(cs.nextSeq, n)] else (cs.queue mark).toList := by
  have hqueue : (cs.put n e).queue mark = (cs.enqueue cs.nextSeq e.unsolicited n).queue mark := by
    cases mark <;> rfl
  rw [hqueue, queue_enqueue]
  split
  · refine SortedMap.toList_insert_of_lt (fun b hb => ?_) n
    obtain ⟨e', hget, -, hseq⟩ := sound.queue_iff.mp (SortedMap.get?_eq_some_iff.mpr hb)
    exact Nat.compare_eq_lt.mpr (hseq ▸ sound.seq_lt hget)
  · rfl

theorem put (sound : cs.Sound) (hnew : cs.entries.get? n = none) (e : Entry) :
    (cs.put n e).Sound where
  queue_iff {mark seq n'} := by
    have hold : (seq, n') ∈ (cs.queue mark).toList ↔
        ∃ e, cs.entries.get? n' = some e ∧ e.unsolicited = mark ∧ e.seq = seq := by
      rw [← SortedMap.get?_eq_some_iff, sound.queue_iff]
    rw [SortedMap.get?_eq_some_iff, sound.toList_queue_put]
    simp only [ContentStore.put, SortedMap.get?_insert]
    by_cases hn : n' = n
    · have hnot : (seq, n) ∉ (cs.queue mark).toList := by
        rw [← hn, hold, hn, hnew]
        simp
      obtain rfl | hmark := eq_or_ne mark e.unsolicited
      · simp [hn, hnot, eq_comm]
      · simp [hn, hnot, hmark, hmark.symm]
    · obtain rfl | hmark := eq_or_ne mark e.unsolicited
      · simp [hn, hold]
      · simp [hn, hold, hmark]
  seq_lt {n' e'} hget := by
    simp only [ContentStore.put, SortedMap.get?_insert] at hget
    split at hget
    · obtain rfl := Option.some.inj hget
      exact Nat.lt_succ_self _
    · exact Nat.lt_succ_of_lt (sound.seq_lt hget)

/-! ## The order of eviction -/

theorem mem_places_iff (sound : cs.Sound) : p ∈ cs.places ↔
    ∃ e, cs.entries.get? p.name = some e ∧ e.unsolicited = p.unsolicited ∧ e.seq = p.seq := by
  rw [← sound.queue_iff, SortedMap.get?_eq_some_iff, places, List.mem_append, List.mem_map,
    List.mem_map]
  obtain ⟨seq, mark, n⟩ := p
  cases mark <;> simp [queue]

/-- A packet has one place. -/
theorem nodup_places (sound : cs.Sound) : (cs.places.map Place.name).Nodup := by
  have hplaces : cs.places.Nodup := by
    have hqueue : ∀ m : SortedMap Nat Name, m.toList.Nodup := fun m => m.nodup_keys.of_map _
    refine List.nodup_append.mpr ⟨(hqueue _).map ?_, (hqueue _).map ?_, ?_⟩
    · exact fun b b' heq => by simpa [Prod.ext_iff] using heq
    · exact fun b b' heq => by simpa [Prod.ext_iff] using heq
    · intro p hp p' hp' heq
      obtain ⟨b, -, rfl⟩ := List.mem_map.mp hp
      obtain ⟨b', -, rfl⟩ := List.mem_map.mp hp'
      simp at heq
  refine hplaces.map_on fun p hp p' hp' hname => ?_
  obtain ⟨e, hget, hmark, hseq⟩ := sound.mem_places_iff.mp hp
  obtain ⟨e', hget', hmark', hseq'⟩ := sound.mem_places_iff.mp hp'
  rw [hname, hget', Option.some.injEq] at hget
  subst hget
  rw [Place.mk.injEq]
  exact ⟨hseq.symm.trans hseq', hmark.symm.trans hmark', hname⟩

theorem size_eq (sound : cs.Sound) : cs.size = cs.places.length := by
  have hperm : cs.entries.keys.Perm (cs.places.map Place.name) := by
    refine (List.perm_ext_iff_of_nodup cs.entries.nodup_keys sound.nodup_places).mpr fun n => ?_
    rw [SortedMap.mem_keys_iff, List.mem_map]
    constructor
    · rintro ⟨e, hget⟩
      exact ⟨⟨e.seq, e.unsolicited, n⟩, sound.mem_places_iff.mpr ⟨e, hget, rfl, rfl⟩, rfl⟩
    · rintro ⟨p, hp, rfl⟩
      obtain ⟨e, hget, -⟩ := sound.mem_places_iff.mp hp
      exact ⟨e, hget⟩
  have hlength := hperm.length_eq
  rw [SortedMap.keys, List.length_map, List.length_map] at hlength
  exact hlength

/-- Giving up a place removes the packet that is there. -/
theorem drop_eq (sound : cs.Sound) (hp : p ∈ cs.places) : cs.drop p = cs.erase p.name := by
  obtain ⟨e, hget, hmark, hseq⟩ := sound.mem_places_iff.mp hp
  rw [drop, ContentStore.erase, release_of_get? hget, hmark, hseq]

theorem places_erase (sound : cs.Sound) (n : Name) :
    (cs.erase n).places = cs.places.filter fun p => p.name ≠ n := by
  have htrue := sound.toList_queue_erase n true
  have hfalse := sound.toList_queue_erase n false
  simp only [queue, if_true, Bool.false_eq_true, if_false] at htrue hfalse
  simp only [places, htrue, hfalse, List.filter_append, List.filter_map, Function.comp_def]

/-- The places behind the first one are left when it is given up. -/
theorem places_drop (sound : cs.Sound) {rest : List Place} (hplaces : cs.places = p :: rest) :
    (cs.drop p).places = rest := by
  have hnodup := sound.nodup_places
  rw [hplaces, List.map_cons, List.nodup_cons] at hnodup
  rw [sound.drop_eq (hplaces ▸ List.mem_cons_self), sound.places_erase, hplaces,
    List.filter_cons_of_neg (by simp), List.filter_eq_self]
  intro p' hp'
  rw [decide_eq_true_eq]
  exact fun heq => hnodup.1 (heq ▸ List.mem_map_of_mem hp')

end Sound

end NamedData.ContentStore
