import NamedData.Proofs.ContentStore.Replacement

/-!
# What a lookup answers

A content store is asked by name, by prefix and by freshness, and each use of a packet moves it
to the end of its queue. Seen from outside there is one rule. The packets that are stored are
those that were stored last under their names, the answer is the one of the smallest name among
those that may answer, and a lookup leaves everything as it was but for the order in which
packets are given up.

## Main definitions

* `ContentStore.lastStored?`, what was stored last under a name, read off the calls
* `ContentStore.Holds`, a packet is stored
* `ContentStore.SameContents`, two stores differ in the order of replacement only
* `ContentStore.AnswersLeast`

## Main statements

* `ContentStore.holds_iff_mem`
* `ContentStore.Mirrors.sameContents_find`
* `ContentStore.answersLeast_after`
-/
namespace NamedData

namespace RecencyLists

variable {r : RecencyLists} {k k' : Kept} {mark : Bool}

theorem mem_of_mem_dropOldest (hk : k ∈ r.dropOldest.all) : k ∈ r.all := by
  obtain ⟨_ | ⟨k₁, rest⟩, _ | ⟨k₂, rest'⟩, capacity⟩ := r <;>
    simp only [dropOldest, all, List.nil_append, List.append_nil] at hk ⊢
  · exact hk
  · exact List.mem_cons_of_mem _ hk
  · exact List.mem_cons_of_mem _ hk
  · exact List.mem_cons_of_mem _ hk

theorem mem_of_mem_dropExcess (hk : k ∈ r.dropExcess.all) : k ∈ r.all :=
  (dropExcess_induction (P := fun r' => ∀ k ∈ r'.all, k ∈ r.all)
    (fun _ _ h _ hk => h _ (mem_of_mem_dropOldest hk)) fun _ hk => hk).1 k hk

theorem mem_erase_iff {n : Name} : k ∈ (r.erase n).all ↔ k ∈ r.all ∧ k.name ≠ n := by
  simp only [all, erase, List.mem_append, List.mem_filter, decide_eq_true_eq, or_and_right]

theorem mem_put_iff : k' ∈ (r.put k mark).all ↔ k' = k ∨ k' ∈ r.all ∧ k'.name ≠ k.name := by
  have happend : k' ∈ (r.put k mark).all ↔ k' = k ∨ k' ∈ (r.erase k.name).all := by
    cases mark <;> simp [put, append, all, or_comm, or_left_comm]
  rw [happend, mem_erase_iff]

end RecencyLists

namespace ContentStore

variable {cs cs' : ContentStore} {r : RecencyLists} {k k' : Kept} {n : Name} {e : Entry}
  {i : Interest} {now : Instant} {capacity : Nat} {calls : List Call} {c : Call}

/-! ## What is stored -/

/-- What the call stores under `n`, if there may be anything stored. -/
def Call.stored? (n : Name) : Call → Option Kept
  | .insert d _ now => if d.name = n then some ⟨d, now⟩ else none
  | .find .. | .erase _ | .setCapacity _ => none

/-- What was stored last under `n` in the calls, and when. It may be gone. -/
def lastStored? (calls : List Call) (n : Name) : Option Kept :=
  calls.reverse.findSome? (·.stored? n)

theorem lastStored?_concat (calls : List Call) (c : Call) (n : Name) :
    lastStored? (calls ++ [c]) n = (c.stored? n).or (lastStored? calls n) := by
  rw [lastStored?, List.reverse_append, List.reverse_singleton, List.singleton_append,
    List.findSome?_cons]
  cases c.stored? n <;> rfl

/-- What is in the lists after a call was stored by it, or was in them before and the call stores
nothing under its name. -/
theorem Call.mem_all_onLists (hwithin : r.Within) (hk : k ∈ (c.onLists r).2.all) :
    c.stored? k.name = some k ∨ c.stored? k.name = none ∧ k ∈ r.all := by
  cases c with
  | insert d unsolicited now =>
    simp only [onLists, RecencyLists.insert] at hk
    split at hk
    · next hzero =>
      -- nothing is in lists without a capacity
      rw [RecencyLists.Within, hzero, Nat.le_zero, List.length_eq_zero_iff] at hwithin
      rw [hwithin] at hk
      cases hk
    · rcases RecencyLists.mem_put_iff.mp (RecencyLists.mem_of_mem_dropExcess hk) with
        rfl | ⟨hold, hne⟩
      · exact .inl (if_pos rfl)
      · exact .inr ⟨if_neg (Ne.symm hne), hold⟩
  | find i now =>
    refine .inr ⟨rfl, ?_⟩
    simp only [onLists, RecencyLists.find] at hk
    split at hk
    · exact hk
    · next k' hanswer =>
      rcases RecencyLists.mem_put_iff.mp hk with rfl | ⟨hold, _⟩
      · exact List.mem_of_find?_eq_some hanswer
      · exact hold
  | erase n => exact .inr ⟨rfl, (RecencyLists.mem_erase_iff.mp hk).1⟩
  | setCapacity capacity =>
    have hold : k ∈ { r with capacity }.all := RecencyLists.mem_of_mem_dropExcess hk
    exact .inr ⟨rfl, hold⟩

/-- What is in the lists was stored last under its name. -/
theorem lastStored?_of_mem (hk : k ∈ (listsAfter capacity calls).all) :
    lastStored? calls k.name = some k := by
  induction calls using List.reverseRecOn generalizing k with
  | nil => cases hk
  | append_singleton calls c ih =>
    rw [listsAfter, replay_concat] at hk
    rw [lastStored?_concat]
    rcases Call.mem_all_onLists (replay_mirrors capacity calls).2.2 hk with hnew | ⟨hnone, hold⟩
    · rw [hnew, Option.some_or]
    · rw [hnone, Option.none_or, ih hold]

/-- After the calls something is stored under the name of `k`, and `k` was stored last under it. -/
def Holds (capacity : Nat) (calls : List Call) (k : Kept) : Prop :=
  (after capacity calls).contains k.name = true ∧ lastStored? calls k.name = some k

theorem holds_iff_mem : Holds capacity calls k ↔ k ∈ (listsAfter capacity calls).all := by
  have m := (replay_mirrors capacity calls).2.1
  rw [Holds, m.contains_iff]
  constructor
  · rintro ⟨⟨k', hk', hname⟩, hlast⟩
    rw [← hname, lastStored?_of_mem hk', Option.some.injEq] at hlast
    exact hlast ▸ hk'
  · exact fun hk => ⟨⟨k, hk, rfl⟩, lastStored?_of_mem hk⟩

/-! ## The order of replacement -/

/-- The stores have the same capacity, the same packets with the same marks, and in each queue
the same names. The numbers of the uses may differ, and with them the order of the queues. -/
structure SameContents (cs cs' : ContentStore) : Prop where
  capacity_eq : cs'.capacity = cs.capacity
  entries_none : ∀ n, cs.entries.get? n = none → cs'.entries.get? n = none
  entries_some : ∀ n e, cs.entries.get? n = some e →
    ∃ seq, cs'.entries.get? n = some { e with seq }
  queue_perm : ∀ mark, ((cs'.queue mark).toList.map Prod.snd).Perm
    ((cs.queue mark).toList.map Prod.snd)

theorem SameContents.refl (cs : ContentStore) : SameContents cs cs where
  capacity_eq := rfl
  entries_none _ hget := hget
  entries_some _ e hget := ⟨e.seq, hget⟩
  queue_perm _ := .refl _

namespace Sound

theorem mem_names_iff (sound : cs.Sound) {mark : Bool} :
    n ∈ (cs.queue mark).toList.map Prod.snd ↔
      ∃ e, cs.entries.get? n = some e ∧ e.unsolicited = mark := by
  rw [List.mem_map]
  constructor
  · rintro ⟨⟨seq, n⟩, hplace, rfl⟩
    obtain ⟨e, hget, hmark, _⟩ := sound.queue_iff.mp (SortedMap.get?_eq_some_iff.mpr hplace)
    exact ⟨e, hget, hmark⟩
  · rintro ⟨e, hget, hmark⟩
    have hplace := sound.queue_iff.mpr ⟨e, hget, hmark, rfl⟩
    exact ⟨(e.seq, n), SortedMap.get?_eq_some_iff.mp hplace, rfl⟩

theorem nodup_names (sound : cs.Sound) (mark : Bool) :
    ((cs.queue mark).toList.map Prod.snd).Nodup := by
  have hpairs : (cs.queue mark).toList.Nodup := (cs.queue mark).nodup_keys.of_map _
  refine hpairs.map_on fun b hb b' hb' hname => ?_
  obtain ⟨e, hget, _, hseq⟩ := sound.queue_iff.mp (SortedMap.get?_eq_some_iff.mpr hb)
  obtain ⟨e', hget', _, hseq'⟩ := sound.queue_iff.mp (SortedMap.get?_eq_some_iff.mpr hb')
  rw [hname, hget', Option.some.injEq] at hget
  exact Prod.ext (by rw [← hseq, ← hseq', hget]) hname

/-- The queues have the same names if the packets have the same marks. -/
theorem queue_perm (sound : cs.Sound) (sound' : cs'.Sound)
    (hmarks : ∀ n, (cs'.entries.get? n).map Entry.unsolicited =
      (cs.entries.get? n).map Entry.unsolicited) (mark : Bool) :
    ((cs'.queue mark).toList.map Prod.snd).Perm ((cs.queue mark).toList.map Prod.snd) := by
  refine (List.perm_ext_iff_of_nodup (sound'.nodup_names mark) (sound.nodup_names mark)).mpr ?_
  intro n
  rw [sound'.mem_names_iff, sound.mem_names_iff]
  simp only [← Option.map_eq_some_iff, hmarks]

end Sound

theorem get?_touch (hget : cs.entries.get? n = some e) (n' : Name) :
    (cs.touch n).entries.get? n' =
      if n' = n then some { e with seq := cs.nextSeq } else cs.entries.get? n' := by
  have htouch : cs.touch n = (cs.erase n).put n e := by rw [touch, hget, ← put_release]
  rw [htouch, put, nextSeq_erase]
  simp only [SortedMap.get?_insert]
  split
  · rfl
  · next hne => simp only [erase, SortedMap.get?_erase, if_neg hne]

theorem capacity_touch (hget : cs.entries.get? n = some e) :
    (cs.touch n).capacity = cs.capacity := by
  rw [touch, hget]
  simp only [put_release, capacity_put, capacity_erase]

/-- **A lookup** changes nothing but the order of replacement. -/
theorem Mirrors.sameContents_find (m : cs.Mirrors r) (i : Interest) (now : Instant) :
    SameContents cs (cs.find i now).2 := by
  have m' := (m.find i now).2
  unfold ContentStore.find at m' ⊢
  cases hlookup : cs.lookup i now with
  | none => exact .refl cs
  | some e =>
    rw [hlookup] at m'
    obtain ⟨hget, _⟩ := of_lookup m.name_eq hlookup
    constructor
    case capacity_eq => exact capacity_touch hget
    case entries_none =>
      intro n hnone
      have hne : n ≠ e.data.name := by
        rintro rfl
        rw [hget] at hnone
        cases hnone
      exact (get?_touch hget n).trans ((if_neg hne).trans hnone)
    case entries_some =>
      intro n e' hget'
      by_cases heq : n = e.data.name
      · rw [heq, hget, Option.some.injEq] at hget'
        exact ⟨cs.nextSeq, by rw [get?_touch hget, if_pos heq, hget']⟩
      · exact ⟨e'.seq, by rw [get?_touch hget, if_neg heq, hget']⟩
    case queue_perm =>
      refine m.sound.queue_perm m'.sound fun n => ?_
      rw [get?_touch hget]
      split
      · next heq => rw [heq, hget]; rfl
      · rfl

/-! ## What is found -/

theorem Mirrors.find_eq (m : cs.Mirrors r) (i : Interest) (now : Instant) :
    (cs.find i now).1 = (r.answer? i now).map Kept.data := by
  rw [(m.find i now).1, RecencyLists.find]
  cases r.answer? i now <;> rfl

theorem Mirrors.find_eq_none_iff (m : cs.Mirrors r) :
    (cs.find i now).1 = none ↔ ∀ k ∈ r.all, ¬ k.Answers i now := by
  constructor
  · intro hnone k hk ⟨haccepts, hfresh⟩
    obtain ⟨mark, hk⟩ := RecencyLists.mem_all_iff.mp hk
    obtain ⟨seq, hget⟩ := m.exists_entry hk
    have hfound := isSome_find hget haccepts ((k.serves_entry mark seq i now).mpr hfresh)
    rw [hnone] at hfound
    cases hfound
  · intro hnot
    rw [m.find_eq, Option.map_eq_none_iff, Option.eq_none_iff_forall_ne_some]
    intro k hanswer
    obtain ⟨hk, hanswers, _⟩ := (r.answer?_eq_some_iff m.nodup).mp hanswer
    exact hnot k hk hanswers

theorem find_of_eq_none (hnone : (cs.find i now).1 = none) : (cs.find i now).2 = cs := by
  unfold ContentStore.find at hnone ⊢
  cases hlookup : cs.lookup i now with
  | none => rfl
  | some e =>
    rw [hlookup] at hnone
    cases hnone

/-- What a lookup for `i` at `now` answers after the calls, and what it leaves behind. -/
structure AnswersLeast (capacity : Nat) (calls : List Call) (i : Interest) (now : Instant) :
    Prop where
  /-- What is stored under a name was stored last under it. -/
  entry_eq : ∀ n e, (after capacity calls).entries.get? n = some e →
    ∃ k, lastStored? calls n = some k ∧ e = k.entry e.unsolicited e.seq
  /-- Nothing is found exactly when nothing that is stored may answer. -/
  find_eq_none_iff : ((after capacity calls).find i now).1 = none ↔
    ∀ k, Holds capacity calls k → ¬ k.Answers i now
  /-- What is found is stored and may answer, and nothing of a smaller name is and may. -/
  find_eq_some_iff : ∀ d, ((after capacity calls).find i now).1 = some d ↔
    ∃ k, Holds capacity calls k ∧ k.data = d ∧ k.Answers i now ∧
      ∀ k', Holds capacity calls k' → k'.Answers i now → (compare k.name k'.name).isLE = true
  /-- Without an answer the store stays as it is. -/
  unchanged_of_none : ((after capacity calls).find i now).1 = none →
    ((after capacity calls).find i now).2 = after capacity calls
  /-- With an answer only the order of replacement changes. -/
  sameContents : SameContents (after capacity calls) ((after capacity calls).find i now).2

/-- **A lookup answers** with the stored Data of the smallest name that may answer, whatever the
store was asked before, and leaves the store as it was but for the order of replacement. -/
theorem answersLeast_after (capacity : Nat) (calls : List Call) (i : Interest) (now : Instant) :
    AnswersLeast capacity calls i now := by
  have m := (replay_mirrors capacity calls).2.1
  constructor
  case entry_eq =>
    intro n e hget
    obtain ⟨k, hk, rfl, hentry⟩ := m.exists_kept hget
    exact ⟨k, lastStored?_of_mem (RecencyLists.mem_all_iff.mpr ⟨_, hk⟩), hentry⟩
  case find_eq_none_iff => simpa only [holds_iff_mem] using m.find_eq_none_iff
  case find_eq_some_iff =>
    intro d
    rw [m.find_eq, Option.map_eq_some_iff]
    simp only [RecencyLists.answer?_eq_some_iff m.nodup, holds_iff_mem]
    constructor
    · rintro ⟨k, ⟨hk, hanswers, hleast⟩, rfl⟩
      exact ⟨k, hk, rfl, hanswers, hleast⟩
    · rintro ⟨k, hk, rfl, hanswers, hleast⟩
      exact ⟨k, ⟨hk, hanswers, hleast⟩, rfl⟩
  case unchanged_of_none => exact find_of_eq_none
  case sameContents => exact m.sameContents_find i now

end ContentStore

end NamedData
