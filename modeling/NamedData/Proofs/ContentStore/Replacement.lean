import NamedData.Proofs.ContentStore.Lookup
import NamedData.Proofs.ContentStore.Queues
import NamedData.Proofs.ContentStore.RecencyLists
import NamedData.Proofs.Replay

/-!
# The content store as two lists

A content store is used by a sequence of calls. It gives the same replies as two lists of Data do,
so its entries, marks and queues agree whatever was replaced, used, removed or dropped.

## Main definitions

* `ContentStore.Call`, `ContentStore.Reply`
* `ContentStore.Mirrors`, a store keeps what the lists say
* `ContentStore.KeepsLists`

## Main statements

* `ContentStore.Mirrors.erase`, `ContentStore.Mirrors.put`, `ContentStore.Mirrors.evictExcess`
* `ContentStore.Mirrors.perform`, one call
* `ContentStore.keepsLists`, any sequence of calls
-/
namespace NamedData

namespace ContentStore

variable {cs : ContentStore} {r : RecencyLists} {k : Kept} {n : Name} {e : Entry} {mark : Bool}
  {i : Interest} {d : Data} {now : Instant} {p : Place} {rest : List Place}

/-! ## One call -/

/-- What a content store is asked to do. -/
inductive Call
  | insert (d : Data) (unsolicited : Bool) (now : Instant)
  | find (i : Interest) (now : Instant)
  | erase (n : Name)
  | setCapacity (capacity : Nat)

/-- What it replies. -/
inductive Reply
  | done
  | found (d : Option Data)
  | erased (b : Bool)

namespace Call

/-- The reply of a content store to the call, and the store after it. -/
def perform : Call → ContentStore → Reply × ContentStore
  | .insert d unsolicited now, cs => (.done, cs.insert d unsolicited now)
  | .find i now, cs => (.found (cs.find i now).1, (cs.find i now).2)
  | .erase n, cs => (.erased (cs.contains n), cs.erase n)
  | .setCapacity capacity, cs => (.done, cs.setCapacity capacity)

/-- The reply of two lists to the call, and the lists after it. -/
def onLists : Call → RecencyLists → Reply × RecencyLists
  | .insert d unsolicited now, r => (.done, r.insert d unsolicited now)
  | .find i now, r => (.found (r.find i now).1, (r.find i now).2)
  | .erase n, r => (.erased (r.all.any (·.name = n)), r.erase n)
  | .setCapacity capacity, r => (.done, r.setCapacity capacity)

end Call

/-- The store is sound, its queues have the names in the lists, and its entries are for the Data
in the lists. -/
structure Mirrors (cs : ContentStore) (r : RecencyLists) : Prop where
  sound : cs.Sound
  capacity_eq : cs.capacity = r.capacity
  names_eq : ∀ mark, (cs.queue mark).toList.map Prod.snd = (r.list mark).map Kept.name
  exists_entry : ∀ {mark k}, k ∈ r.list mark →
    ∃ seq, cs.entries.get? k.name = some (k.entry mark seq)

namespace Mirrors

theorem withCapacity (capacity : Nat) :
    (withCapacity capacity).Mirrors (.withCapacity capacity) where
  sound := sound_withCapacity capacity
  capacity_eq := rfl
  names_eq mark := by cases mark <;> rfl
  exists_entry {mark k} hk := by cases mark <;> cases hk

/-- A stored packet is in the list for its kind. -/
theorem exists_kept (m : cs.Mirrors r) (hget : cs.entries.get? n = some e) :
    ∃ k ∈ r.list e.unsolicited, k.name = n ∧ e = k.entry e.unsolicited e.seq := by
  have hplace := m.sound.queue_iff.mpr ⟨e, hget, rfl, rfl⟩
  have hmem : n ∈ (r.list e.unsolicited).map Kept.name := by
    rw [← m.names_eq]
    exact List.mem_map_of_mem (SortedMap.get?_eq_some_iff.mp hplace)
  obtain ⟨k, hk, rfl⟩ := List.mem_map.mp hmem
  obtain ⟨seq, hentry⟩ := m.exists_entry hk
  rw [hget, Option.some.injEq] at hentry
  exact ⟨k, hk, rfl, by rw [hentry]; rfl⟩

theorem name_eq (m : cs.Mirrors r) (hget : cs.entries.get? n = some e) : e.data.name = n := by
  obtain ⟨k, _, hname, hentry⟩ := m.exists_kept hget
  rw [hentry]
  exact hname

theorem name_places (m : cs.Mirrors r) : cs.places.map Place.name = r.all.map Kept.name := by
  have htrue := m.names_eq true
  have hfalse := m.names_eq false
  simp only [queue, RecencyLists.list, if_true, Bool.false_eq_true, if_false] at htrue hfalse
  rw [RecencyLists.all, List.map_append, ← htrue, ← hfalse]
  simp [places, Function.comp_def]

theorem nodup (m : cs.Mirrors r) : (r.all.map Kept.name).Nodup :=
  m.name_places ▸ m.sound.nodup_places

theorem size_eq (m : cs.Mirrors r) : cs.size = r.all.length := by
  have hlength := congrArg List.length m.name_places
  rw [List.length_map, List.length_map] at hlength
  exact m.sound.size_eq.trans hlength

theorem contains_iff (m : cs.Mirrors r) : cs.contains n = true ↔ ∃ k ∈ r.all, k.name = n := by
  rw [contains, SortedMap.contains_iff]
  constructor
  · rintro ⟨e, hget⟩
    obtain ⟨k, hk, hname, _⟩ := m.exists_kept hget
    exact ⟨k, RecencyLists.mem_all_iff.mpr ⟨_, hk⟩, hname⟩
  · rintro ⟨k, hk, rfl⟩
    obtain ⟨mark, hk⟩ := RecencyLists.mem_all_iff.mp hk
    obtain ⟨seq, hget⟩ := m.exists_entry hk
    exact ⟨_, hget⟩

theorem erase (m : cs.Mirrors r) (n : Name) : (cs.erase n).Mirrors (r.erase n) where
  sound := m.sound.erase n
  capacity_eq := (capacity_erase cs n).trans m.capacity_eq
  names_eq mark := by
    have hnames := congrArg (List.filter (· ≠ n)) (m.names_eq mark)
    rw [List.filter_map, List.filter_map] at hnames
    rw [m.sound.toList_queue_erase, RecencyLists.list_erase]
    exact hnames
  exists_entry {mark k} hk := by
    rw [RecencyLists.list_erase, List.mem_filter, decide_eq_true_eq] at hk
    obtain ⟨seq, hget⟩ := m.exists_entry hk.1
    refine ⟨seq, ?_⟩
    simp only [ContentStore.erase, SortedMap.get?_erase, if_neg hk.2, hget]

/-- Data of a new name goes to the end of a list. -/
theorem append (m : cs.Mirrors r) (hnew : cs.entries.get? k.name = none) (mark : Bool)
    (seq : Nat) : (cs.put k.name (k.entry mark seq)).Mirrors (r.append k mark) where
  sound := m.sound.put hnew _
  capacity_eq := by rw [capacity_put, RecencyLists.capacity_append, m.capacity_eq]
  names_eq mark' := by
    rw [m.sound.toList_queue_put, RecencyLists.list_append]
    obtain rfl | hne := eq_or_ne mark' mark
    · simp [Kept.entry, m.names_eq]
    · simp [Kept.entry, hne, m.names_eq]
  exists_entry {mark' k'} hk' := by
    have hold : k' ∈ r.list mark' ∨ mark' = mark ∧ k' = k := by
      rw [RecencyLists.list_append] at hk'
      split at hk'
      · next heq => simpa [heq] using hk'
      · exact .inl hk'
    simp only [ContentStore.put, SortedMap.get?_insert]
    rcases hold with hold | ⟨rfl, rfl⟩
    · obtain ⟨seq', hget⟩ := m.exists_entry hold
      have hne : k'.name ≠ k.name := by
        intro heq
        rw [heq, hnew] at hget
        cases hget
      exact ⟨seq', by rw [if_neg hne, hget]⟩
    · exact ⟨cs.nextSeq, if_pos rfl⟩

/-- Data goes to the end of a list, in place of what has its name. -/
theorem put (m : cs.Mirrors r) (k : Kept) (mark : Bool) (seq : Nat) :
    ((cs.release k.name).put k.name (k.entry mark seq)).Mirrors (r.put k mark) := by
  rw [put_release]
  refine (m.erase k.name).append ?_ mark seq
  simp [ContentStore.erase]

/-- The packet that is given up first is the first in the lists. -/
theorem drop (m : cs.Mirrors r) (hplaces : cs.places = p :: rest) :
    (cs.drop p).Mirrors r.dropOldest := by
  have hnames := m.name_places
  rw [hplaces, List.map_cons] at hnames
  obtain ⟨k, _, hall, hname, _⟩ := List.map_eq_cons_iff.mp hnames.symm
  rw [m.sound.drop_eq (hplaces ▸ List.mem_cons_self), r.dropOldest_eq_erase m.nodup hall, hname]
  exact m.erase p.name

/-- What is over the capacity is dropped in the same order. -/
theorem evictExcess (m : cs.Mirrors r) : cs.evictExcess.Mirrors r.dropExcess := by
  rw [ContentStore.evictExcess]
  generalize hplaces : cs.places = places
  induction places generalizing cs r with
  | nil =>
    have hsize : r.all.length = 0 := by rw [← m.size_eq, m.sound.size_eq, hplaces]; rfl
    rw [RecencyLists.dropExcess_of_le (hsize ▸ Nat.zero_le _)]
    exact m
  | cons p rest ih =>
    rw [trim]
    split
    · next hle =>
      rw [m.size_eq, m.capacity_eq] at hle
      rwa [RecencyLists.dropExcess_of_le hle]
    · next hlt =>
      rw [m.size_eq, m.capacity_eq, Nat.not_le] at hlt
      rw [RecencyLists.dropExcess_of_lt hlt]
      exact ih (m.drop hplaces) (m.sound.places_drop hplaces)

/-! ## What answers -/

theorem answers_of_serves (m : cs.Mirrors r) (hget : cs.entries.get? n = some e)
    (haccepts : i.Accepts e.data) (hserves : e.Serves i now) :
    ∃ k ∈ r.list e.unsolicited, k.name = n ∧ e = k.entry e.unsolicited e.seq ∧ k.Answers i now := by
  obtain ⟨k, hk, hname, hentry⟩ := m.exists_kept hget
  rw [hentry] at haccepts hserves
  exact ⟨k, hk, hname, hentry, haccepts, (k.serves_entry _ _ _ _).mp hserves⟩

/-- The store finds what answers in the lists. -/
theorem lookup_eq (m : cs.Mirrors r) (hanswer : r.answer? i now = some k) :
    ∃ mark seq, cs.lookup i now = some (k.entry mark seq) ∧ k ∈ r.list mark := by
  obtain ⟨hk, ⟨haccepts, hfresh⟩, hleast⟩ := (r.answer?_eq_some_iff m.nodup).mp hanswer
  obtain ⟨mark, hk⟩ := RecencyLists.mem_all_iff.mp hk
  obtain ⟨seq, hget⟩ := m.exists_entry hk
  have hserves := (k.serves_entry mark seq i now).mpr hfresh
  obtain ⟨e, hlookup⟩ := Option.isSome_iff_exists.mp (isSome_lookup hget haccepts hserves)
  obtain ⟨hget', haccepts', hserves', hleast'⟩ := of_lookup m.name_eq hlookup
  obtain ⟨k', hk', hname', _, hanswers'⟩ := m.answers_of_serves hget' haccepts' hserves'
  have hle := hleast k' (RecencyLists.mem_all_iff.mpr ⟨_, hk'⟩) hanswers'
  have hge := hleast' k.name _ hget haccepts hserves
  rw [hname'] at hle
  have hname := Std.LawfulEqOrd.eq_of_compare (Std.OrientedCmp.isLE_antisymm hge hle)
  rw [hname, hget, Option.some.injEq] at hget'
  exact ⟨mark, seq, hget' ▸ hlookup, hk⟩

theorem lookup_eq_none (m : cs.Mirrors r) (hanswer : r.answer? i now = none) :
    cs.lookup i now = none := by
  rw [Option.eq_none_iff_forall_ne_some]
  intro e hlookup
  obtain ⟨hget, haccepts, hserves, hleast⟩ := of_lookup m.name_eq hlookup
  obtain ⟨k, hk, hname, _, hanswers⟩ := m.answers_of_serves hget haccepts hserves
  have hall := RecencyLists.mem_all_iff.mpr ⟨_, hk⟩
  have hfound : r.answer? i now = some k := by
    refine (r.answer?_eq_some_iff m.nodup).mpr ⟨hall, hanswers, fun k' hk' hanswers' => ?_⟩
    obtain ⟨mark, hk'⟩ := RecencyLists.mem_all_iff.mp hk'
    obtain ⟨seq, hget'⟩ := m.exists_entry hk'
    rw [hname]
    exact hleast k'.name _ hget' hanswers'.1 ((k'.serves_entry _ _ _ _).mpr hanswers'.2)
  rw [hanswer] at hfound
  cases hfound

/-! ## The two kinds -/

/-- A name is in one of the two lists. -/
theorem mark_unique (m : cs.Mirrors r) {k' : Kept} {mark' : Bool} (hk : k ∈ r.list mark)
    (hk' : k' ∈ r.list mark') (hname : k.name = k'.name) : mark = mark' := by
  obtain ⟨seq, hget⟩ := m.exists_entry hk
  obtain ⟨seq', hget'⟩ := m.exists_entry hk'
  rw [hname, hget', Option.some.injEq] at hget
  exact (congrArg Entry.unsolicited hget).symm

theorem mark_of_mem (m : cs.Mirrors r) (hk : k ∈ r.list mark) :
    mark = decide (k ∈ r.unsolicited) := by
  rw [Bool.eq_iff_iff, decide_eq_true_eq]
  constructor
  · rintro rfl
    exact hk
  · intro hk'
    have hk' : k ∈ r.list true := hk'
    exact m.mark_unique hk hk' rfl

/-- Data of a name was asked for if the name is in the list of what was asked for. -/
theorem mark_eq (m : cs.Mirrors r) (n : Name) :
    ((cs.entries.get? n).map Entry.unsolicited).getD true =
      !r.solicited.any (·.name = n) := by
  have hlist : ∀ k ∈ r.solicited, k ∈ r.list false := fun _ hk => hk
  cases hget : cs.entries.get? n with
  | none =>
    have hnot : ∀ k ∈ r.solicited, k.name ≠ n := by
      rintro k hk rfl
      obtain ⟨seq, hentry⟩ := m.exists_entry (hlist k hk)
      rw [hget] at hentry
      cases hentry
    simpa using hnot
  | some e =>
    obtain ⟨k, hk, rfl, _⟩ := m.exists_kept hget
    rw [Option.map_some, Option.getD_some]
    cases hmark : e.unsolicited with
    | true =>
      have hnot : ∀ k' ∈ r.solicited, k'.name ≠ k.name := by
        intro k' hk' hname
        have heq := m.mark_unique hk (hlist k' hk') hname.symm
        rw [hmark] at heq
        cases heq
      simpa using hnot
    | false =>
      rw [hmark] at hk
      have hany : ∃ k' ∈ r.solicited, k'.name = k.name := ⟨k, hk, rfl⟩
      simpa using hany

/-! ## Calls -/

theorem find (m : cs.Mirrors r) (i : Interest) (now : Instant) :
    (cs.find i now).1 = (r.find i now).1 ∧ (cs.find i now).2.Mirrors (r.find i now).2 := by
  unfold ContentStore.find RecencyLists.find
  cases hanswer : r.answer? i now with
  | none =>
    rw [m.lookup_eq_none hanswer]
    exact ⟨rfl, m⟩
  | some k =>
    obtain ⟨mark, seq, hlookup, hk⟩ := m.lookup_eq hanswer
    have hget : cs.entries.get? k.name = some (k.entry mark seq) := (of_lookup m.name_eq hlookup).1
    have htouch : cs.touch k.name = (cs.release k.name).put k.name (k.entry mark seq) := by
      rw [touch, hget]
    rw [hlookup]
    refine ⟨rfl, ?_⟩
    change (cs.touch k.name).Mirrors (r.put k (k ∈ r.unsolicited))
    rw [htouch, ← m.mark_of_mem hk]
    exact m.put k mark seq

theorem insert (m : cs.Mirrors r) (d : Data) (unsolicited : Bool) (now : Instant) :
    (cs.insert d unsolicited now).Mirrors (r.insert d unsolicited now) := by
  unfold ContentStore.insert RecencyLists.insert
  rw [m.capacity_eq]
  split
  · exact m
  · rw [m.mark_eq, Bool.and_comm]
    exact (m.put ⟨d, now⟩ _ _).evictExcess

theorem setCapacity (m : cs.Mirrors r) (capacity : Nat) :
    (cs.setCapacity capacity).Mirrors (r.setCapacity capacity) := by
  have m' : { cs with capacity }.Mirrors { r with capacity } :=
    ⟨⟨m.sound.queue_iff, m.sound.seq_lt⟩, rfl, m.names_eq, m.exists_entry⟩
  exact m'.evictExcess

/-- **One call** gets the same reply from the store and the lists. -/
theorem perform (m : cs.Mirrors r) (c : Call) :
    (c.perform cs).1 = (c.onLists r).1 ∧ (c.perform cs).2.Mirrors (c.onLists r).2 := by
  cases c with
  | insert d unsolicited now => exact ⟨rfl, m.insert d unsolicited now⟩
  | find i now => exact ⟨congrArg Reply.found (m.find i now).1, (m.find i now).2⟩
  | erase n =>
    have hcontains : cs.contains n = r.all.any (·.name = n) := by
      rw [Bool.eq_iff_iff, m.contains_iff, List.any_eq_true]
      simp
    exact ⟨congrArg Reply.erased hcontains, m.erase n⟩
  | setCapacity capacity => exact ⟨rfl, m.setCapacity capacity⟩

end Mirrors

/-! ## Sequences of calls -/

section Calls

variable {capacity : Nat} {calls : List Call}

/-- The store of the capacity, after the calls. -/
def after (capacity : Nat) (calls : List Call) : ContentStore :=
  (replay Call.perform calls (.withCapacity capacity)).2

/-- The lists after the calls. -/
def listsAfter (capacity : Nat) (calls : List Call) : RecencyLists :=
  (replay Call.onLists calls (.withCapacity capacity)).2

theorem Call.within_onLists {r : RecencyLists} (hwithin : r.Within) (c : Call) :
    (c.onLists r).2.Within := by
  cases c with
  | insert d unsolicited now => exact r.within_insert hwithin d unsolicited now
  | find i now => exact r.within_find hwithin i now
  | erase n => exact r.within_erase hwithin n
  | setCapacity capacity => exact RecencyLists.within_dropExcess _

theorem replay_mirrors (capacity : Nat) (calls : List Call) :
    (replay Call.perform calls (.withCapacity capacity)).1 =
        (replay Call.onLists calls (.withCapacity capacity)).1 ∧
      (after capacity calls).Mirrors (listsAfter capacity calls) ∧
      (listsAfter capacity calls).Within := by
  have hstep : ∀ (c : Call) (cs : ContentStore) (r : RecencyLists), cs.Mirrors r ∧ r.Within →
      (c.perform cs).1 = (c.onLists r).1 ∧
        (c.perform cs).2.Mirrors (c.onLists r).2 ∧ (c.onLists r).2.Within :=
    fun c cs r ⟨m, hwithin⟩ => ⟨(m.perform c).1, (m.perform c).2, c.within_onLists hwithin⟩
  exact replay_simulates hstep calls ⟨.withCapacity capacity, Nat.zero_le _⟩

/-- What a content store shows after the calls, and what storing Data then does. -/
structure KeepsLists (capacity : Nat) (calls : List Call) : Prop where
  /-- Two lists give the same replies. -/
  replies_eq : (replay Call.perform calls (.withCapacity capacity)).1 =
    (replay Call.onLists calls (.withCapacity capacity)).1
  capacity_eq : (after capacity calls).capacity = (listsAfter capacity calls).capacity
  size_eq : (after capacity calls).size = (listsAfter capacity calls).all.length
  contains_iff : ∀ n, (after capacity calls).contains n = true ↔
    ∃ k ∈ (listsAfter capacity calls).all, k.name = n
  lookup_eq : ∀ i now, ((after capacity calls).lookup i now).map Entry.data =
    ((listsAfter capacity calls).answer? i now).map Kept.data
  /-- No more is stored than the capacity. -/
  size_le : (after capacity calls).size ≤ (after capacity calls).capacity
  /-- What was asked for stays when Data comes in that nobody asked for. -/
  keeps_solicited : ∀ n e, (after capacity calls).entries.get? n = some e →
    e.unsolicited = false → ∀ d now, ∃ e',
      ((after capacity calls).insert d true now).entries.get? n = some e' ∧
        e'.unsolicited = false ∧ (n ≠ d.name → e'.data = e.data ∧ e'.staleAt = e.staleAt)
  /-- Data that was asked for is stored. -/
  stores_solicited : (after capacity calls).capacity ≠ 0 → ∀ d now, ∃ e,
    ((after capacity calls).insert d false now).entries.get? d.name = some e ∧
      e.data = d ∧ e.unsolicited = false

/-- **A content store keeps two lists**, whatever it is asked in whatever order. -/
theorem keepsLists (capacity : Nat) (calls : List Call) : KeepsLists capacity calls := by
  obtain ⟨hreplies, m, hwithin⟩ := replay_mirrors capacity calls
  constructor
  case replies_eq => exact hreplies
  case capacity_eq => exact m.capacity_eq
  case size_eq => exact m.size_eq
  case contains_iff => exact fun n => m.contains_iff
  case lookup_eq =>
    intro i now
    cases hanswer : (listsAfter capacity calls).answer? i now with
    | none => rw [m.lookup_eq_none hanswer]; rfl
    | some k =>
      obtain ⟨mark, seq, hlookup, _⟩ := m.lookup_eq hanswer
      rw [hlookup]
      rfl
  case size_le =>
    rw [m.size_eq, m.capacity_eq]
    exact hwithin
  case keeps_solicited =>
    intro n e hget hmark d now
    obtain ⟨k, hk, rfl, hentry⟩ := m.exists_kept hget
    rw [hmark] at hk
    obtain ⟨k', hk', hname, hsame⟩ := RecencyLists.mem_solicited_insert hwithin hk d now
    have hlist : k' ∈ ((listsAfter capacity calls).insert d true now).list false := hk'
    obtain ⟨seq, hget'⟩ := (m.insert d true now).exists_entry hlist
    refine ⟨_, hname ▸ hget', rfl, fun hne => ?_⟩
    rw [hsame hne, hentry]
    exact ⟨rfl, rfl⟩
  case stores_solicited =>
    intro hcapacity d now
    rw [m.capacity_eq] at hcapacity
    have hlist : ⟨d, now⟩ ∈ ((listsAfter capacity calls).insert d false now).list false :=
      RecencyLists.mem_solicited_insert_self hcapacity d now
    obtain ⟨seq, hget⟩ := (m.insert d false now).exists_entry hlist
    exact ⟨_, hget, rfl, rfl⟩

end Calls

end ContentStore

end NamedData
