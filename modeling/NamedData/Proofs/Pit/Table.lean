import NamedData.Pit.Table
import NamedData.Proofs.Name.Index

/-!
# The pending Interest table as a map from handles to entries

A table is seen through two functions: `get?` from handles to entries and `find?` from
names to handles. Each operation is described by what it does to them. In a well-formed
table the two agree, so a name has at most one entry, and a slot that is free is empty.

## Main definitions

* `Pit.WellFormed`, with `wellFormed_modify`, `wellFormed_erase` and `Created.wellFormed`
* `Pit.Created`, what `insert` does for a name without an entry

The main statement is `mem_dataMatches`: Data finds exactly the entries whose Interest
accepts it.
-/
namespace NamedData.Pit

variable {pit pit' : Pit} {h h' : Handle} {e e' : Entry} {f : Entry → Entry} {i : Interest}

/-! ## Handles -/

theorem get?_eq_some_iff :
    pit.get? h = some e ↔ pit.slots[h.index]? = some ⟨h.generation, some e⟩ := by
  simp only [get?, slot?, Option.bind_eq_some_iff, Option.filter_eq_some_iff, decide_eq_true_eq]
  constructor
  · rintro ⟨⟨g, entry⟩, ⟨hs, hg⟩, he⟩
    simp only at hg he
    rw [hs, hg, he]
  · intro hs
    exact ⟨_, ⟨hs, rfl⟩, rfl⟩

/-- Different handles of one slot are of different generations. -/
theorem generation_ne_of_index_eq (hne : h' ≠ h) (hi : h.index = h'.index) :
    h.generation ≠ h'.generation := by
  intro hg
  apply hne
  cases h
  cases h'
  simp only at hi hg
  rw [hi, hg]

theorem modify_of_get?_eq_none (f : Entry → Entry) (hget : pit.get? h = none) :
    pit.modify h f = pit := by
  rw [modify, hget]

/-- What is written to the slot of a handle is seen through this handle only, if the slot keeps
its generation or is left empty. -/
theorem get?_of_slots_eq_modify {s : Slot} (change : Slot → Slot)
    (hslot : pit.slots[h.index]? = some s) (hs : s.generation = h.generation)
    (hslots : pit'.slots = pit.slots.modify h.index change)
    (hkept : (change s).generation = h.generation ∨ (change s).entry = none) (h' : Handle) :
    pit'.get? h' = if h' = h then (change s).entry else pit.get? h' := by
  apply Option.ext
  intro e
  rw [get?_eq_some_iff, hslots, Array.getElem?_modify]
  by_cases heq : h' = h
  · rw [heq, if_pos rfl, if_pos rfl, hslot, Option.map_some]
    constructor
    · intro hs'
      rw [Option.some.inj hs']
    · intro he
      have hg := hkept.resolve_right fun hnone => by rw [hnone] at he; cases he
      rw [← hg, ← he]
  · rw [if_neg heq, get?_eq_some_iff]
    by_cases hi : h.index = h'.index
    · have hg := generation_ne_of_index_eq heq hi
      rw [if_pos hi, ← hi, hslot, Option.map_some]
      refine iff_of_false (fun hs' => ?_) fun hs' => ?_
      · rw [Option.some.inj hs'] at hkept
        exact hkept.elim (Ne.symm hg) nofun
      · rw [Option.some.inj hs'] at hs
        exact hg hs.symm
    · rw [if_neg hi]

/-- A new slot is seen through its first handle only. -/
theorem get?_of_slots_eq_push {entry : Option Entry}
    (hslots : pit'.slots = pit.slots.push ⟨0, entry⟩) (h' : Handle) :
    pit'.get? h' = if h' = ⟨pit.slots.size, 0⟩ then entry else pit.get? h' := by
  apply Option.ext
  intro e
  rw [get?_eq_some_iff, hslots, Array.getElem?_push]
  obtain ⟨k, g⟩ := h'
  by_cases hi : k = pit.slots.size
  · by_cases hg : g = 0
    · simp [hi, hg]
    · simp [hi, hg, Ne.symm hg, get?_eq_some_iff]
  · simp [hi, get?_eq_some_iff]

theorem get?_modify (pit : Pit) (h h' : Handle) (f : Entry → Entry) :
    (pit.modify h f).get? h' = if h' = h then (pit.get? h).map f else pit.get? h' := by
  cases hget : pit.get? h with
  | none =>
    rw [modify_of_get?_eq_none f hget]
    by_cases heq : h' = h
    · rw [if_pos heq, heq, hget]; rfl
    · rw [if_neg heq]
  | some e =>
    have hslot := get?_eq_some_iff.mp hget
    refine get?_of_slots_eq_modify (fun s => { s with entry := some (f e) }) hslot rfl ?_
      (.inl rfl) h'
    rw [modify, hget]

theorem get?_modify_self (hget : pit.get? h = some e) :
    (pit.modify h f).get? h = some (f e) := by
  rw [get?_modify, if_pos rfl, hget]; rfl

theorem get?_modify_of_ne (hne : h' ≠ h) : (pit.modify h f).get? h' = pit.get? h' := by
  rw [get?_modify, if_neg hne]

theorem modify_modify (pit : Pit) (h : Handle) (f g : Entry → Entry) :
    (pit.modify h f).modify h g = pit.modify h (g ∘ f) := by
  cases hget : pit.get? h with
  | none => simp [modify_of_get?_eq_none, hget]
  | some e =>
    have hget' : (pit.modify h f).get? h = some (f e) := get?_modify_self hget
    rw [modify, hget']
    simp only [modify, hget, Pit.mk.injEq, and_true]
    apply Array.toList_inj.mp
    rw [Array.toList_modify, Array.toList_modify, Array.toList_modify, List.modify_modify_eq]
    rfl

theorem get?_erase (pit : Pit) (h h' : Handle) :
    (pit.erase h).get? h' = if h' = h then none else pit.get? h' := by
  cases hget : pit.get? h with
  | none =>
    rw [erase, hget]
    by_cases heq : h' = h
    · rw [if_pos heq, heq]; exact hget
    · rw [if_neg heq]
  | some e =>
    have hslot := get?_eq_some_iff.mp hget
    refine get?_of_slots_eq_modify (fun s => ⟨s.generation + 1, none⟩) hslot rfl ?_ (.inr rfl) h'
    rw [erase, hget]

/-! ## Names -/

@[simp] theorem find?_modify (pit : Pit) (h : Handle) (f : Entry → Entry) (n : Name) :
    (pit.modify h f).find? n = pit.find? n := by
  unfold modify
  split <;> rfl

theorem find?_erase (hget : pit.get? h = some e) (n : Name) :
    (pit.erase h).find? n = if n = e.name then none else pit.find? n := by
  simp only [find?, erase, hget]
  exact SortedMap.get?_erase _ _ _

@[simp] theorem defaultLifetime_modify (pit : Pit) (h : Handle) (f : Entry → Entry) :
    (pit.modify h f).defaultLifetime = pit.defaultLifetime := by
  unfold modify
  split <;> rfl

@[simp] theorem defaultLifetime_erase (pit : Pit) (h : Handle) :
    (pit.erase h).defaultLifetime = pit.defaultLifetime := by
  unfold erase
  split <;> rfl

/-- The names lead to the entries that bear them and to no others, and each free slot is
listed once and is empty. -/
structure WellFormed (pit : Pit) : Prop where
  find?_eq_some_iff :
    ∀ n h, pit.find? n = some h ↔ ∃ e, pit.get? h = some e ∧ e.name = n
  free_empty : ∀ k ∈ pit.free, ∃ s, pit.slots[k]? = some s ∧ s.entry = none
  free_nodup : pit.free.Nodup

namespace WellFormed

/-- A live entry is found under its name. -/
theorem find?_name (wf : pit.WellFormed) (hget : pit.get? h = some e) :
    pit.find? e.name = some h :=
  (wf.find?_eq_some_iff _ _).mpr ⟨e, hget, rfl⟩

theorem exists_of_find? (wf : pit.WellFormed) {n : Name} (hf : pit.find? n = some h) :
    ∃ e, pit.get? h = some e ∧ e.name = n :=
  (wf.find?_eq_some_iff _ _).mp hf

/-- No two live entries have one name. -/
theorem eq_of_name_eq (wf : pit.WellFormed) {h' : Handle} {e' : Entry}
    (hget : pit.get? h = some e) (hget' : pit.get? h' = some e') (hname : e.name = e'.name) :
    h = h' := by
  have hfound := wf.find?_name hget
  rw [hname, wf.find?_name hget', Option.some.injEq] at hfound
  exact hfound.symm

/-- A live entry keeps its slot from being free. -/
theorem index_not_mem_free (wf : pit.WellFormed) (hget : pit.get? h = some e) :
    h.index ∉ pit.free := by
  intro hmem
  obtain ⟨s, hs, hempty⟩ := wf.free_empty _ hmem
  rw [get?_eq_some_iff.mp hget, Option.some.injEq] at hs
  rw [← hs] at hempty
  cases hempty

end WellFormed

theorem wellFormed_withDefaultLifetime (lifetime : Millis) :
    (withDefaultLifetime lifetime).WellFormed where
  find?_eq_some_iff n h := by
    constructor
    · intro hf
      cases hf
    · rintro ⟨e, hget, _⟩
      have := get?_eq_some_iff.mp hget
      cases this
  free_empty k hk := by cases hk
  free_nodup := .nil

/-- A change that keeps the Interest of an entry keeps the table well-formed. -/
theorem wellFormed_modify (wf : pit.WellFormed) (hf : ∀ e, (f e).interest = e.interest) :
    (pit.modify h f).WellFormed where
  find?_eq_some_iff n h' := by
    rw [find?_modify, wf.find?_eq_some_iff]
    by_cases heq : h' = h
    · subst heq
      cases hget : pit.get? h' with
      | none => simp [get?_modify, hget]
      | some e => simp [get?_modify, hget, Entry.name, hf]
    · rw [get?_modify_of_ne heq]
  free_empty k hk := by
    cases hget : pit.get? h with
    | none =>
      rw [modify_of_get?_eq_none f hget] at hk ⊢
      exact wf.free_empty k hk
    | some e =>
      simp only [modify, hget] at hk ⊢
      have hne : h.index ≠ k := by
        rintro rfl
        exact wf.index_not_mem_free hget hk
      rw [Array.getElem?_modify, if_neg hne]
      exact wf.free_empty k hk
  free_nodup := by
    unfold modify
    split <;> exact wf.free_nodup

theorem wellFormed_erase (wf : pit.WellFormed) : (pit.erase h).WellFormed := by
  cases hget : pit.get? h with
  | none =>
    rw [erase, hget]
    exact wf
  | some e =>
    constructor
    case find?_eq_some_iff =>
      intro n h'
      rw [find?_erase hget, get?_erase]
      by_cases hn : n = e.name
      · rw [if_pos hn]
        by_cases heq : h' = h
        · simp [heq]
        · rw [if_neg heq]
          constructor
          · intro hfalse
            cases hfalse
          rintro ⟨e', hget', hname⟩
          exact absurd (wf.eq_of_name_eq hget' hget (hname.trans hn)) heq
      · rw [if_neg hn, wf.find?_eq_some_iff]
        by_cases heq : h' = h
        · subst heq
          rw [if_pos rfl, hget]
          constructor
          · rintro ⟨e', he', hname⟩
            cases he'
            exact absurd hname.symm hn
          · rintro ⟨e', he', _⟩
            cases he'
        · rw [if_neg heq]
    case free_empty =>
      intro k hk
      have hslot := get?_eq_some_iff.mp hget
      simp only [erase, hget, List.mem_cons] at hk ⊢
      rw [Array.getElem?_modify]
      by_cases hi : h.index = k
      · subst hi
        simp [hslot]
      · rw [if_neg hi]
        exact wf.free_empty k (hk.resolve_left (Ne.symm hi))
    case free_nodup =>
      simp only [erase, hget]
      exact List.nodup_cons.mpr ⟨wf.index_not_mem_free hget, wf.free_nodup⟩

/-! ## Insertion -/

/-- The entry that `i` creates. -/
def freshEntry (pit : Pit) (i : Interest) : Entry :=
  { interest := i, defaultLifetime := pit.defaultLifetime, serial := pit.nextSerial }

/-- `pit'` is `pit` with a new entry for `i` under the handle `h`, which referred to nothing
before. -/
structure Created (pit : Pit) (i : Interest) (h : Handle) (pit' : Pit) : Prop where
  unused : pit.get? h = none
  find?_eq_none : pit.find? i.name = none
  get?_eq : ∀ h', pit'.get? h' = if h' = h then some (pit.freshEntry i) else pit.get? h'
  find?_eq : ∀ n, pit'.find? n = if n = i.name then some h else pit.find? n
  free_empty : ∀ k ∈ pit'.free, ∃ s, pit'.slots[k]? = some s ∧ s.entry = none
  free_nodup : pit'.free.Nodup
  defaultLifetime_eq : pit'.defaultLifetime = pit.defaultLifetime

namespace Created

theorem get?_self (c : Created pit i h pit') : pit'.get? h = some (pit.freshEntry i) := by
  rw [c.get?_eq, if_pos rfl]

theorem get?_of_ne (c : Created pit i h pit') (hne : h' ≠ h) : pit'.get? h' = pit.get? h' := by
  rw [c.get?_eq, if_neg hne]

/-- Erasing the new entry leaves the table as it was, as far as lookups go. -/
theorem get?_erase (c : Created pit i h pit') (h' : Handle) :
    (pit'.erase h).get? h' = pit.get? h' := by
  rw [Pit.get?_erase, c.get?_eq]
  split
  · next heq => rw [heq, c.unused]
  · rfl

theorem find?_erase (c : Created pit i h pit') (n : Name) :
    (pit'.erase h).find? n = pit.find? n := by
  have hname : (pit.freshEntry i).name = i.name := rfl
  rw [Pit.find?_erase c.get?_self, c.find?_eq, hname]
  split
  · next heq => rw [heq, c.find?_eq_none]
  · rfl

/-- A handle that referred to an entry before is not the new one. -/
theorem ne_of_get? (c : Created pit i h pit') (hget : pit.get? h' = some e) : h' ≠ h := by
  rintro rfl
  rw [c.unused] at hget
  cases hget

theorem wellFormed (c : Created pit i h pit') (wf : pit.WellFormed) : pit'.WellFormed where
  find?_eq_some_iff n h' := by
    rw [c.find?_eq]
    by_cases heq : h' = h
    · subst heq
      rw [c.get?_self]
      by_cases hn : n = i.name
      · simp [hn, freshEntry, Entry.name]
      · rw [if_neg hn, wf.find?_eq_some_iff, c.unused]
        simp [freshEntry, Entry.name, Ne.symm hn]
    · rw [c.get?_of_ne heq]
      by_cases hn : n = i.name
      · -- no entry had the name before
        have hnone : ¬ ∃ e, pit.get? h' = some e ∧ e.name = n := by
          rw [← wf.find?_eq_some_iff, hn, c.find?_eq_none]
          exact nofun
        simp [hn, Ne.symm heq, hn ▸ hnone]
      · rw [if_neg hn, wf.find?_eq_some_iff]
  free_empty := c.free_empty
  free_nodup := c.free_nodup

end Created

theorem insert_of_find? (hf : pit.find? i.name = some h) : pit.insert i = (h, false, pit) := by
  rw [insert, hf]

theorem insert_created (wf : pit.WellFormed) (hf : pit.find? i.name = none) :
    ∃ h pit', pit.insert i = (h, true, pit') ∧ Created pit i h pit' := by
  cases hfree : pit.free with
  | nil =>
    refine ⟨_, _, by rw [insert, hf, hfree], ?_⟩
    constructor
    case unused => simp [get?, slot?]
    case find?_eq_none => exact hf
    case get?_eq => exact get?_of_slots_eq_push rfl
    case find?_eq => exact fun n => SortedMap.get?_insert _ _ _ _
    case free_empty => simp
    case free_nodup => exact .nil
    case defaultLifetime_eq => rfl
  | cons k rest =>
    obtain ⟨⟨g, entry⟩, hs, rfl⟩ := wf.free_empty k (by simp [hfree])
    have hnodup := wf.free_nodup
    rw [hfree, List.nodup_cons] at hnodup
    refine ⟨_, _, by rw [insert, hf, hfree], ?_⟩
    simp only [hs, Option.map_some, Option.getD_some]
    constructor
    case unused => simp [get?, slot?, hs]
    case find?_eq_none => exact hf
    case get?_eq =>
      exact get?_of_slots_eq_modify (fun s => { s with entry := some (pit.freshEntry i) }) hs rfl
        rfl (.inl rfl)
    case find?_eq => exact fun n => SortedMap.get?_insert _ _ _ _
    case free_empty =>
      intro k' hk'
      have hne : k ≠ k' := by
        rintro rfl
        exact hnodup.1 hk'
      rw [Array.getElem?_modify, if_neg hne]
      exact wf.free_empty k' (by rw [hfree]; exact List.mem_cons_of_mem _ hk')
    case free_nodup => exact hnodup.2
    case defaultLifetime_eq => rfl

/-! ## The entries that Data satisfies -/

theorem perm_insertBySerial (x : Nat × Handle) (l : List (Nat × Handle)) :
    (insertBySerial x l).Perm (x :: l) := by
  induction l with
  | nil => exact .refl _
  | cons y rest ih =>
    unfold insertBySerial
    split
    · exact .refl _
    · exact (ih.cons y).trans (.swap x y rest)

/-- Sorting by number changes the order only. -/
theorem perm_foldr_insertBySerial (l : List (Nat × Handle)) :
    (l.foldr insertBySerial []).Perm l := by
  induction l with
  | nil => exact .refl _
  | cons x rest ih => exact (perm_insertBySerial x _).trans (ih.cons x)

/-- Within the prefixes of a name the length decides whether an Interest accepts it. -/
theorem accepts_iff {d : Data} :
    i.Accepts d ↔ i.name.IsPrefixOf d.name ∧ (i.name.size = d.name.size ∨ i.canBePrefix) := by
  unfold Interest.Accepts
  cases hc : i.canBePrefix
  · simp only [Bool.false_eq_true, if_false, or_false]
    constructor
    · intro heq
      rw [heq]
      exact ⟨List.prefix_rfl, rfl⟩
    · rintro ⟨hp, hsize⟩
      exact congrArg Name.mk (hp.eq_of_length hsize)
  · simp

/-- **The entries that Data satisfies** are the live ones whose Interest accepts it. -/
theorem mem_dataMatches (wf : pit.WellFormed) {d : Data} :
    h ∈ pit.dataMatches d ↔ ∃ e, pit.get? h = some e ∧ e.interest.Accepts d := by
  simp only [dataMatches, List.mem_map, (perm_foldr_insertBySerial _).mem_iff,
    List.mem_filterMap, accepts_iff]
  constructor
  · rintro ⟨⟨_, h'⟩, ⟨⟨n, h''⟩, hmem, hcond⟩, rfl⟩
    obtain ⟨hp, hf⟩ := NameIndex.mem_prefixMatches.mp hmem
    obtain ⟨e, hget, hname⟩ := wf.exists_of_find? hf
    simp only [hget, Option.bind_some, Option.ite_none_right_eq_some, Option.some.injEq,
      Prod.mk.injEq] at hcond
    obtain ⟨hcond, _, rfl⟩ := hcond
    subst hname
    exact ⟨e, hget, hp, hcond⟩
  · rintro ⟨e, hget, hp, hcond⟩
    refine ⟨(e.serial, h), ⟨(e.name, h), ?_, ?_⟩, rfl⟩
    · exact NameIndex.mem_prefixMatches.mpr ⟨hp, wf.find?_name hget⟩
    · simp only [hget, Option.bind_some]
      exact if_pos hcond

/-- Each entry is found once. -/
theorem nodup_dataMatches (wf : pit.WellFormed) (d : Data) : (pit.dataMatches d).Nodup := by
  have hhandle : ∀ {n : Name} {h : Handle} {x : Nat × Handle},
      ((pit.get? h).bind fun e =>
        if n.size = d.name.size ∨ e.interest.canBePrefix then some (e.serial, h) else none) =
          some x → x.2 = h := by
    intro n h x hx
    obtain ⟨e, -, hcond⟩ := Option.bind_eq_some_iff.mp hx
    rw [← Option.some.inj (Option.ite_none_right_eq_some.mp hcond).2]
  rw [dataMatches, ((perm_foldr_insertBySerial _).map Prod.snd).nodup_iff, List.Nodup,
    List.pairwise_map, List.pairwise_filterMap]
  refine (NameIndex.pairwise_size_prefixMatches pit.byName d.name).imp_of_mem ?_
  -- entries under different names have different handles
  rintro ⟨n, h⟩ ⟨n', h'⟩ hmem hmem' hlt x hx x' hx' heq
  obtain rfl : h = h' := (hhandle hx).symm.trans (heq.trans (hhandle hx'))
  obtain ⟨e, hget, rfl⟩ := wf.exists_of_find? (NameIndex.mem_prefixMatches.mp hmem).2
  obtain ⟨e', hget', rfl⟩ := wf.exists_of_find? (NameIndex.mem_prefixMatches.mp hmem').2
  rw [Option.some.inj (hget.symm.trans hget')] at hlt
  exact Nat.lt_irrefl _ hlt

end NamedData.Pit
