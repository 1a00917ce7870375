import NamedData.Proofs.Pit.Table
import NamedData.Proofs.Replay
import Mathlib.Data.Set.Card

/-!
# One-shot handles

A handle is given out once, for an entry that is created, and stands for that entry until
it is erased. Whatever is inserted and erased afterwards, with handles that are stale or
were never given out, it does not reach another entry.

The reason is that a slot moves to its next generation when it is emptied, so the
generation of a slot counts how often that happened. The count is a 32-bit word: what
follows holds while no slot was emptied as often as such a word has values.

## Main definitions

* `Pit.Call` and `Pit.run`, a sequence of insertions and erasures
* `Pit.erasures`, how often a slot is emptied in a sequence
* `Pit.Creates`, which handle was given out for which entry, and `Pit.StandsFor`, which of
  them were not erased since
* `Pit.OneShot`, the table as a map with one-shot handles

## Main statements

* `generationAt_run`, the generation of a slot is the number of its erasures
* `not_creates_of_insert`, a new handle was not given out before
* `get?_run_eq_some_iff`, a handle resolves exactly to the entry it stands for
-/
namespace NamedData.Pit

variable {pit pit' start : Pit} {h h' : Handle} {e : Entry} {i : Interest} {k : Nat}

/-! ## Single calls -/

theorem take_eq (pit : Pit) (h : Handle) : pit.take h = (pit.get? h, pit.erase h) := by
  cases hget : pit.get? h with
  | none => rw [take, erase, hget]
  | some e => rw [take, hget]

theorem erase_of_get?_eq_none (hget : pit.get? h = none) : pit.erase h = pit := by
  rw [erase, hget]

theorem WellFormed.created_of_insert (wf : pit.WellFormed)
    (hnew : pit.insert i = (h, true, pit')) : Created pit i h pit' := by
  cases hf : pit.find? i.name with
  | some h' =>
    rw [insert_of_find? hf] at hnew
    cases hnew
  | none =>
    obtain ⟨h', pit'', hnew', c⟩ := insert_created wf hf
    rw [hnew'] at hnew
    cases hnew
    exact c

/-- Inserting finds an entry exactly when there is one for the name. -/
theorem WellFormed.insert_eq_found_iff (wf : pit.WellFormed) :
    pit.insert i = (h, false, pit) ↔ ∃ e, pit.get? h = some e ∧ e.name = i.name := by
  rw [← wf.find?_eq_some_iff]
  constructor
  · intro hfound
    cases hf : pit.find? i.name with
    | some h' =>
      rw [insert_of_find? hf, Prod.mk.injEq] at hfound
      rw [hfound.1]
    | none =>
      obtain ⟨h', pit', hnew, _⟩ := insert_created wf hf
      rw [hnew, Prod.mk.injEq, Prod.mk.injEq] at hfound
      cases hfound.2.1
  · exact insert_of_find?

/-- The number of entries is the number of handles that resolve. -/
theorem WellFormed.size_eq_ncard (wf : pit.WellFormed) :
    pit.size = {h | ∃ e, pit.get? h = some e}.ncard := by
  have hnodup : (pit.byName.toList.map Prod.snd).Nodup := by
    rw [List.Nodup, List.pairwise_map]
    refine pit.byName.sorted.imp_of_mem ?_
    -- two bindings of one handle would both have the name of its entry
    intro a b ha hb hlt heq
    obtain ⟨e, hget, hname⟩ := wf.exists_of_find? (SortedMap.get?_eq_some_iff.mpr ha)
    obtain ⟨e', hget', hname'⟩ := wf.exists_of_find? (SortedMap.get?_eq_some_iff.mpr hb)
    rw [heq, hget', Option.some.injEq] at hget
    exact SortedMap.ne_of_compare_lt hlt (by rw [← hname, ← hname', hget])
  have hset : {h | ∃ e, pit.get? h = some e} = ↑(pit.byName.toList.map Prod.snd).toFinset := by
    ext h
    simp only [Set.mem_ofPred_eq, List.coe_toFinset, List.mem_map]
    constructor
    · intro ⟨e, hget⟩
      exact ⟨(e.name, h), SortedMap.get?_eq_some_iff.mp (wf.find?_name hget), rfl⟩
    · intro ⟨b, hb, heq⟩
      obtain ⟨e, hget, _⟩ := wf.exists_of_find? (SortedMap.get?_eq_some_iff.mpr hb)
      exact ⟨e, heq ▸ hget⟩
  rw [hset, Set.ncard_coe_finset, List.toFinset_card_of_nodup hnodup, List.length_map]
  rfl

/-! ## Generations -/

/-- The generation of the slot `k`. A slot that is not there yet will start with 0. -/
def generationAt (pit : Pit) (k : Nat) : UInt32 := (pit.slots[k]?.map Slot.generation).getD 0

theorem generation_of_get? (hget : pit.get? h = some e) :
    h.generation = pit.generationAt h.index := by
  rw [generationAt, get?_eq_some_iff.mp hget]
  rfl

/-- A new handle takes the generation of its slot. -/
theorem generation_of_insert (hnew : pit.insert i = (h, true, pit')) :
    h.generation = pit.generationAt h.index := by
  unfold insert at hnew
  split at hnew
  · cases hnew
  · split at hnew
    · cases hnew
      rfl
    · cases hnew
      simp [generationAt]

theorem generationAt_insert (pit : Pit) (i : Interest) (k : Nat) :
    (pit.insert i).2.2.generationAt k = pit.generationAt k := by
  unfold insert
  split
  · rfl
  · split
    · simp only [generationAt, Array.getElem?_modify]
      split
      · cases pit.slots[k]? <;> rfl
      · rfl
    · simp only [generationAt, Array.getElem?_push]
      split
      · next heq => simp [heq]
      · rfl

/-- The slot of an erased entry moves to its next generation. -/
theorem generationAt_erase (hget : pit.get? h = some e) (k : Nat) :
    (pit.erase h).generationAt k =
      if h.index = k then pit.generationAt k + 1 else pit.generationAt k := by
  simp only [generationAt, erase, hget, Array.getElem?_modify]
  split
  · next heq => simp [← heq, get?_eq_some_iff.mp hget]
  · rfl

/-! ## Sequences of calls -/

/-- A call that makes or removes an entry. -/
inductive Call
  | insert (i : Interest)
  | erase (h : Handle)

namespace Call

/-- The table after the call. -/
def perform (c : Call) (pit : Pit) : Pit :=
  match c with
  | .insert i => (pit.insert i).2.2
  | .erase h => (pit.take h).2

/-- The slot that the call empties, if it removes an entry. -/
def emptied? (c : Call) (pit : Pit) : Option Nat :=
  match c with
  | .insert _ => none
  | .erase h => (pit.get? h).map fun _ => h.index

/-- What a call can do. -/
inductive Outcome (pit : Pit) : Call → Pit → Prop
  | found {i : Interest} (h : Handle) : pit.insert i = (h, false, pit) →
      Outcome pit (.insert i) pit
  | created {i : Interest} {pit' : Pit} (h : Handle) : pit.insert i = (h, true, pit') →
      Created pit i h pit' → Outcome pit (.insert i) pit'
  | stale {h : Handle} : pit.get? h = none → Outcome pit (.erase h) pit
  | erased {h : Handle} (e : Entry) : pit.get? h = some e → Outcome pit (.erase h) (pit.erase h)

theorem outcome_perform (wf : pit.WellFormed) (c : Call) : Outcome pit c (c.perform pit) := by
  cases c with
  | insert i =>
    cases hf : pit.find? i.name with
    | some h =>
      rw [perform, insert_of_find? hf]
      exact .found h (insert_of_find? hf)
    | none =>
      obtain ⟨h, pit', hnew, c⟩ := insert_created wf hf
      rw [perform, hnew]
      exact .created h hnew c
  | erase h =>
    rw [perform, take_eq]
    cases hget : pit.get? h with
    | none =>
      rw [erase_of_get?_eq_none hget]
      exact .stale hget
    | some e => exact .erased e hget

theorem Outcome.wellFormed {c : Call} (ho : Outcome pit c pit') (wf : pit.WellFormed) :
    pit'.WellFormed := by
  cases ho with
  | found | stale => exact wf
  | created _ _ c => exact c.wellFormed wf
  | erased => exact wellFormed_erase wf

/-- A call moves the slot that it empties to the next generation, and no other slot. -/
theorem generationAt_perform (c : Call) (pit : Pit) (k : Nat) :
    (c.perform pit).generationAt k =
      if c.emptied? pit = some k then pit.generationAt k + 1 else pit.generationAt k := by
  cases c with
  | insert i => exact generationAt_insert pit i k
  | erase h =>
    rw [perform, take_eq, emptied?]
    cases hget : pit.get? h with
    | none =>
      rw [erase_of_get?_eq_none hget]
      rfl
    | some e => simpa using generationAt_erase hget k

end Call

/-- The table after the calls, the first of them first. -/
def run (calls : List Call) (pit : Pit) : Pit := calls.foldl (fun pit c => c.perform pit) pit

/-- How often the slot `k` is emptied in the calls. -/
def erasures (k : Nat) : List Call → Pit → Nat
  | [], _ => 0
  | c :: rest, pit =>
    (if c.emptied? pit = some k then 1 else 0) + erasures k rest (c.perform pit)

/-- Among the calls is one that gave out `h` for a new entry, which was `e`, and `later` are
the calls after it. -/
def Creates (start : Pit) (calls : List Call) (h : Handle) (e : Entry) (later : List Call) :
    Prop :=
  ∃ earlier i pit', calls = earlier ++ .insert i :: later ∧
    (run earlier start).insert i = (h, true, pit') ∧ e = (run earlier start).freshEntry i

/-- In the calls `h` was given out for the entry `e`, and it was not erased since. -/
def StandsFor (start : Pit) (calls : List Call) (h : Handle) (e : Entry) : Prop :=
  ∃ later, Creates start calls h e later ∧ .erase h ∉ later

section Calls

variable {calls later : List Call} {c : Call}

theorem run_snoc (calls : List Call) (c : Call) (pit : Pit) :
    run (calls ++ [c]) pit = c.perform (run calls pit) := by
  rw [run, List.foldl_append]
  rfl

theorem erasures_snoc (k : Nat) (calls : List Call) (c : Call) (pit : Pit) :
    erasures k (calls ++ [c]) pit =
      erasures k calls pit + if c.emptied? (run calls pit) = some k then 1 else 0 := by
  induction calls generalizing pit with
  | nil =>
    simp only [List.nil_append, erasures, run, List.foldl_nil]
    exact Nat.add_comm _ _
  | cons c' rest ih =>
    simp only [List.cons_append, erasures, ih]
    exact (Nat.add_assoc _ _ _).symm

/-- A slot is emptied at most once per call. -/
theorem erasures_le_length (k : Nat) (calls : List Call) (pit : Pit) :
    erasures k calls pit ≤ calls.length := by
  induction calls generalizing pit with
  | nil => exact Nat.le_refl 0
  | cons c rest ih =>
    have hrest := ih (c.perform pit)
    simp only [erasures, List.length_cons]
    split <;> omega

theorem not_creates_nil : ¬ Creates start [] h e later := by
  intro ⟨earlier, i, pit', heq, _⟩
  exact List.append_ne_nil_of_right_ne_nil earlier (List.cons_ne_nil _ _) heq.symm

/-- A further call comes after what was created before it, or creates an entry itself. -/
theorem creates_snoc :
    Creates start (calls ++ [c]) h e later ↔
      (∃ rest, later = rest ++ [c] ∧ Creates start calls h e rest) ∨
        later = [] ∧ ∃ i pit', c = .insert i ∧
          (run calls start).insert i = (h, true, pit') ∧ e = (run calls start).freshEntry i := by
  constructor
  · intro ⟨earlier, i, pit', heq, hnew, hfresh⟩
    rcases concat_eq_append_cons_iff.mp heq with ⟨rfl, rfl, rfl⟩ | ⟨rest, rfl, rfl⟩
    · exact .inr ⟨rfl, i, pit', rfl, hnew, hfresh⟩
    · exact .inl ⟨rest, rfl, earlier, i, pit', rfl, hnew, hfresh⟩
  · intro hsnoc
    cases hsnoc with
    | inl hbefore =>
      obtain ⟨rest, rfl, earlier, i, pit', rfl, hnew, hfresh⟩ := hbefore
      exact ⟨earlier, i, pit', by simp, hnew, hfresh⟩
    | inr hlast =>
      obtain ⟨rfl, i, pit', rfl, hnew, hfresh⟩ := hlast
      exact ⟨calls, i, pit', rfl, hnew, hfresh⟩

/-- What a further call changes: an erased handle no longer stands for anything, and a new
one stands for its entry. -/
theorem standsFor_snoc :
    StandsFor start (calls ++ [c]) h e ↔
      (c ≠ .erase h ∧ StandsFor start calls h e) ∨
        ∃ i pit', c = .insert i ∧ (run calls start).insert i = (h, true, pit') ∧
          e = (run calls start).freshEntry i := by
  simp only [StandsFor, creates_snoc]
  constructor
  · intro ⟨later, hc, hkept⟩
    cases hc with
    | inl hbefore =>
      obtain ⟨rest, rfl, hc'⟩ := hbefore
      rw [List.mem_append, List.mem_singleton, not_or] at hkept
      exact .inl ⟨Ne.symm hkept.2, rest, hc', hkept.1⟩
    | inr hlast => exact .inr hlast.2
  · intro hstands
    cases hstands with
    | inl hbefore =>
      obtain ⟨hne, rest, hc', hkept⟩ := hbefore
      refine ⟨rest ++ [c], .inl ⟨rest, rfl, hc'⟩, ?_⟩
      rw [List.mem_append, List.mem_singleton, not_or]
      exact ⟨hkept, Ne.symm hne⟩
    | inr hlast => exact ⟨[], .inr ⟨rfl, hlast⟩, List.not_mem_nil⟩

end Calls

/-! ## Runs from the empty table -/

section Run

variable {lifetime : Millis} {calls later : List Call}

theorem wellFormed_run (lifetime : Millis) (calls : List Call) :
    (run calls (withDefaultLifetime lifetime)).WellFormed := by
  induction calls using List.reverseRecOn with
  | nil => exact wellFormed_withDefaultLifetime lifetime
  | append_singleton calls c ih =>
    rw [run_snoc]
    exact (c.outcome_perform ih).wellFormed ih

/-- **The generation of a slot** counts how often it was emptied, as a 32-bit word. -/
theorem generationAt_run (lifetime : Millis) (calls : List Call) (k : Nat) :
    (run calls (withDefaultLifetime lifetime)).generationAt k =
      UInt32.ofNat (erasures k calls (withDefaultLifetime lifetime)) := by
  induction calls using List.reverseRecOn with
  | nil => rfl
  | append_singleton calls c ih =>
    rw [run_snoc, erasures_snoc, Call.generationAt_perform, ih]
    split
    · rw [UInt32.ofNat_add]
      rfl
    · rfl

/-- A handle that was given out resolves, or its slot has left its generation. -/
theorem live_or_left (hc : Creates (withDefaultLifetime lifetime) calls h e later) :
    (∃ e', (run calls (withDefaultLifetime lifetime)).get? h = some e') ∨
      ∃ n < erasures h.index calls (withDefaultLifetime lifetime),
        h.generation = UInt32.ofNat n := by
  induction calls using List.reverseRecOn generalizing h e later with
  | nil => exact absurd hc not_creates_nil
  | append_singleton calls c ih =>
    have hout := c.outcome_perform (wellFormed_run lifetime calls)
    rw [run_snoc, erasures_snoc]
    generalize c.perform (run calls (withDefaultLifetime lifetime)) = pit' at hout ⊢
    cases creates_snoc.mp hc with
    | inr hlast =>
      obtain ⟨_, i, pit'', rfl, hnew, _⟩ := hlast
      cases hout with
      | found h' hfound => rw [hfound] at hnew; cases hnew
      | created h' hnew' c =>
        rw [hnew'] at hnew
        cases hnew
        exact .inl ⟨_, c.get?_self⟩
    | inl hbefore =>
      obtain ⟨rest, _, hc'⟩ := hbefore
      cases ih hc' with
      | inr hleft =>
        obtain ⟨n, hn, hgen⟩ := hleft
        exact .inr ⟨n, Nat.lt_add_right _ hn, hgen⟩
      | inl hlive =>
        obtain ⟨e', hget⟩ := hlive
        cases hout with
        | found | stale => exact .inl ⟨e', hget⟩
        | created h' _ c => exact .inl ⟨e', (c.get?_of_ne (c.ne_of_get? hget)).trans hget⟩
        | @erased h' e'' hget' =>
          by_cases heq : h = h'
          · subst heq
            refine .inr ⟨erasures h.index calls (withDefaultLifetime lifetime), ?_, ?_⟩
            · simp [Call.emptied?, hget]
            · rw [generation_of_get? hget, generationAt_run]
          · exact .inl ⟨e', by rw [get?_erase, if_neg heq, hget]⟩

/-- **A new handle** was not given out before. -/
theorem not_creates_of_insert
    (hbound : ∀ k, erasures k calls (withDefaultLifetime lifetime) < UInt32.size)
    (hnew : (run calls (withDefaultLifetime lifetime)).insert i = (h, true, pit')) :
    ¬ Creates (withDefaultLifetime lifetime) calls h e later := by
  intro hc
  have hcreated := (wellFormed_run lifetime calls).created_of_insert hnew
  have hgen := generation_of_insert hnew
  rw [generationAt_run] at hgen
  cases live_or_left hc with
  | inl hlive =>
    obtain ⟨e', hget⟩ := hlive
    exact hcreated.ne_of_get? hget rfl
  | inr hleft =>
    obtain ⟨n, hn, hgen'⟩ := hleft
    have hsize := hbound h.index
    -- below the number of words a generation determines the count
    have heq := congrArg UInt32.toNat (hgen'.symm.trans hgen)
    rw [UInt32.toNat_ofNat_of_lt' (by omega), UInt32.toNat_ofNat_of_lt' hsize] at heq
    omega

/-- **A handle resolves** exactly to the entry it stands for. -/
theorem get?_run_eq_some_iff
    (hbound : ∀ k, erasures k calls (withDefaultLifetime lifetime) < UInt32.size) :
    (run calls (withDefaultLifetime lifetime)).get? h = some e ↔
      StandsFor (withDefaultLifetime lifetime) calls h e := by
  induction calls using List.reverseRecOn with
  | nil =>
    constructor
    · intro hget
      cases get?_eq_some_iff.mp hget
    · intro ⟨later, hc, _⟩
      exact absurd hc not_creates_nil
  | append_singleton calls c ih =>
    have hbound' : ∀ k, erasures k calls (withDefaultLifetime lifetime) < UInt32.size := by
      intro k
      have hk := hbound k
      rw [erasures_snoc] at hk
      omega
    have hout := c.outcome_perform (wellFormed_run lifetime calls)
    rw [run_snoc, standsFor_snoc, ← ih hbound']
    generalize c.perform (run calls (withDefaultLifetime lifetime)) = pit' at hout ⊢
    cases hout with
    | found h' hfound => simp [hfound]
    | @stale h' hnone =>
      have hne : (run calls (withDefaultLifetime lifetime)).get? h = some e → h' ≠ h := by
        rintro hget rfl
        rw [hnone] at hget
        cases hget
      simpa using hne
    | created h' hnew c =>
      rw [c.get?_eq]
      by_cases heq : h = h'
      · subst heq
        simp [hnew, c.unused, eq_comm]
      · simp [hnew, heq, Ne.symm heq]
    | @erased h' e' =>
      rw [get?_erase]
      by_cases heq : h = h'
      · simp [heq]
      · simp [heq, Ne.symm heq]

/-! ## The table as a map -/

/-- After the calls the table is a map from handles to entries, in which a handle stands
for one entry only. -/
structure OneShot (start : Pit) (calls : List Call) : Prop where
  /-- Inserting a name finds the live entry of that name, and changes nothing. -/
  insert_eq_found_iff : ∀ i h, (run calls start).insert i = (h, false, run calls start) ↔
    ∃ e, (run calls start).get? h = some e ∧ e.name = i.name
  /-- Without a live entry of the name it creates one, under a handle that was not given out
  before. -/
  insert_new : ∀ i, (∀ h e, (run calls start).get? h = some e → e.name ≠ i.name) →
    ∃ h pit', (run calls start).insert i = (h, true, pit') ∧
      ∀ e later, ¬ Creates start calls h e later
  get?_eq_some_iff : ∀ h e, (run calls start).get? h = some e ↔ StandsFor start calls h e
  /-- Erasing hands over the entry that the handle stands for, and removes no other. -/
  take_live : ∀ h e, (run calls start).get? h = some e →
    ((run calls start).take h).1 = some e ∧
      ∀ h', ((run calls start).take h).2.get? h' =
        if h' = h then none else (run calls start).get? h'
  take_stale : ∀ h, (run calls start).get? h = none →
    (run calls start).take h = (none, run calls start)
  find?_eq_some_iff : ∀ n h, (run calls start).find? n = some h ↔
    ∃ e, (run calls start).get? h = some e ∧ e.name = n
  size_eq_ncard : (run calls start).size = {h | ∃ e, (run calls start).get? h = some e}.ncard
  name_injective : ∀ h h' e e', (run calls start).get? h = some e →
    (run calls start).get? h' = some e' → e.name = e'.name → h = h'

/-- **One-shot handles.** Whatever is inserted and erased, the table is a map with one-shot
handles, unless a slot was emptied as often as a 32-bit word has values. -/
theorem oneShot_run (lifetime : Millis) (calls : List Call)
    (hbound : ∀ k, erasures k calls (withDefaultLifetime lifetime) < UInt32.size) :
    OneShot (withDefaultLifetime lifetime) calls := by
  have wf := wellFormed_run lifetime calls
  constructor
  case insert_eq_found_iff => exact fun i h => wf.insert_eq_found_iff
  case insert_new =>
    intro i hother
    have hf : (run calls (withDefaultLifetime lifetime)).find? i.name = none := by
      rw [Option.eq_none_iff_forall_ne_some]
      intro h hf
      obtain ⟨e, hget, hname⟩ := wf.exists_of_find? hf
      exact hother h e hget hname
    obtain ⟨h, pit', hnew, _⟩ := insert_created wf hf
    exact ⟨h, pit', hnew, fun e later => not_creates_of_insert hbound hnew⟩
  case get?_eq_some_iff => exact fun h e => get?_run_eq_some_iff hbound
  case take_live =>
    intro h e hget
    rw [take_eq]
    exact ⟨hget, fun h' => get?_erase _ h h'⟩
  case take_stale =>
    intro h hnone
    rw [take_eq, hnone, erase_of_get?_eq_none hnone]
  case find?_eq_some_iff => exact wf.find?_eq_some_iff
  case size_eq_ncard => exact wf.size_eq_ncard
  case name_injective => exact fun h h' e e' hget hget' hname => wf.eq_of_name_eq hget hget' hname

/-- An entry is made and erased, made again, and erased once more with its first handle. -/
def madeTwice (i : Interest) : List Call :=
  [.insert i, .erase ⟨0, 0⟩, .insert i, .erase ⟨0, 0⟩]

/-- The two entries had the same slot. The first handle did not reach the second entry. -/
theorem oneShot_madeTwice :
    OneShot (withDefaultLifetime 4000) (madeTwice { name := ⟨[.ofChars ['a']]⟩ }) ∧
      ((run (madeTwice { name := ⟨[.ofChars ['a']]⟩ }) (withDefaultLifetime 4000)).get?
        ⟨0, 1⟩).isSome := by
  refine ⟨oneShot_run 4000 _ ?_, by decide +kernel⟩
  intro k
  exact Nat.lt_of_le_of_lt (erasures_le_length k _ _) (by decide)

end Run

end NamedData.Pit
