import NamedData.Proofs.Pit.Handles

/-!
# The order of creation

Data is passed to the entries that it satisfies in the order in which these were created.
The table itself does not keep them in this order. A slot that was emptied is used again, and
the entries that Data satisfies are collected prefix by prefix, the shorter ones first. What
shows the order is the number that an entry got when it was created.

The calls are followed by a register. A new entry is written at its end, and an entry that is
erased is struck out, so it lists the live entries in the order of their creation.

## Main definitions

* `Pit.register`, the handles of the live entries, with the Interests that created them
* `Pit.Numbered`, the numbers of the entries go up along the register
* `Pit.FindsInOrder`, what Data finds

## Main statements

* `Pit.numbered_run`
* `Pit.Numbered.dataMatches_eq`: Data finds what filtering the register finds
* `Pit.findsInOrder_run`
-/
namespace NamedData.Pit

variable {pit pit' start : Pit} {h : Handle} {e : Entry} {i : Interest}
  {entered : List (Handle × Interest)}

/-! ## Numbers -/

/-- The number of the entry that `h` refers to. -/
def serialAt (pit : Pit) (h : Handle) : Nat := ((pit.get? h).map Entry.serial).getD 0

theorem serialAt_of_get? (hget : pit.get? h = some e) : pit.serialAt h = e.serial := by
  rw [serialAt, hget]
  rfl

theorem serialAt_congr (hget : pit'.get? h = pit.get? h) : pit'.serialAt h = pit.serialAt h := by
  rw [serialAt, hget, serialAt]

theorem nextSerial_insert (hnew : pit.insert i = (h, true, pit')) :
    pit'.nextSerial = pit.nextSerial + 1 := by
  unfold insert at hnew
  split at hnew
  · cases hnew
  · split at hnew <;> cases hnew <;> rfl

@[simp] theorem nextSerial_erase (pit : Pit) (h : Handle) :
    (pit.erase h).nextSerial = pit.nextSerial := by
  unfold erase
  split <;> rfl

/-! ## The register -/

/-- The register after a call. -/
def Call.enter (c : Call) (pit : Pit) (entered : List (Handle × Interest)) :
    List (Handle × Interest) :=
  match c with
  | .insert i =>
    let (h, new, _) := pit.insert i
    if new then entered ++ [(h, i)] else entered
  | .erase h => entered.filter (·.1 ≠ h)

/-- The handles of the entries that the calls created and did not erase since, with the
Interests that created them, in the order of creation. -/
def register (calls : List Call) (start : Pit) : List (Handle × Interest) :=
  go calls start []
where
  /-- Continue the register `entered` of a table. -/
  go : List Call → Pit → List (Handle × Interest) → List (Handle × Interest)
    | [], _, entered => entered
    | c :: rest, pit, entered => go rest (c.perform pit) (c.enter pit entered)

theorem register_go_snoc (calls : List Call) (c : Call) (pit : Pit)
    (entered : List (Handle × Interest)) :
    register.go (calls ++ [c]) pit entered =
      c.enter (run calls pit) (register.go calls pit entered) := by
  induction calls generalizing pit entered with
  | nil => rfl
  | cons c' rest ih => exact ih _ _

theorem register_snoc (calls : List Call) (c : Call) (start : Pit) :
    register (calls ++ [c]) start = c.enter (run calls start) (register calls start) :=
  register_go_snoc calls c start []

/-- The register lists the live entries with the Interests that created them. Their numbers
go up along it, and the next number is larger. -/
structure Numbered (pit : Pit) (entered : List (Handle × Interest)) : Prop where
  mem_iff : ∀ h i, (h, i) ∈ entered ↔ ∃ e, pit.get? h = some e ∧ e.interest = i
  serials : entered.Pairwise fun a b => pit.serialAt a.1 < pit.serialAt b.1
  lt_nextSerial : ∀ h e, pit.get? h = some e → e.serial < pit.nextSerial

namespace Numbered

theorem exists_get? (num : Numbered pit entered) {a : Handle × Interest} (ha : a ∈ entered) :
    ∃ e, pit.get? a.1 = some e ∧ e.interest = a.2 :=
  (num.mem_iff a.1 a.2).mp ha

/-- Each entry is listed once. -/
theorem nodup (num : Numbered pit entered) : (entered.map Prod.fst).Nodup := by
  rw [List.Nodup, List.pairwise_map]
  refine num.serials.imp ?_
  intro a b hlt heq
  rw [heq] at hlt
  exact Nat.lt_irrefl _ hlt

/-- A live entry is determined by its number. -/
theorem eq_of_serialAt_eq (num : Numbered pit entered) {h' : Handle} {e' : Entry}
    (hget : pit.get? h = some e) (hget' : pit.get? h' = some e')
    (heq : pit.serialAt h = pit.serialAt h') : h = h' := by
  have hnodup : (entered.map fun a => pit.serialAt a.1).Nodup := by
    rw [List.Nodup, List.pairwise_map]
    exact num.serials.imp Nat.ne_of_lt
  have hmem := (num.mem_iff h _).mpr ⟨e, hget, rfl⟩
  have hmem' := (num.mem_iff h' _).mpr ⟨e', hget', rfl⟩
  exact congrArg Prod.fst (List.inj_on_of_nodup_map hnodup hmem hmem' heq)

theorem created (num : Numbered pit entered) (hnew : pit.insert i = (h, true, pit'))
    (c : Created pit i h pit') : Numbered pit' (entered ++ [(h, i)]) where
  mem_iff h' i' := by
    rw [List.mem_append, num.mem_iff, List.mem_singleton, Prod.mk.injEq, c.get?_eq]
    by_cases heq : h' = h
    · subst heq
      simp [c.unused, freshEntry, eq_comm]
    · simp [heq]
  serials := by
    have hkept : ∀ a ∈ entered, pit'.serialAt a.1 = pit.serialAt a.1 := by
      intro a ha
      obtain ⟨e, hget, _⟩ := num.exists_get? ha
      exact serialAt_congr (c.get?_of_ne (c.ne_of_get? hget))
    rw [List.pairwise_append]
    refine ⟨num.serials.imp_of_mem ?_, List.pairwise_singleton _ _, ?_⟩
    · intro a b ha hb hlt
      rwa [hkept a ha, hkept b hb]
    · intro a ha b hb
      obtain rfl := List.mem_singleton.mp hb
      obtain ⟨e, hget, _⟩ := num.exists_get? ha
      rw [hkept a ha, serialAt_of_get? hget, serialAt_of_get? c.get?_self]
      exact num.lt_nextSerial _ e hget
  lt_nextSerial h' e' hget := by
    rw [nextSerial_insert hnew]
    rw [c.get?_eq] at hget
    split at hget
    · cases hget
      exact Nat.lt_succ_self _
    · exact Nat.lt_succ_of_lt (num.lt_nextSerial _ e' hget)

theorem erase (num : Numbered pit entered) (h : Handle) :
    Numbered (pit.erase h) (entered.filter (·.1 ≠ h)) where
  mem_iff h' i' := by
    rw [List.mem_filter, num.mem_iff, get?_erase]
    by_cases heq : h' = h <;> simp [heq]
  serials := by
    refine (num.serials.filter _).imp_of_mem ?_
    intro a b ha hb hlt
    have hkept : ∀ a ∈ entered.filter (·.1 ≠ h),
        (pit.erase h).serialAt a.1 = pit.serialAt a.1 := by
      intro a ha
      have hne : a.1 ≠ h := by simpa using (List.mem_filter.mp ha).2
      exact serialAt_congr (by rw [get?_erase, if_neg hne])
    rwa [hkept a ha, hkept b hb]
  lt_nextSerial h' e' hget := by
    rw [nextSerial_erase]
    rw [get?_erase] at hget
    split at hget
    · cases hget
    · exact num.lt_nextSerial _ e' hget

/-- Striking out a handle that refers to nothing changes nothing. -/
theorem filter_of_get?_eq_none (num : Numbered pit entered) (hnone : pit.get? h = none) :
    entered.filter (·.1 ≠ h) = entered := by
  refine List.filter_eq_self.mpr ?_
  intro a ha
  obtain ⟨e, hget, _⟩ := num.exists_get? ha
  have hne : a.1 ≠ h := by
    rintro rfl
    rw [hnone] at hget
    cases hget
  simpa using hne

/-- The register is kept up by every call. -/
theorem perform (num : Numbered pit entered) (wf : pit.WellFormed) (c : Call) :
    Numbered (c.perform pit) (c.enter pit entered) := by
  have hout := c.outcome_perform wf
  generalize c.perform pit = pit' at hout ⊢
  cases hout with
  | found h hfound =>
    simp only [Call.enter, hfound]
    exact num
  | created h hnew cr =>
    simp only [Call.enter, hnew]
    exact num.created hnew cr
  | stale hnone =>
    rw [Call.enter, num.filter_of_get?_eq_none hnone]
    exact num
  | erased e hget => exact num.erase _

end Numbered

theorem numbered_withDefaultLifetime (lifetime : Millis) :
    Numbered (withDefaultLifetime lifetime) [] where
  mem_iff h i := by
    constructor
    · intro hmem
      cases hmem
    · intro ⟨e, hget, _⟩
      cases get?_eq_some_iff.mp hget
  serials := .nil
  lt_nextSerial h e hget := by cases get?_eq_some_iff.mp hget

/-- **The register** lists the live entries, and their numbers go up along it. -/
theorem numbered_run (lifetime : Millis) (calls : List Call) :
    Numbered (run calls (withDefaultLifetime lifetime))
      (register calls (withDefaultLifetime lifetime)) := by
  induction calls using List.reverseRecOn with
  | nil => exact numbered_withDefaultLifetime lifetime
  | append_singleton calls c ih =>
    rw [run_snoc, register_snoc]
    exact ih.perform (wellFormed_run lifetime calls) c

/-! ## The entries that Data satisfies, in order -/

theorem pairwise_insertBySerial {x : Nat × Handle} {l : List (Nat × Handle)}
    (hl : l.Pairwise fun a b => a.1 ≤ b.1) :
    (insertBySerial x l).Pairwise fun a b => a.1 ≤ b.1 := by
  induction l with
  | nil => exact List.pairwise_singleton _ x
  | cons y rest ih =>
    obtain ⟨hy, hrest⟩ := List.pairwise_cons.mp hl
    unfold insertBySerial
    split
    · next hle =>
      refine List.pairwise_cons.mpr ⟨?_, hl⟩
      intro z hz
      rcases List.mem_cons.mp hz with rfl | hz
      · exact hle
      · exact Nat.le_trans hle (hy z hz)
    · next hgt =>
      refine List.pairwise_cons.mpr ⟨?_, ih hrest⟩
      intro z hz
      rcases List.mem_cons.mp ((perm_insertBySerial x rest).mem_iff.mp hz) with rfl | hz
      · exact Nat.le_of_not_le hgt
      · exact hy z hz

theorem pairwise_foldr_insertBySerial (l : List (Nat × Handle)) :
    (l.foldr insertBySerial []).Pairwise fun a b => a.1 ≤ b.1 := by
  induction l with
  | nil => exact .nil
  | cons x rest ih => exact pairwise_insertBySerial ih

/-- A handle is sorted by the number of its entry. -/
theorem serialAt_of_found {P : Entry → Prop} [DecidablePred P] {a : Nat × Handle}
    (ha : ((pit.get? h).bind fun e => if P e then some (e.serial, h) else none) = some a) :
    pit.serialAt a.2 = a.1 := by
  obtain ⟨e, hget, hcond⟩ := Option.bind_eq_some_iff.mp ha
  obtain ⟨_, heq⟩ := Option.ite_none_right_eq_some.mp hcond
  cases heq
  exact serialAt_of_get? hget

theorem pairwise_dataMatches (pit : Pit) (d : Data) :
    (pit.dataMatches d).Pairwise fun h h' => pit.serialAt h ≤ pit.serialAt h' := by
  rw [dataMatches, List.pairwise_map]
  refine (pairwise_foldr_insertBySerial _).imp_of_mem ?_
  intro a b ha hb hle
  obtain ⟨_, _, ha'⟩ := List.mem_filterMap.mp ((perm_foldr_insertBySerial _).mem_iff.mp ha)
  obtain ⟨_, _, hb'⟩ := List.mem_filterMap.mp ((perm_foldr_insertBySerial _).mem_iff.mp hb)
  rwa [serialAt_of_found ha', serialAt_of_found hb']

/-- **Data finds** what filtering the register finds. -/
theorem Numbered.dataMatches_eq (num : Numbered pit entered) (wf : pit.WellFormed) (d : Data) :
    pit.dataMatches d = (entered.filter (·.2.Accepts d)).map Prod.fst := by
  have hnodup : ((entered.filter (·.2.Accepts d)).map Prod.fst).Nodup :=
    num.nodup.sublist (List.filter_sublist.map _)
  have hmem : ∀ h, h ∈ pit.dataMatches d ↔
      h ∈ (entered.filter (·.2.Accepts d)).map Prod.fst := by
    intro h
    simp only [mem_dataMatches wf, List.mem_map, List.mem_filter, decide_eq_true_eq]
    constructor
    · intro ⟨e, hget, hacc⟩
      exact ⟨(h, e.interest), ⟨(num.mem_iff h _).mpr ⟨e, hget, rfl⟩, hacc⟩, rfl⟩
    · rintro ⟨⟨h', i⟩, ⟨hreg, hacc⟩, rfl⟩
      obtain ⟨e, hget, rfl⟩ := (num.mem_iff h' i).mp hreg
      exact ⟨e, hget, hacc⟩
  have hsorted : ((entered.filter (·.2.Accepts d)).map Prod.fst).Pairwise
      fun h h' => pit.serialAt h ≤ pit.serialAt h' := by
    rw [List.pairwise_map]
    exact (num.serials.filter _).imp Nat.le_of_lt
  refine List.Perm.eq_of_pairwise ?_ (pairwise_dataMatches pit d) hsorted
    ((List.perm_ext_iff_of_nodup (nodup_dataMatches wf d) hnodup).mpr hmem)
  -- two live entries with one number are the same
  intro h h' hh hh' hle hle'
  obtain ⟨e, hget, _⟩ := (mem_dataMatches wf).mp hh
  obtain ⟨e', hget', _⟩ := (mem_dataMatches wf).mp ((hmem h').mpr hh')
  exact num.eq_of_serialAt_eq hget hget' (Nat.le_antisymm hle hle')

/-- What the Data `d` finds after the calls. -/
structure FindsInOrder (start : Pit) (calls : List Call) (d : Data) : Prop where
  /-- The register lists the live entries with the Interests that created them. -/
  mem_register_iff : ∀ h i, (h, i) ∈ register calls start ↔
    ∃ e, (run calls start).get? h = some e ∧ e.interest = i
  /-- It lists each once. -/
  nodup_register : ((register calls start).map Prod.fst).Nodup
  /-- The Data finds those whose Interest accepts it, in the order of their creation. -/
  dataMatches_eq_filter : (run calls start).dataMatches d =
    ((register calls start).filter (·.2.Accepts d)).map Prod.fst
  /-- No handle is found twice. -/
  nodup_matches : ((run calls start).dataMatches d).Nodup
  /-- Every handle found refers to an entry. -/
  resolves : ∀ h ∈ (run calls start).dataMatches d,
    ∃ e, (run calls start).get? h = some e ∧ e.interest.Accepts d

/-- **In the order of creation.** Whatever was inserted and erased, Data finds the live entries
whose Interest accepts it, each once and the one created first before the others. -/
theorem findsInOrder_run (lifetime : Millis) (calls : List Call) (d : Data) :
    FindsInOrder (withDefaultLifetime lifetime) calls d := by
  have wf := wellFormed_run lifetime calls
  have num := numbered_run lifetime calls
  constructor
  case mem_register_iff => exact num.mem_iff
  case nodup_register => exact num.nodup
  case dataMatches_eq_filter => exact num.dataMatches_eq wf d
  case nodup_matches => exact nodup_dataMatches wf d
  case resolves => exact fun h hh => (mem_dataMatches wf).mp hh

/-- The entry for `/` has the slot that the entry for `/a` had, and was created last. -/
example :
    let a : Name := ⟨[.ofChars ['a']]⟩
    let ab : Name := ⟨[.ofChars ['a'], .ofChars ['b']]⟩
    (run [.insert { name := a }, .insert { name := ab }, .erase ⟨0, 0⟩,
        .insert { name := ⟨[]⟩, canBePrefix := true }] (withDefaultLifetime 4000)).dataMatches
      { name := ab } = [⟨1, 0⟩, ⟨0, 1⟩] := by
  decide +kernel

end NamedData.Pit
