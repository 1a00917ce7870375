import NamedData.ContentStore
import NamedData.Proofs.SortedMap
import Mathlib.Logic.Function.Iterate

/-!
# Two lists of Data

Two lists say what a content store keeps: the Data that nobody asked for and the Data that was
asked for, in both the one whose last use is the oldest first. Data that is stored or found goes to
the end of a list, and what is over the capacity is dropped from the front, of the first list as
long as there is anything in it.

## Main definitions

* `Kept`, `RecencyLists` and its operations
* `RecencyLists.Within`, no more is kept than the capacity

## Main statements

* `RecencyLists.dropExcess_of_lt`, `RecencyLists.dropExcess_induction`
* `RecencyLists.mem_solicited_insert`, what was asked for stays when other Data comes in
* `RecencyLists.mem_solicited_insert_self`, Data that is asked for is kept
* `RecencyLists.answer?_eq_some_iff`
-/
namespace NamedData

/-- Data that is kept, and when it was stored. -/
structure Kept where
  data : Data
  since : Instant
deriving DecidableEq

namespace Kept

def name (k : Kept) : Name := k.data.name

/-- The Data has not turned stale yet. -/
def IsFresh (k : Kept) (now : Instant) : Prop :=
  ∀ period ∈ k.data.freshness, now < k.since + period

instance (k : Kept) (now : Instant) : Decidable (k.IsFresh now) :=
  inferInstanceAs (Decidable (∀ period ∈ k.data.freshness, now < k.since + period))

/-- The Data may answer `i`. -/
def Answers (k : Kept) (i : Interest) (now : Instant) : Prop :=
  i.Accepts k.data ∧ (i.mustBeFresh = true → k.IsFresh now)

instance (k : Kept) (i : Interest) (now : Instant) : Decidable (k.Answers i now) :=
  inferInstanceAs (Decidable (_ ∧ _))

/-- The entry for the Data in a content store. -/
def entry (k : Kept) (unsolicited : Bool) (seq : Nat) : ContentStore.Entry :=
  ⟨k.data, k.data.freshness.map (k.since + ·), unsolicited, seq⟩

theorem serves_entry (k : Kept) (unsolicited : Bool) (seq : Nat) (i : Interest) (now : Instant) :
    (k.entry unsolicited seq).Serves i now ↔ (i.mustBeFresh = true → k.IsFresh now) := by
  simp [ContentStore.Entry.Serves, ContentStore.Entry.IsFresh, IsFresh, entry]

end Kept

/-- What is kept, the oldest use first, and how much of it there may be. -/
structure RecencyLists where
  /-- Data that nobody asked for. -/
  unsolicited : List Kept := []
  /-- Data that was asked for. -/
  solicited : List Kept := []
  capacity : Nat

namespace RecencyLists

def withCapacity (capacity : Nat) : RecencyLists := { capacity }

/-- One of the two lists. -/
def list (r : RecencyLists) (unsolicited : Bool) : List Kept :=
  if unsolicited then r.unsolicited else r.solicited

/-- All that is kept. -/
def all (r : RecencyLists) : List Kept := r.unsolicited ++ r.solicited

def erase (r : RecencyLists) (n : Name) : RecencyLists :=
  { r with
    unsolicited := r.unsolicited.filter (·.name ≠ n)
    solicited := r.solicited.filter (·.name ≠ n) }

/-- Add `k` at the end of one of the lists. -/
def append (r : RecencyLists) (k : Kept) (unsolicited : Bool) : RecencyLists :=
  if unsolicited then { r with unsolicited := r.unsolicited ++ [k] }
  else { r with solicited := r.solicited ++ [k] }

/-- Put `k` at the end of one of the lists, in place of what has its name. -/
def put (r : RecencyLists) (k : Kept) (unsolicited : Bool) : RecencyLists :=
  (r.erase k.name).append k unsolicited

/-- Drop the first Data that nobody asked for or, if there is none, the first that was asked for. -/
def dropOldest (r : RecencyLists) : RecencyLists :=
  match r.unsolicited, r.solicited with
  | _ :: rest, _ => { r with unsolicited := rest }
  | [], _ :: rest => { r with solicited := rest }
  | [], [] => r

/-- Drop Data as often as there is more of it than the capacity. -/
def dropExcess (r : RecencyLists) : RecencyLists := dropOldest^[r.all.length - r.capacity] r

def insert (r : RecencyLists) (d : Data) (unsolicited : Bool) (now : Instant) : RecencyLists :=
  if r.capacity = 0 then r
  else (r.put ⟨d, now⟩ (unsolicited && !r.solicited.any (·.name = d.name))).dropExcess

/-- The Data that answers `i`, that of the smallest name if there are several. -/
def answer? (r : RecencyLists) (i : Interest) (now : Instant) : Option Kept :=
  r.all.find? fun k => k.Answers i now ∧
    ∀ k' ∈ r.all, k'.Answers i now → (compare k.name k'.name).isLE = true

/-- Find the Data that answers `i`, and move it to the end of its list. -/
def find (r : RecencyLists) (i : Interest) (now : Instant) : Option Data × RecencyLists :=
  match r.answer? i now with
  | none => (none, r)
  | some k => (some k.data, r.put k (k ∈ r.unsolicited))

def setCapacity (r : RecencyLists) (capacity : Nat) : RecencyLists :=
  { r with capacity }.dropExcess

variable {r : RecencyLists} {k k' : Kept} {n : Name} {i : Interest} {now : Instant}

theorem mem_all_iff : k ∈ r.all ↔ ∃ unsolicited, k ∈ r.list unsolicited := by
  simp [all, list, or_comm]

theorem list_erase (r : RecencyLists) (n : Name) (mark : Bool) :
    (r.erase n).list mark = (r.list mark).filter (·.name ≠ n) := by
  cases mark <;> rfl

theorem list_append (r : RecencyLists) (k : Kept) (unsolicited mark : Bool) :
    (r.append k unsolicited).list mark =
      if mark = unsolicited then r.list mark ++ [k] else r.list mark := by
  cases unsolicited <;> cases mark <;> rfl

theorem capacity_append (r : RecencyLists) (k : Kept) (unsolicited : Bool) :
    (r.append k unsolicited).capacity = r.capacity := by
  cases unsolicited <;> rfl

/-! ## Lists within the capacity -/

theorem length_dropOldest (r : RecencyLists) : r.dropOldest.all.length = r.all.length - 1 := by
  obtain ⟨_ | ⟨k, rest⟩, _ | ⟨k', rest'⟩, capacity⟩ := r <;> simp [dropOldest, all]

theorem capacity_dropOldest (r : RecencyLists) : r.dropOldest.capacity = r.capacity := by
  unfold dropOldest
  split <;> rfl

theorem dropExcess_of_le (hle : r.all.length ≤ r.capacity) : r.dropExcess = r := by
  rw [dropExcess, Nat.sub_eq_zero_of_le hle]
  rfl

/-- What is over the capacity is dropped one after the other. -/
theorem dropExcess_of_lt (hlt : r.capacity < r.all.length) :
    r.dropExcess = r.dropOldest.dropExcess := by
  have hsucc : r.all.length - r.capacity =
      r.dropOldest.all.length - r.dropOldest.capacity + 1 := by
    rw [length_dropOldest, capacity_dropOldest]
    omega
  rw [dropExcess, hsucc, Function.iterate_succ_apply]
  rfl

/-- No more is kept than the capacity. -/
def Within (r : RecencyLists) : Prop := r.all.length ≤ r.capacity

/-- What holds of the lists still holds when what is over the capacity is dropped, if it holds
after one is dropped. Then they are within the capacity. -/
theorem dropExcess_induction {P : RecencyLists → Prop}
    (hstep : ∀ r, r.capacity < r.all.length → P r → P r.dropOldest) (h : P r) :
    P r.dropExcess ∧ r.dropExcess.Within := by
  generalize hexcess : r.all.length - r.capacity = excess
  induction excess generalizing r with
  | zero =>
    have hle := Nat.le_of_sub_eq_zero hexcess
    rw [dropExcess_of_le hle]
    exact ⟨h, hle⟩
  | succ excess ih =>
    have hlt : r.capacity < r.all.length := by omega
    rw [dropExcess_of_lt hlt]
    refine ih (hstep r hlt h) ?_
    rw [length_dropOldest, capacity_dropOldest]
    omega

theorem within_dropExcess (r : RecencyLists) : r.dropExcess.Within :=
  (dropExcess_induction (P := fun _ => True) (fun _ _ h => h) trivial).2

theorem solicited_dropOldest (r : RecencyLists) :
    r.dropOldest.solicited = if r.unsolicited = [] then r.solicited.tail else r.solicited := by
  obtain ⟨_ | ⟨k, rest⟩, _ | ⟨k', rest'⟩, capacity⟩ := r <;> rfl

/-- What was asked for is not dropped as long as there is no more of it than the capacity. -/
theorem solicited_dropExcess (hle : r.solicited.length ≤ r.capacity) :
    r.dropExcess.solicited = r.solicited := by
  suffices h : r.dropExcess.capacity = r.capacity ∧ r.dropExcess.solicited = r.solicited from h.2
  refine (dropExcess_induction (P := fun r' => r'.capacity = r.capacity ∧
    r'.solicited = r.solicited) (fun r' hlt h => ?_) ⟨rfl, rfl⟩).1
  have hsome : r'.unsolicited ≠ [] := by
    intro hnil
    rw [all, hnil, List.nil_append, h.1, h.2] at hlt
    exact Nat.not_lt.mpr hle hlt
  rw [capacity_dropOldest, solicited_dropOldest, if_neg hsome]
  exact h

/-- What was asked for last is not dropped, unless there may be nothing. -/
theorem last_dropExcess (hcapacity : r.capacity ≠ 0) (hlast : ∃ l, r.solicited = l ++ [k]) :
    ∃ l, r.dropExcess.solicited = l ++ [k] := by
  suffices h : r.dropExcess.capacity = r.capacity ∧ ∃ l, r.dropExcess.solicited = l ++ [k] from h.2
  refine (dropExcess_induction (P := fun r' => r'.capacity = r.capacity ∧
    ∃ l, r'.solicited = l ++ [k]) (fun r' hlt h => ?_) ⟨rfl, hlast⟩).1
  obtain ⟨hcap, l, hl⟩ := h
  rw [capacity_dropOldest, solicited_dropOldest]
  refine ⟨hcap, ?_⟩
  split
  · next hnil =>
    -- more than one packet is left, and all that are left were asked for
    rw [all, hnil, List.nil_append, hl, List.length_append, List.length_singleton, hcap] at hlt
    cases l with
    | nil => exact absurd (Nat.lt_one_iff.mp hlt) hcapacity
    | cons k' l => exact ⟨l, by rw [hl]; rfl⟩
  · exact ⟨l, hl⟩

/-! ## Replacing -/

theorem length_erase_le (r : RecencyLists) (n : Name) :
    (r.erase n).all.length ≤ r.all.length := by
  simp only [erase, all, ← List.filter_append]
  exact List.length_filter_le _ _

theorem length_erase_lt (hk : k ∈ r.all) : (r.erase k.name).all.length < r.all.length := by
  simp only [erase, all, ← List.filter_append]
  exact List.length_filter_lt_length_iff_exists.mpr ⟨k, hk, by simp⟩

theorem length_put (r : RecencyLists) (k : Kept) (unsolicited : Bool) :
    (r.put k unsolicited).all.length = (r.erase k.name).all.length + 1 := by
  cases unsolicited <;> simp [put, append, all] <;> omega

theorem capacity_put (r : RecencyLists) (k : Kept) (unsolicited : Bool) :
    (r.put k unsolicited).capacity = r.capacity :=
  capacity_append _ _ _

theorem within_insert (hwithin : r.Within) (d : Data) (unsolicited : Bool) (now : Instant) :
    (r.insert d unsolicited now).Within := by
  unfold insert
  split
  · exact hwithin
  · exact within_dropExcess _

theorem within_find (hwithin : r.Within) (i : Interest) (now : Instant) :
    (r.find i now).2.Within := by
  unfold find
  split
  · exact hwithin
  · next k hanswer =>
    rw [Within, length_put, capacity_put]
    exact Nat.le_trans (length_erase_lt (List.mem_of_find?_eq_some hanswer)) hwithin

theorem within_erase (hwithin : r.Within) (n : Name) : (r.erase n).Within :=
  Nat.le_trans (length_erase_le r n) hwithin

/-- Data that nobody asked for takes nothing away from what was asked for. Data of its name was
asked for afterwards if it was before. -/
theorem mem_solicited_insert (hwithin : r.Within) (hk : k ∈ r.solicited) (d : Data)
    (now : Instant) : ∃ k' ∈ (r.insert d true now).solicited, k'.name = k.name ∧
      (k.name ≠ d.name → k' = k) := by
  have hlength : r.solicited.length ≤ r.capacity := by
    refine Nat.le_trans ?_ hwithin
    rw [all, List.length_append]
    exact Nat.le_add_left _ _
  unfold insert
  split
  · exact ⟨k, hk, rfl, fun _ => rfl⟩
  · by_cases hold : ∃ k' ∈ r.solicited, k'.name = d.name
    · have hmark : (true && !r.solicited.any (·.name = d.name)) = false := by simpa using hold
      have hput : (r.put ⟨d, now⟩ false).solicited =
          r.solicited.filter (·.name ≠ d.name) ++ [⟨d, now⟩] := rfl
      have hshort : (r.solicited.filter (·.name ≠ d.name)).length < r.solicited.length :=
        List.length_filter_lt_length_iff_exists.mpr (by simpa using hold)
      rw [hmark, solicited_dropExcess, hput]
      · by_cases hname : k.name = d.name
        · exact ⟨⟨d, now⟩, by simp, hname.symm, fun hne => absurd hname hne⟩
        · exact ⟨k, by simp [hk, hname], rfl, fun _ => rfl⟩
      · rw [hput, capacity_put, List.length_append]
        exact Nat.le_trans hshort hlength
    · have hmark : (true && !r.solicited.any (·.name = d.name)) = true := by simpa using hold
      have hput : (r.put ⟨d, now⟩ true).solicited = r.solicited.filter (·.name ≠ d.name) := rfl
      have hname : k.name ≠ d.name := fun heq => hold ⟨k, hk, heq⟩
      rw [hmark, solicited_dropExcess, hput]
      · exact ⟨k, by simp [hk, hname], rfl, fun _ => rfl⟩
      · rw [hput, capacity_put]
        exact Nat.le_trans (List.length_filter_le _ _) hlength

/-- Data that was asked for is kept, unless there may be nothing. -/
theorem mem_solicited_insert_self (hcapacity : r.capacity ≠ 0) (d : Data) (now : Instant) :
    ⟨d, now⟩ ∈ (r.insert d false now).solicited := by
  have hlast : ∃ l, (r.put ⟨d, now⟩ false).solicited = l ++ [⟨d, now⟩] := ⟨_, rfl⟩
  rw [insert, if_neg hcapacity, Bool.false_and]
  obtain ⟨l, hl⟩ := last_dropExcess (by rwa [capacity_put]) hlast
  rw [hl]
  exact List.mem_append_right _ (List.mem_singleton_self _)

/-- What is dropped first is the first of all. -/
theorem dropOldest_eq_erase (r : RecencyLists) (hnodup : (r.all.map Kept.name).Nodup)
    {rest : List Kept} (hall : r.all = k :: rest) : r.dropOldest = r.erase k.name := by
  rw [hall, List.map_cons, List.nodup_cons] at hnodup
  have hothers : ∀ k' ∈ rest, k'.name ≠ k.name :=
    fun k' hk' heq => hnodup.1 (heq ▸ List.mem_map_of_mem hk')
  have hfilter : ∀ l ⊆ rest, l.filter (·.name ≠ k.name) = l :=
    fun l hl => List.filter_eq_self.mpr fun k' hk' => decide_eq_true (hothers k' (hl hk'))
  obtain ⟨unsolicited, solicited, capacity⟩ := r
  cases unsolicited with
  | nil =>
    obtain rfl : solicited = k :: rest := hall
    have hrest := (hfilter rest (List.Subset.refl _)).symm
    simpa [dropOldest, erase] using hrest
  | cons k' unsolicited =>
    obtain ⟨rfl, rfl⟩ := List.cons_eq_cons.mp hall
    have hrest := (hfilter unsolicited (List.subset_append_left _ _)).symm
    have hsolicited := (hfilter solicited (List.subset_append_right _ _)).symm
    simpa [dropOldest, erase] using And.intro hrest hsolicited

/-! ## What answers -/

theorem answer?_eq_some_iff (hnodup : (r.all.map Kept.name).Nodup) :
    r.answer? i now = some k ↔ k ∈ r.all ∧ k.Answers i now ∧
      ∀ k' ∈ r.all, k'.Answers i now → (compare k.name k'.name).isLE = true := by
  rw [answer?, SortedMap.find?_eq_some_iff_of_unique, decide_eq_true_eq]
  -- two that both have the smallest name are the same
  intro hk hleast k' hk' hleast'
  rw [decide_eq_true_eq] at hleast hleast'
  have heq := Std.OrientedCmp.isLE_antisymm (hleast'.2 k hk hleast.1) (hleast.2 k' hk' hleast'.1)
  exact List.inj_on_of_nodup_map hnodup hk' hk (Std.LawfulEqOrd.eq_of_compare heq)

end RecencyLists

end NamedData
