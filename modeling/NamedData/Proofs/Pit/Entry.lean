import Mathlib.Data.List.Nodup
import NamedData.Pit.Entry

/-!
# Records of a pending Interest

What adding a record does to the other records of an entry, and which record is passed on.

## Main statements

* `mem_refresh_iff`, `nodup_refresh`, `find?_refresh`: the record that is added takes the place of
  the one of its face
* `Entry.inRecord?_receivedOn`, `Entry.countP_receivedOn_le`: an Interest that comes in touches
  the record of its own face, and adds at most one
* `Entry.findNonce_eq_otherFace_iff`, `Entry.findNonce_eq_sameFace_iff` and
  `Entry.findNonce_eq_never_iff`: where a nonce was seen, whatever the order of the records
* `Entry.lastExpiry?_eq_some_iff`, the latest expiry
* `Entry.mem_of_requestFor?`: what is passed on was received
-/
namespace NamedData.Pit

/-! ## Lists of records -/

section Refresh

variable {ρ : Type} {face : ρ → FaceId} {r s : ρ} {l : List ρ} {f : FaceId}

theorem refresh_of_not_mem (hnew : face r ∉ l.map face) : refresh face r l = l ++ [r] := by
  induction l with
  | nil => rfl
  | cons s rest ih =>
    rw [List.map_cons, List.mem_cons, not_or] at hnew
    rw [refresh, if_neg (Ne.symm hnew.1), ih hnew.2, List.cons_append]

/-- A record that is refreshed keeps its place. -/
theorem map_face_refresh_of_mem (hmem : face r ∈ l.map face) :
    (refresh face r l).map face = l.map face := by
  fun_induction refresh face r l with
  | case1 => cases hmem
  | case2 s rest heq => rw [List.map_cons, List.map_cons, heq]
  | case3 s rest hne ih =>
    rw [List.map_cons] at hmem
    rw [List.map_cons, List.map_cons, ih (List.mem_of_ne_of_mem (Ne.symm hne) hmem)]

theorem mem_refresh_self : r ∈ refresh face r l := by
  fun_induction refresh face r l with
  | case1 => exact List.mem_singleton_self r
  | case2 => exact List.mem_cons_self
  | case3 s _ _ ih => exact List.mem_cons_of_mem s ih

theorem mem_of_mem_refresh (hs : s ∈ refresh face r l) : s = r ∨ s ∈ l := by
  fun_induction refresh face r l with
  | case1 => exact .inl (List.mem_singleton.mp hs)
  | case2 t rest _ => exact (List.mem_cons.mp hs).imp_right (List.mem_cons_of_mem t)
  | case3 t rest _ ih =>
    rcases List.mem_cons.mp hs with rfl | hs
    · exact .inr List.mem_cons_self
    · exact (ih hs).imp_right (List.mem_cons_of_mem t)

/-- The records of other faces stay. -/
theorem mem_refresh_of_ne (hs : s ∈ l) (hne : face s ≠ face r) : s ∈ refresh face r l := by
  fun_induction refresh face r l with
  | case1 => cases hs
  | case2 t rest heq =>
    refine List.mem_cons_of_mem r ((List.mem_cons.mp hs).resolve_left ?_)
    rintro rfl
    exact hne heq
  | case3 t rest _ ih =>
    rcases List.mem_cons.mp hs with rfl | hs
    · exact List.mem_cons_self
    · exact List.mem_cons_of_mem t (ih hs)

theorem nodup_refresh (hnodup : (l.map face).Nodup) : ((refresh face r l).map face).Nodup := by
  by_cases hmem : face r ∈ l.map face
  · rwa [map_face_refresh_of_mem hmem]
  · rw [refresh_of_not_mem hmem, List.map_append, List.map_singleton, ← List.concat_eq_append]
    exact hnodup.concat hmem

/-- If every face has one record at most, the old record of the face is gone. -/
theorem mem_refresh_iff (hnodup : (l.map face).Nodup) :
    s ∈ refresh face r l ↔ s = r ∨ s ∈ l ∧ face s ≠ face r := by
  constructor
  · intro hs
    by_cases hface : face s = face r
    · have hinj := List.inj_on_of_nodup_map (nodup_refresh hnodup) hs mem_refresh_self
      exact .inl (hinj hface)
    · rcases mem_of_mem_refresh hs with rfl | hold
      · exact .inl rfl
      · exact .inr ⟨hold, hface⟩
  · rintro (rfl | ⟨hs, hne⟩)
    · exact mem_refresh_self
    · exact mem_refresh_of_ne hs hne

theorem countP_refresh_le :
    (refresh face r l).countP (face · = f) ≤
      l.countP (face · = f) + if f = face r then 1 else 0 := by
  fun_induction refresh face r l with
  | case1 => simp [List.countP_cons, eq_comm]
  | case2 s rest heq => simp [List.countP_cons, heq]
  | case3 s rest _ ih =>
    rw [List.countP_cons, List.countP_cons]
    omega

end Refresh

/-- A scan that stops at the first record of another face is as good as one that goes through all
records. -/
theorem NonceSeen.scan_eq (face : FaceId) (seen : NonceSeen) (l : List FaceId) :
    scan face seen l =
      if ∃ f ∈ l, f ≠ face then .otherFace else if l = [] then seen else .sameFace := by
  induction l generalizing seen with
  | nil => simp [scan]
  | cons f rest ih =>
    by_cases hf : f = face
    · simp [scan, hf, ih]
    · simp [scan, hf]

namespace Entry

variable {e : Entry} {f face : FaceId} {isLocal : Bool} {i : Interest} {now : Instant}

/-- The entry has no timer. -/
def Idle (e : Entry) : Prop := e.unsatisfyTimer = none ∧ e.stragglerTimer = none

/-- The entry without its timers. -/
def unarmed (e : Entry) : Entry := { e with unsatisfyTimer := none, stragglerTimer := none }

/-- The entry with the timer `id` for the case that no Data comes. -/
def armedUnsatisfy (id : TimerId) (e : Entry) : Entry := { e with unsatisfyTimer := some id }

/-- The entry with the timer `id` for the grace period. -/
def armedStraggler (id : TimerId) (e : Entry) : Entry := { e with stragglerTimer := some id }

/-- The timer `id` is one of the entry's. -/
def Holds (e : Entry) (id : TimerId) : Prop :=
  e.unsatisfyTimer = some id ∨ e.stragglerTimer = some id

theorem Idle.not_holds (h : e.Idle) (id : TimerId) : ¬ e.Holds id := by
  rintro (hu | hs)
  · rw [h.1] at hu
    cases hu
  · rw [h.2] at hs
    cases hs

/-! ## In-records -/

/-- The record that an Interest leaves which comes in on `face`. -/
def requestOf (e : Entry) (face : FaceId) (isLocal : Bool) (i : Interest) (now : Instant) :
    InRecord :=
  ⟨face, isLocal, i.nonce, now, now + e.lifetimeOf i, i⟩

theorem receivedOn_of_not_mem (hmem : ¬ ∃ r ∈ e.inRecords, r.face = face) :
    (e.receivedOn face isLocal i now).inRecords =
      e.inRecords ++ [e.requestOf face isLocal i now] :=
  refresh_of_not_mem fun hface => hmem (List.mem_map.mp hface)

theorem mem_receivedOn_self :
    e.requestOf face isLocal i now ∈ (e.receivedOn face isLocal i now).inRecords :=
  mem_refresh_self

/-- The new record takes the place of the one of its face. -/
theorem mem_receivedOn_iff (hnodup : (e.inRecords.map InRecord.face).Nodup) {r : InRecord} :
    r ∈ (e.receivedOn face isLocal i now).inRecords ↔
      r = e.requestOf face isLocal i now ∨ r ∈ e.inRecords ∧ r.face ≠ face :=
  mem_refresh_iff hnodup

theorem mem_receivedOn {r : InRecord} (hr : r ∈ (e.receivedOn face isLocal i now).inRecords) :
    r = e.requestOf face isLocal i now ∨ r ∈ e.inRecords :=
  mem_of_mem_refresh hr

theorem receivedOn_ne_nil : (e.receivedOn face isLocal i now).inRecords ≠ [] :=
  List.ne_nil_of_mem mem_receivedOn_self

theorem mem_of_inRecord? {r : InRecord} (h : e.inRecord? f = some r) :
    r ∈ e.inRecords ∧ r.face = f :=
  ⟨List.mem_of_find?_eq_some h, by simpa using List.find?_some h⟩

/-- An Interest that comes in adds at most one record, and that for its own face. -/
theorem countP_receivedOn_le :
    (e.receivedOn face isLocal i now).inRecords.countP (·.face = f) ≤
      e.inRecords.countP (·.face = f) + if f = face then 1 else 0 :=
  countP_refresh_le

/-! ## Nonces that were seen -/

/-- A record of the face `f` carries the nonce. -/
def Carries (e : Entry) (f : FaceId) (nonce : Nonce) : Prop :=
  (∃ r ∈ e.inRecords, r.lastNonce = nonce ∧ r.face = f) ∨
    ∃ r ∈ e.outRecords, r.lastNonce = nonce ∧ r.face = f

theorem mem_facesWith {nonce : Nonce} : f ∈ e.facesWith nonce ↔ e.Carries f nonce := by
  simp only [facesWith, Carries, List.mem_append, List.mem_map, List.mem_filter,
    decide_eq_true_eq, and_assoc]

theorem findNonce_eq_otherFace_iff {nonce : Nonce} :
    e.findNonce nonce f = .otherFace ↔ ∃ g, g ≠ f ∧ e.Carries g nonce := by
  simp only [findNonce, NonceSeen.scan_eq, ← mem_facesWith, and_comm (a := _ ≠ f)]
  split
  · next hother => exact iff_of_true rfl hother
  · next hsame => exact iff_of_false (by split <;> exact nofun) hsame

theorem findNonce_eq_never_iff {nonce : Nonce} :
    e.findNonce nonce f = .never ↔ ∀ g, ¬ e.Carries g nonce := by
  simp only [findNonce, NonceSeen.scan_eq, ← mem_facesWith, ← List.eq_nil_iff_forall_not_mem]
  split
  · next hother =>
    obtain ⟨g, hg, _⟩ := hother
    exact iff_of_false nofun (List.ne_nil_of_mem hg)
  · split
    · next hnil => exact iff_of_true rfl hnil
    · next hne => exact iff_of_false nofun hne

theorem findNonce_eq_sameFace_iff {nonce : Nonce} :
    e.findNonce nonce f = .sameFace ↔ e.Carries f nonce ∧ ∀ g, e.Carries g nonce → g = f := by
  constructor
  · intro hsame
    have hall : ∀ g, e.Carries g nonce → g = f := fun g hg => by
      by_contra hne
      have hother := findNonce_eq_otherFace_iff.mpr ⟨g, hne, hg⟩
      rw [hsame] at hother
      cases hother
    refine ⟨?_, hall⟩
    by_contra hnot
    have hnever := findNonce_eq_never_iff (f := f).mpr fun g hg => hnot (hall g hg ▸ hg)
    rw [hsame] at hnever
    cases hnever
  · rintro ⟨hf, hall⟩
    cases hseen : e.findNonce nonce f with
    | sameFace => rfl
    | never => exact absurd hf (findNonce_eq_never_iff.mp hseen f)
    | otherFace =>
      obtain ⟨g, hne, hg⟩ := findNonce_eq_otherFace_iff.mp hseen
      exact absurd (hall g hg) hne

/-! ## The latest expiry -/

theorem lastExpiry?_eq_some_iff {x : Instant} :
    e.lastExpiry? = some x ↔
      (∃ r ∈ e.inRecords, r.expiry = x) ∧ ∀ r ∈ e.inRecords, r.expiry ≤ x := by
  rw [lastExpiry?, List.max?_eq_some_iff]
  simp

theorem lastExpiry?_eq_none_iff : e.lastExpiry? = none ↔ e.inRecords = [] := by
  simp [lastExpiry?]

theorem exists_lastExpiry? (h : e.inRecords ≠ []) : ∃ x, e.lastExpiry? = some x := by
  rw [← Option.ne_none_iff_exists', ne_eq, lastExpiry?_eq_none_iff]
  exact h

theorem isPending_iff : e.isPending = true ↔ e.inRecords ≠ [] := by
  simp [isPending]

/-! ## The request that is passed on -/

theorem mem_of_foldl_supersedes (out : FaceId) (l : List InRecord) (best : Option InRecord)
    {r : InRecord}
    (h : l.foldl
      (fun best r =>
        match best with
        | none => some r
        | some s => if Supersedes out r s then some r else some s)
      best = some r) :
    best = some r ∨ r ∈ l := by
  induction l generalizing best with
  | nil => exact .inl h
  | cons s rest ih =>
    rcases ih _ h with hbest | hr
    · cases best with
      | none =>
        cases hbest
        exact .inr List.mem_cons_self
      | some t =>
        simp only at hbest
        split at hbest
        · cases hbest
          exact .inr List.mem_cons_self
        · exact .inl hbest
    · exact .inr (List.mem_cons_of_mem _ hr)

theorem mem_of_requestFor? {out : FaceId} {r : InRecord} (h : e.requestFor? out = some r) :
    r ∈ e.inRecords := by
  rcases mem_of_foldl_supersedes out e.inRecords none h with h | h
  · cases h
  · exact h

end Entry

end NamedData.Pit
