import NamedData.Proofs.Pit.Entry
import NamedData.Proofs.Replay

/-!
# The records of an entry over time

An entry is told of the Interests that come in and go out, and its records are deleted when Data
answers. On each side the records form a list that is changed in two ways: a record is put there,
in the place of the one of its face if there is one, or the records of some faces are dropped. Such
a list can be read off the changes. It has a record for each face for which one was put and not
dropped since, that is the one that was put last, and the records stand in the order in which they
first came into the list.

## Main definitions

* `Pit.Change`, a change to the records on one side of an entry
* `Pit.LastPut`, `Pit.HasRecord` and `Pit.EnteredAt`, what a sequence of changes says of a record
  and its face
* `Pit.OnePerFace`, a list holds what a sequence of changes says
* `Pit.Entry.Call` and `Pit.Entry.KeepsRecords`

## Main statements

* `Pit.OnePerFace.apply`, one change
* `Pit.Entry.keepsRecords_after`, any sequence of calls
-/
namespace NamedData.Pit

/-! ## One side of an entry -/

/-- A change to the records on one side of an entry. -/
inductive Change (ρ : Type)
  /-- A record is added, or takes the place of the one of its face. -/
  | put (r : ρ)
  /-- The records of these faces are deleted. -/
  | drop (faces : FaceId → Bool)

variable {ρ : Type} {face : ρ → FaceId} {c : Change ρ} {changes : List (Change ρ)} {r s : ρ}
  {records : List ρ} {f : FaceId} {j k : Nat}

namespace Change

def apply (face : ρ → FaceId) : Change ρ → List ρ → List ρ
  | put r, records => refresh face r records
  | drop faces, records => records.filter fun r => !faces (face r)

/-- The change puts a record for the face `f`. -/
def Puts (face : ρ → FaceId) (f : FaceId) : Change ρ → Prop
  | put r => face r = f
  | drop _ => False

/-- The change deletes the record of the face `f`. -/
def Drops (f : FaceId) : Change ρ → Prop
  | put _ => False
  | drop faces => faces f = true

theorem Puts.not_drops (h : c.Puts face f) : ¬ c.Drops f := by
  cases c with
  | put r => exact not_false
  | drop faces => exact h.elim

end Change

/-! ## What the changes say -/

/-- The record `r` was put, and no record of its face was put or deleted since. -/
def LastPut (face : ρ → FaceId) (r : ρ) : List (Change ρ) → Prop :=
  Lasts (fun _ c => c = .put r) fun c => ¬ c.Puts face (face r) ∧ ¬ c.Drops (face r)

/-- A record was put for the face `f`, and none was deleted since. -/
def HasRecord (face : ρ → FaceId) (f : FaceId) : List (Change ρ) → Prop :=
  Lasts (fun _ c => c.Puts face f) fun c => ¬ c.Drops f

/-- The change after the first `k` ones put a record for the face `f`, which had none, and none was
deleted since. -/
def EnteredAt (face : ρ → FaceId) (f : FaceId) (k : Nat) : List (Change ρ) → Prop :=
  Lasts (fun earlier c => earlier.length = k ∧ c.Puts face f ∧ ¬ HasRecord face f earlier)
    fun c => ¬ c.Drops f

theorem lastPut_concat : LastPut face r (changes ++ [c]) ↔
    c = .put r ∨ (¬ c.Puts face (face r) ∧ ¬ c.Drops (face r)) ∧ LastPut face r changes :=
  lasts_concat

theorem hasRecord_concat : HasRecord face f (changes ++ [c]) ↔
    c.Puts face f ∨ ¬ c.Drops f ∧ HasRecord face f changes :=
  lasts_concat

theorem enteredAt_concat : EnteredAt face f k (changes ++ [c]) ↔
    (changes.length = k ∧ c.Puts face f ∧ ¬ HasRecord face f changes) ∨
      ¬ c.Drops f ∧ EnteredAt face f k changes :=
  lasts_concat

/-- A face has a record exactly if one was put last for it. -/
theorem hasRecord_iff : HasRecord face f changes ↔ ∃ r, face r = f ∧ LastPut face r changes := by
  constructor
  · intro hhas
    induction changes using List.reverseRecOn with
    | nil => exact absurd hhas not_lasts_nil
    | append_singleton changes c ih =>
      by_cases hputs : c.Puts face f
      · cases c with
        | put r => exact ⟨r, hputs, lastPut_concat.mpr (.inl rfl)⟩
        | drop faces => exact hputs.elim
      · obtain ⟨hdrops, hbefore⟩ := (hasRecord_concat.mp hhas).resolve_left hputs
        obtain ⟨r, rfl, hlast⟩ := ih hbefore
        exact ⟨r, rfl, lastPut_concat.mpr (.inr ⟨⟨hputs, hdrops⟩, hlast⟩)⟩
  · rintro ⟨r, rfl, hlast⟩
    refine hlast.imp ?_ fun _ hc => hc.2
    rintro _ _ rfl
    exact rfl

namespace EnteredAt

theorem hasRecord (h : EnteredAt face f k changes) : HasRecord face f changes :=
  h.imp (fun _ _ hc => hc.2.1) fun _ hc => hc

theorem lt_length (h : EnteredAt face f k changes) : k < changes.length := by
  obtain ⟨earlier, c, later, rfl, ⟨rfl, -⟩, -⟩ := h
  simp

/-- One more change does not say when the record of a face has entered that has one. -/
theorem of_concat (h : EnteredAt face f k (changes ++ [c])) (hhas : HasRecord face f changes) :
    EnteredAt face f k changes := by
  rcases enteredAt_concat.mp h with ⟨-, -, hnone⟩ | ⟨-, hbefore⟩
  · exact absurd hhas hnone
  · exact hbefore

/-- A record that is new has entered with the last change. -/
theorem eq_length_of_concat (h : EnteredAt face f k (changes ++ [c]))
    (hnone : ¬ HasRecord face f changes) : k = changes.length := by
  rcases enteredAt_concat.mp h with ⟨rfl, -⟩ | ⟨-, hbefore⟩
  · rfl
  · exact absurd hbefore.hasRecord hnone

end EnteredAt

/-- A record that is there has entered at some time. -/
theorem HasRecord.exists_enteredAt (h : HasRecord face f changes) :
    ∃ k, EnteredAt face f k changes := by
  induction changes using List.reverseRecOn with
  | nil => exact absurd h not_lasts_nil
  | append_singleton changes c ih =>
    by_cases hbefore : HasRecord face f changes
    · obtain ⟨k, hk⟩ := ih hbefore
      have hkept : ¬ c.Drops f := (hasRecord_concat.mp h).elim Change.Puts.not_drops And.left
      exact ⟨k, enteredAt_concat.mpr (.inr ⟨hkept, hk⟩)⟩
    · have hputs := (hasRecord_concat.mp h).resolve_right fun hc => hbefore hc.2
      exact ⟨changes.length, enteredAt_concat.mpr (.inl ⟨rfl, hputs, hbefore⟩)⟩

/-! ## What a list holds -/

/-- The list holds the records that the changes have left. -/
structure OnePerFace (face : ρ → FaceId) (changes : List (Change ρ)) (records : List ρ) :
    Prop where
  /-- No face has two records. -/
  nodup : (records.map face).Nodup
  /-- A record is the last one that was put for its face, which was not deleted since. -/
  mem_iff : ∀ r, r ∈ records ↔ LastPut face r changes
  /-- The record of a face has entered the list at some time. -/
  exists_enteredAt : ∀ f ∈ records.map face, ∃ k, EnteredAt face f k changes
  /-- What has entered first stands first. -/
  inOrder : (records.map face).Pairwise fun f g =>
    ∀ j k, EnteredAt face f j changes → EnteredAt face g k changes → j < k

namespace OnePerFace

theorem nil (face : ρ → FaceId) : OnePerFace face [] [] where
  nodup := .nil
  mem_iff _ := iff_of_false List.not_mem_nil not_lasts_nil
  exists_enteredAt _ hf := absurd hf List.not_mem_nil
  inOrder := .nil

theorem mem_faces_iff (h : OnePerFace face changes records) :
    f ∈ records.map face ↔ HasRecord face f changes := by
  simp only [hasRecord_iff, ← h.mem_iff, List.mem_map, and_comm]

/-- The faces that were in the list stand in the order of their entry after one more change. -/
theorem inOrder_concat (h : OnePerFace face changes records) (c : Change ρ) :
    (records.map face).Pairwise fun f g =>
      ∀ j k, EnteredAt face f j (changes ++ [c]) → EnteredAt face g k (changes ++ [c]) → j < k := by
  refine h.inOrder.imp_of_mem fun hf hg hlt j k hj hk => ?_
  exact hlt j k (hj.of_concat (h.mem_faces_iff.mp hf)) (hk.of_concat (h.mem_faces_iff.mp hg))

theorem mem_apply_iff (h : OnePerFace face changes records) (c : Change ρ) :
    s ∈ c.apply face records ↔ LastPut face s (changes ++ [c]) := by
  rw [lastPut_concat, ← h.mem_iff]
  cases c with
  | put r =>
    rw [Change.apply, mem_refresh_iff h.nodup]
    simp [Change.Puts, Change.Drops, eq_comm, and_comm]
  | drop faces => simp [Change.apply, Change.Puts, Change.Drops, and_comm]

/-- **One change** leaves a list that holds what the changes say. -/
theorem apply (h : OnePerFace face changes records) (c : Change ρ) :
    OnePerFace face (changes ++ [c]) (c.apply face records) := by
  have hmem : ∀ s, s ∈ c.apply face records ↔ LastPut face s (changes ++ [c]) :=
    fun _ => h.mem_apply_iff c
  have hentered : ∀ f ∈ (c.apply face records).map face,
      ∃ k, EnteredAt face f k (changes ++ [c]) := by
    intro f hf
    obtain ⟨r, hr, hface⟩ := List.mem_map.mp hf
    exact (hasRecord_iff.mpr ⟨r, hface, (hmem r).mp hr⟩).exists_enteredAt
  have hold := h.inOrder_concat c
  cases c with
  | put r =>
    refine ⟨nodup_refresh h.nodup, hmem, hentered, ?_⟩
    rw [Change.apply]
    by_cases hface : face r ∈ records.map face
    · rwa [map_face_refresh_of_mem hface]
    · rw [refresh_of_not_mem hface, List.map_append, List.map_singleton, List.pairwise_append]
      refine ⟨hold, List.pairwise_singleton _ _, fun f hf g hg j k hj hk => ?_⟩
      -- the new record has entered last
      rw [List.mem_singleton.mp hg] at hk
      rw [hk.eq_length_of_concat (mt h.mem_faces_iff.mpr hface)]
      exact (hj.of_concat (h.mem_faces_iff.mp hf)).lt_length
  | drop faces =>
    have hsub : (((Change.drop faces).apply face records).map face).Sublist (records.map face) :=
      List.filter_sublist.map face
    exact ⟨h.nodup.sublist hsub, hmem, hentered, hold.sublist hsub⟩

end OnePerFace

/-! ## Both sides -/

namespace Entry

/-- What happens to the records of an entry. -/
inductive Call
  | receivedOn (face : FaceId) (isLocal : Bool) (i : Interest) (now : Instant)
  | sentOn (face : FaceId) (i : Interest) (now : Instant)
  | deleteInRecords
  | deleteOutRecord (face : FaceId)

namespace Call

def perform : Call → Entry → Entry
  | receivedOn face isLocal i now, e => e.receivedOn face isLocal i now
  | sentOn face i now, e => e.sentOn face i now
  | deleteInRecords, e => e.deleteInRecords
  | deleteOutRecord face, e => e.deleteOutRecord face

/-- What the call does to the in-records of an entry under the default lifetime `lifetime`. -/
def inChange (lifetime : Millis) : Call → Change InRecord
  | receivedOn face isLocal i now =>
    .put
      { face, isLocal, lastNonce := i.nonce, lastRenewed := now,
        expiry := now + i.lifetime.getD lifetime, interest := i }
  | deleteInRecords => .drop fun _ => true
  | sentOn .. | deleteOutRecord _ => .drop fun _ => false

/-- What the call does to the out-records of an entry under the default lifetime `lifetime`. -/
def outChange (lifetime : Millis) : Call → Change OutRecord
  | sentOn face i now =>
    .put
      { face, lastNonce := i.nonce, lastRenewed := now,
        expiry := now + i.lifetime.getD lifetime }
  | deleteOutRecord face => .drop (· = face)
  | receivedOn .. | deleteInRecords => .drop fun _ => false

end Call

variable {e : Entry} {calls : List Call}

/-- The entry without its records. -/
def withoutRecords (e : Entry) : Entry := { e with inRecords := [], outRecords := [] }

theorem inRecords_perform (c : Call) (e : Entry) :
    (c.perform e).inRecords = (c.inChange e.defaultLifetime).apply InRecord.face e.inRecords := by
  cases c <;> simp [Call.perform, Call.inChange, Change.apply, receivedOn, sentOn, lifetimeOf,
    deleteInRecords, deleteOutRecord]

theorem outRecords_perform (c : Call) (e : Entry) :
    (c.perform e).outRecords =
      (c.outChange e.defaultLifetime).apply OutRecord.face e.outRecords := by
  cases c <;> simp [Call.perform, Call.outChange, Change.apply, receivedOn, sentOn, lifetimeOf,
    deleteInRecords, deleteOutRecord]

theorem withoutRecords_perform (c : Call) (e : Entry) :
    (c.perform e).withoutRecords = e.withoutRecords := by
  cases c <;> rfl

/-- The entry `e` after the calls. -/
def after (e : Entry) (calls : List Call) : Entry := calls.foldl (fun e c => c.perform e) e

theorem after_concat (e : Entry) (calls : List Call) (c : Call) :
    e.after (calls ++ [c]) = c.perform (e.after calls) :=
  List.foldl_concat ..

/-- What the entry `e` shows of the calls since it was `new`. -/
structure KeepsRecords (new : Entry) (calls : List Call) (e : Entry) : Prop where
  inRecords : OnePerFace InRecord.face (calls.map (·.inChange new.defaultLifetime)) e.inRecords
  outRecords : OnePerFace OutRecord.face (calls.map (·.outChange new.defaultLifetime)) e.outRecords
  /-- Nothing but the records has changed. -/
  rest_eq : e.withoutRecords = new
  /-- A nonce was seen on another face exactly if a record of another face carries it. -/
  otherFace_iff : ∀ nonce f, e.findNonce nonce f = .otherFace ↔ ∃ g, g ≠ f ∧ e.Carries g nonce
  /-- It was seen on the same face exactly if only records of that face carry it. -/
  sameFace_iff : ∀ nonce f, e.findNonce nonce f = .sameFace ↔
    e.Carries f nonce ∧ ∀ g, e.Carries g nonce → g = f
  /-- It was never seen exactly if no record carries it. -/
  never_iff : ∀ nonce f, e.findNonce nonce f = .never ↔ ∀ g, ¬ e.Carries g nonce
  /-- The latest expiry is that of an in-record, and no in-record expires later. -/
  lastExpiry?_eq_some_iff : ∀ x, e.lastExpiry? = some x ↔
    (∃ r ∈ e.inRecords, r.expiry = x) ∧ ∀ r ∈ e.inRecords, r.expiry ≤ x
  lastExpiry?_eq_none_iff : e.lastExpiry? = none ↔ e.inRecords = []

/-- The rest of an entry stays, and with it the default lifetime. -/
theorem withoutRecords_after (e : Entry) (calls : List Call) :
    (e.after calls).withoutRecords = e.withoutRecords := by
  induction calls using List.reverseRecOn with
  | nil => rfl
  | append_singleton calls c ih => rw [after_concat, withoutRecords_perform, ih]

theorem defaultLifetime_after (e : Entry) (calls : List Call) :
    (e.after calls).defaultLifetime = e.defaultLifetime :=
  (congrArg defaultLifetime (withoutRecords_after e calls) :)

/-- Each side holds what the calls have done to it. -/
theorem onePerFace_after (e : Entry) (calls : List Call) :
    OnePerFace InRecord.face (calls.map (·.inChange e.defaultLifetime))
        (e.withoutRecords.after calls).inRecords ∧
      OnePerFace OutRecord.face (calls.map (·.outChange e.defaultLifetime))
        (e.withoutRecords.after calls).outRecords := by
  induction calls using List.reverseRecOn with
  | nil => exact ⟨.nil _, .nil _⟩
  | append_singleton calls c ih =>
    have hlifetime := defaultLifetime_after e.withoutRecords calls
    simp only [after_concat, inRecords_perform, outRecords_perform, hlifetime, List.map_append,
      List.map_singleton]
    exact ⟨ih.1.apply _, ih.2.apply _⟩

/-- **The records of an entry**, whatever Interests came in and went out on whatever faces, and
whatever was deleted in between. -/
theorem keepsRecords_after (e : Entry) (calls : List Call) :
    KeepsRecords e.withoutRecords calls (e.withoutRecords.after calls) where
  inRecords := (onePerFace_after e calls).1
  outRecords := (onePerFace_after e calls).2
  rest_eq := withoutRecords_after e.withoutRecords calls
  otherFace_iff _ _ := findNonce_eq_otherFace_iff
  sameFace_iff _ _ := findNonce_eq_sameFace_iff
  never_iff _ _ := findNonce_eq_never_iff
  lastExpiry?_eq_some_iff _ := lastExpiry?_eq_some_iff
  lastExpiry?_eq_none_iff := lastExpiry?_eq_none_iff

end Entry

end NamedData.Pit
