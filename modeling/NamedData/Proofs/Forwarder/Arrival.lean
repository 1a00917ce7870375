import NamedData.Proofs.Forwarder.Effects

/-!
# What becomes of an Interest that arrives

`Forwarder.Arrival` lists the ways that an Interest can go, each with what led to it and
the node that results. Every statement about arriving Interests goes through these cases.

## Main definitions

* `Forwarder.IsLoop`, the node has seen the Interest before
* `Forwarder.Admitted`, the Interest has got as far as an entry
* `Forwarder.Arrival`, with `arrival_receiveInterest`
-/
namespace NamedData

/-- The Interest as the node passes it on: a validation request notes the face it came in
on. -/
def Interest.arrivedOn (i : Interest) (f : FaceId) : Interest :=
  if i.validation then { i with path := i.path ++ [f] } else i

namespace Interest

variable (i : Interest) (f : FaceId)

@[simp] theorem name_arrivedOn : (i.arrivedOn f).name = i.name := by
  unfold arrivedOn; split <;> rfl

@[simp] theorem nonce_arrivedOn : (i.arrivedOn f).nonce = i.nonce := by
  unfold arrivedOn; split <;> rfl

@[simp] theorem lifetime_arrivedOn : (i.arrivedOn f).lifetime = i.lifetime := by
  unfold arrivedOn; split <;> rfl

@[simp] theorem validation_arrivedOn : (i.arrivedOn f).validation = i.validation := by
  unfold arrivedOn; split <;> rfl

@[simp] theorem locationRegistration_arrivedOn :
    (i.arrivedOn f).locationRegistration = i.locationRegistration := by
  unfold arrivedOn; split <;> rfl

end Interest

namespace Pit

/-- The entry for `i` has the handle `h` in `pit'`, where it is new or `pit'` is `pit`. -/
inductive Placed (pit : Pit) (i : Interest) (h : Handle) : Pit → Prop
  | found (hins : pit.insert i = (h, false, pit)) (hf : pit.find? i.name = some h) :
    Placed pit i h pit
  | created {pit' : Pit} (hins : pit.insert i = (h, true, pit')) (c : Created pit i h pit') :
    Placed pit i h pit'

theorem exists_placed {pit : Pit} (wf : pit.WellFormed) (i : Interest) :
    ∃ h pit' e, Placed pit i h pit' ∧ pit'.get? h = some e := by
  cases hf : pit.find? i.name with
  | some h =>
    obtain ⟨e, hget, _⟩ := wf.exists_of_find? hf
    exact ⟨h, pit, e, .found (insert_of_find? hf) hf, hget⟩
  | none =>
    obtain ⟨h, pit', hins, c⟩ := insert_created wf hf
    exact ⟨h, pit', _, .created hins c, c.get?_self⟩

namespace Placed

variable {pit pit' : Pit} {i : Interest} {h h' : Handle} {e : Entry}

/-- Nothing happens to an entry that is there. -/
theorem get?_of_get? (hplaced : Placed pit i h pit') (hget : pit.get? h' = some e) :
    pit'.get? h' = some e := by
  cases hplaced with
  | found _ _ => exact hget
  | created _ c => exact (c.get?_of_ne (c.ne_of_get? hget)).trans hget

theorem noneLost (hplaced : Placed pit i h pit') : NoneLost pit pit' :=
  fun _ e hget => ⟨e, hplaced.get?_of_get? hget⟩

/-- An entry that has requests was there before. -/
theorem get?_of_mem_inRecords (hplaced : Placed pit i h pit') {r : InRecord}
    (hget : pit'.get? h' = some e) (hr : r ∈ e.inRecords) : pit.get? h' = some e := by
  cases hplaced with
  | found _ _ => exact hget
  | created _ c =>
    rw [c.get?_eq] at hget
    split at hget
    · obtain rfl := Option.some.inj hget
      cases hr
    · exact hget

end Placed

/-- A new entry has seen no nonce. -/
theorem findNonce_freshEntry (pit : Pit) (i : Interest) (nonce : Nonce) (f : FaceId) :
    (pit.freshEntry i).findNonce nonce f = .never := rfl

end Pit

namespace Forwarder

variable {f : FaceId} {i : Interest} {fw : Forwarder} {face : Face} {h : Pit.Handle}
  {pit : Pit} {e : Pit.Entry}

/-- The entry of the name has seen the nonce, or the pair is on the dead nonce list. -/
def IsLoop (fw : Forwarder) (f : FaceId) (i : Interest) : Prop :=
  (∃ h e, fw.pit.find? i.name = some h ∧ fw.pit.get? h = some e ∧
    e.findNonce i.nonce f ≠ .never) ∨
  fw.deadNonces.Has i.name i.nonce fw.now

/-- The Interest `i` from the face `f` is not a location registration, is within its scope and
has the entry `e` with handle `h` in `pit`. -/
structure Admitted (fw : Forwarder) (f : FaceId) (i : Interest) (face : Face) (h : Pit.Handle)
    (pit : Pit) (e : Pit.Entry) : Prop where
  registered : fw.faces.get? f = some face
  request : i.locationRegistration = false
  inScope : ¬ (face.isLocal = false ∧ i.name.IsLocalhost)
  placed : Pit.Placed fw.pit (i.arrivedOn f) h pit
  get? : pit.get? h = some e

/-- The Interest is no loop and is not answered from the content store, so it becomes a
request of its entry. -/
structure Accepted (fw : Forwarder) (f : FaceId) (i : Interest) (face : Face) (h : Pit.Handle)
    (pit : Pit) (e : Pit.Entry) : Prop extends Admitted fw f i face h pit e where
  notLoop : ¬ fw.IsLoop f i
  unanswered : (e.isPending = true ∧ i.validation = false) ∨
    fw.store.lookup (i.arrivedOn f) fw.now = none

/-- The node once it works on the entry `h` of an Interest, which has no timers now. -/
def openEntry (pit : Pit) (h : Pit.Handle) (fw : Forwarder) : Forwarder :=
  { fw.count .inInterests with pit }.cancelTimers h

/-- The node once the request `i` from `face` has joined its entry. -/
def enlist (face : Face) (i : Interest) (h : Pit.Handle) (fw : Forwarder) : Forwarder :=
  { fw with pit := fw.pit.modify h (·.receivedOn face.id face.isLocal i fw.now) }.armUnsatisfy h

/-- What becomes of the Interest `i` that arrives on the face `f`. -/
inductive Arrival (hooks : Hooks) (f : FaceId) (i : Interest) (fw : Forwarder) : Forwarder → Prop
  | unknownFace (hface : fw.faces.get? f = none) :
    Arrival hooks f i fw ((fw.count .inInterests).log (.interestFromUnknownFace f i.name))
  | registration {face : Face} (hface : fw.faces.get? f = some face)
    (hreg : i.locationRegistration = true) :
    Arrival hooks f i fw ((fw.count .inInterests).registerLocation face (i.arrivedOn f))
  | outOfScope {face : Face} (hface : fw.faces.get? f = some face)
    (hreg : i.locationRegistration = false)
    (hscope : face.isLocal = false ∧ i.name.IsLocalhost) :
    Arrival hooks f i fw (fw.count .inInterests)
  /-- The Interest loops, and its entry was there before. -/
  | loop {face : Face} {h : Pit.Handle} {e : Pit.Entry}
    (adm : Admitted fw f i face h fw.pit e) (hloop : fw.IsLoop f i) :
    Arrival hooks f i fw ((fw.count .inInterests).count .interestLoops)
  /-- The Interest loops, and the entry that it created goes again. -/
  | newLoop {face : Face} {h : Pit.Handle} {pit : Pit} {e : Pit.Entry}
    (adm : Admitted fw f i face h pit e) (c : Pit.Created fw.pit (i.arrivedOn f) h pit)
    (hloop : fw.IsLoop f i) :
    Arrival hooks f i fw
      ({ fw.count .inInterests with pit := pit.erase h }.count .interestLoops)
  /-- The request joins its entry, and the strategy gets it. -/
  | accepted {face : Face} {h : Pit.Handle} {pit : Pit} {e : Pit.Entry} {fw₁ : Forwarder}
    (acc : Accepted fw f i face h pit e) (hquiet : Quiet (fw.openEntry pit h) fw₁) :
    Arrival hooks f i fw
      (hooks.receive ⟨face.id, i.arrivedOn f⟩ (fw.fib.longestPrefixMatch i.name) h
        (fw₁.enlist face (i.arrivedOn f) h))
  /-- The content store answers. -/
  | answered {face : Face} {h : Pit.Handle} {pit : Pit} {e : Pit.Entry} {d : Data}
    {store : ContentStore}
    (adm : Admitted fw f i face h pit e) (hloop : ¬ fw.IsLoop f i)
    (hask : e.isPending = false ∨ i.validation = true)
    (hstore : fw.store.find (i.arrivedOn f) fw.now = (some d, store)) :
    Arrival hooks f i fw
      (({ fw.openEntry pit h with store }.count .csHits).answerFromStore hooks face.id h d)

/-! ## An admitted Interest -/

theorem pit_openEntry (pit : Pit) (h : Pit.Handle) (fw : Forwarder) :
    (fw.openEntry pit h).pit = pit.modify h .unarmed :=
  pit_cancelTimers h _

theorem store_openEntry (pit : Pit) (h : Pit.Handle) (fw : Forwarder) :
    (fw.openEntry pit h).store = fw.store :=
  (rescheduled_cancelTimers h _).store

@[simp] theorem now_openEntry (pit : Pit) (h : Pit.Handle) (fw : Forwarder) :
    (fw.openEntry pit h).now = fw.now :=
  (rescheduled_cancelTimers h _).now

/-- The way of an Interest from a registered face. -/
theorem receiveInterest_of_face (hface : fw.faces.get? f = some face) (hooks : Hooks) :
    fw.receiveInterest hooks f i =
      if i.locationRegistration then
        (fw.count .inInterests).registerLocation face (i.arrivedOn f)
      else if face.isLocal = false ∧ i.name.IsLocalhost then fw.count .inInterests
      else
        let (h, isNew, pit) := fw.pit.insert (i.arrivedOn f)
        match pit.get? h with
        | none => { fw.count .inInterests with pit }
        | some e =>
          if e.findNonce i.nonce f ≠ .never ∨ fw.deadNonces.Has i.name i.nonce fw.now then
            { fw.count .inInterests with pit }.dropLoop h isNew
          else if e.isPending ∧ i.validation = false then
            (fw.openEntry pit h).joinEntry hooks face (i.arrivedOn f) h
          else (fw.openEntry pit h).answerOrJoin hooks face (i.arrivedOn f) h := by
  have hface' : (fw.count .inInterests).faces.get? f = some face := hface
  rw [← Interest.name_arrivedOn i f, ← Interest.nonce_arrivedOn i f,
    ← Interest.validation_arrivedOn i f, ← Interest.locationRegistration_arrivedOn i f]
  unfold receiveInterest
  dsimp only
  rw [hface']
  rfl

namespace Admitted

theorem exists_insert (adm : Admitted fw f i face h pit e) :
    ∃ isNew, fw.pit.insert (i.arrivedOn f) = (h, isNew, pit) := by
  cases adm.placed with
  | found hins _ => exact ⟨false, hins⟩
  | created hins _ => exact ⟨true, hins⟩

/-- The test for loops, made on the entry of the Interest. -/
theorem seen_iff (adm : Admitted fw f i face h pit e) :
    (e.findNonce i.nonce f ≠ .never ∨ fw.deadNonces.Has i.name i.nonce fw.now) ↔
      fw.IsLoop f i := by
  have hget := adm.get?
  cases adm.placed with
  | found _ hf =>
    rw [Interest.name_arrivedOn] at hf
    simp [IsLoop, hf, hget]
  | created _ c =>
    have hnone := c.find?_eq_none
    rw [Interest.name_arrivedOn] at hnone
    rw [c.get?_self, Option.some.injEq] at hget
    simp [IsLoop, hnone, ← hget, Pit.findNonce_freshEntry]

theorem receiveInterest_of_loop (adm : Admitted fw f i face h pit e) (hloop : fw.IsLoop f i)
    {isNew : Bool} (hins : fw.pit.insert (i.arrivedOn f) = (h, isNew, pit)) (hooks : Hooks) :
    fw.receiveInterest hooks f i = { fw.count .inInterests with pit }.dropLoop h isNew := by
  simp only [receiveInterest_of_face adm.registered, adm.request, if_neg adm.inScope, hins,
    adm.get?, if_pos (adm.seen_iff.mpr hloop), Bool.false_eq_true, if_false]

theorem receiveInterest_of_not_loop (adm : Admitted fw f i face h pit e)
    (hloop : ¬ fw.IsLoop f i) (hooks : Hooks) :
    fw.receiveInterest hooks f i =
      if e.isPending ∧ i.validation = false then
        (fw.openEntry pit h).joinEntry hooks face (i.arrivedOn f) h
      else (fw.openEntry pit h).answerOrJoin hooks face (i.arrivedOn f) h := by
  obtain ⟨isNew, hins⟩ := adm.exists_insert
  simp only [receiveInterest_of_face adm.registered, adm.request, if_neg adm.inScope, hins,
    adm.get?, if_neg (mt adm.seen_iff.mp hloop), Bool.false_eq_true, if_false]

end Admitted

/-- The node once the content store had no answer to `i`. It was not asked if others wait on the
entry `e` and the Interest is an ordinary one. -/
def missStore (e : Pit.Entry) (i : Interest) (fw : Forwarder) : Forwarder :=
  if e.isPending ∧ i.validation = false then fw else fw.count .csMisses

theorem quiet_missStore (e : Pit.Entry) (i : Interest) (fw : Forwarder) :
    Quiet fw (fw.missStore e i) := by
  unfold missStore
  split
  · exact .refl fw
  · exact quiet_count .csMisses fw

/-- An accepted request joins its entry, and then the strategy gets it. -/
theorem Accepted.receiveInterest_eq (acc : Accepted fw f i face h pit e) (hooks : Hooks) :
    fw.receiveInterest hooks f i =
      hooks.receive ⟨face.id, i.arrivedOn f⟩ (fw.fib.longestPrefixMatch i.name) h
        (((fw.openEntry pit h).missStore e i).enlist face (i.arrivedOn f) h) := by
  have hjoin : ∀ {fw₁ : Forwarder}, Quiet (fw.openEntry pit h) fw₁ →
      fw₁.joinEntry hooks face (i.arrivedOn f) h =
        hooks.receive ⟨face.id, i.arrivedOn f⟩ (fw.fib.longestPrefixMatch i.name) h
          (fw₁.enlist face (i.arrivedOn f) h) := by
    intro fw₁ hq
    have hfib : (fw₁.enlist face (i.arrivedOn f) h).fib = fw.fib :=
      (rescheduled_armUnsatisfy h _).silent.fib.trans
        (hq.silent.fib.trans (rescheduled_cancelTimers h _).silent.fib)
    rw [← hfib, ← Interest.name_arrivedOn i f]
    rfl
  rw [acc.receiveInterest_of_not_loop acc.notLoop, missStore]
  by_cases hcond : e.isPending ∧ i.validation = false
  · rw [if_pos hcond, if_pos hcond]
    exact hjoin (.refl _)
  · have hstore : (fw.openEntry pit h).store.lookup (i.arrivedOn f) (fw.openEntry pit h).now =
        none := by
      rw [store_openEntry, now_openEntry]
      exact acc.unanswered.resolve_left hcond
    rw [if_neg hcond, if_neg hcond]
    simp only [answerOrJoin, ContentStore.find, hstore]
    exact hjoin (quiet_count .csMisses _)

/-- What listens has no say before the strategy gets the request. -/
theorem Accepted.exists_receiveInterest (acc : Accepted fw f i face h pit e) :
    ∃ fw₁, Quiet (fw.openEntry pit h) fw₁ ∧ ∀ hooks : Hooks,
      fw.receiveInterest hooks f i =
        hooks.receive ⟨face.id, i.arrivedOn f⟩ (fw.fib.longestPrefixMatch i.name) h
          (fw₁.enlist face (i.arrivedOn f) h) :=
  ⟨_, quiet_missStore e i _, acc.receiveInterest_eq⟩

/-- **Every Interest goes one of the ways of `Arrival`.** -/
theorem arrival_receiveInterest (wf : fw.pit.WellFormed) (hooks : Hooks) (f : FaceId)
    (i : Interest) : Arrival hooks f i fw (fw.receiveInterest hooks f i) := by
  cases hface : fw.faces.get? f with
  | none =>
    have hface' : (fw.count .inInterests).faces.get? f = none := hface
    simp only [receiveInterest, hface']
    exact .unknownFace hface
  | some face =>
    by_cases hreg : i.locationRegistration = true
    · rw [receiveInterest_of_face hface, if_pos hreg]
      exact .registration hface hreg
    by_cases hscope : face.isLocal = false ∧ i.name.IsLocalhost
    · rw [receiveInterest_of_face hface, if_neg hreg, if_pos hscope]
      exact .outOfScope hface (by simpa using hreg) hscope
    rw [Bool.not_eq_true] at hreg
    obtain ⟨h, pit, e, hplaced, hget⟩ := Pit.exists_placed wf (i.arrivedOn f)
    have adm : Admitted fw f i face h pit e := ⟨hface, hreg, hscope, hplaced, hget⟩
    by_cases hloop : fw.IsLoop f i
    · cases hplaced with
      | found hins _ =>
        rw [adm.receiveInterest_of_loop hloop hins]
        exact .loop adm hloop
      | created hins c =>
        rw [adm.receiveInterest_of_loop hloop hins]
        exact .newLoop adm c hloop
    by_cases hcond : e.isPending ∧ i.validation = false
    · have acc : Accepted fw f i face h pit e := ⟨adm, hloop, .inl hcond⟩
      obtain ⟨fw₁, hq, hr⟩ := acc.exists_receiveInterest
      rw [hr hooks]
      exact .accepted acc hq
    cases hlookup : fw.store.lookup (i.arrivedOn f) fw.now with
    | none =>
      have acc : Accepted fw f i face h pit e := ⟨adm, hloop, .inr hlookup⟩
      obtain ⟨fw₁, hq, hr⟩ := acc.exists_receiveInterest
      rw [hr hooks]
      exact .accepted acc hq
    | some entry =>
      have hask : e.isPending = false ∨ i.validation = true := by
        rw [not_and_or, Bool.not_eq_true, Bool.not_eq_false] at hcond
        exact hcond
      rw [adm.receiveInterest_of_not_loop hloop, if_neg hcond, answerOrJoin, store_openEntry,
        now_openEntry]
      simp only [ContentStore.find, hlookup]
      exact .answered adm hloop hask (by simp only [ContentStore.find, hlookup])

end Forwarder

end NamedData
