import NamedData.Proofs.Forwarder.ReceiveInterest

/-!
# What arriving Data changes

`Forwarder.DataArrival` lists the ways that Data can go. Data that is waited for answers
the entries it matches, and then leaves once through each face that still waited.

## Main definitions

* `Forwarder.Answers`, what answering some entries does to a node
* `Forwarder.DataArrival`, with `dataArrival_receiveData`

The main statements are `Forwarder.get?_receiveData` about entries and
`Forwarder.timersHeld_receiveData` about timers.
-/
namespace NamedData

/-- The packet retraces the path of a request, whether anybody waits for it or not. -/
def Data.IsPushed (d : Data) : Prop := d.validation = true ∧ d.publishment = true

instance (d : Data) : Decidable d.IsPushed := inferInstanceAs (Decidable (_ ∧ _))

namespace Pit.Entry

/-- The entry once Data from `f` has answered it, with the timer `id` for the grace period. -/
def satisfied (f : FaceId) (id : TimerId) (e : Entry) : Entry :=
  (e.unarmed.deleteInRecords.deleteOutRecord f).armedStraggler id

theorem downstream_satisfied (e : Entry) (f : FaceId) (id : TimerId) :
    (e.satisfied f id).downstream = e.deleteInRecords.downstream := rfl

theorem satisfied_satisfied (e : Entry) (f : FaceId) (id id' : TimerId) :
    (e.satisfied f id).satisfied f id' = e.satisfied f id' := by
  simp [satisfied, unarmed, deleteInRecords, deleteOutRecord, armedStraggler]

end Pit.Entry

namespace Forwarder

variable {fw fw' fw'' : Forwarder} {h : Pit.Handle} {e : Pit.Entry} {d : Incoming Data}
  {s : Strategy} {entries : List Pit.Handle}

/-! ## Answering entries -/

/-- The node right before the grace period of the entry begins. -/
def settle (s : Strategy) (d : Incoming Data) (h : Pit.Handle) (fw : Forwarder) : Forwarder :=
  let fw := (fw.cancelTimers h).notifySatisfying s.hooks h d
  let fw := fw.recordDeadNonces h true d.packet.freshness (some d.face)
  { fw with pit := fw.pit.modify h fun e => e.deleteInRecords.deleteOutRecord d.face }

theorem satisfy_eq (s : Strategy) (d : Incoming Data) (h : Pit.Handle) (fw : Forwarder) :
    satisfy s.hooks d fw h = (fw.settle s d h).armStraggler h true d.packet.freshness := rfl

theorem silent_settle (s : Strategy) (d : Incoming Data) (h : Pit.Handle) (fw : Forwarder) :
    Silent fw (fw.settle s d h) := by
  have hcancel := (rescheduled_cancelTimers h fw).silent
  have hnotify := (quiet_notifySatisfying s h d (fw.cancelTimers h)).silent
  have hdead := silent_recordDeadNonces h true d.packet.freshness (some d.face)
    ((fw.cancelTimers h).notifySatisfying s.hooks h d)
  exact ((hcancel.trans hnotify).trans hdead).trans (silent_modify _ _ _)

theorem pit_settle (s : Strategy) (d : Incoming Data) (h : Pit.Handle) (fw : Forwarder) :
    (fw.settle s d h).pit =
      fw.pit.modify h fun e => e.unarmed.deleteInRecords.deleteOutRecord d.face := by
  have hq := quiet_notifySatisfying s h d (fw.cancelTimers h)
  obtain ⟨deadNonces, heq⟩ := recordDeadNonces_eq h true d.packet.freshness (some d.face)
    ((fw.cancelTimers h).notifySatisfying s.hooks h d)
  simp only [settle, heq]
  rw [hq.pit, pit_cancelTimers, Pit.modify_modify]
  rfl

theorem timers_settle (s : Strategy) (d : Incoming Data) (h : Pit.Handle) (fw : Forwarder) :
    (fw.settle s d h).timers = (fw.cancelTimers h).timers := by
  have hq := quiet_notifySatisfying s h d (fw.cancelTimers h)
  obtain ⟨deadNonces, heq⟩ := recordDeadNonces_eq h true d.packet.freshness (some d.face)
    ((fw.cancelTimers h).notifySatisfying s.hooks h d)
  simp only [settle, heq]
  exact hq.timers

theorem pit_satisfy (s : Strategy) (d : Incoming Data) (h : Pit.Handle) (fw : Forwarder) :
    ∃ id, (satisfy s.hooks d fw h).pit = fw.pit.modify h (.satisfied d.face id) := by
  rw [satisfy_eq, pit_armStraggler, pit_settle, Pit.modify_modify]
  exact ⟨_, rfl⟩

theorem timersHeld_satisfy (inv : TimersHeld none fw.pit fw.timers) (s : Strategy)
    (d : Incoming Data) (h : Pit.Handle) :
    TimersHeld none (satisfy s.hooks d fw h).pit (satisfy s.hooks d fw h).timers := by
  rw [satisfy_eq]
  cases hget : fw.pit.get? h with
  | none =>
    have hpit : (fw.settle s d h).pit = fw.pit := by
      rw [pit_settle, Pit.modify_of_get?_eq_none _ hget]
    have htimers : (fw.settle s d h).timers = fw.timers := by
      rw [timers_settle, cancelTimers, hget]
    have hget' : (fw.settle s d h).pit.get? h = none := by rw [hpit, hget]
    rw [armStraggler, hget', hpit, htimers]
    exact inv
  | some e =>
    have hcancel := timersHeld_cancelTimers inv (.inl rfl) hget
    have hsettle : TimersHeld (some h) (fw.settle s d h).pit (fw.settle s d h).timers := by
      have hmodify := hcancel.modify (g := fun e => e.deleteInRecords.deleteOutRecord d.face)
        (fun _ => ⟨rfl, rfl, rfl⟩) (.inl rfl)
      rw [pit_cancelTimers, Pit.modify_modify] at hmodify
      rw [pit_settle, timers_settle]
      exact hmodify
    have hget' := Pit.get?_modify_self
      (f := fun e => e.unarmed.deleteInRecords.deleteOutRecord d.face) hget
    rw [← pit_settle s d] at hget'
    exact timersHeld_armStraggler hsettle hget' d.packet.freshness fun _ => rfl

/-- The entries `entries` were answered with Data from the face `f`: their requests are gone,
and nothing was done to other entries. -/
structure Answers (f : FaceId) (entries : List Pit.Handle) (fw fw' : Forwarder) : Prop
    extends Silent fw fw' where
  now : fw'.now = fw.now
  get?_of_not_mem : ∀ h ∉ entries, fw'.pit.get? h = fw.pit.get? h
  get?_of_mem : ∀ h ∈ entries, ∀ e, fw.pit.get? h = some e →
    ∃ id, fw'.pit.get? h = some (e.satisfied f id)
  none_of_none : ∀ h, fw.pit.get? h = none → fw'.pit.get? h = none
  timersHeld : TimersHeld none fw.pit fw.timers → TimersHeld none fw'.pit fw'.timers

theorem answers_satisfy (s : Strategy) (d : Incoming Data) (h : Pit.Handle) (fw : Forwarder) :
    Answers d.face [h] fw (satisfy s.hooks d fw h) := by
  obtain ⟨id, hpit⟩ := pit_satisfy s d h fw
  constructor
  case toSilent =>
    rw [satisfy_eq]
    exact (silent_settle s d h fw).trans (rescheduled_armStraggler h _ _ _).silent
  case now =>
    rw [satisfy_eq, (rescheduled_armStraggler _ _ _ _).now, now, timers_settle]
    exact (rescheduled_cancelTimers h fw).now
  case get?_of_not_mem =>
    intro h' hne
    rw [hpit, Pit.get?_modify_of_ne (by simpa using hne)]
  case get?_of_mem =>
    intro h' hmem e hget
    obtain rfl := List.mem_singleton.mp hmem
    exact ⟨id, by rw [hpit, Pit.get?_modify_self hget]⟩
  case none_of_none =>
    intro h' hnone
    rw [hpit, Pit.get?_modify]
    split
    · next heq => rw [← heq, hnone]; rfl
    · exact hnone
  case timersHeld => exact fun inv => timersHeld_satisfy inv s d h

theorem Answers.trans {f : FaceId} {entries' : List Pit.Handle} (a : Answers f entries fw fw')
    (a' : Answers f entries' fw' fw'') : Answers f (entries ++ entries') fw fw'' where
  toSilent := a.toSilent.trans a'.toSilent
  now := a'.now.trans a.now
  get?_of_not_mem h hmem := by
    rw [List.mem_append, not_or] at hmem
    rw [a'.get?_of_not_mem h hmem.2, a.get?_of_not_mem h hmem.1]
  get?_of_mem h hmem e hget := by
    have hfirst : fw'.pit.get? h = some e ∨ ∃ id, fw'.pit.get? h = some (e.satisfied f id) := by
      by_cases hmem : h ∈ entries
      · exact .inr (a.get?_of_mem h hmem e hget)
      · exact .inl ((a.get?_of_not_mem h hmem).trans hget)
    by_cases hmem' : h ∈ entries'
    · rcases hfirst with hget' | ⟨id, hget'⟩
      · exact a'.get?_of_mem h hmem' e hget'
      · obtain ⟨id', hget''⟩ := a'.get?_of_mem h hmem' _ hget'
        exact ⟨id', by rw [hget'', Pit.Entry.satisfied_satisfied]⟩
    · obtain ⟨id, hget'⟩ := a.get?_of_mem h ((List.mem_append.mp hmem).resolve_right hmem') e hget
      exact ⟨id, (a'.get?_of_not_mem h hmem').trans hget'⟩
  none_of_none h hnone := a'.none_of_none h (a.none_of_none h hnone)
  timersHeld inv := a'.timersHeld (a.timersHeld inv)

theorem answers_foldl (s : Strategy) (d : Incoming Data) (entries : List Pit.Handle)
    (fw : Forwarder) : Answers d.face entries fw (entries.foldl (satisfy s.hooks d) fw) := by
  induction entries generalizing fw with
  | nil =>
    exact ⟨.refl fw, rfl, fun _ _ => rfl, fun _ hmem => absurd hmem List.not_mem_nil,
      fun _ => id, id⟩
  | cons h rest ih =>
    have hrest := (answers_satisfy s d h fw).trans (ih (satisfy s.hooks d fw h))
    rw [List.foldl_cons]
    rw [List.singleton_append] at hrest
    exact hrest

/-- An entry is answered or left alone. -/
theorem Answers.get?_eq {f : FaceId} (ha : Answers f entries fw fw') (h : Pit.Handle) :
    fw'.pit.get? h = fw.pit.get? h ∨
      h ∈ entries ∧ ∃ id, fw'.pit.get? h = (fw.pit.get? h).map (.satisfied f id) := by
  by_cases hmem : h ∈ entries
  · cases hget : fw.pit.get? h with
    | none => exact .inl (ha.none_of_none h hget)
    | some e =>
      obtain ⟨id, hget'⟩ := ha.get?_of_mem h hmem e hget
      exact .inr ⟨hmem, id, hget'⟩
  · exact .inl (ha.get?_of_not_mem h hmem)

/-! ## The faces that wait -/

theorem mem_foldl_insert {f : FaceId} (faces : List FaceId) (set : SortedMap FaceId Unit) :
    f ∈ (faces.foldl (fun set f => set.insert f ()) set).keys ↔ f ∈ faces ∨ f ∈ set.keys := by
  induction faces generalizing set with
  | nil => simp
  | cons g rest ih =>
    rw [List.foldl_cons, ih, List.mem_cons]
    simp only [SortedMap.mem_keys_iff, SortedMap.get?_insert]
    by_cases heq : f = g <;> simp [heq]

theorem mem_waitingFaces {f : FaceId} :
    f ∈ fw.waitingFaces entries ↔
      ∃ h ∈ entries, ∃ e, fw.pit.get? h = some e ∧
        ∃ r ∈ e.inRecords, fw.now < r.expiry ∧ r.face = f := by
  rw [waitingFaces, mem_foldl_insert, List.mem_flatMap]
  constructor
  · rintro (⟨h, hmem, hf⟩ | hf)
    · cases hget : fw.pit.get? h with
      | none => simp [hget] at hf
      | some e =>
        simp only [hget, Option.map_some, Option.getD_some, Pit.Entry.waitingFaces, List.mem_map,
          List.mem_filter, decide_eq_true_eq] at hf
        obtain ⟨r, ⟨hr, hlt⟩, hface⟩ := hf
        exact ⟨h, hmem, e, hget, r, hr, hlt, hface⟩
    · obtain ⟨_, hnone⟩ := SortedMap.mem_keys_iff.mp hf
      cases hnone
  · rintro ⟨h, hmem, e, hget, r, hr, hlt, hface⟩
    refine .inl ⟨h, hmem, ?_⟩
    simp only [hget, Option.map_some, Option.getD_some, Pit.Entry.waitingFaces, List.mem_map,
      List.mem_filter, decide_eq_true_eq]
    exact ⟨r, ⟨hr, hlt⟩, hface⟩

theorem nodup_waitingFaces (entries : List Pit.Handle) (fw : Forwarder) :
    (fw.waitingFaces entries).Nodup :=
  SortedMap.nodup_keys _

/-! ## Data that leaves -/

theorem outward_foldl_sendData (d : Data) (out : List FaceId) (fw : Forwarder) :
    Outward fw (out.foldl (fun fw f => fw.sendData d f) fw) := by
  induction out generalizing fw with
  | nil => rfl
  | cons f rest ih => exact (outward_sendData d f fw).trans (ih _)

theorem sent_foldl_sendData (d : Data) (out : List FaceId) (fw : Forwarder) :
    (out.foldl (fun fw f => fw.sendData d f) fw).sent =
      fw.sent ++ out.flatMap (fw.faces.delivery d) := by
  induction out generalizing fw with
  | nil => exact (List.append_nil _).symm
  | cons f rest ih =>
    rw [List.foldl_cons, ih, sent_sendData, (outward_sendData d f fw).sameSetup.faces,
      List.flatMap_cons, List.append_assoc]

/-! ## The ways of Data -/

/-- The entries, the timers and the setup are as before. -/
structure Untouched (fw fw' : Forwarder) : Prop extends SameSetup fw fw' where
  pit : fw'.pit = fw.pit
  timers : fw'.timers = fw.timers

theorem Untouched.trans (hu : Untouched fw fw') (hu' : Untouched fw' fw'') :
    Untouched fw fw'' where
  toSameSetup := hu.toSameSetup.trans hu'.toSameSetup
  pit := hu'.pit.trans hu.pit
  timers := hu'.timers.trans hu.timers

/-- The same faces wait. -/
theorem Untouched.waitingFaces_eq (hu : Untouched fw fw') (entries : List Pit.Handle) :
    fw'.waitingFaces entries = fw.waitingFaces entries := by
  rw [waitingFaces, waitingFaces, now, now, hu.pit, hu.timers]

theorem Outward.untouched (ho : Outward fw fw') : Untouched fw fw' where
  toSameSetup := ho.sameSetup
  pit := ho.pit
  timers := ho.timers

theorem untouched_setStore (store : ContentStore) (fw : Forwarder) :
    Untouched fw { fw with store } :=
  ⟨⟨rfl, rfl, rfl, rfl, rfl⟩, rfl, rfl⟩

theorem receiveUnsolicited_spec (face : Face) (d : Data) (fw : Forwarder) :
    Untouched fw (fw.receiveUnsolicited face d) ∧
      (fw.receiveUnsolicited face d).sent = fw.sent := by
  have hq := quiet_count .unsolicitedData fw
  have hcount : Untouched fw (fw.count .unsolicitedData) := Outward.untouched hq.eq_update
  unfold receiveUnsolicited
  split
  · exact ⟨hcount.trans (untouched_setStore _ _), hq.sent⟩
  · exact ⟨hcount, hq.sent⟩

/-- The content store once the pushed Data `d` has come by. -/
def storeOfPushed (d : Data) (fw : Forwarder) : ContentStore :=
  if d.expiration then fw.store.erase d.name
  else fw.store.insert { d with pathBack := d.pathBack.dropLast, publishment := false } false fw.now

/-- Pushed Data leaves through the last face of its path, if it has any, and changes the content
store. -/
theorem receivePublishment_eq (d : Data) (fw : Forwarder) :
    ∃ fw₁, Outward fw fw₁ ∧
      fw₁.sent = fw.sent ++ d.pathBack.getLast?.toList.flatMap
        (fw.faces.delivery { d with pathBack := d.pathBack.dropLast }) ∧
      fw.receivePublishment d = { fw₁ with store := fw.storeOfPushed d } := by
  have hstore : ∀ fw₁, Outward fw fw₁ →
      (if d.expiration then { fw₁ with store := fw₁.store.erase d.name }
      else fw₁.storeData
        { d with pathBack := d.pathBack.dropLast, publishment := false } false) =
      { fw₁ with store := fw.storeOfPushed d } := by
    intro fw₁ ho
    rw [ho, storeOfPushed]
    split <;> rfl
  cases hlast : d.pathBack.getLast? with
  | none =>
    refine ⟨fw, rfl, (List.append_nil _).symm, ?_⟩
    rw [← hstore fw rfl, receivePublishment, hlast]
  | some out =>
    have ho := outward_sendData { d with pathBack := d.pathBack.dropLast } out fw
    refine ⟨_, ho, ?_, ?_⟩
    · rw [sent_sendData, Option.toList_some, List.flatMap_singleton]
    · rw [← hstore _ ho, receivePublishment, hlast]

/-- Pushed Data leaves through the last face of its path. -/
theorem receivePublishment_spec (d : Data) (fw : Forwarder) :
    Untouched fw (fw.receivePublishment d) ∧
      ∃ out : Option FaceId, (fw.receivePublishment d).sent =
        fw.sent ++ out.toList.flatMap
          (fw.faces.delivery { d with pathBack := d.pathBack.dropLast }) := by
  obtain ⟨fw₁, ho, hsent, heq⟩ := receivePublishment_eq d fw
  rw [heq]
  exact ⟨ho.untouched.trans (untouched_setStore _ _), _, hsent⟩

/-- Data under the name `n` was taken in that came through `face`. It may have been announced
to where it came from. -/
structure TakenIn (face : Face) (n : Name) (fw fw' : Forwarder) : Prop
    extends Untouched fw fw' where
  sent : ∃ announced : Option Interest, (∀ i ∈ announced, i.name = n) ∧
    fw'.sent = fw.sent ++ announced.toList.map fun i => (face, .interest i)

theorem takenIn_storeEligible (face : Face) (d : Data) (fw : Forwarder) :
    TakenIn face d.name fw (fw.storeEligible face d) := by
  unfold storeEligible storeData
  split
  · exact ⟨untouched_setStore _ fw, none, by simp, (List.append_nil _).symm⟩
  · refine ⟨⟨⟨rfl, rfl, rfl, rfl, rfl⟩, rfl, rfl⟩, some _, ?_, sent_emitInterest _ _ _⟩
    intro i hi
    rw [← Option.some.inj hi]

/-- What becomes of the content store and its announcement when the Data `d` is waited for. -/
def keepAwaited (face : Face) (d : Data) (fw : Forwarder) : Forwarder :=
  if d.validation ∧ d.eligibility then fw.storeEligible face d
  else if d.validation then fw
  else fw.storeData d false

/-- Data that is waited for is kept, unless it belongs to a validation request and is not
eligible. -/
theorem takenIn_keepAwaited (face : Face) (d : Data) (fw : Forwarder) :
    TakenIn face d.name fw (fw.keepAwaited face d) := by
  unfold keepAwaited
  split
  · exact takenIn_storeEligible face d fw
  · split
    · exact ⟨⟨.refl fw, rfl, rfl⟩, none, by simp, (List.append_nil _).symm⟩
    · exact ⟨untouched_setStore _ fw, none, by simp, (List.append_nil _).symm⟩

/-- The Data `d` from the face `f` answers `entries`, and goes to the other faces that wait on
them. -/
def answer (hooks : Hooks) (f : FaceId) (d : Data) (entries : List Pit.Handle) (fw : Forwarder) :
    Forwarder :=
  ((fw.waitingFaces entries).filter (· ≠ f)).foldl (fun fw f => fw.sendData d f)
    (entries.foldl (satisfy hooks ⟨f, d⟩) fw)

theorem receiveData_of_unknownFace {f : FaceId} (hface : fw.faces.get? f = none) (hooks : Hooks)
    (d : Data) :
    fw.receiveData hooks f d = (fw.count .inData).log (.dataFromUnknownFace f d.name) := by
  have hface' : (fw.count .inData).faces.get? f = none := hface
  simp only [receiveData, hface']

/-- The way of Data from a registered face. -/
theorem receiveData_of_face {f : FaceId} {face : Face} {d : Data}
    (hface : fw.faces.get? f = some face) (hooks : Hooks) :
    fw.receiveData hooks f d =
      if d.IsPushed then (fw.count .inData).receivePublishment d
      else if face.isLocal = false ∧ d.name.IsLocalhost then fw.count .inData
      else
        match fw.pit.dataMatches d with
        | [] => (fw.count .inData).receiveUnsolicited face d
        | entries => ((fw.count .inData).keepAwaited face d).answer hooks f d entries := by
  have hface' : (fw.count .inData).faces.get? f = some face := hface
  unfold receiveData
  dsimp only
  rw [hface']
  rfl

/-- What becomes of the Data `d` that arrives on the face `f`. -/
inductive DataArrival (s : Strategy) (f : FaceId) (d : Data) (fw : Forwarder) : Forwarder → Prop
  /-- Nobody waits for the Data, or it does not even get that far. -/
  | dropped {fw' : Forwarder} (hu : Untouched fw fw') (hsent : fw'.sent = fw.sent)
    (hwhy : fw.faces.get? f = none ∨
      (∃ face, fw.faces.get? f = some face ∧ face.isLocal = false ∧ d.name.IsLocalhost) ∨
      fw.pit.dataMatches d = []) :
    DataArrival s f d fw fw'
  /-- Pushed Data goes its own way. -/
  | pushed {fw' : Forwarder} (hpush : d.IsPushed) (hu : Untouched fw fw')
    (hsent : ∃ out : Option FaceId, fw'.sent = fw.sent ++ out.toList.flatMap
      (fw.faces.delivery { d with pathBack := d.pathBack.dropLast })) :
    DataArrival s f d fw fw'
  /-- The Data answers the entries that it matches. -/
  | answered {face : Face} {fw₁ fw₂ fw' : Forwarder} (hface : fw.faces.get? f = some face)
    (hpush : ¬ d.IsPushed) (hscope : ¬ (face.isLocal = false ∧ d.name.IsLocalhost))
    (htaken : TakenIn face d.name fw fw₁) (ha : Answers f (fw.pit.dataMatches d) fw₁ fw₂)
    (hu : Untouched fw₂ fw') (hsent : fw'.sent = fw₂.sent ++
      ((fw.waitingFaces (fw.pit.dataMatches d)).filter (· ≠ f)).flatMap (fw.faces.delivery d)) :
    DataArrival s f d fw fw'

/-- Once the Data was taken in, the entries are answered and the Data leaves. -/
theorem dataArrival_of_takenIn {f : FaceId} {d : Data} {face : Face}
    (hface : fw.faces.get? f = some face) (hpush : ¬ d.IsPushed)
    (hscope : ¬ (face.isLocal = false ∧ d.name.IsLocalhost))
    (htaken : TakenIn face d.name fw fw') (s : Strategy) :
    DataArrival s f d fw (fw'.answer s.hooks f d (fw.pit.dataMatches d)) := by
  have ha := answers_foldl s ⟨f, d⟩ (fw.pit.dataMatches d) fw'
  refine .answered hface hpush hscope htaken ha (outward_foldl_sendData d _ _).untouched ?_
  rw [answer, sent_foldl_sendData, ha.faces, htaken.faces, htaken.waitingFaces_eq]

/-- **All Data goes one of the ways of `DataArrival`.** -/
theorem dataArrival_receiveData (s : Strategy) (f : FaceId) (d : Data) (fw : Forwarder) :
    DataArrival s f d fw (fw.receiveData s.hooks f d) := by
  have hq : Quiet fw (fw.count .inData) := quiet_count .inData fw
  have hcount : Untouched fw (fw.count .inData) := Outward.untouched hq.eq_update
  cases hface : fw.faces.get? f with
  | none =>
    have hlog := hq.trans (quiet_log (.dataFromUnknownFace f d.name) _)
    rw [receiveData_of_unknownFace hface]
    exact .dropped (Outward.untouched hlog.eq_update) hlog.sent (.inl hface)
  | some face =>
    rw [receiveData_of_face hface]
    by_cases hpush : d.IsPushed
    · rw [if_pos hpush]
      obtain ⟨hu, hsent⟩ := receivePublishment_spec d (fw.count .inData)
      exact .pushed hpush (hcount.trans hu) hsent
    rw [if_neg hpush]
    by_cases hscope : face.isLocal = false ∧ d.name.IsLocalhost
    · rw [if_pos hscope]
      exact .dropped hcount rfl (.inr (.inl ⟨face, hface, hscope⟩))
    rw [if_neg hscope]
    split
    · next hnil =>
      obtain ⟨hu, hsent⟩ := receiveUnsolicited_spec face d (fw.count .inData)
      exact .dropped (hcount.trans hu) (hsent.trans hq.sent) (.inr (.inr hnil))
    · have htaken := takenIn_keepAwaited face d (fw.count .inData)
      have htaken' : TakenIn face d.name fw _ :=
        ⟨hcount.trans htaken.toUntouched, htaken.sent⟩
      exact dataArrival_of_takenIn hface hpush hscope htaken' s

/-- **What Data does to an entry.** It answers the entry or leaves it alone. -/
theorem get?_receiveData (s : Strategy) (f : FaceId) (d : Data) (fw : Forwarder) (h : Pit.Handle) :
    (fw.receiveData s.hooks f d).pit.get? h = fw.pit.get? h ∨
      (¬ d.IsPushed ∧ h ∈ fw.pit.dataMatches d) ∧
        ∃ id, (fw.receiveData s.hooks f d).pit.get? h =
          (fw.pit.get? h).map (.satisfied f id) := by
  have harrival := dataArrival_receiveData s f d fw
  generalize fw.receiveData s.hooks f d = fw' at harrival
  cases harrival with
  | dropped hu => exact .inl (by rw [hu.pit])
  | pushed _ hu => exact .inl (by rw [hu.pit])
  | answered _ hpush _ htaken ha hu =>
    rw [hu.pit, ← htaken.pit]
    exact (ha.get?_eq h).imp_right fun ⟨hmem, hanswered⟩ => ⟨⟨hpush, htaken.pit ▸ hmem⟩, hanswered⟩

theorem sameSetup_receiveData (s : Strategy) (f : FaceId) (d : Data) (fw : Forwarder) :
    SameSetup fw (fw.receiveData s.hooks f d) := by
  have harrival := dataArrival_receiveData s f d fw
  generalize fw.receiveData s.hooks f d = fw' at harrival
  cases harrival with
  | dropped hu => exact hu.toSameSetup
  | pushed _ hu => exact hu.toSameSetup
  | answered _ _ _ htaken ha hu =>
    exact (htaken.toSameSetup.trans ha.toSameSetup).trans hu.toSameSetup

theorem timersHeld_receiveData (inv : TimersHeld none fw.pit fw.timers) (s : Strategy)
    (f : FaceId) (d : Data) :
    TimersHeld none (fw.receiveData s.hooks f d).pit (fw.receiveData s.hooks f d).timers := by
  have harrival := dataArrival_receiveData s f d fw
  generalize fw.receiveData s.hooks f d = fw' at harrival
  cases harrival with
  | dropped hu _ _ =>
    rw [hu.pit, hu.timers]
    exact inv
  | pushed _ hu _ =>
    rw [hu.pit, hu.timers]
    exact inv
  | answered _ _ _ htaken ha hu _ =>
    rw [hu.pit, hu.timers]
    rw [← htaken.pit, ← htaken.timers] at inv
    exact ha.timersHeld inv

end Forwarder

end NamedData
