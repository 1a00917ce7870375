import NamedData.Proofs.EntryProperty
import NamedData.Proofs.StoreUse

/-!
# The names that a node knows

A name gets into the tables of a node only with a packet that bears it, and no table makes up a
name. So an Interest for an exact name that no packet has borne meets no entry, no stored Data and
no dead nonce: it opens an entry of its own and is handed to the strategy.

## Main definitions

* `Forwarder.Knows`, a table of the node holds a name

## Main statements

* `Forwarder.Knows.of_pollTimers`, `Forwarder.Knows.of_receiveInterest` and
  `Forwarder.Knows.of_receiveData`: where a name that the node knows comes from
* `Forwarder.exists_accepted_of_not_knows`
-/
namespace NamedData

/-! ## The tables -/

namespace Pit

variable {pit pit' : Pit} {n : Name} {i : Interest} {h : Handle} {g : Entry → Entry}

/-- A live entry has the name. -/
def Bears (pit : Pit) (n : Name) : Prop := ∃ h e, pit.get? h = some e ∧ e.name = n

namespace Bears

theorem of_get?_imp (hb : pit'.Bears n)
    (hsub : ∀ h e, pit'.get? h = some e → pit.get? h = some e) : pit.Bears n := by
  obtain ⟨h, e, hget, hname⟩ := hb
  exact ⟨h, e, hsub h e hget, hname⟩

theorem of_sameRequests (hb : pit'.Bears n) (hs : SameRequests pit pit') : pit.Bears n := by
  obtain ⟨h, e, hget, hname⟩ := hb
  obtain ⟨e', hget', hdown⟩ := hs.symm.exists_get? hget
  exact ⟨h, e', hget', by rw [Entry.name, Entry.interest_eq_of_downstream hdown, ← hname]; rfl⟩

theorem of_modify (hb : (pit.modify h g).Bears n) (hg : ∀ e, (g e).interest = e.interest) :
    pit.Bears n := by
  obtain ⟨h', e, hget, hname⟩ := hb
  rw [get?_modify] at hget
  split at hget
  · obtain ⟨e', hget', rfl⟩ := Option.map_eq_some_iff.mp hget
    exact ⟨h, e', hget', by rw [Entry.name, ← hg, ← hname]; rfl⟩
  · exact ⟨h', e, hget, hname⟩

/-- The name is old, or it is that of the Interest. -/
theorem of_placed (hb : pit'.Bears n) (hplaced : Placed pit i h pit') :
    n = i.name ∨ pit.Bears n := by
  cases hplaced with
  | found _ _ => exact .inr hb
  | created _ c =>
    obtain ⟨h', e, hget, hname⟩ := hb
    rw [c.get?_eq] at hget
    split at hget
    · obtain rfl := Option.some.inj hget
      exact .inl hname.symm
    · exact .inr ⟨h', e, hget, hname⟩

end Bears

end Pit

namespace ContentStore

variable {cs : ContentStore} {n : Name} {d : Data} {unsolicited : Bool} {now : Instant}

theorem contains_of_trim {places : List Place} (hin : (cs.trim places).contains n = true) :
    cs.contains n = true := by
  induction places generalizing cs with
  | nil => exact hin
  | cons p rest ih =>
    rw [trim] at hin
    split at hin
    · exact hin
    · exact ((SortedMap.contains_erase cs.entries p.name n).mp (ih hin)).2

theorem contains_put (cs : ContentStore) (n n' : Name) (e : Entry) :
    (cs.put n e).contains n' = true ↔ n' = n ∨ cs.contains n' = true :=
  SortedMap.contains_insert cs.entries n n' _

theorem contains_release (cs : ContentStore) (n n' : Name) :
    (cs.release n).contains n' = cs.contains n' := by
  obtain ⟨_, _, heq⟩ := release_eq cs n
  rw [heq, contains, contains]

/-- The name is old, or it is that of the Data. -/
theorem contains_of_insert (hin : (cs.insert d unsolicited now).contains n = true) :
    n = d.name ∨ cs.contains n = true := by
  unfold insert at hin
  split at hin
  · exact .inr hin
  · have hput := contains_of_trim hin
    rwa [contains_put, contains_release] at hput

theorem contains_of_erase {n' : Name} (hin : (cs.erase n').contains n = true) :
    cs.contains n = true :=
  ((SortedMap.contains_erase cs.entries n' n).mp hin).2

/-- A use of stored Data leaves the names as they are. -/
theorem contains_of_find {i : Interest} {found : Option Data} {cs' : ContentStore}
    (hfind : cs.find i now = (found, cs')) (hin : cs'.contains n = true) :
    cs.contains n = true := by
  rw [find] at hfind
  split at hfind
  · obtain ⟨-, rfl⟩ := Prod.mk.inj hfind
    exact hin
  · obtain ⟨-, rfl⟩ := Prod.mk.inj hfind
    unfold touch at hin
    split at hin
    · exact hin
    · next hget =>
      rw [contains_put, contains_release] at hin
      rcases hin with rfl | hin
      · exact SortedMap.contains_iff.mpr ⟨_, hget⟩
      · exact hin

end ContentStore

namespace DeadNonceList

/-- What is on the list was there before, or is one of the stamps that were added. -/
theorem isCurrent_of_addAll {l : DeadNonceList} {stamps : List Stamp} {s : Stamp}
    (hs : (l.addAll stamps).IsCurrent s) : s ∈ stamps ∨ l.IsCurrent s := by
  induction stamps generalizing l with
  | nil => exact .inr hs
  | cons first rest ih =>
    rcases ih hs with hmem | hs
    · exact .inl (List.mem_cons_of_mem first hmem)
    · rcases isCurrent_of_add hs with rfl | hs
      · exact .inl List.mem_cons_self
      · exact .inr hs

end DeadNonceList

/-! ## The node -/

namespace Forwarder

open DeadNonceList (Stamp)

variable {fw fw' : Forwarder} {n : Name} {f : FaceId} {i : Interest} {d : Data} {t : Instant}
  {s : Stamp}

/-- A table of the node holds the name. -/
inductive Knows (fw : Forwarder) (n : Name) : Prop
  | pending (hpit : fw.pit.Bears n)
  | stored (hstore : fw.store.contains n = true)
  /-- One of the nonces that were sent out under the name is remembered. -/
  | dead {s : Stamp} (hcurrent : fw.deadNonces.IsCurrent s) (hname : s.name = n)

/-- Only the entries, the stored Data and the dead nonces matter. -/
theorem Knows.of_eq (hpit : fw'.pit = fw.pit) (hstore : fw'.store = fw.store)
    (hdead : fw'.deadNonces = fw.deadNonces) (hk : fw'.Knows n) : fw.Knows n := by
  cases hk with
  | pending hb => exact .pending (hpit ▸ hb)
  | stored hin => exact .stored (hstore ▸ hin)
  | dead hs hname => exact .dead (hdead ▸ hs) hname

/-- The tables of a new node are empty. -/
theorem IsNew.not_knows (hnew : IsNew fw) (n : Name) : ¬ fw.Knows n := by
  have hempty := hnew.get?_eq_none
  obtain ⟨c, nonces, observers, fib, rfl⟩ := hnew.exists_eq
  rintro (⟨h, e, hget, _⟩ | hin | ⟨hcurrent, _⟩)
  · rw [hempty] at hget
    cases hget
  · cases hin
  · cases hcurrent

/-- An entry leaves stamps of its own name. -/
theorem bears_of_mem_deadStamps {h : Pit.Handle} {satisfied : Bool} {freshness : Option Millis}
    {answeredBy : Option FaceId} (hs : s ∈ fw.deadStamps h satisfied freshness answeredBy t) :
    fw.pit.Bears s.name := by
  unfold deadStamps at hs
  cases hget : fw.pit.get? h with
  | none =>
    rw [hget] at hs
    exact absurd hs List.not_mem_nil
  | some e =>
    simp only [hget] at hs
    split at hs
    · obtain ⟨r, -, rfl⟩ := List.mem_map.mp hs
      exact ⟨h, e, hget, rfl⟩
    · exact absurd hs List.not_mem_nil

theorem bears_of_mem_expiryStamps (hs : s ∈ fw.expiryStamps t) : fw.pit.Bears s.name := by
  obtain ⟨⟨_, event⟩, -, hs⟩ := List.mem_flatMap.mp hs
  cases event <;> exact bears_of_mem_deadStamps hs

theorem bears_of_mem_answerStamps (hs : s ∈ fw.answerStamps f d) : fw.pit.Bears s.name := by
  unfold answerStamps at hs
  split at hs
  · obtain ⟨h, -, hs⟩ := List.mem_flatMap.mp hs
    exact bears_of_mem_deadStamps hs
  · exact absurd hs List.not_mem_nil

/-- Stamps for entries bring no new name. -/
theorem knows_of_addAll {stamps : List Stamp}
    (hbears : ∀ s ∈ stamps, fw.pit.Bears s.name)
    (hs : (fw.deadNonces.addAll stamps).IsCurrent s) : fw.Knows s.name := by
  rcases DeadNonceList.isCurrent_of_addAll hs with hmem | hs
  · exact .pending (hbears s hmem)
  · exact .dead hs rfl

/-- Timers that fire bring no new name. -/
theorem Knows.of_pollTimers (inv : TimersHeld none fw.pit fw.timers) {strategy : Strategy}
    (hk : (fw.pollTimers strategy.hooks t).Knows n) : fw.Knows n := by
  cases hk with
  | pending hb =>
    have hpolled := polled_pollTimers inv strategy t
    exact .pending (hb.of_get?_imp fun h e hget => ((hpolled.get?_iff h e).mp hget).1)
  | stored hin =>
    rw [store_pollTimers] at hin
    exact .stored hin
  | dead hs hname =>
    rw [deadNonces_pollTimers inv] at hs
    rw [← hname]
    exact knows_of_addAll (fun _ => bears_of_mem_expiryStamps) hs

theorem bears_of_receiveInterest (wf : fw.pit.WellFormed) {strategy : Strategy}
    (hforwards : ∀ i route h, (strategy.receive i route h).Forwards)
    (hb : (fw.receiveInterest strategy.hooks f i).pit.Bears n) : n = i.name ∨ fw.pit.Bears n := by
  have houtcome := interestOutcome_receiveInterest wf strategy f i
  generalize fw.receiveInterest strategy.hooks f i = fw' at houtcome hb
  cases houtcome with
  | aside _ hget => exact .inr (hb.of_get?_imp fun h e hget' => (hget h).symm.trans hget')
  | accepted acc _ _ hpit =>
    have hb := hb.of_sameRequests (Plan.acted_run (hforwards _ _ _) _).requests
    rw [hpit] at hb
    rw [← Interest.name_arrivedOn i f]
    exact (hb.of_modify fun _ => rfl).of_placed acc.placed
  | answered adm _ _ _ hpit hdown =>
    rw [hpit] at hb
    rw [← Interest.name_arrivedOn i f]
    exact (hb.of_sameRequests (Pit.sameRequests_modify _ _ hdown)).of_placed adm.placed

theorem contains_of_receiveInterest (wf : fw.pit.WellFormed) {strategy : Strategy}
    (hforwards : ∀ i route h, (strategy.receive i route h).Forwards)
    (hin : (fw.receiveInterest strategy.hooks f i).store.contains n = true) :
    fw.store.contains n = true := by
  have harrival := arrival_receiveInterest wf strategy.hooks f i
  generalize fw.receiveInterest strategy.hooks f i = fw' at harrival hin
  cases harrival with
  | unknownFace | outOfScope | loop | newLoop => exact hin
  | registration =>
    rw [(outward_registerLocation _ _ _).store] at hin
    exact hin
  | @accepted face h pit e fw₁ acc hquiet =>
    rw [receive_hooks, store_run (hforwards _ _ _), (quiet_record rfl _).store, store_enlist,
      hquiet.store, store_openEntry] at hin
    exact hin
  | answered _ _ _ hstore =>
    rw [store_answerFromStore] at hin
    exact ContentStore.contains_of_find hstore hin

/-- An Interest brings its own name. -/
theorem Knows.of_receiveInterest (wf : fw.pit.WellFormed) {strategy : Strategy}
    (hforwards : ∀ i route h, (strategy.receive i route h).Forwards)
    (hk : (fw.receiveInterest strategy.hooks f i).Knows n) : n = i.name ∨ fw.Knows n := by
  cases hk with
  | pending hb => exact (bears_of_receiveInterest wf hforwards hb).imp_right .pending
  | stored hin => exact .inr (.stored (contains_of_receiveInterest wf hforwards hin))
  | dead hs hname =>
    rw [deadNonces_receiveInterest wf hforwards] at hs
    exact .inr (.dead hs hname)

theorem contains_of_receiveData {strategy : Strategy}
    (hin : (fw.receiveData strategy.hooks f d).store.contains n = true) :
    n = d.name ∨ fw.store.contains n = true := by
  cases hface : fw.faces.get? f with
  | none =>
    rw [receiveData_of_unknownFace hface] at hin
    exact .inr hin
  | some face =>
    rw [store_receiveData hface] at hin
    split at hin
    · unfold storeOfPushed at hin
      split at hin
      · exact .inr (ContentStore.contains_of_erase hin)
      · exact (ContentStore.contains_of_insert hin :)
    · split at hin
      · exact .inr hin
      · split at hin
        · split at hin
          · exact ContentStore.contains_of_insert hin
          · exact .inr hin
        · split at hin
          · exact .inr hin
          · exact ContentStore.contains_of_insert hin

/-- Data brings its own name. -/
theorem Knows.of_receiveData (wf : fw.pit.WellFormed) {strategy : Strategy}
    (hk : (fw.receiveData strategy.hooks f d).Knows n) : n = d.name ∨ fw.Knows n := by
  cases hk with
  | pending hb =>
    obtain ⟨h, e, hget, hname⟩ := hb
    refine .inr (.pending ?_)
    rcases get?_receiveData strategy f d fw h with heq | ⟨-, id, heq⟩
    · exact ⟨h, e, heq.symm.trans hget, hname⟩
    · obtain ⟨e', hget', rfl⟩ := Option.map_eq_some_iff.mp (heq.symm.trans hget)
      exact ⟨h, e', hget', hname⟩
  | stored hin => exact (contains_of_receiveData hin).imp_right .stored
  | dead hs hname =>
    rw [deadNonces_receiveData wf] at hs
    rw [← hname]
    exact .inr (knows_of_addAll (fun _ => bears_of_mem_answerStamps) hs)

/-! ## A name that is new -/

theorem not_isLoop_of_not_knows (wf : fw.pit.WellFormed) (hnew : ¬ fw.Knows i.name) :
    ¬ fw.IsLoop f i := by
  rintro (⟨h, e, hfind, hget, -⟩ | ⟨t, hadded, -⟩)
  · obtain ⟨e', hget', hname⟩ := wf.exists_of_find? hfind
    exact hnew (.pending ⟨h, e', hget', hname⟩)
  · exact hnew (.dead (s := ⟨t, i.name, i.nonce⟩) hadded rfl)

theorem lookup_of_not_knows (hexact : i.canBePrefix = false) (hnew : ¬ fw.Knows i.name)
    (now : Instant) : fw.store.lookup i now = none := by
  have hnone : fw.store.entries.get? i.name = none := by
    rw [← Option.not_isSome_iff_eq_none]
    exact fun hin => hnew (.stored hin)
  rw [ContentStore.lookup, hexact, if_neg Bool.false_ne_true, hnone]
  rfl

/-- **A new name gets an entry of its own.** -/
theorem exists_accepted_of_not_knows (wf : fw.pit.WellFormed) {face : Face}
    (hface : fw.faces.get? f = some face) (hrequest : i.locationRegistration = false)
    (hscope : ¬ (face.isLocal = false ∧ i.name.IsLocalhost)) (hexact : i.canBePrefix = false)
    (hnew : ¬ fw.Knows i.name) :
    ∃ h pit, Accepted fw f i face h pit (fw.pit.freshEntry (i.arrivedOn f)) := by
  have hnone : fw.pit.find? (i.arrivedOn f).name = none := by
    rw [Interest.name_arrivedOn]
    by_contra hsome
    obtain ⟨h, hfind⟩ := Option.ne_none_iff_exists'.mp hsome
    obtain ⟨e, hget, hname⟩ := wf.exists_of_find? hfind
    exact hnew (.pending ⟨h, e, hget, hname⟩)
  obtain ⟨h, pit, hins, c⟩ := Pit.insert_created wf hnone
  refine ⟨h, pit, ⟨hface, hrequest, hscope, .created hins c, c.get?_self⟩,
    not_isLoop_of_not_knows wf hnew, .inr ?_⟩
  rw [ContentStore.lookup_arrivedOn]
  exact lookup_of_not_knows hexact hnew fw.now

end Forwarder

end NamedData
