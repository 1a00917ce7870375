import NamedData.Proofs.EntryProperty

/-!
# Names under /localhost stay on the node

Packets leave at four places: a strategy sends the request of an entry on, a location
registration goes on, eligible Data is announced to where it came from, and Data is
handed out. Each place looks at a name before it lets a packet go. A strategy's check
looks at the name of the entry, and the packet is one of the entry's requests, which
bear the same name.

## Main definitions

* `InScope`

## Main statements

* `Forwarder.localhost_stays_on_node`
-/
namespace NamedData

/-- The packet may leave through the face as far as `/localhost` goes. -/
def InScope (b : Face × Packet) : Prop := b.1.isLocal = false → ¬ b.2.name.IsLocalhost

theorem FaceTable.inScope_of_mem_delivery {faces : FaceTable} {d : Data} {out : FaceId}
    {b : Face × Packet} (hb : b ∈ faces.delivery d out) : InScope b := by
  obtain ⟨_, _, _, hscope, rfl⟩ := mem_delivery.mp hb
  exact fun hlocal hname => hscope ⟨hlocal, hname⟩

namespace Forwarder

variable {fw fw' : Forwarder}

/-- Only packets within their scope were sent in between. -/
def SendsInScope (fw fw' : Forwarder) : Prop :=
  ∃ l, fw'.sent = fw.sent ++ l ∧ ∀ b ∈ l, InScope b

theorem SendsInScope.of_sent_eq (hsent : fw'.sent = fw.sent) : SendsInScope fw fw' :=
  ⟨[], hsent.trans (List.append_nil _).symm, List.forall_mem_nil _⟩

/-- What a strategy sends on bears the name of an entry, which was checked. -/
theorem Relays.inScope (hfw : Reachable fw) {face : Face} {p : Packet}
    (hrelays : fw.Relays face p) : InScope (face, p) := by
  obtain ⟨h, e, r, nonce, hget, hr, hscope, _, rfl⟩ := hrelays
  intro hlocal hname
  have hsame : r.interest.name = e.name := hfw.name_eq hget hr
  exact hscope ⟨hlocal, .inl (hsame ▸ hname)⟩

theorem Acted.sendsInScope (hfw : Reachable fw) (a : Acted fw fw') : SendsInScope fw fw' := by
  obtain ⟨l, hl, hrelays⟩ := a.sent
  exact ⟨l, hl, fun b hb => (hrelays b hb).inScope hfw⟩

theorem sendsInScope_receiveInterest (hfw : Reachable fw) (s : ForwardingStrategy)
    (f : FaceId) (i : Interest) : SendsInScope fw (fw.receiveInterest s.hooks f i) := by
  have houtcome := interestOutcome_receiveInterest hfw.timersHeld.pit_wellFormed s.toStrategy f i
  generalize fw.receiveInterest s.hooks f i = fw' at houtcome
  cases houtcome with
  | aside _ _ _ hsent hscope =>
    refine ⟨_, hsent, ?_⟩
    intro b hb
    obtain ⟨out, hout, rfl⟩ := List.mem_map.mp hb
    intro hlocal hname
    rw [Packet.name, Interest.name_arrivedOn] at hname
    exact hscope out (Option.mem_toList.mp hout) ⟨hlocal, hname⟩
  | @accepted face h pit e fw₁ id acc hsilent _ _ hidle =>
    -- the strategy starts from a node that an idle strategy could have led to
    have hfw₁ : Reachable fw₁ := hidle ▸ hfw.perform ⟨.idle, .interest f i⟩
    have hforwards := s.forwards ⟨face.id, i.arrivedOn f⟩ (fw.fib.longestPrefixMatch i.name) h
    have hacted := Plan.acted_run hforwards fw₁
    obtain ⟨l, hl, hinScope⟩ := hacted.sendsInScope hfw₁
    exact ⟨l, by rw [hl, hsilent.sent], hinScope⟩
  | answered _ _ _ _ _ _ _ hsent =>
    exact ⟨_, hsent, fun b hb => FaceTable.inScope_of_mem_delivery hb⟩

theorem sendsInScope_receiveData (s : Strategy) (f : FaceId) (d : Data) (fw : Forwarder) :
    SendsInScope fw (fw.receiveData s.hooks f d) := by
  have harrival := dataArrival_receiveData s f d fw
  generalize fw.receiveData s.hooks f d = fw' at harrival
  cases harrival with
  | dropped _ hsent => exact .of_sent_eq hsent
  | pushed _ _ hsent =>
    obtain ⟨out, hsent⟩ := hsent
    refine ⟨_, hsent, ?_⟩
    intro b hb
    obtain ⟨_, _, hb⟩ := List.mem_flatMap.mp hb
    exact FaceTable.inScope_of_mem_delivery hb
  | @answered face fw₁ fw₂ fw' _ _ hscope htaken ha _ hsent =>
    obtain ⟨announced, hname, hsent₁⟩ := htaken.sent
    rw [ha.sent, hsent₁, List.append_assoc] at hsent
    refine ⟨_, hsent, ?_⟩
    intro b hb
    rcases List.mem_append.mp hb with hb | hb
    · obtain ⟨i, hi, rfl⟩ := List.mem_map.mp hb
      intro hlocal hlocalhost
      rw [Packet.name, hname i (Option.mem_toList.mp hi)] at hlocalhost
      exact hscope ⟨hlocal, hlocalhost⟩
    · obtain ⟨_, _, hb⟩ := List.mem_flatMap.mp hb
      exact FaceTable.inScope_of_mem_delivery hb

theorem sendsInScope_perform (hfw : Reachable fw) (s : Step) : SendsInScope fw (s.perform fw) := by
  obtain ⟨strategy, op⟩ := s
  cases op with
  | interest f i => exact sendsInScope_receiveInterest hfw strategy f i
  | data f d => exact sendsInScope_receiveData strategy.toStrategy f d fw
  | poll t => exact .of_sent_eq (polled_pollTimers hfw.timersHeld strategy.toStrategy t).sent
  | send h f newNonce => exact (acted_sendInterest h f newNonce fw).sendsInScope hfw
  | reject h => exact (acted_rejectInterest h fw).sendsInScope hfw
  | change c => exact .of_sent_eq (kept_apply c fw).sent

/-- **No packet under `/localhost` leaves through a face that is not local**, in no run. -/
theorem localhost_stays_on_node (hfw : Reachable fw) (face : Face) (p : Packet)
    (hsent : (face, p) ∈ fw.sent) (hlocal : face.isLocal = false) : ¬ p.name.IsLocalhost := by
  have hall : ∀ b ∈ fw.sent, InScope b := by
    refine hfw.induction (P := fun fw => ∀ b ∈ fw.sent, InScope b) ?_ ?_
    · intro fw hnew b hb
      obtain ⟨c, nonces, observers, fib, rfl⟩ := hnew.exists_eq
      cases hb
    · intro fw s hfw ih b hb
      obtain ⟨l, hl, hinScope⟩ := sendsInScope_perform hfw s
      rw [hl] at hb
      rcases List.mem_append.mp hb with hb | hb
      · exact ih b hb
      · exact hinScope b hb
  exact hall (face, p) hsent hlocal

/-- A node that has passed a request of a local face on to another node. -/
def passedOn : Forwarder :=
  (build {} (.cycle 0 []) 0).run
    [⟨.idle, .change (.addFace true 0)⟩, ⟨.idle, .change (.addFace false 1)⟩,
      ⟨.idle, .change (.routes (·.addNextHop .root ⟨257⟩ 1))⟩,
      ⟨.bestRoute, .interest ⟨256⟩ { name := ⟨[.ofChars ['a']]⟩, nonce := 5 }⟩]

theorem passedOn_in_scope :
    (⟨⟨257⟩, false, 1⟩, .interest { name := ⟨[.ofChars ['a']]⟩, nonce := 5 }) ∈ passedOn.sent ∧
      ¬ (Packet.interest { name := ⟨[.ofChars ['a']]⟩, nonce := 5 }).name.IsLocalhost := by
  have hfw : Reachable passedOn := (Reachable.of_isNew (isNew_build _ _)).run _
  have hsent : (⟨⟨257⟩, false, 1⟩, .interest { name := ⟨[.ofChars ['a']]⟩, nonce := 5 }) ∈
      passedOn.sent := by decide
  exact ⟨hsent, localhost_stays_on_node hfw _ _ hsent rfl⟩

end Forwarder

end NamedData
