import NamedData.Proofs.Fib.RouteMap
import NamedData.Proofs.Run

/-!
# The routes of a node

A node gets its first routes from its settings, and it loses the routes through a face with the
face. Both are calls of the forwarding base, and neither packets nor timers change it. So the base
of a node is what calls have made of the empty one, as long as the owner of the node does not put
anything else in its place. Then the next hops for a name are those of its longest prefix that has
an entry, the cheapest first.

## Main definitions

* `Fib.IsMade`, a base that calls have made
* `Fib.Decides`, the entry of the longest prefix of a name
* `Forwarder.Routed`, a node whose owner leaves it a forwarding base

## Main statements

* `Forwarder.foldl_addRoute_build`: the routes of a new node
* `Forwarder.Routed.isMade_fib`
* `Fib.Mirrors.decides_iff`: a lookup finds the entry that decides
-/
namespace NamedData

/-- The route is announced to a forwarding base. -/
def Route.call (r : Route) : Fib.Call := .add r.name r.face r.cost

namespace Fib

variable {fib : Fib} {r : RouteMap} {n : Name} {e : Entry} {routes : List Route}

/-- The base was empty once, and has got some calls since. -/
def IsMade (fib : Fib) : Prop := ∃ calls, fib = after calls

/-- The base with the given routes. -/
def ofRoutes (routes : List Route) : Fib := after (routes.map Route.call)

namespace IsMade

theorem perform (hmade : fib.IsMade) (c : Call) : (c.perform fib).IsMade := by
  obtain ⟨calls, rfl⟩ := hmade
  exact ⟨calls ++ [c], by rw [after, after, List.foldl_concat]⟩

theorem exists_mirrors (hmade : fib.IsMade) : ∃ r, fib.Mirrors r := by
  obtain ⟨calls, rfl⟩ := hmade
  exact ⟨_, mirrors_after calls⟩

end IsMade

/-- The entry `e` decides about the name `n`: it is that of the longest prefix that has one. -/
structure Decides (fib : Fib) (n : Name) (e : Entry) : Prop where
  find? : fib.find? e.name = some e
  isPrefixOf : e.name.IsPrefixOf n
  longest : ∀ p, p.IsPrefixOf n → (fib.find? p).isSome → p.size ≤ e.name.size

theorem Decides.eq {e' : Entry} (hd : fib.Decides n e) (hd' : fib.Decides n e') : e = e' := by
  have hsome : (fib.find? e.name).isSome := by rw [hd.find?]; rfl
  have hsome' : (fib.find? e'.name).isSome := by rw [hd'.find?]; rfl
  have hsize := Nat.le_antisymm (hd'.longest _ hd.isPrefixOf hsome)
    (hd.longest _ hd'.isPrefixOf hsome')
  have hname := hd.isPrefixOf.eq_of_size_eq hd'.isPrefixOf hsize
  have hfind := hd.find?
  rw [hname, hd'.find?] at hfind
  exact (Option.some.inj hfind).symm

theorem Mirrors.decides_longestPrefixMatch (m : fib.Mirrors r) (n : Name) :
    fib.Decides n (fib.longestPrefixMatch n) := by
  obtain ⟨hfind, hprefix, hlongest⟩ := m.longestPrefixMatch_spec n
  refine ⟨hfind, hprefix, fun p hp hsome => ?_⟩
  obtain ⟨e, he⟩ := Option.isSome_iff_exists.mp hsome
  by_cases hroot : p = .root
  · rw [hroot]
    exact Nat.zero_le _
  · exact hlongest p hp hroot ((m.find?_eq_some_iff.mp he).2.resolve_left hroot)

/-- **A lookup finds the entry that decides.** -/
theorem Mirrors.decides_iff (m : fib.Mirrors r) :
    fib.Decides n e ↔ fib.longestPrefixMatch n = e := by
  refine ⟨(m.decides_longestPrefixMatch n).eq, ?_⟩
  rintro rfl
  exact m.decides_longestPrefixMatch n

/-- The new next hop of a prefix serves the names under it, as far as no route is more
specific. -/
theorem Mirrors.has_of_addNextHop (m : fib.Mirrors r) {p : Name} (hp : p.IsPrefixOf n)
    (hlongest : ∀ q, r.HasRoute q → p.IsPrefixOf q → q = p) (f : FaceId) (cost : UInt64) :
    ((fib.addNextHop p f cost).longestPrefixMatch n).nextHops.Has f := by
  have m' := m.addNextHop p f cost
  have hroute : (Call.add p f cost).onMap r p f = some cost := if_pos ⟨rfl, rfl⟩
  have hdecides : (fib.addNextHop p f cost).Decides n
      ⟨p, (fib.addNextHop p f cost).nextHops p⟩ := by
    refine ⟨m'.find?_eq_some_iff.mpr ⟨rfl, .inr ⟨f, cost, hroute⟩⟩, hp, fun q hq hsome => ?_⟩
    obtain ⟨e, he⟩ := Option.isSome_iff_exists.mp hsome
    -- A longer prefix that has an entry would be more specific than `p`.
    by_contra hlt
    have hpq : p.IsPrefixOf q :=
      List.prefix_of_prefix_length_le hp hq (Nat.le_of_not_le hlt)
    have hroot : q ≠ .root := by
      rintro rfl
      exact hlt (Nat.zero_le _)
    obtain ⟨f', cost', hset⟩ := (m'.find?_eq_some_iff.mp he).2.resolve_left hroot
    have hne : q ≠ p := by
      rintro rfl
      exact hlt (Nat.le_refl _)
    exact hne (hlongest q ⟨f', cost', (if_neg fun h => hne h.1).symm.trans hset⟩ hpq)
  rw [m'.decides_iff.mp hdecides]
  exact m'.has_iff.mpr ⟨cost, hroute⟩

end Fib

namespace Forwarder

variable {fw : Forwarder} {c : Config} {nonces : NonceSource} {observers : Nat}

/-! ## Routes from settings -/

theorem foldl_addRoute (routes : List Route) (calls : List Fib.Call) (fw : Forwarder) :
    routes.foldl addRoute { fw with fib := .after calls } =
      { fw with fib := .after (calls ++ routes.map Route.call) } := by
  induction routes generalizing calls with
  | nil => simp
  | cons r rest ih =>
    have hfirst : addRoute { fw with fib := .after calls } r =
        { fw with fib := .after (calls ++ [r.call]) } := by
      rw [Fib.after, Fib.after, List.foldl_concat]
      rfl
    rw [List.foldl_cons, hfirst, ih, List.map_cons, List.append_assoc, List.singleton_append]

theorem foldl_addRoute_build (routes : List Route) :
    routes.foldl addRoute (build c nonces observers) =
      { build c nonces observers with fib := .ofRoutes routes } :=
  foldl_addRoute routes [] (build c nonces observers)

theorem IsNew.isMade_fib (hnew : IsNew fw) : fw.fib.IsMade := by
  obtain ⟨c, nonces, observers, hok⟩ := hnew
  obtain ⟨_, routes, _, rfl⟩ := ofConfig_eq_ok_iff.mp hok
  rw [foldl_addRoute_build]
  exact ⟨_, rfl⟩

end Forwarder

/-! ## Nodes that keep their routes -/

/-- Where the owner changes the routes, the result is a forwarding base again. -/
def Step.KeepsRoutes (s : Step) : Prop :=
  ∀ change, s.op = .change (.routes change) → ∀ fib : Fib, fib.IsMade → (change fib).IsMade

namespace Forwarder

variable {fw : Forwarder} {s : Step}

/-- The node was new once, and what its owner has changed since has left it a forwarding base. -/
def Routed (fw : Forwarder) : Prop :=
  ∃ fw₀ steps, IsNew fw₀ ∧ (∀ s ∈ steps, s.KeepsRoutes) ∧ fw₀.run steps = fw

theorem isMade_fib_perform (inv : TimersHeld none fw.pit fw.timers) (hmade : fw.fib.IsMade)
    (hs : s.KeepsRoutes) : (s.perform fw).fib.IsMade := by
  by_cases hchange : ∃ c, s.op = .change c
  · obtain ⟨c, hc⟩ := hchange
    rw [Step.perform, hc]
    cases c with
    | addFace | store => exact hmade
    | reserveFace id isLocal link =>
      change ((fw.reserveFace id isLocal link).toOption.getD fw).fib.IsMade
      rw [reserveFace_eq]
      exact hmade
    | removeFace id =>
      change (fw.removeFace id).fib.IsMade
      unfold removeFace
      split
      · exact hmade.perform (.removeFace id)
      · exact hmade
    | routes change => exact hs change hc fw.fib hmade
  · rw [(sameSetup_perform inv fun c hc => hchange ⟨c, hc⟩).fib]
    exact hmade

namespace Routed

theorem reachable (hfw : Routed fw) : Reachable fw := by
  obtain ⟨fw₀, steps, hnew, _, hrun⟩ := hfw
  exact ⟨fw₀, steps, hnew, hrun⟩

/-- **The forwarding base of a routed node** is what calls have made of the empty one. -/
theorem isMade_fib (hfw : Routed fw) : fw.fib.IsMade := by
  obtain ⟨fw₀, steps, hnew, hsteps, rfl⟩ := hfw
  have hstart : Reachable fw₀ ∧ fw₀.fib.IsMade := ⟨.of_isNew hnew, hnew.isMade_fib⟩
  clear hnew
  induction steps generalizing fw₀ with
  | nil => exact hstart.2
  | cons s rest ih =>
    obtain ⟨hs, hrest⟩ := List.forall_mem_cons.mp hsteps
    exact ih _ hrest ⟨hstart.1.perform s, isMade_fib_perform hstart.1.timersHeld hstart.2 hs⟩

end Routed

end Forwarder

end NamedData
