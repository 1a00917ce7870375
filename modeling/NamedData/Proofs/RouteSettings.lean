import NamedData.CommandLine.Run
import NamedData.Proofs.Name.RoundTrip
import NamedData.Proofs.Routing

/-!
# Routes from settings to lookups

A route is set by the URI of a prefix, the number of a face and a cost. URIs that are written in
different ways can denote the same prefix, and a prefix can be set for the same face more than once.
What counts then is the last setting. A new node and the commands that show routes make the same
forwarding base of the settings, so what the commands print is what the node does.

## Main definitions

* `Config.HasPrefix` and `Config.Sets`, what the settings say about prefixes
* `Config.Decides`, the entry that they lead to for a name
* `CommandLine.Lists`, the entries that are listed
* `CommandLine.ShowsHop` and `CommandLine.TellsOf`, what is printed about them

## Main statements

* `Forwarder.exists_ofConfig_iff`
* `Config.decides_longestPrefixMatch`
* `CommandLine.lists_served`
* `CommandLine.ShowsHop.eq`: a line shows one next hop only
* `CommandLine.settings_lead_to_lookups`
-/
namespace NamedData

/-- Where some element of a list has a property, there is a last one that has it. -/
theorem exists_last_of_mem {α : Type} {p : α → Prop} {l : List α} (h : ∃ x ∈ l, p x) :
    ∃ a x b, l = a ++ x :: b ∧ p x ∧ ∀ y ∈ b, ¬ p y := by
  induction l with
  | nil =>
    obtain ⟨_, hmem, _⟩ := h
    cases hmem
  | cons y rest ih =>
    by_cases hrest : ∃ x ∈ rest, p x
    · obtain ⟨a, x, b, rfl, hx, hb⟩ := ih hrest
      exact ⟨y :: a, x, b, rfl, hx, hb⟩
    · obtain ⟨x, hmem, hx⟩ := h
      rcases List.mem_cons.mp hmem with rfl | hmem
      · exact ⟨[], x, rest, rfl, hx, fun z hz hpz => hrest ⟨z, hz, hpz⟩⟩
      · exact absurd ⟨x, hmem, hx⟩ hrest

/-! ## Numbers in digits -/

/-- No two numbers are written alike. -/
theorem eq_of_toDigits_eq {k n : Nat} (h : Nat.toDigits 10 k = Nat.toDigits 10 n) : k = n := by
  have hread := congrArg (Nat.ofDigitChars 10 · 0) h
  rwa [Nat.ofDigitChars_toDigits (by decide) (by decide),
    Nat.ofDigitChars_toDigits (by decide) (by decide)] at hread

theorem not_mem_toDigits {c : Char} (hc : c.isDigit = false) (n : Nat) :
    c ∉ Nat.toDigits 10 n := by
  intro hmem
  rw [Nat.isDigit_of_mem_toDigits (by decide) (by decide) hmem] at hc
  cases hc

/-! ## What a route is set by -/

/-- The URI of the setting denotes the prefix `n`. -/
def RouteSetting.Denotes (r : RouteSetting) (n : Name) : Prop := Name.parse? r.uri = .ok n

theorem RouteSetting.parse_eq_ok_iff {r : RouteSetting} {route : Route} :
    r.parse = .ok route ↔
      r.Denotes route.name ∧ (FaceId.mk r.face).IsValid ∧ route.face = ⟨r.face⟩ ∧
        route.cost = r.cost := by
  unfold parse Denotes
  cases Name.parse? r.uri with
  | error e => simp
  | ok name =>
    obtain ⟨name', face, cost⟩ := route
    by_cases hvalid : (FaceId.mk r.face).IsValid <;>
      simp [hvalid, @eq_comm _ face, @eq_comm _ cost]

namespace RouteSetting

variable {r : RouteSetting} {route : Route} {settings : List RouteSetting} {routes : List Route}
  {n : Name} {f : FaceId} {cost : UInt64}

theorem Denotes.eq {m : Name} (hn : r.Denotes n) (hm : r.Denotes m) : n = m :=
  Except.ok.inj (hn.symm.trans hm)

theorem concerns_iff (hparse : r.parse = .ok route) :
    route.call.Concerns n f ↔ r.Denotes n ∧ ⟨r.face⟩ = f := by
  obtain ⟨hdenotes, _, hface, _⟩ := parse_eq_ok_iff.mp hparse
  rw [Route.call, Fib.Call.Concerns, hface]
  refine and_congr_left fun _ => ?_
  constructor
  · rintro rfl
    exact hdenotes
  · exact hdenotes.eq

theorem call_eq_add_iff (hparse : r.parse = .ok route) :
    route.call = .add n f cost ↔ (r.Denotes n ∧ ⟨r.face⟩ = f) ∧ r.cost = cost := by
  rw [← concerns_iff hparse, ← (parse_eq_ok_iff.mp hparse).2.2.2, Route.call, Fib.Call.Concerns,
    Fib.Call.add.injEq, and_assoc]

theorem exists_route (hall : settings.map parse = routes.map .ok) (hr : r ∈ settings) :
    ∃ route ∈ routes, r.parse = .ok route := by
  have hmem : r.parse ∈ routes.map .ok := hall ▸ List.mem_map_of_mem hr
  obtain ⟨route, hroute, heq⟩ := List.mem_map.mp hmem
  exact ⟨route, hroute, heq.symm⟩

theorem exists_setting (hall : settings.map parse = routes.map .ok) (hroute : route ∈ routes) :
    ∃ r ∈ settings, r.parse = .ok route := by
  have hmem : .ok route ∈ settings.map parse := hall ▸ List.mem_map_of_mem hroute
  exact List.mem_map.mp hmem

end RouteSetting

namespace Config

variable {c : Config} {n : Name} {f : FaceId} {cost : UInt64} {routes : List Route}

/-- The settings have a route for the prefix `n`. -/
def HasPrefix (c : Config) (n : Name) : Prop := ∃ r ∈ c.routes, r.Denotes n

/-- The last setting for the prefix `n` and the face `f` gives it this cost. -/
def Sets (c : Config) (n : Name) (f : FaceId) (cost : UInt64) : Prop :=
  ∃ earlier r later, c.routes = earlier ++ r :: later ∧ (r.Denotes n ∧ ⟨r.face⟩ = f) ∧
    r.cost = cost ∧ ∀ r' ∈ later, ¬ (r'.Denotes n ∧ ⟨r'.face⟩ = f)

/-- The settings lead to the entry `e` for the name `n`: that of the longest prefix of `n` that
they have a route for, or else of the root. It has each face that is set for the prefix once, at the
cost of the last setting, the cheapest first. -/
structure Decides (c : Config) (n : Name) (e : Fib.Entry) : Prop where
  isPrefixOf : e.name.IsPrefixOf n
  hasPrefix : e.name = .root ∨ c.HasPrefix e.name
  longest : ∀ p, p.IsPrefixOf n → c.HasPrefix p → p.size ≤ e.name.size
  mem_iff : ∀ f cost, ⟨f, cost⟩ ∈ e.nextHops ↔ c.Sets e.name f cost
  nodup : (e.nextHops.map NextHop.face).Nodup
  sorted : e.nextHops.Pairwise (·.cost ≤ ·.cost)

/-! ## What is set -/

theorem parsedRoutes_eq_ok_iff :
    c.parsedRoutes = .ok routes ↔ c.routes.map RouteSetting.parse = routes.map .ok := by
  rw [parsedRoutes, mapM_eq_ok_iff, ← List.forall₂_eq_eq_eq, List.forall₂_map_left_iff,
    List.forall₂_map_right_iff]

/-- Settings are valid if the lifetimes are positive and all routes can be read. -/
theorem validate_eq_ok_iff :
    c.validate = .ok () ↔ c.deadNonceLifetime ≠ 0 ∧ c.interestLifetime ≠ 0 ∧
      ∃ routes, c.parsedRoutes = .ok routes := by
  unfold validate
  by_cases hdead : c.deadNonceLifetime = 0
  · simp [hdead]
  · by_cases hlifetime : c.interestLifetime = 0
    · simp [hdead, hlifetime]
    · cases hroutes : c.parsedRoutes <;> simp [hdead, hlifetime, Except.map]

/-- What is set is what is announced when the routes are added one after the other. -/
theorem announced_iff (hroutes : c.parsedRoutes = .ok routes) :
    Fib.Announced (routes.map Route.call) n f cost ↔ c.Sets n f cost := by
  have hall := parsedRoutes_eq_ok_iff.mp hroutes
  constructor
  · rintro ⟨_, _, hcalls, hlater⟩
    obtain ⟨before, _, rfl, _, hcalls⟩ := List.map_eq_append_iff.mp hcalls
    obtain ⟨route, after, rfl, hcall, rfl⟩ := List.map_eq_cons_iff.mp hcalls
    rw [List.map_append, List.map_cons] at hall
    obtain ⟨earlier, _, hsplit, _, hall⟩ := List.map_eq_append_iff.mp hall
    obtain ⟨r, later, rfl, hparse, hall⟩ := List.map_eq_cons_iff.mp hall
    obtain ⟨hset, hcost⟩ := (RouteSetting.call_eq_add_iff hparse).mp hcall
    refine ⟨earlier, r, later, hsplit, hset, hcost, fun r' hr' hset' => ?_⟩
    obtain ⟨route', hroute', hparse'⟩ := RouteSetting.exists_route hall hr'
    exact hlater _ (List.mem_map_of_mem hroute') ((RouteSetting.concerns_iff hparse').mpr hset')
  · rintro ⟨earlier, r, later, hsplit, hset, hcost, hlater⟩
    rw [hsplit, List.map_append, List.map_cons] at hall
    obtain ⟨before, _, rfl, _, hall⟩ := List.map_eq_append_iff.mp hall.symm
    obtain ⟨route, after, rfl, hparse, hall⟩ := List.map_eq_cons_iff.mp hall
    refine ⟨before.map Route.call, after.map Route.call, ?_, ?_⟩
    · rw [List.map_append, List.map_cons,
        (RouteSetting.call_eq_add_iff hparse.symm).mpr ⟨hset, hcost⟩]
    · intro call hcall hconcerns
      obtain ⟨route', hroute', rfl⟩ := List.mem_map.mp hcall
      obtain ⟨r', hr', hparse'⟩ := RouteSetting.exists_setting hall.symm hroute'
      exact hlater r' hr' ((RouteSetting.concerns_iff hparse').mp hconcerns)

/-- A prefix that has a route has a face that is set for it. -/
theorem HasPrefix.exists_sets (hhas : c.HasPrefix n) : ∃ f cost, c.Sets n f cost := by
  obtain ⟨earlier, r, later, hsplit, hdenotes, hlater⟩ := exists_last_of_mem hhas
  exact ⟨⟨r.face⟩, r.cost, earlier, r, later, hsplit, ⟨hdenotes, rfl⟩, rfl,
    fun r' hr' hset => hlater r' hr' hset.1⟩

theorem Sets.hasPrefix (hsets : c.Sets n f cost) : c.HasPrefix n := by
  obtain ⟨earlier, r, later, hsplit, hset, _⟩ := hsets
  exact ⟨r, hsplit ▸ List.mem_append_right _ List.mem_cons_self, hset.1⟩

/-! ## The base -/

/-- The plain map of the routes that are set. -/
theorem routesAfter_eq_some_iff (hroutes : c.parsedRoutes = .ok routes) :
    Fib.routesAfter (routes.map Route.call) n f = some cost ↔ c.Sets n f cost :=
  Fib.routesAfter_eq_some_iff.trans (announced_iff hroutes)

theorem hasRoute_iff (hroutes : c.parsedRoutes = .ok routes) :
    (Fib.routesAfter (routes.map Route.call)).HasRoute n ↔ c.HasPrefix n := by
  simp only [RouteMap.HasRoute, routesAfter_eq_some_iff hroutes]
  constructor
  · rintro ⟨_, _, hsets⟩
    exact hsets.hasPrefix
  · exact HasPrefix.exists_sets

/-- An entry of the base is what the settings lead to for its prefix, and for any name that has no
longer prefix. -/
theorem decides_of_find? {e : Fib.Entry} (hroutes : c.parsedRoutes = .ok routes)
    (hfind : (Fib.ofRoutes routes).find? e.name = some e) (hhas : e.name.IsPrefixOf n)
    (hlongest : ∀ p, p.IsPrefixOf n → c.HasPrefix p → p.size ≤ e.name.size) : c.Decides n e := by
  have m : (Fib.ofRoutes routes).Mirrors _ := Fib.mirrors_after (routes.map Route.call)
  obtain ⟨he, hname⟩ := m.find?_eq_some_iff.mp hfind
  have hops : e.nextHops = (Fib.ofRoutes routes).nextHops e.name := congrArg (·.nextHops) he
  constructor
  case isPrefixOf => exact hhas
  case hasPrefix => exact hname.imp_right (hasRoute_iff hroutes).mp
  case longest => exact hlongest
  case mem_iff =>
    intro f cost
    rw [hops, m.mem_iff]
    exact routesAfter_eq_some_iff hroutes
  case nodup => exact hops ▸ (m.valid e.name).nodup
  case sorted => exact hops ▸ (m.valid e.name).sorted

/-- **A lookup finds what the settings lead to.** -/
theorem decides_longestPrefixMatch (hroutes : c.parsedRoutes = .ok routes) (n : Name) :
    c.Decides n ((Fib.ofRoutes routes).longestPrefixMatch n) := by
  have m : (Fib.ofRoutes routes).Mirrors _ := Fib.mirrors_after (routes.map Route.call)
  have hd := m.decides_longestPrefixMatch n
  refine decides_of_find? hroutes hd.find? hd.isPrefixOf fun p hp hset => hd.longest p hp ?_
  rw [m.find?_eq_some_iff.mpr ⟨rfl, .inr ((hasRoute_iff hroutes).mpr hset)⟩]
  rfl

end Config

namespace Forwarder

variable {c : Config} {fw : Forwarder}

/-- **A node can be made of settings** exactly if they are valid. -/
theorem exists_ofConfig_iff (c : Config) (nonces : NonceSource) (observers : Nat) :
    (∃ fw, ofConfig c nonces observers = .ok fw) ↔ c.validate = .ok () := by
  simp only [ofConfig_eq_ok_iff]
  constructor
  · rintro ⟨_, hvalid, _⟩
    exact hvalid
  · intro hvalid
    obtain ⟨_, _, routes, hroutes⟩ := Config.validate_eq_ok_iff.mp hvalid
    exact ⟨_, hvalid, routes, hroutes, rfl⟩

end Forwarder

/-! ## The order of the entries -/

/-- The root comes before every other name. -/
theorem Name.compare_root {n : Name} (hne : n ≠ .root) : compare Name.root n = .lt := by
  obtain ⟨components⟩ := n
  cases components with
  | nil => exact absurd rfl hne
  | cons c rest => rfl

theorem Fib.WellFormed.ordered_entries {fib : Fib} (wf : fib.WellFormed) :
    fib.entries.Pairwise fun e e' => compare e.name e'.name = .lt := by
  have hname : ∀ b ∈ fib.routes.toList, b.2.name = b.1 :=
    fun b hb => wf.name_eq (SortedMap.get?_eq_some_iff.mpr hb)
  rw [entries, List.pairwise_cons, List.pairwise_map]
  constructor
  · intro e he
    obtain ⟨b, hb, rfl⟩ := List.mem_map.mp he
    rw [wf.name_root, hname b hb]
    refine Name.compare_root ?_
    rintro hroot
    have hget := SortedMap.get?_eq_some_iff.mpr hb
    rw [hroot, wf.get?_root] at hget
    cases hget
  · refine fib.routes.sorted.imp_of_mem fun {b b'} hb hb' hlt => ?_
    rw [hname b hb, hname b' hb']
    exact hlt

namespace CommandLine

variable {c : Config} {routes : List Route}

theorem fibOf_eq (hroutes : c.parsedRoutes = .ok routes) : fibOf c = .ok (.ofRoutes routes) := by
  have hfold : routes.foldl (fun fib r => fib.addNextHop r.name r.face r.cost) .empty =
      Fib.ofRoutes routes := by
    rw [Fib.ofRoutes, Fib.after, List.foldl_map]
    rfl
  rw [fibOf, hroutes, ← hfold]
  rfl

/-! ## The lines -/

/-- The line shows the next hop, by the number of its face and its cost. -/
def ShowsHop (line : String) (hop : NextHop) : Prop :=
  line = "  face " ++ toString hop.face.number.toNat ++ " cost " ++ toString hop.cost.toNat

theorem forall₂_showsHop_iff {lines : List String} {hops : NextHops} :
    List.Forall₂ ShowsHop lines hops ↔ lines = nextHopLines hops := by
  rw [nextHopLines, ← List.forall₂_eq_eq_eq, List.forall₂_map_right_iff]
  rfl

/-- **A line shows one next hop only.** -/
theorem ShowsHop.eq {line : String} {hop hop' : NextHop} (hline : ShowsHop line hop)
    (hline' : ShowsHop line hop') : hop = hop' := by
  obtain ⟨⟨face⟩, cost⟩ := hop
  obtain ⟨⟨face'⟩, cost'⟩ := hop'
  have hdigits : ∀ n : Nat, (toString n).toList = Nat.toDigits 10 n := fun _ => String.toList_ofList
  have hmiddle : " cost ".toList = [' '] ++ 'c' :: "ost ".toList := rfl
  have htext : Nat.toDigits 10 face.toNat ++ [' '] ++
        'c' :: ("ost ".toList ++ Nat.toDigits 10 cost.toNat) =
      Nat.toDigits 10 face'.toNat ++ [' '] ++
        'c' :: ("ost ".toList ++ Nat.toDigits 10 cost'.toNat) := by
    simpa [String.toList_append, hmiddle, hdigits] using
      congrArg String.toList (hline.symm.trans hline')
  -- the first `c` after the number of the face starts the word between the numbers
  have hbefore : 'c' ∉ Nat.toDigits 10 face.toNat ++ [' '] := by
    rw [List.mem_append, not_or]
    exact ⟨not_mem_toDigits rfl _, by decide⟩
  have hafter : 'c' ∉ "ost ".toList ++ Nat.toDigits 10 cost.toNat := by
    rw [List.mem_append, not_or]
    exact ⟨by decide, not_mem_toDigits rfl _⟩
  obtain ⟨hface, -, hcost⟩ := (List.append_cons_inj_of_notMem hbefore hafter).mp htext
  have hface := eq_of_toDigits_eq (List.append_cancel_right hface)
  have hcost := eq_of_toDigits_eq (List.append_cancel_left hcost)
  rw [UInt32.toNat_inj.mp hface, UInt64.toNat_inj.mp hcost]

/-- The line says for which prefix the lines after it are. -/
def IsPrefixLine (line : String) : Prop := line.toList.head? = some '/'

instance (line : String) : Decidable (IsPrefixLine line) :=
  inferInstanceAs (Decidable (_ = _))

theorem isPrefixLine_toString (n : Name) : IsPrefixLine (toString n) := by
  have htext : (toString n).toList = n.toUri := String.toList_ofList
  rw [IsPrefixLine, htext, Name.toUri]
  cases n.components <;> rfl

theorem not_isPrefixLine_of_mem {hops : NextHops} {line : String}
    (hline : line ∈ nextHopLines hops) : ¬ IsPrefixLine line := by
  obtain ⟨hop, _, rfl⟩ := List.mem_map.mp hline
  have hstart : "  face ".toList = ' ' :: [' ', 'f', 'a', 'c', 'e', ' '] := rfl
  simp [IsPrefixLine, String.toList_append, hstart]

/-- In a listing the prefix lines are the names of the entries. -/
theorem filter_isPrefixLine_listing (entries : List Fib.Entry) :
    (listing entries).filter (IsPrefixLine ·) = entries.map fun e => toString e.name := by
  have hentry : ∀ e : Fib.Entry,
      (toString e.name :: nextHopLines e.nextHops).filter (IsPrefixLine ·) = [toString e.name] := by
    intro e
    rw [List.filter_cons_of_pos (by simpa using isPrefixLine_toString e.name),
      List.filter_eq_nil_iff.mpr]
    intro line hline
    simpa using not_isPrefixLine_of_mem hline
  cases entries with
  | nil => rfl
  | cons e rest =>
    rw [listing, if_neg (by simp), List.filter_flatMap, List.flatMap_congr fun e _ => hentry e]
    exact List.map_eq_flatMap.symm

/-! ## All routes -/

/-- The output tells of the entries: for each its prefix and then `lines`, one for each of its next
hops and in their order. The prefix lines are those of the entries. -/
structure TellsOf (output : List String) (entries : List Fib.Entry)
    (lines : Fib.Entry → List String) : Prop where
  showsHops : ∀ e ∈ entries, List.Forall₂ ShowsHop (lines e) e.nextHops
  output_eq : output =
    if entries = [] then ["No routes configured"]
    else entries.flatMap fun e => toString e.name :: lines e
  prefixLines : output.filter (IsPrefixLine ·) = entries.map fun e => toString e.name

theorem tellsOf_listing (entries : List Fib.Entry) :
    TellsOf (listing entries) entries fun e => nextHopLines e.nextHops where
  showsHops _ _ := forall₂_showsHop_iff.mpr rfl
  output_eq := by simp only [listing, List.isEmpty_iff]
  prefixLines := filter_isPrefixLine_listing entries

/-- The entries are those of the prefixes that the settings have a route for, each once and in name
order, and each is what the settings lead to for its prefix. -/
structure Lists (c : Config) (entries : List Fib.Entry) : Prop where
  ordered : entries.Pairwise fun e e' => compare e.name e'.name = .lt
  names : ∀ n, (∃ e ∈ entries, e.name = n) ↔ c.HasPrefix n
  decides : ∀ e ∈ entries, e.nextHops ≠ [] ∧ c.Decides e.name e

/-- The entries of a base that have next hops. -/
def served (fib : Fib) : List Fib.Entry := fib.entries.filter (! ·.nextHops.isEmpty)

theorem mem_served_iff {fib : Fib} {r : RouteMap} (m : fib.Mirrors r) {e : Fib.Entry} :
    e ∈ served fib ↔ fib.find? e.name = some e ∧ e.nextHops ≠ [] := by
  rw [served, List.mem_filter, m.mem_entries_iff]
  simp

theorem lists_served (hroutes : c.parsedRoutes = .ok routes) :
    Lists c (served (.ofRoutes routes)) := by
  have m : (Fib.ofRoutes routes).Mirrors _ := Fib.mirrors_after (routes.map Route.call)
  constructor
  case ordered => exact m.wellFormed.ordered_entries.filter _
  case names =>
    intro n
    rw [← Config.hasRoute_iff hroutes, m.hasRoute_iff]
    constructor
    · rintro ⟨e, he, rfl⟩
      obtain ⟨hfind, hne⟩ := (mem_served_iff m).mp he
      rw [(m.find?_eq_some_iff.mp hfind).1] at hne
      exact hne
    · intro hne
      have hfind : (Fib.ofRoutes routes).find? n = some ⟨n, (Fib.ofRoutes routes).nextHops n⟩ :=
        m.find?_eq_some_iff.mpr ⟨rfl, .inr (m.hasRoute_iff.mpr hne)⟩
      exact ⟨⟨n, (Fib.ofRoutes routes).nextHops n⟩, (mem_served_iff m).mpr ⟨hfind, hne⟩, rfl⟩
  case decides =>
    intro e he
    obtain ⟨hfind, hne⟩ := (mem_served_iff m).mp he
    exact ⟨hne, Config.decides_of_find? hroutes hfind (List.prefix_refl _)
      fun p hp _ => hp.length_le⟩

/-- A prefix that the settings have a route for is read back from its written form. -/
theorem isReadBack_of_hasPrefix {n : Name} (hhas : c.HasPrefix n) : n.IsReadBack := by
  obtain ⟨r, _, hdenotes⟩ := hhas
  exact (Name.withoutEmpty_of_ok hdenotes).isReadBack

theorem Lists.isReadBack {entries : List Fib.Entry} (hlists : Lists c entries) {e : Fib.Entry}
    (he : e ∈ entries) : e.name.IsReadBack :=
  isReadBack_of_hasPrefix ((hlists.names e.name).mp ⟨e, he, rfl⟩)

/-- No two entries are written alike. -/
theorem Lists.nodup_text {entries : List Fib.Entry} (hlists : Lists c entries) :
    (entries.map fun e => toString e.name).Nodup := by
  rw [List.nodup_iff_pairwise_ne, List.pairwise_map]
  refine hlists.ordered.imp_of_mem fun {e e'} he he' hlt heq => ?_
  have hname : e.name = e'.name := by
    rw [← (hlists.isReadBack he).2, heq, (hlists.isReadBack he').2]
  have hself : compare e'.name e'.name = .eq := Std.ReflCmp.compare_self
  rw [hname, hself] at hlt
  cases hlt

/-- The command that asks for a served prefix by its written form gets its entry. -/
theorem job_route_of_mem (hroutes : c.parsedRoutes = .ok routes) {e : Fib.Entry}
    (he : e ∈ served (.ofRoutes routes)) :
    (Command.route (toString e.name)).job c = .finish (.success
      ((toString e.name ++ " -> " ++ toString e.name) :: nextHopLines e.nextHops)) := by
  have m : (Fib.ofRoutes routes).Mirrors _ := Fib.mirrors_after (routes.map Route.call)
  obtain ⟨hfind, hne⟩ := (mem_served_iff m).mp he
  have hdecides : (Fib.ofRoutes routes).Decides e.name e :=
    ⟨hfind, List.prefix_refl _, fun p hp _ => hp.length_le⟩
  simp only [Command.job, ((lists_served hroutes).isReadBack he).1, fibOf_eq hroutes, routeLines,
    m.decides_iff.mp hdecides]
  rw [if_neg (by simpa using hne)]

/-- **Settings lead to lookups.** A node can be made of settings exactly if they are valid. Then a
lookup in its base finds what the settings lead to for the name, and the commands that show routes
make the same base. One of them lists each prefix that has a route once, in name order, and shows
each of its next hops. The other one, asked for what such a prefix line says, finds the prefix
itself and prints the same lines about its next hops. -/
theorem settings_lead_to_lookups (c : Config) (nonces : NonceSource) (observers : Nat) :
    ((∃ fw, Forwarder.ofConfig c nonces observers = .ok fw) ↔ c.validate = .ok ()) ∧
    ∀ fw, Forwarder.ofConfig c nonces observers = .ok fw →
      (∀ n, c.Decides n (fw.fib.longestPrefixMatch n)) ∧
      fibOf c = .ok fw.fib ∧
      ∃ entries output lines, Lists c entries ∧ TellsOf output entries lines ∧
        Command.routes.job c = .finish (.success output) ∧
        (entries.map fun e => toString e.name).Nodup ∧
        ∀ e ∈ entries, (Command.route (toString e.name)).job c = .finish (.success
          ((toString e.name ++ " -> " ++ toString e.name) :: lines e)) := by
  refine ⟨Forwarder.exists_ofConfig_iff c nonces observers, fun fw hok => ?_⟩
  obtain ⟨_, routes, hroutes, rfl⟩ := Forwarder.ofConfig_eq_ok_iff.mp hok
  rw [Forwarder.foldl_addRoute_build]
  have hlists := lists_served hroutes
  refine ⟨Config.decides_longestPrefixMatch hroutes, fibOf_eq hroutes, _, _, _, hlists,
    tellsOf_listing _, ?_, hlists.nodup_text, fun e he => job_route_of_mem hroutes he⟩
  simp only [Command.job, fibOf_eq hroutes]
  rfl

/-- One prefix in three spellings, twice for the same face, and the root. -/
def threeSpellings : Config where
  routes := [⟨"/a/b", 3, 7⟩, ⟨"ndn:/%61//b", 4, 1⟩, ⟨"/", 9, 2⟩, ⟨"/a/%62", 3, 0⟩]

theorem threeSpellings_lead_to_lookups :
    let ab : Name := ⟨[.ofChars ['a'], .ofChars ['b']]⟩
    threeSpellings.validate = .ok () ∧ threeSpellings.HasPrefix ab ∧
      threeSpellings.Sets ab ⟨3⟩ 0 ∧
      ∃ fw, Forwarder.ofConfig threeSpellings (.cycle 0 []) 0 = .ok fw ∧
        threeSpellings.Decides (ab.append (.ofChars ['c']))
          (fw.fib.longestPrefixMatch (ab.append (.ofChars ['c']))) ∧
        ∃ lines, (Command.route "/a/b").job threeSpellings =
            .finish (.success ("/a/b -> /a/b" :: lines)) ∧ "  face 3 cost 0" ∈ lines := by
  intro ab
  have hvalid : threeSpellings.validate = .ok () := by decide
  have hdenotes : (⟨"/a/%62", 3, 0⟩ : RouteSetting).Denotes ab := by
    unfold RouteSetting.Denotes
    decide
  have hsets : threeSpellings.Sets ab ⟨3⟩ 0 :=
    ⟨threeSpellings.routes.take 3, _, [], rfl, ⟨hdenotes, rfl⟩, rfl, List.forall_mem_nil _⟩
  obtain ⟨hiff, hlead⟩ := settings_lead_to_lookups threeSpellings (.cycle 0 []) 0
  obtain ⟨fw, hok⟩ := hiff.mpr hvalid
  obtain ⟨hdecides, _, entries, output, lines, hlists, htells, _, _, hroute⟩ := hlead fw hok
  obtain ⟨e, he, hname⟩ := (hlists.names ab).mpr hsets.hasPrefix
  have hhop : ⟨⟨3⟩, 0⟩ ∈ e.nextHops :=
    ((hlists.decides e he).2.mem_iff ⟨3⟩ 0).mpr (hname ▸ hsets)
  have hline : "  face 3 cost 0" ∈ lines e := by
    rw [forall₂_showsHop_iff.mp (htells.showsHops e he)]
    exact List.mem_map.mpr ⟨_, hhop, by decide⟩
  have htext : toString ab = "/a/b" := by decide
  have hjob := hroute e he
  rw [hname, htext] at hjob
  exact ⟨hvalid, hsets.hasPrefix, hsets, fw, hok, hdecides _, lines e, hjob, hline⟩

end CommandLine

end NamedData
