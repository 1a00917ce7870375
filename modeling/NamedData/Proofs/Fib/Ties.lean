import NamedData.Proofs.Fib.RouteMap

/-!
# The order of next hops of equal cost

The next hops of a prefix stand in ascending cost, and those of one cost stand as they stood before
the last change. How two of them stand is thus decided by the last time that their costs differed:
the face that was cheaper then stands first. A face that is not registered counts as dearer than
any that is. So of two faces that cost the same, the one that was registered first stands first,
unless the other one was cheaper at some later time and their costs have not differed since.

## Main definitions

* `NextHops.Before`, the order of two faces in a list of next hops
* `Fib.CheaperLast`, the face was the cheaper one when the costs last differed
* `Fib.RegisteredAt`, the change that registered a face
* `Fib.Overtook`, the face was the cheaper one of two registered ones when their costs last differed

## Main statements

* `Fib.Mirrors.before_perform`, a change that leaves two costs equal keeps the order of the faces
* `Fib.before_iff_cheaperLast`
* `Fib.ties_after`, the order of ties after any sequence of changes
-/
namespace NamedData

/-! ## Order in a list -/

namespace NextHops

variable {hops : NextHops} {f g face : FaceId} {cost cf cg : UInt64}

/-- The next hop `f` stands somewhere before the next hop `g`. -/
def Before (hops : NextHops) (f g : FaceId) : Prop := [f, g].Sublist (hops.map NextHop.face)

instance (hops : NextHops) (f g : FaceId) : Decidable (hops.Before f g) :=
  inferInstanceAs (Decidable ([f, g].Sublist (hops.map NextHop.face)))

theorem before_iff_exists : hops.Before f g ↔ ∃ cf cg, [⟨f, cf⟩, ⟨g, cg⟩].Sublist hops := by
  rw [Before, List.sublist_map_iff]
  constructor
  · rintro ⟨pair, hpair, heq⟩
    obtain ⟨⟨_, cf⟩, rest, rfl, rfl, hrest⟩ := List.map_eq_cons_iff.mp heq.symm
    obtain ⟨⟨_, cg⟩, rfl, rfl⟩ := List.map_eq_singleton_iff.mp hrest
    exact ⟨cf, cg, hpair⟩
  · rintro ⟨cf, cg, hpair⟩
    exact ⟨_, hpair, rfl⟩

/-- Of two faces only one stands before the other. -/
theorem Valid.not_before (valid : hops.Valid) (hbefore : hops.Before f g) : ¬ hops.Before g f := by
  have hnodup := valid.nodup
  clear valid
  unfold Before at *
  induction hops with
  | nil => cases hbefore
  | cons hop rest ih =>
    rw [List.map_cons] at *
    obtain ⟨hhop, hrest⟩ := List.nodup_cons.mp hnodup
    intro hafter
    rcases List.sublist_cons_iff.mp hbefore with hbefore | ⟨_, ⟨⟩, hg⟩
    · rcases List.sublist_cons_iff.mp hafter with hafter | ⟨_, ⟨⟩, -⟩
      · exact ih hbefore hrest hafter
      · exact hhop (hbefore.subset (by simp))
    · rcases List.sublist_cons_iff.mp hafter with hafter | ⟨_, ⟨⟩, -⟩
      · exact hhop (hafter.subset (by simp))
      · exact hhop (List.singleton_sublist.mp hg)

/-- Of two next hops of different cost the cheaper one stands first. -/
theorem Valid.before_of_lt (valid : hops.Valid) (hf : ⟨f, cf⟩ ∈ hops) (hg : ⟨g, cg⟩ ∈ hops)
    (hlt : cf < cg) : hops.Before f g := by
  obtain ⟨earlier, later, rfl⟩ := List.append_of_mem hf
  rcases List.mem_append.mp hg with hearlier | hlater
  · have hle := (List.pairwise_append.mp valid.sorted).2.2 _ hearlier ⟨f, cf⟩ (by simp)
    exact absurd hlt (UInt64.not_lt.mpr hle)
  · have hne : (⟨g, cg⟩ : NextHop) ≠ ⟨f, cf⟩ := by
      rintro ⟨⟩
      exact UInt64.lt_irrefl _ hlt
    have hrest := (List.mem_cons.mp hlater).resolve_left hne
    refine before_iff_exists.mpr ⟨cf, cg, ?_⟩
    exact ((List.singleton_sublist.mpr hrest).cons_cons _).trans (List.sublist_append_right _ _)

/-- Sorting keeps the order of two next hops, unless the second is the cheaper one. -/
theorem Before.sortByCost (hbefore : hops.Before f g)
    (hle : ∀ cf cg, ⟨f, cf⟩ ∈ hops → ⟨g, cg⟩ ∈ hops → cf ≤ cg) : hops.sortByCost.Before f g := by
  obtain ⟨cf, cg, hpair⟩ := before_iff_exists.mp hbefore
  have hf : ⟨f, cf⟩ ∈ hops := hpair.subset (by simp)
  have hg : ⟨g, cg⟩ ∈ hops := hpair.subset (by simp)
  refine before_iff_exists.mpr ⟨cf, cg, ?_⟩
  rw [sortByCost_eq_insertionSort]
  exact List.pair_sublist_insertionSort (hle cf cg hf hg) hpair

/-- Setting a cost keeps the order of two next hops, unless the second is the cheaper one
afterwards. -/
theorem Before.set (hbefore : hops.Before f g)
    (hle : ∀ cf cg, ⟨f, cf⟩ ∈ hops.set face cost → ⟨g, cg⟩ ∈ hops.set face cost → cf ≤ cg) :
    (hops.set face cost).Before f g := by
  simp only [NextHops.set, (perm_sortByCost _).mem_iff] at hle ⊢
  refine Before.sortByCost ?_ hle
  split
  · rw [Before, map_face_update]
    exact hbefore
  · rw [Before, List.map_append]
    exact hbefore.trans (List.sublist_append_left _ _)

/-- A new next hop comes after the others, unless it is the cheaper one. -/
theorem before_set_new (hf : hops.Has f) (hg : ¬ hops.Has g)
    (hle : ∀ cf cg, ⟨f, cf⟩ ∈ hops.set g cost → ⟨g, cg⟩ ∈ hops.set g cost → cf ≤ cg) :
    (hops.set g cost).Before f g := by
  obtain ⟨⟨_, cf⟩, hmem, rfl⟩ := hf
  simp only [NextHops.set, (perm_sortByCost _).mem_iff] at hle ⊢
  rw [if_neg hg] at hle ⊢
  refine Before.sortByCost (before_iff_exists.mpr ⟨cf, cost, ?_⟩) hle
  exact (List.singleton_sublist.mpr hmem).append (List.Sublist.refl _)

/-- Withdrawing a face keeps the order of the others. -/
theorem Before.without (hbefore : hops.Before f g) (hf : f ≠ face) (hg : g ≠ face) :
    (hops.without face).Before f g := by
  have hfilter := hbefore.filter (· ≠ face)
  rw [List.filter_map] at hfilter
  simpa [Before, NextHops.without, Function.comp_def, hf, hg] using hfilter

end NextHops

/-! ## Cheaper routes -/

namespace RouteMap

variable {r : RouteMap} {n : Name} {f g : FaceId}

/-- The route through `f` costs less than the one through `g`, or there is none through `g`. -/
def Cheaper (r : RouteMap) (n : Name) (f g : FaceId) : Prop :=
  ∃ cf, r n f = some cf ∧ ∀ cg, r n g = some cg → cf < cg

theorem cheaper_of_ne (hne : r n f ≠ r n g) : r.Cheaper n f g ∨ r.Cheaper n g f := by
  cases hf : r n f with
  | none =>
    cases hg : r n g with
    | none => exact absurd (hf.trans hg.symm) hne
    | some cg => exact .inr ⟨cg, hg, by simp [hf]⟩
  | some cf =>
    cases hg : r n g with
    | none => exact .inl ⟨cf, hf, by simp [hg]⟩
    | some cg =>
      have hcost : cf ≠ cg := fun heq => hne (by rw [hf, hg, heq])
      rcases UInt64.le_total cf cg with hle | hle
      · exact .inl ⟨cf, hf, by simpa [hg] using UInt64.lt_of_le_of_ne hle hcost⟩
      · exact .inr ⟨cg, hg, by simpa [hf] using UInt64.lt_of_le_of_ne hle hcost.symm⟩

end RouteMap

namespace Fib

variable {fib : Fib} {r : RouteMap} {n : Name} {f g : FaceId} {cost : UInt64} {c : Call}
  {calls : List Call}

/-! ## One change -/

/-- A change registers one face at most. -/
theorem Call.onMap_eq_none_or (hne : f ≠ g) (hf : r n f = none) (hg : r n g = none) :
    c.onMap r n f = none ∨ c.onMap r n g = none := by
  by_contra! hsome
  obtain ⟨cf, hf'⟩ := Option.ne_none_iff_exists'.mp hsome.1
  obtain ⟨cg, hg'⟩ := Option.ne_none_iff_exists'.mp hsome.2
  rw [Call.onMap_eq_some_iff, hf] at hf'
  rw [Call.onMap_eq_some_iff, hg] at hg'
  obtain rfl := hf'.resolve_right (by simp)
  cases hg'.resolve_right (by simp)
  exact hne rfl

namespace Mirrors

theorem le_of_eq (m : fib.Mirrors r) (heq : r n f = r n g) (cf cg : UInt64)
    (hf : ⟨f, cf⟩ ∈ fib.nextHops n) (hg : ⟨g, cg⟩ ∈ fib.nextHops n) : cf ≤ cg := by
  rw [m.mem_iff] at hf hg
  have hcost : some cf = some cg := by rw [← hf, ← hg, heq]
  exact UInt64.le_of_eq (Option.some.inj hcost)

theorem before_of_cheaper (m : fib.Mirrors r) (hcheaper : r.Cheaper n f g) {cg : UInt64}
    (hg : r n g = some cg) : (fib.nextHops n).Before f g := by
  obtain ⟨cf, hf, hlt⟩ := hcheaper
  exact (m.valid n).before_of_lt (m.mem_iff.mpr hf) (m.mem_iff.mpr hg) (hlt cg hg)

/-- **A change** that leaves two next hops at one cost keeps their order. -/
theorem before_perform (m : fib.Mirrors r) (hbefore : (fib.nextHops n).Before f g)
    (hf : c.onMap r n f = some cost) (hg : c.onMap r n g = some cost) :
    ((c.perform fib).nextHops n).Before f g := by
  have hle := (m.perform c).le_of_eq (hf.trans hg.symm)
  cases c with
  | add n' face cost' =>
    simp only [Call.perform, nextHops_addNextHop] at hle ⊢
    by_cases hn : n = n'
    · subst hn
      simp only [if_pos] at hle ⊢
      exact hbefore.set hle
    · rw [if_neg hn]
      exact hbefore
  | remove n' face =>
    simp only [Call.perform, nextHops_removeNextHop]
    by_cases hn : n = n'
    · subst hn
      rw [if_pos rfl]
      refine hbefore.without ?_ ?_
      · rintro rfl
        simp [Call.onMap] at hf
      · rintro rfl
        simp [Call.onMap] at hg
    · rw [if_neg hn]
      exact hbefore
  | removeFace face =>
    rw [Call.perform, nextHops_removeFace]
    refine hbefore.without ?_ ?_
    · rintro rfl
      simp [Call.onMap] at hf
    · rintro rfl
      simp [Call.onMap] at hg

/-- A face that is registered at the cost of another one comes after it. -/
theorem before_perform_new (m : fib.Mirrors r) {cf : UInt64} (hf : r n f = some cf)
    (hg : r n g = none) (hf' : c.onMap r n f = some cost) (hg' : c.onMap r n g = some cost) :
    ((c.perform fib).nextHops n).Before f g := by
  have hle := (m.perform c).le_of_eq (hf'.trans hg'.symm)
  obtain rfl : c = .add n g cost := by
    rcases Call.onMap_eq_some_iff.mp hg' with hc | ⟨-, hg'⟩
    · exact hc
    · rw [hg] at hg'
      cases hg'
  simp only [Call.perform, nextHops_addNextHop, if_pos] at hle ⊢
  refine NextHops.before_set_new (m.has_iff.mpr ⟨cf, hf⟩) ?_ hle
  rw [m.has_iff, hg]
  simp

end Mirrors

/-! ## Sequences of changes -/

/-- After some of the changes `P` held, and after each one since then `Q`. -/
def Since (P Q : List Call → Prop) (calls : List Call) : Prop :=
  ∃ k ≤ calls.length, P (calls.take k) ∧ ∀ j, k < j → j ≤ calls.length → Q (calls.take j)

section Since

variable {P Q : List Call → Prop}

theorem since_of_now (h : P calls) : Since P Q calls := by
  refine ⟨calls.length, le_rfl, by rwa [List.take_length], fun j hlt hle => ?_⟩
  exact absurd hlt (Nat.not_lt.mpr hle)

theorem Since.now (h : Since P Q calls) : P calls ∨ Q calls := by
  obtain ⟨k, hk, hP, hQ⟩ := h
  rcases Nat.eq_or_lt_of_le hk with rfl | hlt
  · left
    rwa [List.take_length] at hP
  · right
    simpa using hQ calls.length hlt le_rfl

/-- Of two moments since which something held that did not hold at the other one, there is one at
most. -/
theorem Since.unique {P' Q' : List Call → Prop} (h : Since P Q calls) (h' : Since P' Q' calls)
    (hPP : ∀ calls, P calls → ¬ P' calls) (hPQ : ∀ calls, P calls → ¬ Q' calls)
    (hQP : ∀ calls, P' calls → ¬ Q calls) : False := by
  obtain ⟨k, hk, hP, hQ⟩ := h
  obtain ⟨k', hk', hP', hQ'⟩ := h'
  rcases Nat.lt_trichotomy k k' with hlt | rfl | hlt
  · exact hQP _ hP' (hQ k' hlt hk')
  · exact hPP _ hP hP'
  · exact hPQ _ hP (hQ' k hlt hk)

theorem since_concat : Since P Q (calls ++ [c]) ↔
    P (calls ++ [c]) ∨ Since P Q calls ∧ Q (calls ++ [c]) := by
  have htake : ∀ {k}, k ≤ calls.length → (calls ++ [c]).take k = calls.take k :=
    fun hk => List.take_append_of_le_length hk
  have hall : (calls ++ [c]).take (calls.length + 1) = calls ++ [c] :=
    List.take_of_length_le (by simp)
  constructor
  · rintro ⟨k, hk, hP, hQ⟩
    rw [List.length_append, List.length_singleton] at hk hQ
    rcases Nat.le_succ_iff.mp hk with hk | rfl
    · refine .inr ⟨⟨k, hk, by rwa [htake hk] at hP, fun j hlt hle => ?_⟩, ?_⟩
      · rw [← htake hle]
        exact hQ j hlt (by omega)
      · rw [← hall]
        exact hQ _ (by omega) le_rfl
    · rw [hall] at hP
      exact .inl hP
  · rintro (hP | ⟨⟨k, hk, hP, hQ⟩, hlast⟩)
    · exact since_of_now hP
    · refine ⟨k, by simp; omega, by rwa [htake hk], fun j hlt hle => ?_⟩
      rw [List.length_append, List.length_singleton] at hle
      rcases Nat.le_succ_iff.mp hle with hle | rfl
      · rw [htake hle]
        exact hQ j hlt hle
      · rwa [hall]

end Since

/-- When the costs last differed, `f` was the cheaper face. -/
def CheaperLast (n : Name) (f g : FaceId) : List Call → Prop :=
  Since (fun calls => (routesAfter calls).Cheaper n f g)
    fun calls => routesAfter calls n f = routesAfter calls n g

theorem routesAfter_concat : routesAfter (calls ++ [c]) = c.onMap (routesAfter calls) :=
  List.foldl_concat ..

theorem after_concat : after (calls ++ [c]) = c.perform (after calls) :=
  List.foldl_concat ..

/-- Of two faces one was the cheaper one when their costs last differed, unless neither was ever
registered. -/
theorem cheaperLast_or (hne : f ≠ g) (calls : List Call) :
    (routesAfter calls n f = none ∧ routesAfter calls n g = none) ∨
      CheaperLast n f g calls ∨ CheaperLast n g f calls := by
  induction calls using List.reverseRecOn with
  | nil => exact .inl ⟨rfl, rfl⟩
  | append_singleton calls c ih =>
    by_cases heq : routesAfter (calls ++ [c]) n f = routesAfter (calls ++ [c]) n g
    · rcases ih with ⟨hf, hg⟩ | hlast | hlast
      · left
        rw [routesAfter_concat] at heq ⊢
        rcases Call.onMap_eq_none_or (c := c) hne hf hg with hnone | hnone
        · exact ⟨hnone, heq ▸ hnone⟩
        · exact ⟨heq.trans hnone, hnone⟩
      · exact .inr (.inl (since_concat.mpr (.inr ⟨hlast, heq⟩)))
      · exact .inr (.inr (since_concat.mpr (.inr ⟨hlast, heq.symm⟩)))
    · rcases RouteMap.cheaper_of_ne heq with hcheaper | hcheaper
      · exact .inr (.inl (since_of_now hcheaper))
      · exact .inr (.inr (since_of_now hcheaper))

/-- The cheaper face when two costs last differed stands first. -/
theorem before_of_cheaperLast (hne : f ≠ g) {cf cg : UInt64} (hlast : CheaperLast n f g calls)
    (hf : routesAfter calls n f = some cf) (hg : routesAfter calls n g = some cg) :
    ((after calls).nextHops n).Before f g := by
  induction calls using List.reverseRecOn generalizing cf cg with
  | nil => cases hf
  | append_singleton calls c ih =>
    rcases since_concat.mp hlast with hcheaper | ⟨hlast, heq⟩
    · exact (mirrors_after _).before_of_cheaper hcheaper hg
    · obtain rfl : cf = cg := Option.some.inj (hf.symm.trans (heq.trans hg))
      rw [routesAfter_concat] at hf hg
      rw [after_concat]
      have m := mirrors_after calls
      cases hf' : routesAfter calls n f with
      | some cf' =>
        cases hg' : routesAfter calls n g with
        | some cg' => exact m.before_perform (ih hlast hf' hg') hf hg
        | none => exact m.before_perform_new hf' hg' hf hg
      | none =>
        have hg' : routesAfter calls n g = none := by
          rcases hlast.now with ⟨cf', hsome, -⟩ | heq'
          · rw [hf'] at hsome
            cases hsome
          · rw [← heq', hf']
        rcases Call.onMap_eq_none_or (c := c) hne hf' hg' with hnone | hnone
        · rw [hnone] at hf
          cases hf
        · rw [hnone] at hg
          cases hg

/-- **The order of two next hops** is decided by the last time that their costs differed. -/
theorem before_iff_cheaperLast (hne : f ≠ g) {cf cg : UInt64}
    (hf : routesAfter calls n f = some cf) (hg : routesAfter calls n g = some cg) :
    ((after calls).nextHops n).Before f g ↔ CheaperLast n f g calls := by
  refine ⟨fun hbefore => ?_, fun hlast => before_of_cheaperLast hne hlast hf hg⟩
  rcases cheaperLast_or hne calls with ⟨hnone, -⟩ | hlast | hlast
  · rw [hnone] at hf
    cases hf
  · exact hlast
  · have hafter := before_of_cheaperLast hne.symm hlast hg hf
    exact absurd hafter (((mirrors_after calls).valid n).not_before hbefore)

/-! ## Registration -/

/-- The face was registered by this change, and has been registered ever since. -/
structure RegisteredAt (calls : List Call) (n : Name) (f : FaceId) (k : Nat) : Prop where
  add : ∃ cost, calls[k]? = some (.add n f cost)
  absent : routesAfter (calls.take k) n f = none
  since : ∀ j, k < j → j ≤ calls.length → (routesAfter (calls.take j) n f).isSome

/-- When the costs of two registered faces last differed, `f` was the cheaper face. -/
def Overtook (n : Name) (f g : FaceId) : List Call → Prop :=
  Since (fun calls => ∃ cf cg, routesAfter calls n f = some cf ∧ routesAfter calls n g = some cg ∧
      cf < cg)
    fun calls => routesAfter calls n f = routesAfter calls n g

/-- A registered face was registered at some time. -/
theorem exists_registeredAt (hf : routesAfter calls n f = some cost) :
    ∃ k, RegisteredAt calls n f k := by
  have hsince : Since (fun calls => routesAfter calls n f = none)
      (fun calls => (routesAfter calls n f).isSome) calls := by
    clear hf
    induction calls using List.reverseRecOn with
    | nil => exact since_of_now rfl
    | append_singleton calls c ih =>
      cases hnow : routesAfter (calls ++ [c]) n f with
      | none => exact since_of_now hnow
      | some cost => exact since_concat.mpr (.inr ⟨ih, by rw [hnow, Option.isSome_some]⟩)
  obtain ⟨k, hk, habsent, hpresent⟩ := hsince
  have hlt : k < calls.length := by
    refine Nat.lt_of_le_of_ne hk ?_
    rintro rfl
    rw [List.take_length, hf] at habsent
    cases habsent
  refine ⟨k, ?_, habsent, hpresent⟩
  obtain ⟨cost', hnext⟩ := Option.isSome_iff_exists.mp (hpresent (k + 1) (Nat.lt_succ_self k) hlt)
  rw [List.take_succ_eq_append_getElem hlt, routesAfter_concat, Call.onMap_eq_some_iff,
    habsent] at hnext
  refine ⟨cost', ?_⟩
  rw [List.getElem?_eq_getElem hlt, hnext.resolve_right (by simp)]

namespace RegisteredAt

variable {k kf kg : Nat}

theorem lt_length (h : RegisteredAt calls n f k) : k < calls.length := by
  obtain ⟨cost, hadd⟩ := h.add
  exact (List.getElem?_eq_some_iff.mp hadd).1

theorem exists_cost (h : RegisteredAt calls n f k) {j : Nat} (hlt : k < j)
    (hle : j ≤ calls.length) : ∃ cost, routesAfter (calls.take j) n f = some cost :=
  Option.isSome_iff_exists.mp (h.since j hlt hle)

theorem ne_of_lt (hf : RegisteredAt calls n f kf) (hg : RegisteredAt calls n g kg)
    (hlt : kf < kg) : f ≠ g := by
  rintro rfl
  obtain ⟨cost, hsome⟩ := hf.exists_cost hlt hg.lt_length.le
  rw [hg.absent] at hsome
  cases hsome

/-- The face that was registered first was the cheaper one when the costs last differed, unless the
other one overtook it. -/
theorem cheaperLast_iff (hf : RegisteredAt calls n f kf) (hg : RegisteredAt calls n g kg)
    (hlt : kf < kg) : CheaperLast n f g calls ↔ ¬ Overtook n g f calls := by
  obtain ⟨cost, hnow⟩ := hf.exists_cost (hlt.trans hg.lt_length) le_rfl
  obtain ⟨cf, hthen⟩ := hf.exists_cost hlt hg.lt_length.le
  rw [List.take_length] at hnow
  constructor
  · intro hlast hovertook
    refine hlast.unique hovertook ?_ ?_ ?_
    · rintro calls ⟨cf, hcf, hless⟩ ⟨cg, cf', hcg, hcf', hmore⟩
      obtain rfl := Option.some.inj (hcf.symm.trans hcf')
      exact UInt64.lt_asymm hmore (hless cg hcg)
    · rintro calls ⟨cf, hcf, hless⟩ heq
      exact UInt64.lt_irrefl _ (hless cf (heq.trans hcf))
    · rintro calls ⟨cg, cf, hcg, hcf, hmore⟩ heq
      rw [hcg, hcf] at heq
      exact UInt64.lt_irrefl _ (Option.some.inj heq ▸ hmore)
  · intro hnot
    rcases cheaperLast_or (hf.ne_of_lt hg hlt) calls with ⟨hnone, -⟩ | hlast | hlast
    · rw [hnow] at hnone
      cases hnone
    · exact hlast
    · -- the other face was the cheaper one at some time after it was registered
      obtain ⟨k, hk, ⟨cg, hcg, hless⟩, hequal⟩ := hlast
      have hafter : kg < k := by
        rcases Nat.lt_trichotomy k kg with hearlier | rfl | hlater
        · have heq : routesAfter (calls.take kg) n g = routesAfter (calls.take kg) n f :=
            hequal kg hearlier hg.lt_length.le
          rw [hg.absent, hthen] at heq
          cases heq
        · rw [hg.absent] at hcg
          cases hcg
        · exact hlater
      obtain ⟨cf, hcf⟩ := hf.exists_cost (hlt.trans hafter) hk
      exact absurd ⟨k, hk, ⟨cg, cf, hcg, hcf, hless cf hcf⟩, hequal⟩ hnot

end RegisteredAt

/-- **The order of ties.** Each next hop was registered at some time. Of two that cost the same, the
one that was registered first stands first, unless the other one was cheaper at some later time and
their costs have not differed since. -/
theorem ties_after (calls : List Call) (n : Name) :
    (∀ hop ∈ (after calls).nextHops n, ∃ k, RegisteredAt calls n hop.face k) ∧
      ∀ f g cost kf kg, ⟨f, cost⟩ ∈ (after calls).nextHops n →
        ⟨g, cost⟩ ∈ (after calls).nextHops n →
        RegisteredAt calls n f kf → RegisteredAt calls n g kg → kf < kg →
          (((after calls).nextHops n).Before f g ↔ ¬ Overtook n g f calls) := by
  have m := mirrors_after calls
  refine ⟨fun hop hmem => exists_registeredAt (m.mem_iff.mp hmem), ?_⟩
  intro f g cost kf kg hf hg hkf hkg hlt
  rw [m.mem_iff] at hf hg
  rw [before_iff_cheaperLast (hkf.ne_of_lt hkg hlt) hf hg, hkf.cheaperLast_iff hkg hlt]

/-- Two faces are registered at the same cost, and the cost of the first one changes and changes
back. -/
def changedAndBack (between : UInt64) : List Call :=
  [.add .root ⟨300⟩ 50, .add .root ⟨301⟩ 50, .add .root ⟨300⟩ between, .add .root ⟨300⟩ 50]

theorem registeredAt_first (between : UInt64) :
    RegisteredAt (changedAndBack between) .root ⟨300⟩ 0 := by
  refine ⟨⟨50, rfl⟩, rfl, fun j hlt hle => ?_⟩
  have hj : j = 1 ∨ j = 2 ∨ j = 3 ∨ j = 4 := by simp [changedAndBack] at hle; omega
  rcases hj with rfl | rfl | rfl | rfl <;> rfl

theorem registeredAt_second (between : UInt64) :
    RegisteredAt (changedAndBack between) .root ⟨301⟩ 1 := by
  refine ⟨⟨50, rfl⟩, rfl, fun j hlt hle => ?_⟩
  have hj : j = 2 ∨ j = 3 ∨ j = 4 := by simp [changedAndBack] at hle; omega
  rcases hj with rfl | rfl | rfl <;> rfl

/-- A face that was cheaper for a while has not been overtaken. -/
theorem cheaper_not_overtaken :
    ((after (changedAndBack 40)).nextHops .root).Before ⟨300⟩ ⟨301⟩ ∧
      ¬ Overtook .root ⟨301⟩ ⟨300⟩ (changedAndBack 40) := by
  have hbefore : ((after (changedAndBack 40)).nextHops .root).Before ⟨300⟩ ⟨301⟩ := by decide
  have hiff := (ties_after (changedAndBack 40) .root).2 ⟨300⟩ ⟨301⟩ 50 0 1 (by decide) (by decide)
    (registeredAt_first 40) (registeredAt_second 40) Nat.one_pos
  exact ⟨hbefore, hiff.mp hbefore⟩

/-- **A face that was dearer for a while** falls behind one that was registered after it. -/
theorem dearer_falls_behind :
    let hops := (after (changedAndBack 60)).nextHops .root
    RegisteredAt (changedAndBack 60) .root ⟨300⟩ 0 ∧
      RegisteredAt (changedAndBack 60) .root ⟨301⟩ 1 ∧
      hops = [⟨⟨301⟩, 50⟩, ⟨⟨300⟩, 50⟩] ∧ ¬ hops.Before ⟨300⟩ ⟨301⟩ := by
  intro hops
  exact ⟨registeredAt_first 60, registeredAt_second 60, by decide, by decide⟩

end Fib

end NamedData
