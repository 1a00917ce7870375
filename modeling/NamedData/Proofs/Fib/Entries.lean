import NamedData.Proofs.Fib.NextHops
import NamedData.Proofs.Name.Index

/-!
# The entries of the forwarding base

The root's entry is apart from the others, and each of these has a next hop and is stored under
its own prefix. So a base is determined by the next hops of the prefixes, and a change to the base
is seen in them.

## Main definitions

* `Fib.nextHops`, `Fib.WellFormed`

## Main statements

* `Fib.nextHops_addNextHop`, `Fib.nextHops_removeNextHop`, `Fib.nextHops_removeFace`
* `Fib.wellFormed_addNextHop`, `Fib.wellFormed_removeNextHop`, `Fib.wellFormed_removeFace`
* `Fib.ext_nextHops`, a base is determined by the next hops of the prefixes
-/
namespace NamedData.Fib

variable {fib fib' : Fib} {n : Name} {f : FaceId}

/-! ## What a change does -/

/-- The next hops of exactly `n`, which are none if it has no entry. -/
def nextHops (fib : Fib) (n : Name) : NextHops := ((fib.find? n).map Entry.nextHops).getD []

/-- Every entry is stored under its own prefix. The root's is apart from the others, and each of
these has a next hop. -/
structure WellFormed (fib : Fib) : Prop where
  name_root : fib.root.name = .root
  get?_root : fib.routes.get? .root = none
  name_eq : ∀ {n e}, fib.routes.get? n = some e → e.name = n
  ne_nil : ∀ {n e}, fib.routes.get? n = some e → e.nextHops ≠ []

theorem wellFormed_empty : empty.WellFormed := ⟨rfl, rfl, nofun, nofun⟩

theorem nextHops_root (fib : Fib) : fib.nextHops .root = fib.root.nextHops := rfl

theorem nextHops_of_ne (fib : Fib) (hne : n ≠ .root) :
    fib.nextHops n = ((fib.routes.get? n).map Entry.nextHops).getD [] := by
  rw [nextHops, find?, if_neg (by simpa using hne)]

theorem Entry.nonempty?_eq_some_iff {e e' : Entry} :
    e.nonempty? = some e' ↔ e' = e ∧ e.nextHops ≠ [] := by
  simp only [nonempty?, Option.ite_none_left_eq_some, List.isEmpty_iff, Option.some.injEq]
  rw [and_comm, @eq_comm _ e e']

theorem Entry.removeNextHop_iff {e : Entry} :
    (e.removeNextHop f).1 = true ↔ e.HasNextHop f := by
  rw [HasNextHop, ← NextHops.length_without_ne_iff, removeNextHop, bne_iff_ne]

theorem Entry.nextHops_nonempty? (e : Entry) :
    (e.nonempty?.map Entry.nextHops).getD [] = e.nextHops := by
  unfold nonempty?
  split
  · next hempty => rw [List.isEmpty_iff.mp hempty]; rfl
  · rfl

/-- The entries that are left when a face is withdrawn from one prefix. -/
theorem get?_removeNextHop (fib : Fib) (hne : n ≠ .root) (f : FaceId) (n' : Name) :
    (fib.removeNextHop n f).2.routes.get? n' =
      if n' = n then (fib.routes.get? n).bind fun e => (e.removeNextHop f).2.nonempty?
      else fib.routes.get? n' := by
  rw [removeNextHop, if_neg (by simpa using hne)]
  cases hget : fib.routes.get? n with
  | none => by_cases hn : n' = n <;> simp [hn, hget]
  | some e =>
    simp only [Option.bind_some]
    cases (e.removeNextHop f).2.nonempty? <;> simp

theorem root_removeNextHop (fib : Fib) (hne : n ≠ .root) (f : FaceId) :
    (fib.removeNextHop n f).2.root = fib.root := by
  rw [removeNextHop, if_neg (by simpa using hne)]
  cases fib.routes.get? n with
  | none => rfl
  | some e =>
    dsimp only
    cases (e.removeNextHop f).2.nonempty? <;> rfl

theorem get?_addNextHop (fib : Fib) (hne : n ≠ .root) (f : FaceId) (cost : UInt64) (n' : Name) :
    (fib.addNextHop n f cost).routes.get? n' =
      if n' = n then some (((fib.routes.get? n).getD { name := n }).addNextHop f cost)
      else fib.routes.get? n' := by
  rw [addNextHop, if_neg (by simpa using hne)]
  exact SortedMap.get?_insert _ _ _ _

theorem root_addNextHop (fib : Fib) (hne : n ≠ .root) (f : FaceId) (cost : UInt64) :
    (fib.addNextHop n f cost).root = fib.root := by
  rw [addNextHop, if_neg (by simpa using hne)]

theorem nextHops_addNextHop (fib : Fib) (n : Name) (f : FaceId) (cost : UInt64) (n' : Name) :
    (fib.addNextHop n f cost).nextHops n' =
      if n' = n then (fib.nextHops n).set f cost else fib.nextHops n' := by
  by_cases hroot : n = .root
  · subst hroot
    by_cases hroot' : n' = .root
    · rw [hroot', if_pos rfl]
      rfl
    · rw [nextHops_of_ne _ hroot', nextHops_of_ne _ hroot', if_neg hroot']
      rfl
  · by_cases hroot' : n' = .root
    · rw [hroot', nextHops_root, nextHops_root, root_addNextHop fib hroot, if_neg (Ne.symm hroot)]
    · rw [nextHops_of_ne _ hroot', nextHops_of_ne _ hroot', nextHops_of_ne _ hroot,
        get?_addNextHop fib hroot]
      split
      · cases fib.routes.get? n <;> rfl
      · rfl

theorem nextHops_removeNextHop (fib : Fib) (n : Name) (f : FaceId) (n' : Name) :
    (fib.removeNextHop n f).2.nextHops n' =
      if n' = n then (fib.nextHops n).without f else fib.nextHops n' := by
  by_cases hroot : n = .root
  · subst hroot
    by_cases hroot' : n' = .root
    · rw [hroot', if_pos rfl]
      rfl
    · rw [nextHops_of_ne _ hroot', nextHops_of_ne _ hroot', if_neg hroot']
      rfl
  · by_cases hroot' : n' = .root
    · rw [hroot', nextHops_root, nextHops_root, root_removeNextHop fib hroot,
        if_neg (Ne.symm hroot)]
    · rw [nextHops_of_ne _ hroot', nextHops_of_ne _ hroot', nextHops_of_ne _ hroot,
        get?_removeNextHop fib hroot]
      split
      · cases fib.routes.get? n with
        | none => rfl
        | some e => exact Entry.nextHops_nonempty? _
      · rfl

theorem nextHops_removeFace (fib : Fib) (f : FaceId) (n : Name) :
    (fib.removeFace f).nextHops n = (fib.nextHops n).without f := by
  by_cases hroot : n = .root
  · subst hroot
    rfl
  · simp only [nextHops_of_ne _ hroot, removeFace, SortedMap.get?_filterMap]
    cases fib.routes.get? n with
    | none => rfl
    | some e => exact Entry.nextHops_nonempty? _

theorem wellFormed_addNextHop (wf : fib.WellFormed) (n : Name) (f : FaceId) (cost : UInt64) :
    (fib.addNextHop n f cost).WellFormed := by
  by_cases hroot : n = .root
  · subst hroot
    exact ⟨wf.name_root, wf.get?_root, wf.name_eq, wf.ne_nil⟩
  · have hadded : ∀ {n' e}, (fib.addNextHop n f cost).routes.get? n' = some e →
        e.name = n' ∧ e.nextHops ≠ [] := by
      intro n' e hget
      rw [get?_addNextHop fib hroot] at hget
      split at hget
      · next heq =>
        obtain rfl := Option.some.inj hget
        refine ⟨?_, NextHops.set_ne_nil _ f cost⟩
        cases hold : fib.routes.get? n with
        | none => exact heq.symm
        | some old => exact (wf.name_eq hold).trans heq.symm
      · exact ⟨wf.name_eq hget, wf.ne_nil hget⟩
    constructor
    case name_root => rw [root_addNextHop fib hroot, wf.name_root]
    case get?_root => rw [get?_addNextHop fib hroot, if_neg (Ne.symm hroot), wf.get?_root]
    case name_eq => exact fun hget => (hadded hget).1
    case ne_nil => exact fun hget => (hadded hget).2

theorem wellFormed_removeNextHop (wf : fib.WellFormed) (n : Name) (f : FaceId) :
    (fib.removeNextHop n f).2.WellFormed := by
  by_cases hroot : n = .root
  · subst hroot
    exact ⟨wf.name_root, wf.get?_root, wf.name_eq, wf.ne_nil⟩
  · have hleft : ∀ {n' e}, (fib.removeNextHop n f).2.routes.get? n' = some e →
        e.name = n' ∧ e.nextHops ≠ [] := by
      intro n' e hget
      rw [get?_removeNextHop fib hroot] at hget
      split at hget
      · next heq =>
        obtain ⟨old, hold, hrest⟩ := Option.bind_eq_some_iff.mp hget
        obtain ⟨rfl, hne⟩ := Entry.nonempty?_eq_some_iff.mp hrest
        have hname : old.name = n := wf.name_eq hold
        exact ⟨hname.trans heq.symm, hne⟩
      · exact ⟨wf.name_eq hget, wf.ne_nil hget⟩
    constructor
    case name_root => rw [root_removeNextHop fib hroot, wf.name_root]
    case get?_root => rw [get?_removeNextHop fib hroot, if_neg (Ne.symm hroot), wf.get?_root]
    case name_eq => exact fun hget => (hleft hget).1
    case ne_nil => exact fun hget => (hleft hget).2

theorem wellFormed_removeFace (wf : fib.WellFormed) (f : FaceId) :
    (fib.removeFace f).WellFormed := by
  have hleft : ∀ {n e}, (fib.removeFace f).routes.get? n = some e →
      e.name = n ∧ e.nextHops ≠ [] := by
    intro n e hget
    simp only [removeFace, SortedMap.get?_filterMap] at hget
    obtain ⟨old, hold, hrest⟩ := Option.bind_eq_some_iff.mp hget
    obtain ⟨rfl, hne⟩ := Entry.nonempty?_eq_some_iff.mp hrest
    have hname : old.name = n := wf.name_eq hold
    exact ⟨hname, hne⟩
  constructor
  case name_root => exact wf.name_root
  case get?_root =>
    simp only [removeFace, SortedMap.get?_filterMap, wf.get?_root, Option.bind_none]
  case name_eq => exact fun hget => (hleft hget).1
  case ne_nil => exact fun hget => (hleft hget).2

/-- A prefix other than the root has an entry if it has a next hop. -/
theorem WellFormed.get?_eq_some_iff (wf : fib.WellFormed) (hne : n ≠ .root) {e : Entry} :
    fib.routes.get? n = some e ↔ e = ⟨n, fib.nextHops n⟩ ∧ fib.nextHops n ≠ [] := by
  rw [nextHops_of_ne fib hne]
  constructor
  · intro hget
    rw [hget]
    exact ⟨congrArg (Entry.mk · e.nextHops) (wf.name_eq hget), wf.ne_nil hget⟩
  · rintro ⟨rfl, hsome⟩
    cases hget : fib.routes.get? n with
    | none => simp [hget] at hsome
    | some e => rw [← wf.name_eq hget]; rfl

/-- **A base is determined** by the next hops of the prefixes. -/
theorem ext_nextHops (wf : fib.WellFormed) (wf' : fib'.WellFormed)
    (h : ∀ n, fib.nextHops n = fib'.nextHops n) : fib = fib' := by
  have hroutes : fib.routes = fib'.routes := by
    refine SortedMap.eq_of_get?_eq fun n => Option.ext fun e => ?_
    by_cases hroot : n = .root
    · rw [hroot, wf.get?_root, wf'.get?_root]
    · rw [wf.get?_eq_some_iff hroot, wf'.get?_eq_some_iff hroot, h]
  have hname : fib.root.name = fib'.root.name := wf.name_root.trans wf'.name_root.symm
  have hroot : fib.root.nextHops = fib'.root.nextHops := h .root
  obtain ⟨⟨_, _⟩, _⟩ := fib
  obtain ⟨⟨_, _⟩, _⟩ := fib'
  simp only at hname hroot hroutes
  rw [hname, hroot, hroutes]

end NamedData.Fib
