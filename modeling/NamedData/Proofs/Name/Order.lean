import Mathlib.Data.List.Infix
import NamedData.Name.Basic

/-!
# The order of names and their prefixes

Names are compared component by component and components byte by byte, and what ends early comes
first. So a name comes directly before its extensions: whatever lies between a name and one of its
extensions extends the name too. A scan of names in ascending order that starts at a name and stops
at the first one that does not extend it misses no extension.

## Main definitions

* `Name.GoesWithPrefixes`, what the prefixes of names can expect of a comparison

## Main statements

* `compare_eq_lt_iff_lex`, lists are compared in lexicographic order
* `isPrefix_of_between`, what lies between a list and its extension is an extension
* `Name.takeWhile_dropWhile_eq_filter`, a scan misses no extension
* `Name.compare_goesWithPrefixes`
-/
namespace NamedData

/-! ## Lexicographic order -/

section Lexicographic

variable {κ : Type*} [Ord κ] {p a m : List κ}

/-- Lists are compared at the first place where they differ, and one that ends there is less. -/
theorem compare_eq_lt_iff_lex [Std.LawfulEqOrd κ] :
    compare a m = .lt ↔ List.Lex (fun x y => compare x y = .lt) a m := by
  induction a generalizing m with
  | nil =>
    cases m with
    | nil => exact iff_of_false nofun List.not_lex_nil
    | cons y m => exact iff_of_true rfl .nil
  | cons x a ih =>
    cases m with
    | nil => exact iff_of_false nofun List.not_lex_nil
    | cons y m =>
      rw [List.compare_cons_cons, Ordering.then_eq_lt, List.cons_lex_cons_iff, ih,
        Std.LawfulEqCmp.compare_eq_iff_eq]

/-- No list comes before its prefixes. -/
theorem isLE_compare_of_isPrefix [Std.ReflOrd κ] (hpm : p <+: m) : (compare p m).isLE = true := by
  obtain ⟨t, rfl⟩ := hpm
  induction p with
  | nil => exact List.isLE_compare_nil_left
  | cons x p ih =>
    rw [List.cons_append, List.compare_cons_cons, Std.ReflOrd.compare_self]
    exact ih

/-- The extensions of a list are next to each other. -/
theorem isPrefix_of_between [Std.OrientedOrd κ] [Std.LawfulEqOrd κ]
    (hpa : (compare p a).isLE = true) (ham : (compare a m).isLE = true) (hpm : p <+: m) :
    p <+: a := by
  induction p generalizing a m with
  | nil => exact List.nil_prefix
  | cons x p ih =>
    obtain ⟨t, rfl⟩ := hpm
    cases a with
    | nil => cases hpa
    | cons y a =>
      rw [List.cons_append] at ham
      rw [List.compare_cons_cons, Ordering.isLE_then_iff_and] at hpa ham
      -- the first elements lie between `x` and `x`
      obtain rfl : x = y :=
        Std.LawfulEqOrd.eq_of_compare (Std.OrientedCmp.isLE_antisymm hpa.1 ham.1)
      rw [Std.ReflOrd.compare_self] at hpa ham
      rw [List.prefix_cons_inj]
      exact ih (hpa.2.resolve_left nofun) (ham.2.resolve_left nofun) (List.prefix_append p t)

end Lexicographic

/-- A scan that stops at the first miss finds everything if whatever precedes a hit is one. -/
theorem takeWhile_eq_filter {β : Type*} {l : List β} {q : β → Bool}
    (h : l.Pairwise fun a b => q b = true → q a = true) : l.takeWhile q = l.filter q := by
  induction l with
  | nil => rfl
  | cons a rest ih =>
    obtain ⟨ha, hrest⟩ := List.pairwise_cons.mp h
    by_cases hq : q a = true
    · rw [List.takeWhile_cons_of_pos hq, List.filter_cons_of_pos hq, ih hrest]
    · rw [List.takeWhile_cons_of_neg hq, List.filter_cons_of_neg hq, eq_comm,
        List.filter_eq_nil_iff]
      exact fun b hb hqb => hq (ha b hb hqb)

/-! ## Names -/

namespace Name

variable {a b c n : Name}

theorem compare_eq_lt_iff : compare a b = .lt ↔
    List.Lex (fun x y => List.Lex (· < ·) x.bytes y.bytes) a.components b.components := by
  have hcomponents : ∀ x y : Component,
      compare x y = .lt ↔ List.Lex (· < ·) x.bytes y.bytes := by
    intro x y
    refine (compare_eq_lt_iff_lex (a := x.bytes) (m := y.bytes)).trans ?_
    simp only [Std.compare_eq_lt]
  refine (compare_eq_lt_iff_lex (a := a.components) (m := b.components)).trans ?_
  simp only [hcomponents]

instance : IsLinearOrder Name fun a b => (compare a b).isLE = true where
  refl _ := Std.ReflOrd.isLE_rfl
  trans _ _ _ := Std.TransCmp.isLE_trans
  antisymm _ _ hab hba := Std.LawfulEqOrd.eq_of_compare (Std.OrientedCmp.isLE_antisymm hab hba)
  total a b := by
    cases hab : compare a b with
    | lt => exact .inl rfl
    | eq => exact .inl rfl
    | gt => exact .inr (Ordering.isLE_of_eq_lt (Std.OrientedCmp.lt_of_gt hab))

instance : IsPartialOrder Name IsPrefixOf where
  refl _ := List.prefix_rfl
  trans _ _ _ := List.IsPrefix.trans
  antisymm _ _ hab hba := congrArg Name.mk (antisymm (r := (· <+: ·)) hab hba)

theorem IsPrefixOf.isLE_compare (h : a.IsPrefixOf b) : (compare a b).isLE = true :=
  isLE_compare_of_isPrefix h

theorem isPrefixOf_of_between (hac : a.IsPrefixOf c) (hab : (compare a b).isLE = true)
    (hbc : (compare b c).isLE = true) : a.IsPrefixOf b :=
  isPrefix_of_between hab hbc hac

/-- **A scan** in ascending order that goes from a name on as long as it finds extensions of the
name finds them all. -/
theorem takeWhile_dropWhile_eq_filter {β : Type*} {key : β → Name} {l : List β}
    (hsorted : l.Pairwise fun a b => compare (key a) (key b) = .lt) (n : Name) :
    (l.dropWhile fun b => compare (key b) n == .lt).takeWhile (fun b => n.IsPrefixOf (key b)) =
      l.filter fun b => n.IsPrefixOf (key b) := by
  induction l with
  | nil => rfl
  | cons b rest ih =>
    obtain ⟨hb, hrest⟩ := List.pairwise_cons.mp hsorted
    by_cases hlt : compare (key b) n = .lt
    · -- nothing that comes before `n` extends it
      have hnot : ¬ n.IsPrefixOf (key b) := fun h =>
        Std.OrientedCmp.not_lt_of_isLE h.isLE_compare hlt
      rw [List.dropWhile_cons_of_pos (by simpa using hlt),
        List.filter_cons_of_neg (by simpa using hnot), ih hrest]
    · have hle : (compare n (key b)).isLE = true :=
        Std.OrientedCmp.isLE_of_isGE (Ordering.isGE_iff_ne_lt.mpr hlt)
      have hfrom : ∀ c ∈ b :: rest, (compare n (key c)).isLE = true := by
        refine List.forall_mem_cons.mpr ⟨hle, fun c hc => ?_⟩
        exact Std.TransCmp.isLE_trans hle (Ordering.isLE_of_eq_lt (hb c hc))
      rw [List.dropWhile_cons_of_neg (by simpa using hlt)]
      refine takeWhile_eq_filter (hsorted.imp_of_mem fun {c d} hc _ hcd hd => ?_)
      rw [decide_eq_true_eq] at hd ⊢
      exact isPrefixOf_of_between hd (hfrom c hc) (Ordering.isLE_of_eq_lt hcd)

/-- A name comes first among its extensions. -/
theorem head?_filter_isPrefixOf {names : List Name}
    (hsorted : names.Pairwise fun a b => compare a b = .lt) (hn : n ∈ names) :
    (names.filter fun b => n.IsPrefixOf b).head? = some n := by
  have hmem : n ∈ names.filter fun b => n.IsPrefixOf b :=
    List.mem_filter.mpr ⟨hn, decide_eq_true List.prefix_rfl⟩
  have hascending := hsorted.filter fun b => n.IsPrefixOf b
  cases hext : names.filter fun b => n.IsPrefixOf b with
  | nil =>
    rw [hext] at hmem
    cases hmem
  | cons b rest =>
    rw [hext] at hmem hascending
    rcases List.mem_cons.mp hmem with rfl | hrest
    · rfl
    · -- what comes before the name does not extend it
      have hb : b ∈ names.filter fun b => n.IsPrefixOf b := hext ▸ List.mem_cons_self
      have hprefix : n.IsPrefixOf b := of_decide_eq_true (List.mem_filter.mp hb).2
      have hlt := (List.pairwise_cons.mp hascending).1 n hrest
      exact absurd hlt (Std.OrientedCmp.not_lt_of_isLE hprefix.isLE_compare)

/-- The comparison `cmp` of names goes with their prefixes. -/
structure GoesWithPrefixes (cmp : Name → Name → Ordering) : Prop where
  /-- Any two names can be compared. -/
  linear : IsLinearOrder Name fun a b => (cmp a b).isLE = true
  eq_iff : ∀ a b, cmp a b = .eq ↔ a = b
  gt_iff : ∀ a b, cmp a b = .gt ↔ cmp b a = .lt
  /-- Names are compared by the components at the first place where they differ, and components by
  the bytes at the first place where they differ. A name or a component that ends there is less. -/
  lt_iff : ∀ a b, cmp a b = .lt ↔
    List.Lex (fun x y => List.Lex (· < ·) x.bytes y.bytes) a.components b.components
  prefixes : IsPartialOrder Name IsPrefixOf
  /-- A name comes before its extensions. -/
  lt_of_isPrefixOf : ∀ a b, a.IsPrefixOf b → a ≠ b → cmp a b = .lt
  /-- What lies between a name and one of its extensions extends the name. -/
  isPrefixOf_of_between : ∀ a b c, a.IsPrefixOf c → (cmp a b).isLE = true →
    (cmp b c).isLE = true → a.IsPrefixOf b
  /-- Among names in ascending order, the extensions of a name are those from the first one on that
  does not come before it, up to the first one that does not extend it. -/
  block : ∀ a (names : List Name), (names.Pairwise fun b c => cmp b c = .lt) →
    (names.dropWhile fun b => cmp b a == .lt).takeWhile (fun b => a.IsPrefixOf b) =
      names.filter fun b => a.IsPrefixOf b
  /-- The first of them is the name itself if it is there. -/
  block_head : ∀ a (names : List Name), (names.Pairwise fun b c => cmp b c = .lt) → a ∈ names →
    (names.filter fun b => a.IsPrefixOf b).head? = some a

/-- **The order of names goes with their prefixes**: the extensions of a name form one block that
starts with the name. -/
theorem compare_goesWithPrefixes : GoesWithPrefixes compare where
  linear := inferInstance
  eq_iff _ _ := Std.LawfulEqCmp.compare_eq_iff_eq
  gt_iff _ _ := Std.OrientedCmp.gt_iff_lt
  lt_iff _ _ := compare_eq_lt_iff
  prefixes := inferInstance
  lt_of_isPrefixOf _ _ h hne := (Ordering.isLE_iff_eq_lt_or_eq_eq.mp h.isLE_compare).resolve_right
    fun heq => hne (Std.LawfulEqOrd.eq_of_compare heq)
  isPrefixOf_of_between _ _ _ := isPrefixOf_of_between
  block a _ hsorted := takeWhile_dropWhile_eq_filter hsorted a
  block_head _ _ := head?_filter_isPrefixOf

end Name

end NamedData
