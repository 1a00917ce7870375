import NamedData.Name.Uri
import Mathlib.Data.List.Forall2

/-!
# The grammar of name URIs

A URI is split at its slashes once one leading `ndn:` is taken off, and each part that is not
empty spells a component, byte for byte. A percent sign and the two bytes after it are an
escape, which stands for one byte, and any other byte stands for itself. An escape holds two
hexadecimal digits. The reader takes one more form of it, a plus sign and one digit, and reads
every URI without that form as the grammar says.

The reader goes through characters and the grammar through bytes. They meet in
`Uri.utf8EncodeChar_cases`: a byte below 0x80 is a character of its own.

## Main definitions

* `Uri.HexPair` and `Uri.SignedDigit`, the two forms of an escape
* `Uri.Spells`, what the bytes of a segment stand for
* `Uri.Reads` and `Uri.FirstMalformed`, what the grammar makes of a URI
* `Name.IsReadBy`, a text is read by the grammar

## Main statements

* `Uri.decode_eq_some_iff`: a segment is decoded as the grammar says
* `Name.isReadBy_escapes`: so is a whole URI
* `Name.plusSign_not_isReadBy`: the second form of an escape is none in the grammar
-/
namespace NamedData

namespace Uri

variable {c a b : Char} {s : List Char} {l t : List UInt8} {v : Nat} {x : UInt8}

/-! ## Bytes of characters -/

/-- The bytes of a text in UTF-8. -/
def utf8 (s : List Char) : List UInt8 := s.flatMap String.utf8EncodeChar

theorem utf8_cons (c : Char) (s : List Char) : utf8 (c :: s) = String.utf8EncodeChar c ++ utf8 s :=
  rfl

/-- A character is one byte below 0x80, or some bytes that are not below. -/
theorem utf8EncodeChar_cases (c : Char) :
    (c.toNat < 0x80 ∧ String.utf8EncodeChar c = [UInt8.ofNat c.toNat]) ∨
      (0x80 ≤ c.toNat ∧ ∃ x rest, String.utf8EncodeChar c = x :: rest ∧
        ∀ y ∈ x :: rest, 0x80 ≤ y.toNat) := by
  rw [String.utf8EncodeChar]
  by_cases h : c.val.toNat ≤ 127
  · left
    simp only [h, if_true]
    exact ⟨Nat.lt_succ_of_le h, rfl⟩
  · right
    refine ⟨Nat.lt_of_not_le h, ?_⟩
    simp only [h, if_false]
    -- two, three or four bytes
    split
    · refine ⟨_, _, rfl, ?_⟩
      simp
      omega
    · split
      · refine ⟨_, _, rfl, ?_⟩
        simp
        omega
      · refine ⟨_, _, rfl, ?_⟩
        simp
        omega

theorem utf8EncodeChar_of_lt (hc : c.toNat < 0x80) :
    String.utf8EncodeChar c = [UInt8.ofNat c.toNat] := by
  rcases utf8EncodeChar_cases c with ⟨_, heq⟩ | ⟨hge, _⟩
  · exact heq
  · exact absurd hc (Nat.not_lt.mpr hge)

theorem toNat_byte (hc : c.toNat < 0x80) : (UInt8.ofNat c.toNat).toNat = c.toNat := by
  rw [UInt8.toNat_ofNat']
  omega

/-- Only a percent sign has the byte of a percent sign. -/
theorem ne_percent_of_mem (hc : c ≠ '%') : ∀ y ∈ String.utf8EncodeChar c, y ≠ 0x25 := by
  rintro y hy rfl
  rcases utf8EncodeChar_cases c with ⟨hlt, heq⟩ | ⟨_, z, rest, heq, hge⟩
  · rw [heq, List.mem_singleton] at hy
    refine hc (Char.toNat_inj.mp ?_)
    rw [← toNat_byte hlt, ← hy]
    rfl
  · exact absurd (hge _ (heq ▸ hy)) (by decide)

/-- A text that starts with a byte below 0x80 starts with the character of that byte. -/
theorem utf8_eq_cons {y : UInt8} (h : utf8 s = y :: l) (hy : y.toNat < 0x80) :
    ∃ c rest, s = c :: rest ∧ c.toNat < 0x80 ∧ y = UInt8.ofNat c.toNat ∧ l = utf8 rest := by
  cases s with
  | nil => cases h
  | cons c rest =>
    rw [utf8_cons] at h
    rcases utf8EncodeChar_cases c with ⟨hlt, heq⟩ | ⟨_, z, more, heq, hge⟩
    · rw [heq, List.singleton_append, List.cons.injEq] at h
      exact ⟨c, rest, rfl, hlt, h.1.symm, h.2.symm⟩
    · rw [heq, List.cons_append, List.cons.injEq] at h
      exact absurd (hge z List.mem_cons_self) (by rw [h.1]; omega)

theorem utf8_ne_nil (hs : s ≠ []) : utf8 s ≠ [] := by
  obtain ⟨c, rest, rfl⟩ := List.exists_cons_of_ne_nil hs
  rw [utf8_cons]
  rcases utf8EncodeChar_cases c with ⟨_, heq⟩ | ⟨_, x, more, heq, _⟩
  · rw [heq]
    exact List.cons_ne_nil _ _
  · rw [heq]
    exact List.cons_ne_nil _ _

/-! ## Escapes -/

/-- The byte is a hexadecimal digit of either case with the value `v`. -/
inductive HexDigit : UInt8 → Nat → Prop
  | decimal {x : UInt8} {v : Nat} (hv : v < 10) (hx : x.toNat = '0'.toNat + v) : HexDigit x v
  | upper {x : UInt8} {v : Nat} (hv : v < 6) (hx : x.toNat = 'A'.toNat + v) : HexDigit x (10 + v)
  | lower {x : UInt8} {v : Nat} (hv : v < 6) (hx : x.toNat = 'a'.toNat + v) : HexDigit x (10 + v)

/-- Two hexadecimal digits stand for the byte `x`. -/
def HexPair (y z x : UInt8) : Prop :=
  ∃ v w, HexDigit y v ∧ HexDigit z w ∧ x = UInt8.ofNat (16 * v + w)

/-- A plus sign and a hexadecimal digit stand for the byte `x`. -/
def SignedDigit (y z x : UInt8) : Prop := y = 0x2b ∧ ∃ w, HexDigit z w ∧ x = UInt8.ofNat w

/-- The reader takes the two bytes as an escape for `x`. -/
def ReadEscape (y z x : UInt8) : Prop := HexPair y z x ∨ SignedDigit y z x

theorem HexDigit.toNat_lt (h : HexDigit x v) : x.toNat < 0x80 := by
  cases h with
  | decimal hv hx | upper hv hx | lower hv hx => exact lt_of_eq_of_lt hx (by simp; omega)

theorem ReadEscape.toNat_lt {y z : UInt8} (h : ReadEscape y z x) :
    y.toNat < 0x80 ∧ z.toNat < 0x80 := by
  rcases h with ⟨_, _, hy, hz, _⟩ | ⟨rfl, _, hz, _⟩
  · exact ⟨hy.toNat_lt, hz.toNat_lt⟩
  · exact ⟨by decide, hz.toNat_lt⟩

theorem hexValue?_eq_some_iff :
    hexValue? c = some v ↔ c.toNat < 0x80 ∧ HexDigit (UInt8.ofNat c.toNat) v := by
  have hle : ∀ a b : Char, a ≤ b ↔ a.toNat ≤ b.toNat := fun _ _ => Iff.rfl
  have h0 : '0'.toNat = 48 := rfl
  have h9 : '9'.toNat = 57 := rfl
  have hA : 'A'.toNat = 65 := rfl
  have hF : 'F'.toNat = 70 := rfl
  have ha : 'a'.toNat = 97 := rfl
  have hf : 'f'.toNat = 102 := rfl
  simp only [hexValue?, hle, h0, h9, hA, hF, ha, hf]
  constructor
  · intro h
    have hc : c.toNat < 0x80 := by
      by_contra hc
      rw [if_neg (by omega), if_neg (by omega), if_neg (by omega)] at h
      cases h
    refine ⟨hc, ?_⟩
    split at h
    · obtain rfl := Option.some.inj h
      exact .decimal (by omega) (by rw [toNat_byte hc]; omega)
    · split at h
      · obtain rfl : v = 10 + (c.toNat - 65) := by have := Option.some.inj h; omega
        exact .upper (by omega) (by rw [toNat_byte hc]; omega)
      · obtain ⟨_, h⟩ := Option.ite_none_right_eq_some.mp h
        obtain rfl : v = 10 + (c.toNat - 97) := by have := Option.some.inj h; omega
        exact .lower (by omega) (by rw [toNat_byte hc]; omega)
  · rintro ⟨hc, hdigit⟩
    have hbyte := toNat_byte hc
    cases hdigit with
    | decimal hv hx =>
      rw [if_pos (by omega), Option.some.injEq]
      omega
    | upper hv hx =>
      rw [if_neg (by omega), if_pos (by omega), Option.some.injEq]
      omega
    | lower hv hx =>
      rw [if_neg (by omega), if_neg (by omega), if_pos (by omega), Option.some.injEq]
      omega

theorem escaped?_eq_some_iff : escaped? a b = some x ↔ a.toNat < 0x80 ∧ b.toNat < 0x80 ∧
    ReadEscape (UInt8.ofNat a.toNat) (UInt8.ofNat b.toNat) x := by
  have hplus : hexValue? '+' = none := by decide
  constructor
  · intro h
    rw [escaped?] at h
    split at h
    · next v w hv hw =>
      obtain ⟨ha, hv⟩ := hexValue?_eq_some_iff.mp hv
      obtain ⟨hb, hw⟩ := hexValue?_eq_some_iff.mp hw
      exact ⟨ha, hb, .inl ⟨v, w, hv, hw, (Option.some.inj h).symm⟩⟩
    · next w _ hw =>
      obtain ⟨hb, hw⟩ := hexValue?_eq_some_iff.mp hw
      obtain ⟨rfl, h⟩ := Option.ite_none_right_eq_some.mp h
      exact ⟨by decide, hb, .inr ⟨by decide, w, hw, (Option.some.inj h).symm⟩⟩
    · cases h
  · rintro ⟨ha, hb, ⟨v, w, hv, hw, rfl⟩ | ⟨hsign, w, hw, rfl⟩⟩
    · rw [escaped?, hexValue?_eq_some_iff.mpr ⟨ha, hv⟩, hexValue?_eq_some_iff.mpr ⟨hb, hw⟩]
    · obtain rfl : a = '+' := by
        refine Char.toNat_inj.mp ?_
        rw [← toNat_byte ha, hsign]
        rfl
      rw [escaped?, hplus, hexValue?_eq_some_iff.mpr ⟨hb, hw⟩]
      rfl

/-! ## Segments byte for byte -/

/-- The first bytes, those of a segment, stand for the second, those of a component. `Escape`
says which two bytes may follow a percent sign, and for which byte they stand then. -/
inductive Spells (Escape : UInt8 → UInt8 → UInt8 → Prop) : List UInt8 → List UInt8 → Prop
  | nil : Spells Escape [] []
  | literal {x : UInt8} {s t : List UInt8} (hx : x ≠ 0x25) (h : Spells Escape s t) :
    Spells Escape (x :: s) (x :: t)
  | escape {y z x : UInt8} {s t : List UInt8} (hx : Escape y z x) (h : Spells Escape s t) :
    Spells Escape (0x25 :: y :: z :: s) (x :: t)

namespace Spells

variable {Escape Escape' : UInt8 → UInt8 → UInt8 → Prop} {s : List UInt8}

/-- Bytes other than the percent sign stand for themselves. -/
theorem append (hl : ∀ y ∈ l, y ≠ 0x25) (h : Spells Escape s t) :
    Spells Escape (l ++ s) (l ++ t) := by
  induction l with
  | nil => exact h
  | cons y rest ih =>
    rw [List.forall_mem_cons] at hl
    exact .literal hl.1 (ih hl.2)

theorem of_append (hl : ∀ y ∈ l, y ≠ 0x25) (h : Spells Escape (l ++ s) t) :
    ∃ t', t = l ++ t' ∧ Spells Escape s t' := by
  induction l generalizing t with
  | nil => exact ⟨t, rfl, h⟩
  | cons y rest ih =>
    rw [List.forall_mem_cons] at hl
    rw [List.cons_append] at h
    generalize hs : rest ++ s = l' at h
    cases h with
    | literal _ h =>
      obtain ⟨t', rfl, h'⟩ := ih hl.2 (hs ▸ h)
      exact ⟨t', rfl, h'⟩
    | escape => exact absurd rfl hl.1

theorem mono (hmono : ∀ y z x, Escape y z x → Escape' y z x) (h : Spells Escape s t) :
    Spells Escape' s t := by
  induction h with
  | nil => exact .nil
  | literal hx _ ih => exact .literal hx ih
  | escape hx _ ih => exact .escape (hmono _ _ _ hx) ih

theorem ne_nil (h : Spells Escape s t) (hs : s ≠ []) : t ≠ [] := by
  cases h with
  | nil => exact absurd rfl hs
  | literal | escape => exact List.cons_ne_nil _ _

end Spells

/-- After a percent sign come two characters that are an escape. -/
theorem spells_percent_iff : Spells ReadEscape (utf8 ('%' :: s)) t ↔
    ∃ a b rest x t', s = a :: b :: rest ∧ escaped? a b = some x ∧ t = x :: t' ∧
      Spells ReadEscape (utf8 rest) t' := by
  have hpercent : utf8 ('%' :: s) = 0x25 :: utf8 s := rfl
  rw [hpercent]
  constructor
  · generalize hs : utf8 s = l
    intro h
    cases h with
    | literal hx => exact absurd rfl hx
    | escape hx h =>
      obtain ⟨hy, hz⟩ := hx.toNat_lt
      obtain ⟨a, s', rfl, ha, rfl, hs'⟩ := utf8_eq_cons hs hy
      obtain ⟨b, rest, rfl, hb, rfl, rfl⟩ := utf8_eq_cons hs'.symm hz
      exact ⟨a, b, rest, _, _, rfl, escaped?_eq_some_iff.mpr ⟨ha, hb, hx⟩, rfl, h⟩
  · rintro ⟨a, b, rest, x, t', rfl, hx, rfl, h⟩
    obtain ⟨ha, hb, hx⟩ := escaped?_eq_some_iff.mp hx
    rw [utf8_cons, utf8_cons, utf8EncodeChar_of_lt ha, utf8EncodeChar_of_lt hb]
    exact .escape hx h

/-- **A segment is decoded as the grammar says.** -/
theorem decode_eq_some_iff : decode s = some t ↔ Spells ReadEscape (utf8 s) t := by
  fun_induction decode s generalizing t with
  | case1 =>
    rw [Option.some.injEq]
    constructor
    · rintro rfl
      exact .nil
    · intro h
      cases h
      rfl
  | case2 a b rest ih =>
    rw [spells_percent_iff]
    simp only [Option.bind_eq_bind, Option.bind_eq_some_iff, Option.pure_def, Option.some.injEq]
    constructor
    · rintro ⟨x, hx, t', ht', rfl⟩
      exact ⟨a, b, rest, x, t', rfl, hx, rfl, ih.mp ht'⟩
    · rintro ⟨_, _, _, x, t', ⟨⟩, hx, rfl, h⟩
      exact ⟨x, hx, t', ih.mpr h, rfl⟩
  | case3 rest hshort =>
    rw [spells_percent_iff]
    constructor
    · intro h
      cases h
    · rintro ⟨a, b, rest', _, _, hrest, _⟩
      exact absurd hrest (hshort a b rest' rfl)
  | case4 c rest _ hc ih =>
    rw [Option.map_eq_some_iff, utf8_cons]
    constructor
    · rintro ⟨t', ht', rfl⟩
      exact (ih.mp ht').append (ne_percent_of_mem hc)
    · intro h
      obtain ⟨t', rfl, h'⟩ := h.of_append (ne_percent_of_mem hc)
      exact ⟨t', ih.mpr h', rfl⟩

/-! ## Whole URIs -/

/-- The parts between the slashes of a URI, once one leading `ndn:` is taken off. -/
inductive Parts : List Char → List (List Char) → Prop
  | afterScheme (path : List Char) :
    Parts (['n', 'd', 'n', ':'] ++ path) (path.splitOn '/')
  | withoutScheme {path : List Char} (h : ¬ ['n', 'd', 'n', ':'] <+: path) :
    Parts path (path.splitOn '/')

theorem segments_eq_splitOn (s : List Char) : segments s = s.splitOn '/' := by
  induction s with
  | nil => rfl
  | cons c rest ih =>
    rw [List.splitOn_cons_eq_if_modifyHead, segments, ih]
    by_cases hc : c = '/'
    · simp [hc]
    · simp only [hc, if_false, beq_iff_eq]
      split
      · next hnil => exact absurd hnil (List.splitOn_ne_nil _ _)
      · next heq => rw [heq]; rfl

theorem parts_iff {uri : List Char} {parts : List (List Char)} :
    Parts uri parts ↔ parts = segments (withoutScheme uri) := by
  have hscheme : ∀ path, withoutScheme (['n', 'd', 'n', ':'] ++ path) = path := fun _ => rfl
  have hplain : ¬ ['n', 'd', 'n', ':'] <+: uri → withoutScheme uri = uri := by
    intro h
    rw [withoutScheme.eq_def]
    split
    · exact absurd (List.prefix_append _ _) h
    · rfl
  constructor
  · intro h
    cases h with
    | afterScheme path => rw [hscheme, segments_eq_splitOn]
    | withoutScheme h => rw [hplain h, segments_eq_splitOn]
  · rintro rfl
    rw [segments_eq_splitOn]
    by_cases h : ['n', 'd', 'n', ':'] <+: uri
    · obtain ⟨path, rfl⟩ := h
      exact .afterScheme path
    · rw [hplain h]
      exact .withoutScheme h

/-- The first part between slashes starts the text, and all of them are pieces of it. -/
theorem segments_pieces (s : List Char) :
    ∃ first rest, segments s = first :: rest ∧ first <+: s ∧ ∀ p ∈ rest, p <:+: s := by
  fun_induction segments s with
  | case1 => exact ⟨[], [], rfl, List.nil_prefix, nofun⟩
  | case2 rest ih =>
    obtain ⟨first, more, heq, hfirst, hmore⟩ := ih
    refine ⟨[], _, rfl, List.nil_prefix, ?_⟩
    rw [heq, List.forall_mem_cons]
    exact ⟨hfirst.isInfix.trans (List.suffix_cons _ _).isInfix,
      fun p hp => (hmore p hp).trans (List.suffix_cons _ _).isInfix⟩
  | case3 c rest _ hnil ih =>
    obtain ⟨first, more, heq, _⟩ := ih
    rw [hnil] at heq
    cases heq
  | case4 c rest _ first more hsegments ih =>
    obtain ⟨first', more', heq, hfirst, hmore⟩ := ih
    obtain ⟨rfl, rfl⟩ := List.cons.inj (hsegments.symm.trans heq)
    refine ⟨_, _, rfl, List.prefix_cons_inj c |>.mpr hfirst, ?_⟩
    exact fun p hp => (hmore p hp).trans (List.suffix_cons _ _).isInfix

theorem Parts.infix_of_mem {uri part : List Char} {parts : List (List Char)} (h : Parts uri parts)
    (hpart : part ∈ parts) : part <:+: uri := by
  have hpath : ∀ path : List Char, part ∈ path.splitOn '/' → part <:+: path := by
    intro path hmem
    obtain ⟨first, rest, heq, hfirst, hrest⟩ := segments_pieces path
    rw [← segments_eq_splitOn, heq, List.mem_cons] at hmem
    rcases hmem with rfl | hmem
    · exact hfirst.isInfix
    · exact hrest part hmem
  cases h with
  | afterScheme path => exact (hpath path hpart).trans (List.suffix_append _ _).isInfix
  | withoutScheme => exact hpath _ hpart

/-- The grammar with these escapes makes the name `n` of the URI. -/
def Reads (Escape : UInt8 → UInt8 → UInt8 → Prop) (uri : List Char) (n : Name) : Prop :=
  ∃ parts, Parts uri parts ∧
    List.Forall₂ (fun part c => Spells Escape (utf8 part) c.bytes) (parts.filter (· ≠ []))
      n.components

/-- The part `part` of the URI is the first that has no meaning in the grammar with these
escapes. -/
def FirstMalformed (Escape : UInt8 → UInt8 → UInt8 → Prop) (uri part : List Char) : Prop :=
  ∃ parts before after, Parts uri parts ∧ parts.filter (· ≠ []) = before ++ part :: after ∧
    (∀ p ∈ before, ∃ t, Spells Escape (utf8 p) t) ∧ ¬ ∃ t, Spells Escape (utf8 part) t

/-- No percent sign is followed by a plus sign and a hexadecimal digit. -/
def WithoutSignedDigits (s : List Char) : Prop :=
  ∀ z v, HexDigit z v → ¬ [0x25, 0x2b, z] <:+: utf8 s

theorem WithoutSignedDigits.of_not_mem (hs : 0x2b ∉ utf8 s) : WithoutSignedDigits s :=
  fun _ _ _ hpiece => hs (hpiece.subset (by simp))

theorem WithoutSignedDigits.of_infix {part : List Char} (hs : WithoutSignedDigits s)
    (hpart : part <:+: s) : WithoutSignedDigits part := by
  obtain ⟨before, after, rfl⟩ := hpart
  refine fun z v hz hpiece => hs z v hz (hpiece.trans ?_)
  simp only [utf8, List.flatMap_append]
  exact List.infix_append _ _ _

/-- Without signed digits the reader takes no other escapes than the grammar does. -/
theorem spells_hexPair_iff (hno : ∀ z v, HexDigit z v → ¬ [0x25, 0x2b, z] <:+: l) :
    Spells HexPair l t ↔ Spells ReadEscape l t := by
  constructor
  · exact fun h => h.mono fun _ _ _ => .inl
  · intro h
    induction h with
    | nil => exact .nil
    | literal hx _ ih =>
      exact .literal hx (ih fun z v hz h => hno z v hz (h.trans (List.suffix_cons _ _).isInfix))
    | @escape y z x s t hx _ ih =>
      rcases hx with hpair | ⟨rfl, w, hz, _⟩
      · refine .escape hpair (ih fun z' v hz' h => hno z' v hz' (h.trans ?_))
        exact (List.suffix_append [0x25, y, z] s).isInfix
      · exact absurd (List.prefix_append [0x25, 0x2b, z] s).isInfix (hno z w hz)

theorem WithoutSignedDigits.reads_iff (hs : WithoutSignedDigits s) {n : Name} :
    Reads HexPair s n ↔ Reads ReadEscape s n := by
  have hpart : ∀ {parts}, Parts s parts → ∀ p ∈ parts.filter (· ≠ []), ∀ t,
      Spells HexPair (utf8 p) t ↔ Spells ReadEscape (utf8 p) t :=
    fun hparts p hp t => spells_hexPair_iff
      (hs.of_infix (hparts.infix_of_mem (List.mem_of_mem_filter hp)))
  constructor
  · rintro ⟨parts, hparts, h⟩
    exact ⟨parts, hparts, h.imp fun _ _ h => h.mono fun _ _ _ => .inl⟩
  · rintro ⟨parts, hparts, h⟩
    have h := (List.forall₂_and_left _ _).mpr ⟨hpart hparts, h⟩
    exact ⟨parts, hparts, h.imp fun _ _ ⟨hiff, h⟩ => (hiff _).mpr h⟩

theorem WithoutSignedDigits.firstMalformed_iff (hs : WithoutSignedDigits s) {part : List Char} :
    FirstMalformed HexPair s part ↔ FirstMalformed ReadEscape s part := by
  have hpart : ∀ {parts}, Parts s parts → ∀ p ∈ parts.filter (· ≠ []),
      ((∃ t, Spells HexPair (utf8 p) t) ↔ ∃ t, Spells ReadEscape (utf8 p) t) :=
    fun hparts p hp => exists_congr fun t => spells_hexPair_iff
      (hs.of_infix (hparts.infix_of_mem (List.mem_of_mem_filter hp)))
  unfold FirstMalformed
  refine exists_congr fun parts => exists_congr fun before => exists_congr fun after =>
    and_congr_right fun hparts => and_congr_right fun heq => ?_
  have hpart := hpart hparts
  rw [heq, List.forall_mem_append, List.forall_mem_cons] at hpart
  exact and_congr (forall₂_congr hpart.1) (not_congr hpart.2.1)

end Uri

section Reading

variable {ε α β : Type} {f : α → Except ε β} {e : ε}

theorem mapM_eq_ok_iff {l : List α} {l' : List β} :
    l.mapM f = .ok l' ↔ List.Forall₂ (fun a b => f a = .ok b) l l' := by
  induction l generalizing l' with
  | nil => cases l' <;> simp [pure, Except.pure]
  | cons a rest ih =>
    rw [List.mapM_cons]
    cases ha : f a with
    | error e => simp [bind, Except.bind, List.forall₂_cons_left_iff, ha]
    | ok b =>
      cases hrest : rest.mapM f with
      | error e =>
        simp [bind, Except.bind, List.forall₂_cons_left_iff, ha, ← ih, hrest]
      | ok bs =>
        simp [bind, Except.bind, pure, Except.pure, List.forall₂_cons_left_iff, ha, ← ih, hrest,
          eq_comm]

/-- The first element that fails decides. -/
theorem mapM_eq_error_iff {l : List α} : l.mapM f = .error e ↔
    ∃ before a after, l = before ++ a :: after ∧ (∀ x ∈ before, ∃ b, f x = .ok b) ∧
      f a = .error e := by
  induction l with
  | nil => simp [pure, Except.pure]
  | cons a rest ih =>
    have hcons : (a :: rest).mapM f = .error e ↔
        f a = .error e ∨ (∃ b, f a = .ok b) ∧ rest.mapM f = .error e := by
      rw [List.mapM_cons]
      cases f a with
      | error e' => simp [bind, Except.bind]
      | ok b => cases rest.mapM f <;> simp [bind, Except.bind, pure, Except.pure]
    rw [hcons, ih]
    constructor
    · rintro (ha | ⟨ha, before, x, after, rfl, hbefore, hx⟩)
      · exact ⟨[], a, rest, rfl, nofun, ha⟩
      · exact ⟨a :: before, x, after, rfl, List.forall_mem_cons.mpr ⟨ha, hbefore⟩, hx⟩
    · rintro ⟨_ | ⟨y, before⟩, x, after, heq, hbefore, hx⟩
      · rw [List.nil_append, List.cons.injEq] at heq
        exact .inl (heq.1 ▸ hx)
      · rw [List.cons_append, List.cons.injEq] at heq
        rw [List.forall_mem_cons] at hbefore
        exact .inr ⟨heq.1 ▸ hbefore.1, before, x, after, heq.2, hbefore.2, hx⟩

end Reading

namespace Name

open Uri

variable {uri segment : List Char} {c : Component} {n : Name} {e : Malformed}

theorem readSegment_eq_ok_iff :
    readSegment segment = .ok c ↔ Spells ReadEscape (utf8 segment) c.bytes := by
  rw [← decode_eq_some_iff, readSegment]
  cases decode segment with
  | none => simp
  | some bytes =>
    cases c
    simp

theorem readSegment_eq_error_iff : readSegment segment = .error e ↔
    segment = e.segment ∧ ¬ ∃ t, Spells ReadEscape (utf8 segment) t := by
  simp only [← decode_eq_some_iff, readSegment]
  cases decode segment with
  | none =>
    cases e
    simp
  | some bytes => simp

/-- What is read is what is left of the parts without the empty ones. -/
theorem componentSegments_iff {segments : List (List Char)} : segments = componentSegments uri ↔
    ∃ parts, Parts uri parts ∧ segments = parts.filter (· ≠ []) := by
  have hfilter : ∀ parts : List (List Char),
      parts.filter (! ·.isEmpty) = parts.filter (· ≠ []) := by
    intro parts
    refine List.filter_congr fun p _ => ?_
    cases p <;> rfl
  simp only [parts_iff, exists_eq_left, componentSegments, hfilter]

/-- Each segment is read by itself. -/
theorem ofUri?_eq_ok_iff_forall₂ : ofUri? uri = .ok n ↔
    List.Forall₂ (fun segment c => readSegment segment = .ok c) (componentSegments uri)
      n.components := by
  rw [← mapM_eq_ok_iff, ofUri?]
  cases (componentSegments uri).mapM readSegment with
  | error e => simp [bind, Except.bind]
  | ok components =>
    cases n
    simp [bind, Except.bind, pure, Except.pure]

theorem ofUri?_eq_ok_iff : ofUri? uri = .ok n ↔ Reads ReadEscape uri n := by
  simp only [ofUri?_eq_ok_iff_forall₂, readSegment_eq_ok_iff]
  constructor
  · intro h
    obtain ⟨parts, hparts, heq⟩ := componentSegments_iff.mp rfl
    exact ⟨parts, hparts, heq ▸ h⟩
  · rintro ⟨parts, hparts, h⟩
    rwa [← componentSegments_iff.mpr ⟨parts, hparts, rfl⟩]

theorem ofUri?_eq_error_iff :
    ofUri? uri = .error e ↔ FirstMalformed ReadEscape uri e.segment := by
  have hcomponents : ofUri? uri = .error e ↔
      (componentSegments uri).mapM readSegment = .error e := by
    rw [ofUri?]
    cases (componentSegments uri).mapM readSegment with
    | error e' => simp [bind, Except.bind]
    | ok components => simp [bind, Except.bind, pure, Except.pure]
  have hread : ∀ p, (∃ c, readSegment p = .ok c) ↔ ∃ t, Spells ReadEscape (utf8 p) t := by
    intro p
    simp only [readSegment_eq_ok_iff]
    exact ⟨fun ⟨c, h⟩ => ⟨c.bytes, h⟩, fun ⟨t, h⟩ => ⟨⟨t⟩, h⟩⟩
  simp only [hcomponents, mapM_eq_error_iff, readSegment_eq_error_iff, hread]
  constructor
  · rintro ⟨before, segment, after, heq, hbefore, rfl, hsegment⟩
    obtain ⟨parts, hparts, hfilter⟩ := componentSegments_iff.mp rfl
    exact ⟨parts, before, after, hparts, hfilter ▸ heq, hbefore, hsegment⟩
  · rintro ⟨parts, before, after, hparts, heq, hbefore, hsegment⟩
    refine ⟨before, e.segment, after, ?_, hbefore, rfl, hsegment⟩
    rw [← componentSegments_iff.mpr ⟨parts, hparts, rfl⟩, heq]

/-- The text is read by the grammar with these escapes, and refused for the first part that
is malformed in it. -/
structure IsReadBy (Escape : UInt8 → UInt8 → UInt8 → Prop) (s : String) : Prop where
  ok_iff : ∀ n, parse? s = .ok n ↔ Reads Escape s.toList n
  error_iff : ∀ e, parse? s = .error e ↔ FirstMalformed Escape s.toList e.segment

/-- **Names are read by their grammar.** A text without a plus sign and a digit behind a percent
sign is read with pairs of hexadecimal digits for escapes, and every text with those two forms of
an escape. -/
theorem isReadBy_escapes (s : String) :
    (WithoutSignedDigits s.toList → IsReadBy HexPair s) ∧ IsReadBy ReadEscape s := by
  have hread : IsReadBy ReadEscape s :=
    ⟨fun _ => ofUri?_eq_ok_iff, fun _ => ofUri?_eq_error_iff⟩
  refine ⟨fun hs => ⟨fun n => ?_, fun e => ?_⟩, hread⟩
  · rw [hread.ok_iff, hs.reads_iff]
  · rw [hread.error_iff, hs.firstMalformed_iff]

/-- An escaped slash is part of a component. -/
theorem escapedSlash_isReadBy :
    WithoutSignedDigits ['/', 'a', '%', '2', 'F'] ∧
      Reads HexPair ['/', 'a', '%', '2', 'F'] ⟨[⟨[0x61, 0x2f]⟩]⟩ := by
  have hs : WithoutSignedDigits ['/', 'a', '%', '2', 'F'] := .of_not_mem (by decide)
  have hread : IsReadBy HexPair (String.ofList ['/', 'a', '%', '2', 'F']) :=
    (isReadBy_escapes _).1 (by rwa [String.toList_ofList])
  have hok : parse? (String.ofList ['/', 'a', '%', '2', 'F']) = .ok ⟨[⟨[0x61, 0x2f]⟩]⟩ := by
    rw [parse?, String.toList_ofList]
    rfl
  have hreads := (hread.ok_iff _).mp hok
  rw [String.toList_ofList] at hreads
  exact ⟨hs, hreads⟩

/-- **A plus sign is taken for a digit**, and the text with it for a name. -/
theorem plusSign_not_isReadBy :
    parse? (String.ofList ['/', '%', '+', 'a']) = .ok ⟨[⟨[0x0a]⟩]⟩ ∧
      ¬ IsReadBy HexPair (String.ofList ['/', '%', '+', 'a']) := by
  have hok : parse? (String.ofList ['/', '%', '+', 'a']) = .ok ⟨[⟨[0x0a]⟩]⟩ := by
    rw [parse?, String.toList_ofList]
    rfl
  refine ⟨hok, fun hread => ?_⟩
  obtain ⟨parts, hparts, h⟩ := (hread.ok_iff _).mp hok
  rw [String.toList_ofList, parts_iff] at hparts
  have hfilter : parts.filter (· ≠ []) = [['%', '+', 'a']] := by
    rw [hparts]
    decide
  rw [hfilter, List.forall₂_cons] at h
  have hspells : Spells HexPair [0x25, 0x2b, 0x61] [0x0a] := h.1
  cases hspells with
  | escape hx _ =>
    obtain ⟨v, _, hplus, _⟩ := hx
    have hvalue : hexValue? '+' = some v := hexValue?_eq_some_iff.mpr ⟨by decide, hplus⟩
    have hnone : hexValue? '+' = none := by decide
    rw [hnone] at hvalue
    cases hvalue

end Name

end NamedData
