import NamedData.Proofs.Name.Grammar

/-!
# Written names are read back

A name is written so that the grammar of URIs reads it as that name: a byte that would mean
something else is written as an escape, and the slash in front keeps a first component `ndn:`
from being taken off. This takes components that are not empty, for an empty one leaves nothing
between its slashes. A reader never makes an empty component, so what it has read once is
read again.

## Main statements

* `Name.reads_toUri`: the written form is read by the grammar
* `Name.ofUri_eq_of_ok`: where the strict reader succeeds, the other one agrees with it
* `Name.readBack`
-/
namespace NamedData

open Uri

namespace Uri

/-- The digit that is written for a value has that value. -/
theorem hexDigit_hexDigit {d : Nat} (hd : d < 16) :
    (hexDigit d).toNat < 0x80 ∧ HexDigit (UInt8.ofNat (hexDigit d).toNat) d := by
  have hvalue : ∀ d < 16, hexValue? (hexDigit d) = some d := by decide
  exact hexValue?_eq_some_iff.mp (hvalue d hd)

theorem slash_ne_hexDigit {d : Nat} (hd : d < 16) : '/' ≠ hexDigit d := by
  have hne : ∀ d < 16, '/' ≠ hexDigit d := by decide
  exact hne d hd

theorem toNat_ofNat_byte (x : UInt8) : (Char.ofNat x.toNat).toNat = x.toNat := by
  have hx := x.toNat_lt
  have hvalid : x.toNat.isValidChar := .inl (by omega)
  rw [Char.ofNat, dif_pos hvalid]
  rfl

/-- What is written for a byte stands for it. -/
theorem spells_encodeByte {rest : List Char} {t : List UInt8} (x : UInt8)
    (h : Spells HexPair (utf8 rest) t) : Spells HexPair (utf8 (encodeByte x ++ rest)) (x :: t) := by
  unfold encodeByte
  split
  · next hplain =>
    obtain ⟨_, hle, _, hne⟩ := hplain
    have hlt : (Char.ofNat x.toNat).toNat < 0x80 := by
      rw [toNat_ofNat_byte]
      exact Nat.lt_of_le_of_lt (UInt8.le_iff_toNat_le.mp hle) (by decide)
    rw [List.singleton_append, utf8_cons, utf8EncodeChar_of_lt hlt, toNat_ofNat_byte,
      UInt8.ofNat_toNat]
    exact .literal hne h
  · have hx := x.toNat_lt
    obtain ⟨hhigh, hv⟩ := hexDigit_hexDigit (d := x.toNat / 16) (by omega)
    obtain ⟨hlow, hw⟩ := hexDigit_hexDigit (d := x.toNat % 16) (by omega)
    have hbyte : x = UInt8.ofNat (16 * (x.toNat / 16) + x.toNat % 16) := by
      rw [Nat.div_add_mod, UInt8.ofNat_toNat]
    have hpercent : String.utf8EncodeChar '%' = [0x25] := rfl
    rw [List.cons_append, List.cons_append, List.singleton_append, utf8_cons, utf8_cons,
      utf8_cons, hpercent, utf8EncodeChar_of_lt hhigh, utf8EncodeChar_of_lt hlow]
    exact .escape ⟨_, _, hv, hw, hbyte⟩ h

/-- No slash is written for a byte. -/
theorem slash_not_mem_encodeByte (x : UInt8) : '/' ∉ encodeByte x := by
  unfold encodeByte
  split
  · next hplain =>
    rw [List.mem_singleton]
    intro heq
    refine hplain.2.2.1 (UInt8.toNat_inj.mp ?_)
    rw [← toNat_ofNat_byte x, ← heq]
    rfl
  · have hx := x.toNat_lt
    simp only [List.mem_cons, List.not_mem_nil, or_false, not_or]
    exact ⟨by decide, slash_ne_hexDigit (by omega), slash_ne_hexDigit (by omega)⟩

end Uri

namespace Component

variable {c : Component}

theorem spells_toUri (c : Component) : Spells HexPair (utf8 c.toUri) c.bytes := by
  unfold toUri
  induction c.bytes with
  | nil => exact .nil
  | cons x rest ih => exact spells_encodeByte x ih

theorem slash_not_mem_toUri (c : Component) : '/' ∉ c.toUri := by
  rw [toUri, List.mem_flatMap]
  rintro ⟨x, _, hslash⟩
  exact slash_not_mem_encodeByte x hslash

theorem toUri_ne_nil (hc : c.bytes ≠ []) : c.toUri ≠ [] := by
  intro hnil
  have hspells := c.spells_toUri
  rw [hnil] at hspells
  generalize c.bytes = bytes at hc hspells
  cases hspells
  exact hc rfl

end Component

namespace Name

variable {m n : Name} {uri : List Char}

/-- No component is empty. -/
def WithoutEmpty (n : Name) : Prop := ∀ c ∈ n.components, c.bytes ≠ []

/-- Components that are written one after the other are parted again. -/
theorem splitOn_flatMap_toUri {first : List Char} (hfirst : '/' ∉ first) (l : List Component) :
    (first ++ l.flatMap fun c => '/' :: c.toUri).splitOn '/' = first :: l.map Component.toUri := by
  induction l generalizing first with
  | nil =>
    rw [List.flatMap_nil, List.append_nil, List.splitOn_eq_singleton hfirst]
    rfl
  | cons c rest ih =>
    rw [List.flatMap_cons, List.cons_append, List.splitOn_append_cons_self_of_not_mem hfirst,
      ih c.slash_not_mem_toUri]
    rfl

theorem exists_parts_toUri (hn : n.WithoutEmpty) : ∃ parts, Parts n.toUri parts ∧
    parts.filter (· ≠ []) = n.components.map Component.toUri := by
  unfold toUri
  cases hl : n.components with
  | nil => exact ⟨[[], []], .withoutScheme (by decide), rfl⟩
  | cons c rest =>
    have hsplit := splitOn_flatMap_toUri List.not_mem_nil (c :: rest)
    have hnotScheme : ¬ ['n', 'd', 'n', ':'] <+: (c :: rest).flatMap fun c => '/' :: c.toUri := by
      rw [List.flatMap_cons, List.cons_append, List.cons_prefix_cons]
      exact fun h => absurd h.1 (by decide)
    refine ⟨_, .withoutScheme hnotScheme, ?_⟩
    rw [List.nil_append] at hsplit
    rw [if_neg (by simp), hsplit, List.filter_cons_of_neg (by simp), List.filter_eq_self]
    intro p hp
    obtain ⟨c', hc', rfl⟩ := List.mem_map.mp hp
    exact decide_eq_true (Component.toUri_ne_nil (hn c' (hl ▸ hc')))

/-- **The written form of a name is read as the name.** -/
theorem reads_toUri (hn : n.WithoutEmpty) : Reads HexPair n.toUri n := by
  obtain ⟨parts, hparts, hfilter⟩ := exists_parts_toUri hn
  refine ⟨parts, hparts, ?_⟩
  rw [hfilter, List.forall₂_map_left_iff, List.forall₂_same]
  exact fun c _ => c.spells_toUri

theorem ofUri?_toUri (hn : n.WithoutEmpty) : ofUri? n.toUri = .ok n := by
  obtain ⟨parts, hparts, h⟩ := reads_toUri hn
  exact ofUri?_eq_ok_iff.mpr ⟨parts, hparts, h.imp fun _ _ h => h.mono fun _ _ _ => .inl⟩

/-- Where the strict reader succeeds, the other one agrees with it. -/
theorem ofUri_eq_of_ok (h : ofUri? uri = .ok n) : ofUri uri = n := by
  have hsegments := ofUri?_eq_ok_iff_forall₂.mp h
  have hcomponents : (ofUri uri).components = n.components := by
    rw [← List.forall₂_eq_eq_eq, ofUri, List.forall₂_map_left_iff]
    refine hsegments.imp fun segment c hc => ?_
    rw [readSegment] at hc
    split at hc
    · exact Except.ok.inj hc
    · cases hc
  cases n
  exact congrArg Name.mk hcomponents

/-- A reader makes no empty component. -/
theorem withoutEmpty_of_ok (h : ofUri? uri = .ok n) : n.WithoutEmpty := by
  obtain ⟨parts, _, hspells⟩ := ofUri?_eq_ok_iff.mp h
  have hne : ∀ p ∈ parts.filter (· ≠ []), utf8 p ≠ [] := by
    intro p hp
    exact utf8_ne_nil (of_decide_eq_true (List.mem_filter.mp hp).2)
  have hbytes := ((List.forall₂_and_left _ _).mpr ⟨hne, hspells⟩).flip.imp
    fun c _ h => And.intro (h.2.ne_nil h.1) h.2
  exact ((List.forall₂_and_left _ _).mp hbytes).1

/-- Both readers give the name back from its written form. -/
def IsReadBack (n : Name) : Prop := parse? (toString n) = .ok n ∧ parse (toString n) = n

theorem WithoutEmpty.isReadBack (hn : n.WithoutEmpty) : n.IsReadBack := by
  have htext : (toString n).toList = n.toUri := String.toList_ofList
  unfold IsReadBack parse? parse
  rw [htext]
  exact ⟨ofUri?_toUri hn, ofUri_eq_of_ok (ofUri?_toUri hn)⟩

/-- **What is written is read back.** Both readers give back a name without empty components, so
no two such names are written alike; and the name that the strict reader has read is such a name,
which the other reader reads too and both give back. -/
theorem readBack :
    (∀ n : Name, n.WithoutEmpty → n.IsReadBack) ∧
    (∀ m n : Name, m.WithoutEmpty → n.WithoutEmpty → toString m = toString n → m = n) ∧
    ∀ (s : String) (n : Name), parse? s = .ok n →
      n.WithoutEmpty ∧ parse s = n ∧ n.IsReadBack := by
  refine ⟨fun n hn => hn.isReadBack, fun m n hm hn heq => ?_, fun s n h => ?_⟩
  · rw [← hm.isReadBack.2, heq, hn.isReadBack.2]
  · have hn := withoutEmpty_of_ok h
    exact ⟨hn, ofUri_eq_of_ok h, hn.isReadBack⟩

/-- A component `ndn:` is read back, and the bytes of a slash and of a percent sign are. The
empty segment of a text and its scheme are in no name. -/
theorem schemeComponent_isReadBack :
    IsReadBack ⟨[⟨[0x6e, 0x64, 0x6e, 0x3a]⟩, ⟨[0x2f, 0x25, 0xff]⟩]⟩ ∧
      parse? (String.ofList ['n', 'd', 'n', ':', '/', '/', '%', '2', 'f']) = .ok ⟨[⟨[0x2f]⟩]⟩ ∧
      IsReadBack ⟨[⟨[0x2f]⟩]⟩ := by
  have hn : WithoutEmpty ⟨[⟨[0x6e, 0x64, 0x6e, 0x3a]⟩, ⟨[0x2f, 0x25, 0xff]⟩]⟩ := by
    unfold WithoutEmpty
    decide
  have hok : parse? (String.ofList ['n', 'd', 'n', ':', '/', '/', '%', '2', 'f']) =
      .ok ⟨[⟨[0x2f]⟩]⟩ := by
    rw [parse?, String.toList_ofList]
    rfl
  exact ⟨readBack.1 _ hn, hok, (readBack.2.2 _ _ hok).2.2⟩

end Name

end NamedData
