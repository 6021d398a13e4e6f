import Mathlib
import DialectBuild.Proofs.DirectiveFree
import DialectBuild.Text.Encoding

/-!
# Directives among Bytes

Directives are looked for in a text, but what is on disk are bytes, which need not be the
spelling of any text. Here the lines of a file and the directives among them are described byte
by byte, without reading anything, and both descriptions are shown to agree.

They do because all that matters is written in ASCII. A line end, a blank or a letter of the two
words is one byte below 0x80, and no such byte is a part of anything else: the bytes of any other
character are all above, and so is a byte that belongs to no character. `encodeSymbol_cases` is
this fact. It needs that a text holds no byte symbol for an ASCII byte, which is so of every text
that was read.

## Main definitions

* `Text.IsLegible`: A text that could have been read.
* `Bytes.lines`: Bytes cut at their line ends.
* `Bytes.IsDirective`: How a directive is written in bytes.
* `Bytes.stripped`: Bytes without their directives.

## Theorems

* `Encoding.encodeSymbol_cases`: The bytes of a symbol.
* `Encoding.isLegible_decode`: What was read is legible.
* `Bytes.lines_encode`: The lines of the bytes are the bytes of the lines.
* `Bytes.isDirective_encode_iff`: The directives are the same.
* `Stripped.encode_text`: Stripping a text strips its bytes.
* `Text.IsDirectiveFree.not_isDirective`: No line of bytes is a directive if none of the text is.
-/

namespace DialectBuild

namespace Text

/-- Every byte symbol stands for a byte outside ASCII, as in any text that was read from bytes. -/
def IsLegible (t : Text) : Prop :=
  ∀ b, .byte b ∈ t → 0x80 ≤ b.toNat

theorem isLegible_append {t r : Text} : IsLegible (t ++ r) ↔ IsLegible t ∧ IsLegible r := by
  simp only [IsLegible, List.mem_append, or_imp, forall_and]

theorem IsLegible.of_cons {x : Symbol} {t : Text} (h : IsLegible (x :: t)) : IsLegible t :=
  fun b hb => h b (List.mem_cons_of_mem x hb)

theorem IsLegible.subset {t r : Text} (h : IsLegible t) (hsub : r ⊆ t) : IsLegible r :=
  fun b hb => h b (hsub hb)

theorem isLegible_flatten {ls : List Text} : IsLegible ls.flatten ↔ ∀ l ∈ ls, IsLegible l := by
  simp only [IsLegible, List.mem_flatten, forall_exists_index, and_imp]
  exact ⟨fun h l hl b hb => h b l hl hb, fun h b l hl hb => h l hl b hb⟩

theorem isLegible_ofString (s : String) : IsLegible (ofString s) := by
  intro b hb
  rcases List.mem_map.mp hb with ⟨c, _, hc⟩
  cases hc

end Text

open Text

namespace Encoding

theorem encode_nil : encode [] = [] := rfl

theorem encode_cons (x : Symbol) (t : Text) : encode (x :: t) = encodeSymbol x ++ encode t :=
  List.flatMap_cons

theorem encode_append (t r : Text) : encode (t ++ r) = encode t ++ encode r :=
  List.flatMap_append

theorem encode_flatten (ls : List Text) : encode ls.flatten = (ls.map encode).flatten := by
  induction ls with
  | nil => rfl
  | cons l ls ih => rw [List.flatten_cons, encode_append, ih, List.map_cons, List.flatten_cons]

/-- The bytes of a character outside ASCII are outside ASCII, too. -/
theorem le_of_mem_encodeScalar {n : Nat} (hn : 0x80 ≤ n) (hmax : n < 0x110000) :
    ∀ b ∈ encodeScalar n, 0x80 ≤ b.toNat := by
  have hbyte : ∀ m : Nat, 0x80 ≤ m → m < 256 → 0x80 ≤ (UInt8.ofNat m).toNat := by
    intro m hlow hhigh
    rw [UInt8.toNat_ofNat', Nat.mod_eq_of_lt hhigh]
    exact hlow
  -- One case for each length of the spelling; the bytes of each are bounded alike.
  unfold encodeScalar
  split_ifs with h1 h2 h3
  · omega
  · simp only [List.forall_mem_cons, List.not_mem_nil, false_implies, implies_true, and_true]
    exact ⟨hbyte _ (by omega) (by omega), hbyte _ (by omega) (by omega)⟩
  · simp only [List.forall_mem_cons, List.not_mem_nil, false_implies, implies_true, and_true]
    exact ⟨hbyte _ (by omega) (by omega), hbyte _ (by omega) (by omega),
      hbyte _ (by omega) (by omega)⟩
  · simp only [List.forall_mem_cons, List.not_mem_nil, false_implies, implies_true, and_true]
    exact ⟨hbyte _ (by omega) (by omega), hbyte _ (by omega) (by omega),
      hbyte _ (by omega) (by omega), hbyte _ (by omega) (by omega)⟩

theorem encodeSymbol_ne_nil (x : Symbol) : encodeSymbol x ≠ [] := by
  cases x with
  | byte b => exact List.cons_ne_nil b []
  | char c =>
      rw [encodeSymbol, encodeScalar]
      split_ifs
      all_goals exact List.cons_ne_nil _ _

theorem encode_eq_nil_iff {t : Text} : encode t = [] ↔ t = [] := by
  cases t with
  | nil => exact iff_of_true rfl rfl
  | cons x t =>
      rw [encode_cons, List.append_eq_nil_iff]
      exact iff_of_false (fun h => encodeSymbol_ne_nil x h.1) (List.cons_ne_nil x t)

/-- A symbol is an ASCII character, which is written as that one byte, or none of its bytes is
    in ASCII. -/
theorem encodeSymbol_cases {x : Symbol} (hx : ∀ b, x = .byte b → 0x80 ≤ b.toNat) :
    (∃ b : UInt8, b.toNat < 0x80 ∧ x = .char (Char.ofNat b.toNat) ∧ encodeSymbol x = [b]) ∨
      ∀ b ∈ encodeSymbol x, 0x80 ≤ b.toNat := by
  cases x with
  | byte b => exact Or.inr (List.forall_mem_singleton.mpr (hx b rfl))
  | char c =>
      by_cases hc : c.toNat < 0x80
      · have hbyte : (UInt8.ofNat c.toNat).toNat = c.toNat := by
          rw [UInt8.toNat_ofNat', Nat.mod_eq_of_lt (by omega)]
        refine Or.inl ⟨UInt8.ofNat c.toNat, hbyte.symm ▸ hc, ?_, ?_⟩
        · rw [hbyte, Char.ofNat_toNat]
        · rw [encodeSymbol, encodeScalar, if_pos hc]
      · refine Or.inr (le_of_mem_encodeScalar (Nat.le_of_not_lt hc) ?_)
        rcases c.valid with h | h
        · exact Nat.lt_trans h (by decide)
        · exact h.2

/-- A byte of ASCII at the front of a text is a character of it. -/
theorem eq_cons_of_encode {t : Text} (ht : IsLegible t) {b : UInt8} {r : Bytes}
    (hb : b.toNat < 0x80) (h : encode t = b :: r) :
    ∃ u, t = .char (Char.ofNat b.toNat) :: u ∧ encode u = r := by
  cases t with
  | nil => cases h
  | cons x u =>
      rw [encode_cons] at h
      rcases encodeSymbol_cases (x := x) fun c hc => ht c (hc ▸ List.mem_cons_self) with
        ⟨c, _, hx, hcode⟩ | hhigh
      · rw [hcode, List.singleton_append, List.cons.injEq] at h
        exact ⟨u, by rw [hx, h.1], h.2⟩
      · rcases List.exists_cons_of_ne_nil (encodeSymbol_ne_nil x) with ⟨c, more, hcode⟩
        rw [hcode, List.cons_append, List.cons.injEq] at h
        have hc := hhigh c (hcode ▸ List.mem_cons_self)
        rw [h.1] at hc
        omega

/-- Bytes of ASCII at the front of a text are characters of it. -/
theorem eq_append_of_encode {t : Text} (ht : IsLegible t) {a r : Bytes}
    (ha : ∀ b ∈ a, b.toNat < 0x80) (h : encode t = a ++ r) :
    ∃ u, t = a.map (fun b => .char (Char.ofNat b.toNat)) ++ u ∧ encode u = r := by
  induction a generalizing t with
  | nil => exact ⟨t, rfl, h⟩
  | cons b a ih =>
      rcases List.forall_mem_cons.mp ha with ⟨hb, ha⟩
      rcases eq_cons_of_encode ht hb h with ⟨u, rfl, hu⟩
      rcases ih ht.of_cons ha hu with ⟨v, rfl, hv⟩
      exact ⟨v, rfl, hv⟩

/-- What was read from bytes is legible: a byte of ASCII is read as a character. -/
theorem isLegible_decode (bs : Bytes) : IsLegible (decode bs) := by
  fun_induction decode bs with
  | case1 => exact fun b hb => absurd hb List.not_mem_nil
  | case2 b r c n h ih =>
      intro x hx
      rcases List.mem_cons.mp hx with hx | hx
      · cases hx
      · exact ih x hx
  | case3 b r h ih =>
      intro x hx
      rcases List.mem_cons.mp hx with hx | hx
      · rw [Symbol.byte.inj hx]
        by_contra hlow
        rw [scalar?_of_lt (Nat.lt_of_not_le hlow)] at h
        cases h
      · exact ih x hx

end Encoding

open Encoding

namespace Bytes

/-- Puts `b` at the front of the first line, or makes it a line if there is none. -/
def consToFirst (b : UInt8) : List Bytes → List Bytes
  | [] => [[b]]
  | l :: ls => (b :: l) :: ls

/-- Bytes cut after each line feed, and after each carriage return that no line feed follows. -/
def lines : Bytes → List Bytes
  | [] => []
  | b :: r =>
      if b = 0x0A ∨ (b = 0x0D ∧ r.head? ≠ some 0x0A) then
        [b] :: lines r
      else
        consToFirst b (lines r)

/-- How a directive is written in bytes: blanks, the two words with blanks between them, and then
    the end of the line or a byte that ends a word. -/
def IsDirective (line : Bytes) : Prop :=
  ∃ indent gap rest : Bytes,
    line = indent ++ encode "#pragma" ++ gap ++ encode "czar" ++ rest ∧
    (∀ b ∈ indent, b = 0x20 ∨ b = 0x09) ∧
    gap ≠ [] ∧ (∀ b ∈ gap, b = 0x20 ∨ b = 0x09) ∧
    ∀ b ∈ rest.head?, b = 0x20 ∨ b = 0x09 ∨ b = 0x0D ∨ b = 0x0A

section Cutting

variable {a r : Bytes}

/-- Bytes without a line end lengthen the first line of what comes after them. -/
theorem lines_append (ha : ∀ b ∈ a, b ≠ 0x0D ∧ b ≠ 0x0A) {l : Bytes} {ls : List Bytes}
    (hr : lines r = l :: ls) : lines (a ++ r) = (a ++ l) :: ls := by
  induction a with
  | nil => exact hr
  | cons b a ih =>
      rcases List.forall_mem_cons.mp ha with ⟨⟨hreturn, hfeed⟩, ha⟩
      rw [List.cons_append, lines, if_neg (by simp [hreturn, hfeed]), ih ha]
      rfl

theorem lines_append_feed (ha : ∀ b ∈ a, b ≠ 0x0D ∧ b ≠ 0x0A) (r : Bytes) :
    lines (a ++ 0x0A :: r) = (a ++ [0x0A]) :: lines r := by
  refine lines_append ha ?_
  rw [lines, if_pos (Or.inl rfl)]

theorem lines_append_pair (ha : ∀ b ∈ a, b ≠ 0x0D ∧ b ≠ 0x0A) (r : Bytes) :
    lines (a ++ 0x0D :: 0x0A :: r) = (a ++ [0x0D, 0x0A]) :: lines r := by
  refine lines_append ha ?_
  rw [lines, if_neg (by simp), lines, if_pos (Or.inl rfl)]
  rfl

theorem lines_append_return (ha : ∀ b ∈ a, b ≠ 0x0D ∧ b ≠ 0x0A) (hr : r.head? ≠ some 0x0A) :
    lines (a ++ 0x0D :: r) = (a ++ [0x0D]) :: lines r := by
  refine lines_append ha ?_
  rw [lines, if_pos (Or.inr ⟨rfl, hr⟩)]

theorem lines_of_noEnd (ha : ∀ b ∈ a, b ≠ 0x0D ∧ b ≠ 0x0A) (hne : a ≠ []) : lines a = [a] := by
  rcases List.eq_nil_or_concat a with rfl | ⟨c, b, rfl⟩
  · exact absurd rfl hne
  · rw [List.concat_eq_append, List.forall_mem_append, List.forall_mem_singleton] at ha
    rw [List.concat_eq_append]
    refine lines_append ha.1 ?_
    rw [lines, if_neg (by simp [ha.2.1, ha.2.2])]
    rfl

end Cutting

/-- A text without line ends has none among its bytes. -/
theorem noEnd_encode {t : Text} (ht : IsLegible t) (hline : NoLineEnd t) :
    ∀ b ∈ encode t, b ≠ 0x0D ∧ b ≠ 0x0A := by
  intro b hb
  rcases List.mem_flatMap.mp hb with ⟨x, hx, hb⟩
  rcases encodeSymbol_cases (x := x) fun c hc => ht c (hc ▸ hx) with ⟨c, _, hchar, hcode⟩ | hhigh
  · rw [hcode, List.mem_singleton] at hb
    have hend := hline x hx
    -- The byte of a line end would be that of a line end of the text.
    constructor
    · rintro rfl
      rw [hchar, ← hb] at hend
      exact absurd hend (by decide)
    · rintro rfl
      rw [hchar, ← hb] at hend
      exact absurd hend (by decide)
  · have hb := hhigh b hb
    constructor
    · rintro rfl
      exact absurd hb (by decide)
    · rintro rfl
      exact absurd hb (by decide)

/-- A byte of ASCII is the first of a text if it is that of its first symbol. -/
theorem head?_encode_ne {t : Text} (ht : IsLegible t) (hhead : t.head? ≠ some (.char '\n')) :
    (encode t).head? ≠ some 0x0A := by
  intro h
  rcases List.head?_eq_some_iff.mp h with ⟨r, hr⟩
  rcases eq_cons_of_encode ht (by decide) hr with ⟨u, rfl, _⟩
  exact hhead rfl

/-- The lines of the bytes of a text are the bytes of its lines. -/
theorem lines_encode {t : Text} (ht : IsLegible t) :
    lines (encode t) = (logicalLines t).map encode := by
  have hfeed : ∀ r : Text, encode (.char '\n' :: r) = 0x0A :: encode r := fun _ => rfl
  have hreturn : ∀ r : Text, encode (.char '\r' :: r) = 0x0D :: encode r := fun _ => rfl
  -- A line end is one byte, and no other symbol has a byte of this value.
  induction t using logicalLines_induction with
  | nil => rw [logicalLines.eq_1, encode_nil, lines, List.map_nil]
  | last t hne hline =>
      rw [logicalLines_of_noLineEnd hline hne, List.map_singleton]
      exact lines_of_noEnd (noEnd_encode ht hline) fun h => hne (encode_eq_nil_iff.mp h)
  | feed t r hline ih =>
      rcases isLegible_append.mp ht with ⟨ht, hr⟩
      rw [logicalLines_append_feed hline, List.map_cons, ← ih hr.of_cons, encode_append, hfeed,
        lines_append_feed (noEnd_encode ht hline), encode_append]
      rfl
  | pair t r hline ih =>
      rcases isLegible_append.mp ht with ⟨ht, hr⟩
      rw [logicalLines_append_pair hline, List.map_cons, ← ih hr.of_cons.of_cons, encode_append,
        hreturn, hfeed, lines_append_pair (noEnd_encode ht hline), encode_append]
      rfl
  | ret t r hline hhead ih =>
      rcases isLegible_append.mp ht with ⟨ht, hr⟩
      rw [logicalLines_append_return hline hhead, List.map_cons, ← ih hr.of_cons, encode_append,
        hreturn, lines_append_return (noEnd_encode ht hline) (head?_encode_ne hr.of_cons hhead),
        encode_append]
      rfl

/-- Blanks are blanks among the bytes. -/
theorem exists_blanks {t : Text} (h : ∀ x ∈ t, x = ' ' ∨ x = '\t') :
    ∀ b ∈ encode t, b = 0x20 ∨ b = 0x09 := by
  intro b hb
  rcases List.mem_flatMap.mp hb with ⟨x, hx, hb⟩
  rcases h x hx with rfl | rfl
  · exact Or.inl (List.mem_singleton.mp hb)
  · exact Or.inr (List.mem_singleton.mp hb)

/-- Blanks among the bytes are blanks. -/
theorem blanks_of_bytes {a : Bytes} (h : ∀ b ∈ a, b = 0x20 ∨ b = 0x09) :
    ∀ x ∈ a.map (fun b => Symbol.char (Char.ofNat b.toNat)), x = ' ' ∨ x = '\t' := by
  refine List.forall_mem_map.mpr fun b hb => ?_
  rcases h b hb with rfl | rfl
  · exact Or.inl rfl
  · exact Or.inr rfl

/-- The bytes of a line are written like a directive exactly if the line is one. -/
theorem isDirective_encode_iff {t : Text} (ht : IsLegible t) :
    IsDirective (encode t) ↔ isDirective t = true := by
  rw [isDirective_iff]
  constructor
  · rintro ⟨indent, gap, rest, hline, hindent, hne, hgap, hrest⟩
    have hblank : ∀ a : Bytes, (∀ b ∈ a, b = 0x20 ∨ b = 0x09) → ∀ b ∈ a, b.toNat < 0x80 := by
      intro a ha b hb
      rcases ha b hb with rfl | rfl
      · decide
      · decide
    have hwords : (∀ b ∈ encode "#pragma", b.toNat < 0x80) ∧
        ∀ b ∈ encode "czar", b.toNat < 0x80 := by decide +kernel
    -- All four parts in front of the rest are in ASCII, so they can be taken off one by one.
    simp only [List.append_assoc] at hline
    rcases eq_append_of_encode ht (hblank indent hindent) hline with ⟨t₁, rfl, h₁⟩
    have ht₁ := (isLegible_append.mp ht).2
    rcases eq_append_of_encode ht₁ hwords.1 h₁ with ⟨t₂, rfl, h₂⟩
    have ht₂ := (isLegible_append.mp ht₁).2
    rcases eq_append_of_encode ht₂ (hblank gap hgap) h₂ with ⟨t₃, rfl, h₃⟩
    have ht₃ := (isLegible_append.mp ht₂).2
    rcases eq_append_of_encode ht₃ hwords.2 h₃ with ⟨t₄, rfl, h₄⟩
    have ht₄ := (isLegible_append.mp ht₃).2
    refine ⟨_, _, t₄, ?_, blanks_of_bytes hindent, ?_, blanks_of_bytes hgap, ?_⟩
    · simp only [List.append_assoc]
      rfl
    · exact fun h => hne (List.map_eq_nil_iff.mp h)
    · intro x hx
      rcases List.head?_eq_some_iff.mp hx with ⟨u, rfl⟩
      rcases List.exists_cons_of_ne_nil (encodeSymbol_ne_nil x) with ⟨b, more, hcode⟩
      rw [encode_cons, hcode, List.cons_append] at h₄
      have hb := hrest b (by rw [← h₄]; rfl)
      have hlow : b.toNat < 0x80 := by
        rcases hb with rfl | rfl | rfl | rfl
        all_goals decide
      have hcons : encode (x :: u) = b :: (more ++ encode u) := by
        rw [encode_cons, hcode, List.cons_append]
      rcases eq_cons_of_encode ht₄ hlow hcons with ⟨v, hv, _⟩
      rw [(List.cons.inj hv).1]
      rcases hb with rfl | rfl | rfl | rfl
      · exact Or.inl rfl
      · exact Or.inr (Or.inl rfl)
      · exact Or.inr (Or.inr (Or.inl rfl))
      · exact Or.inr (Or.inr (Or.inr rfl))
  · rintro ⟨indent, gap, rest, rfl, hindent, hne, hgap, hrest⟩
    refine ⟨encode indent, encode gap, encode rest, ?_, exists_blanks hindent, ?_,
      exists_blanks hgap, ?_⟩
    · simp only [encode_append]
    · exact fun h => hne (encode_eq_nil_iff.mp h)
    · intro b hb
      cases rest with
      | nil => cases hb
      | cons x u =>
          rcases hrest x rfl with rfl | rfl | rfl | rfl
          · exact Or.inl (Option.some.inj hb).symm
          · exact Or.inr (Or.inl (Option.some.inj hb).symm)
          · exact Or.inr (Or.inr (Or.inl (Option.some.inj hb).symm))
          · exact Or.inr (Or.inr (Or.inr (Option.some.inj hb).symm))

instance (line : Bytes) : Decidable (IsDirective line) :=
  decidable_of_iff (isDirective (decode line) = true)
    (by rw [← isDirective_encode_iff (isLegible_decode line), encode_decode])

/-- Bytes without the lines that are directives. -/
def stripped (bs : Bytes) : Bytes :=
  ((lines bs).filter fun l => ¬ IsDirective l).flatten

end Bytes

/-- Stripping what was read from bytes gives the text of the stripped bytes, whatever the size of
    the buffer. -/
theorem Stripped.encode_text (n : BufferSize) (bs : Bytes) :
    encode (ofText n (decode bs)).text = Bytes.stripped bs := by
  have hlegible := isLegible_decode bs
  have hlines : ∀ l ∈ (decode bs).logicalLines, IsLegible l := by
    rw [← isLegible_flatten, flatten_logicalLines]
    exact hlegible
  have hcut : Bytes.lines bs = (decode bs).logicalLines.map encode := by
    rw [← Bytes.lines_encode hlegible, encode_decode]
  rw [stripped_ofText, encode_flatten, Bytes.stripped, hcut, List.filter_map]
  refine congrArg (fun ls => (List.map encode ls).flatten) (List.filter_congr fun l hl => ?_)
  -- A line is kept in the one way exactly if it is in the other.
  rw [Function.comp_apply, Bool.eq_iff_iff, decide_eq_true_iff,
    Bytes.isDirective_encode_iff (hlines l hl), Bool.not_eq_true', Bool.not_eq_true]

/-- A text without directives has none among the lines of its bytes. -/
theorem Text.IsDirectiveFree.not_isDirective {t : Text} (h : IsDirectiveFree t)
    (ht : IsLegible t) : ∀ l ∈ Bytes.lines (encode t), ¬ Bytes.IsDirective l := by
  have hlines : ∀ l ∈ t.logicalLines, IsLegible l := by
    rw [← isLegible_flatten, flatten_logicalLines]
    exact ht
  rw [Bytes.lines_encode ht]
  refine List.forall_mem_map.mpr fun l hl => ?_
  rw [Bytes.isDirective_encode_iff (hlines l hl), h l hl]
  exact Bool.false_ne_true

end DialectBuild
