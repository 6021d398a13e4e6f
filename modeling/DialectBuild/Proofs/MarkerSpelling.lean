import DialectBuild.Proofs.DroppedText

/-!
# How Markers Are Spelled

What a line looks like on which a marker is recognized: the marker stands there by itself,
behind the start of a line comment, or inside a block comment. Which of these it is decides how
the line is read in C text, and `Marker.isBare` and `Marker.isBlock` tell it from the first
symbols of the line.

A marker gives no tokens as long as a preprocessor line can start where it stands by itself,
and as long as its path does not end the comment around it. The path is the only part of a
marker that can do so, since all else on the line is words and blanks.

## Main definitions

* `Marker.words`: The words of a marker.
* `Marker.Spelled`: A marker as it stands on its line.
* `Marker.isBlock`, `Marker.isBare`: How the line starts.

## Theorems

* `Marker.spelled_of_ofLine?`: A marker that is recognized is spelled in one of three ways.
* `Marker.isDropped_of_spelled`, `Marker.isHidden_of_spelled`, `Marker.isClosing_of_spelled`,
  `Marker.isContinued_of_spelled`: How a marker is read.
-/

namespace DialectBuild

open Text

namespace Marker

/-- The words of a marker and its path, with the blanks between them. -/
def words (gap between path : Text) : Text :=
  "#" ++ (gap ++ ("import" ++ (between ++ ("\"" ++ (path ++ "\"")))))

theorem request?_eq_some {t path r : Text} (h : request? t = some (path, r)) :
    ∃ gap between, IsBlankRun gap ∧ IsBlankRun between ∧ t = words gap between path ++ r := by
  simp only [request?, bind, Option.bind_eq_some_iff, pure, Option.some.injEq, Prod.mk.injEq,
    skip?_eq_some_iff, skipSomeBlanks?_eq_some_iff] at h
  rcases h with ⟨t₁, rfl, t₂, ht₂, t₃, ⟨_, between, _, hb, ht₃⟩, t₄, ht₄, r', hr, hpath, rfl⟩
  rcases exists_skipBlanks t₁ with ⟨gap, hg, hgap⟩
  refine ⟨gap, between, hg, hb, ?_⟩
  have hsplit : t₄ = path ++ ("\"" ++ r') := by
    rw [← hpath, ← hr, List.takeWhile_append_dropWhile]
  rw [hgap, ht₂, ht₃, ht₄, hsplit, words]
  simp only [List.append_assoc]

/-- A marker as it stands on its line: by itself, behind the start of a line comment, or inside
    a block comment. -/
inductive Spelled (m : Marker) : Text → Prop where
  | bare {gap between trail : Text} (hg : IsBlankRun gap) (hb : IsBlankRun between)
      (ht : IsBlankRun trail) : Spelled m (m.indent ++ (words gap between m.modulePath ++ trail))
  | line {front gap between trail : Text} (hf : IsBlankRun front) (hg : IsBlankRun gap)
      (hb : IsBlankRun between) (ht : IsBlankRun trail) :
      Spelled m (m.indent ++ ("//" ++ (front ++ (words gap between m.modulePath ++ trail))))
  | block {front gap between back trail : Text} (hf : IsBlankRun front) (hg : IsBlankRun gap)
      (hb : IsBlankRun between) (hk : IsBlankRun back) (ht : IsBlankRun trail) :
      Spelled m (m.indent ++
        ("/*" ++ ((front ++ (words gap between m.modulePath ++ back)) ++ ("*/" ++ trail))))

/-- A line that ends after blanks without a line feed ends in blanks. -/
theorem isBlankRun_of_endsLine {r : Text} (h : endsLine r.skipBlanks = true)
    (hfeed : .char '\n' ∉ r) : IsBlankRun r := by
  rcases exists_skipBlanks r with ⟨b, hb, hr⟩
  rw [endsLine, Bool.or_eq_true, List.isEmpty_iff, beq_iff_eq] at h
  rcases h with h | h
  · rw [hr, h, List.append_nil]
    exact hb
  · rw [hr, h] at hfeed
    exact absurd (List.mem_append_right b (List.mem_singleton_self _)) hfeed

theorem spelled_of_ofLine? {line : Text} {m : Marker} (h : ofLine? line = some m)
    (hfeed : .char '\n' ∉ line) : Spelled m line := by
  simp only [ofLine?, bind, Option.bind_eq_some_iff, pure, Option.some.injEq] at h
  rcases h with ⟨⟨path, r⟩, hread, _, hend, rfl⟩
  have hline : line.takeWhile Symbol.isSpaceOrTab ++ line.skipBlanks = line :=
    List.takeWhile_append_dropWhile
  have hends : endsLine r.skipBlanks = true := by
    rcases hcase : endsLine r.skipBlanks with _ | _
    · rw [hcase] at hend
      cases hend
    · rfl
  -- What follows the request is on the same line, so it has no line feed either.
  have htrail : ∀ s, line.skipBlanks = s ++ r → IsBlankRun r := by
    intro s hs
    refine isBlankRun_of_endsLine hends (fun h => hfeed ?_)
    rw [← hline, hs]
    exact List.mem_append_right _ (List.mem_append_right s h)
  suffices hspelled : Spelled ⟨line.takeWhile Symbol.isSpaceOrTab, path⟩
      (line.takeWhile Symbol.isSpaceOrTab ++ line.skipBlanks) by
    rw [hline] at hspelled
    exact hspelled
  rcases hblock : blockRequest? line.skipBlanks with _ | q
  · rw [hblock] at hread
    rcases hcomment : lineRequest? line.skipBlanks with _ | q
    · rw [hcomment] at hread
      rcases request?_eq_some hread with ⟨gap, between, hg, hb, hs⟩
      have ht := htrail _ hs
      rw [hs]
      exact .bare hg hb ht
    · rw [hcomment] at hread
      rw [Option.some.inj hread] at hcomment
      simp only [lineRequest?, bind, Option.bind_eq_some_iff, skip?_eq_some_iff] at hcomment
      rcases hcomment with ⟨t, hs, h⟩
      rcases exists_skipBlanks t with ⟨front, hf, hfront⟩
      rcases request?_eq_some h with ⟨gap, between, hg, hb, ht⟩
      rw [hfront, ht] at hs
      have hr := htrail ("//" ++ (front ++ words gap between path)) (by rw [hs]; simp)
      rw [hs]
      exact .line hf hg hb hr
  · rw [hblock] at hread
    rw [Option.some.inj hread] at hblock
    simp only [blockRequest?, bind, Option.bind_eq_some_iff, pure, Option.some.injEq,
      Prod.mk.injEq, skip?_eq_some_iff] at hblock
    rcases hblock with ⟨t, hs, ⟨p, t'⟩, h, t'', hclose, rfl, rfl⟩
    rcases exists_skipBlanks t with ⟨front, hf, hfront⟩
    rcases request?_eq_some h with ⟨gap, between, hg, hb, ht⟩
    rcases exists_skipBlanks t' with ⟨back, hk, hback⟩
    have hshape : line.skipBlanks =
        "/*" ++ ((front ++ (words gap between p ++ back)) ++ ("*/" ++ t'')) := by
      rw [hs, hfront, ht, hback, hclose]
      simp
    have hr := htrail ("/*" ++ ((front ++ (words gap between p ++ back)) ++ "*/"))
      (by rw [hshape]; simp)
    rw [hshape]
    exact .block hf hg hb hk hr

section Spelling

variable {m : Marker} {line gap between r : Text}

theorem noLineEnd_words (hg : IsBlankRun gap) (hb : IsBlankRun between)
    (hp : ∀ x ∈ m.modulePath, isPathSymbol x = true) :
    NoLineEnd (words gap between m.modulePath) := by
  simp only [words, noLineEnd_append]
  exact ⟨by decide, noLineEnd_of_isBlankRun hg, by decide, noLineEnd_of_isBlankRun hb, by decide,
    noLineEnd_of_isPathSymbol hp, by decide⟩

theorem endsPlain_words (gap between path : Text) : EndsPlain (words gap between path) := by
  have hlast := endsPlain_append_of_ne_nil (r := "\"") (by decide) (by decide)
    ("#" ++ (gap ++ ("import" ++ (between ++ ("\"" ++ path)))))
  simp only [List.append_assoc] at hlast
  exact hlast

/-- A marker ends a comment only with its path or with what stands around it. -/
theorem hasPart_words (s path r : Text) (hg : IsBlankRun gap) (hb : IsBlankRun between) :
    hasPart "*/" (s ++ (words gap between path ++ r)) =
      (hasPart "*/" s || (hasPart "*/" path || hasPart "*/" r)) := by
  have hshape : s ++ (words gap between path ++ r) =
      (s ++ ("#" ++ (gap ++ ("import" ++ between)))) ++ ("\"" ++ (path ++ ("\"" ++ r))) := by
    simp only [words, List.append_assoc]
  have hfront : hasPart "*/" ("#" ++ (gap ++ ("import" ++ between))) = false := by
    refine hasPart_of_noStar ?_
    simp only [List.mem_append, not_or]
    exact ⟨by decide, noStar_of_isBlankRun hg, by decide, noStar_of_isBlankRun hb⟩
  have hhead : (("#" : Text) ++ (gap ++ ("import" ++ between))).head? ≠ some (.char '/') :=
    fun h => absurd (Option.some.inj h) (by decide)
  rw [hshape, hasPart_quoted, hasPart_append hhead, hfront, Bool.or_false]

/-- Whether a line starts, after its blanks, like a block comment. -/
def isBlock (line : Text) : Bool :=
  line.skipBlanks.startsWith "/*"

/-- Whether a line starts, after its blanks, like a preprocessor line. -/
def isBare (line : Text) : Bool :=
  line.skipBlanks.startsWith "#"

theorem skipBlanks_startsWith {indent t : Text} (hi : IsBlankRun indent) (ht : StartsDark t)
    (s : Text) : (indent ++ t).skipBlanks.startsWith s = t.startsWith s := by
  rw [skipBlanks_append hi ht]

theorem isBare_words {indent : Text} (hi : IsBlankRun indent) (gap between path r : Text) :
    isBare (indent ++ (words gap between path ++ r)) = true :=
  skipBlanks_startsWith hi (t := words gap between path ++ r) (startsDark_cons.mpr rfl) _

theorem isBlock_words {indent : Text} (hi : IsBlankRun indent) (gap between path r : Text) :
    isBlock (indent ++ (words gap between path ++ r)) = false :=
  skipBlanks_startsWith hi (t := words gap between path ++ r) (startsDark_cons.mpr rfl) _

theorem isBlock_line {indent : Text} (hi : IsBlankRun indent) (r : Text) :
    isBlock (indent ++ ("//" ++ r)) = false :=
  skipBlanks_startsWith hi (t := "//" ++ r) (startsDark_cons.mpr rfl) _

theorem isBlock_block {indent : Text} (hi : IsBlankRun indent) (r : Text) :
    isBlock (indent ++ ("/*" ++ r)) = true :=
  skipBlanks_startsWith hi (t := "/*" ++ r) (startsDark_cons.mpr rfl) _

theorem noLineEnd_of_spelled (h : Spelled m line) (hi : IsBlankRun m.indent)
    (hp : ∀ x ∈ m.modulePath, isPathSymbol x = true) : NoLineEnd line := by
  cases h with
  | bare hg hb ht =>
      simp only [noLineEnd_append]
      exact ⟨noLineEnd_of_isBlankRun hi, noLineEnd_words hg hb hp, noLineEnd_of_isBlankRun ht⟩
  | line hf hg hb ht =>
      simp only [noLineEnd_append]
      exact ⟨noLineEnd_of_isBlankRun hi, by decide, noLineEnd_of_isBlankRun hf,
        noLineEnd_words hg hb hp, noLineEnd_of_isBlankRun ht⟩
  | block hf hg hb hk ht =>
      simp only [noLineEnd_append]
      exact ⟨noLineEnd_of_isBlankRun hi, by decide, ⟨noLineEnd_of_isBlankRun hf,
        noLineEnd_words hg hb hp, noLineEnd_of_isBlankRun hk⟩, by decide,
        noLineEnd_of_isBlankRun ht⟩

theorem endsPlain_of_spelled (h : Spelled m line) (hi : IsBlankRun m.indent) : EndsPlain line := by
  have hindent := endsPlain_of_isBlankRun hi
  cases h with
  | bare _ _ ht =>
      exact endsPlain_append hindent
        (endsPlain_append (endsPlain_words _ _ _) (endsPlain_of_isBlankRun ht))
  | line hf _ _ ht =>
      exact endsPlain_append hindent (endsPlain_append (by decide)
        (endsPlain_append (endsPlain_of_isBlankRun hf)
          (endsPlain_append (endsPlain_words _ _ _) (endsPlain_of_isBlankRun ht))))
  | block _ _ _ _ ht =>
      rw [← List.append_assoc, ← List.append_assoc, ← List.append_assoc]
      exact endsPlain_append (endsPlain_append_of_ne_nil (by decide) (by decide) _)
        (endsPlain_of_isBlankRun ht)

/-- A marker that stands on a continued preprocessor line ends it. -/
theorem isContinued_of_spelled (h : Spelled m line) (hi : IsBlankRun m.indent)
    (hp : ∀ x ∈ m.modulePath, isPathSymbol x = true) : IsContinued line :=
  isContinued_of_noFeed (noFeed_of_noLineEnd (noLineEnd_of_spelled h hi hp))
    (endsPlain_of_spelled h hi)

/-- A marker on a line of code is read as nothing: as a preprocessor line, if one can start
    here, or as a comment, which its path must not close. -/
theorem isDropped_of_spelled {lineStart : Bool} (h : Spelled m line) (hi : IsBlankRun m.indent)
    (hp : ∀ x ∈ m.modulePath, isPathSymbol x = true) (hbare : isBare line = true → lineStart = true)
    (hblock : isBlock line = true → hasPart "*/" m.modulePath = false) :
    IsDropped lineStart line := by
  -- Each spelling is dropped for another reason: as a directive, a line comment, a block comment.
  cases h with
  | @bare gap between trail hg hb ht =>
      have hplain := endsPlain_append (endsPlain_words gap between m.modulePath)
        (endsPlain_of_isBlankRun ht)
      have hline : NoLineEnd (words gap between m.modulePath ++ trail) :=
        noLineEnd_append.mpr ⟨noLineEnd_words hg hb hp, noLineEnd_of_isBlankRun ht⟩
      rcases hbare (isBare_words hi _ _ _ _) with rfl
      exact (isDropped_directive (noFeed_of_noLineEnd (noLineEnd_cons.mp hline).2)
        (endsPlain_of_cons hplain)).indent hi
  | line hf hg hb ht =>
      refine (isDropped_lineComment (noFeed_of_noLineEnd ?_)).indent hi
      simp only [noLineEnd_append]
      exact ⟨noLineEnd_of_isBlankRun hf, noLineEnd_words hg hb hp, noLineEnd_of_isBlankRun ht⟩
  | block hf hg hb hk ht =>
      refine (isDropped_blockComment ?_ ht).indent hi
      rw [hasPart_words _ _ _ hg hb, hblock (isBlock_block hi _),
        hasPart_of_noStar (noStar_of_isBlankRun hf), hasPart_of_noStar (noStar_of_isBlankRun hk)]
      rfl

/-- A marker inside a comment is part of it, unless it is a block comment itself. -/
theorem isHidden_of_spelled (h : Spelled m line) (hi : IsBlankRun m.indent)
    (hblock : isBlock line = false) (hpath : hasPart "*/" m.modulePath = false) :
    IsHidden line := by
  refine isHidden_of_hasPart ?_
  -- The line does not end a comment that it stands in: its path has no closing mark, and the
  -- spelling that brings one is excluded.
  cases h with
  | bare hg hb ht =>
      rw [hasPart_words _ _ _ hg hb, hpath, hasPart_of_noStar (noStar_of_isBlankRun hi),
        hasPart_of_noStar (noStar_of_isBlankRun ht)]
      rfl
  | @line front gap between trail hf hg hb ht =>
      have hfront : hasPart "*/" (m.indent ++ ("//" ++ front)) = false := by
        refine hasPart_of_noStar ?_
        simp only [List.mem_append, not_or]
        exact ⟨noStar_of_isBlankRun hi, by decide, noStar_of_isBlankRun hf⟩
      have hwords := hasPart_words (m.indent ++ ("//" ++ front)) m.modulePath trail hg hb
      rw [hfront, hpath, hasPart_of_noStar (noStar_of_isBlankRun ht)] at hwords
      simp only [List.append_assoc] at hwords
      exact hwords
  | block hf hg hb hk ht =>
      rw [isBlock_block hi] at hblock
      cases hblock

/-- The start of a comment ends none, if blanks follow it. -/
theorem hasPart_open {indent front : Text} (hi : IsBlankRun indent) (hf : IsBlankRun front) :
    hasPart "*/" (indent ++ ("/*" ++ front)) = false := by
  have hstar : hasPart "*/" ("*" ++ front) = false := by
    rw [hasPart_append, hasPart_of_noStar (noStar_of_isBlankRun hf)]
    · rfl
    · exact fun h => absurd (hf _ (List.mem_of_head? h)) (by decide)
  have hslash : .char '*' ∉ indent ++ "/" := by
    simp only [List.mem_append, not_or]
    exact ⟨noStar_of_isBlankRun hi, by decide⟩
  have hall := hasPart_append (r := "*" ++ front)
    (fun h => absurd (Option.some.inj h) (by decide)) (indent ++ "/")
  rw [hasPart_of_noStar hslash, hstar, List.append_assoc] at hall
  exact hall

/-- A marker that is a block comment ends a comment in which it stands. -/
theorem isClosing_of_spelled (h : Spelled m line) (hi : IsBlankRun m.indent)
    (hblock : isBlock line = true) (hpath : hasPart "*/" m.modulePath = false) :
    IsClosing line := by
  cases h with
  | bare hg hb ht =>
      rw [isBlock_words hi] at hblock
      cases hblock
  | line hf hg hb ht =>
      rw [isBlock_line hi] at hblock
      cases hblock
  | @block front gap between back trail hf hg hb hk ht =>
      have hwords := hasPart_words (m.indent ++ ("/*" ++ front)) m.modulePath back hg hb
      rw [hasPart_open hi hf, hpath, hasPart_of_noStar (noStar_of_isBlankRun hk)] at hwords
      have hclosing := isClosing_of_hasPart hwords ht
      simp only [List.append_assoc] at hclosing ⊢
      exact hclosing

end Spelling

end Marker

end DialectBuild
