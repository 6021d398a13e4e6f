import DialectBuild.Code.Declaration
import DialectBuild.Proofs.Rereading

/-!
# Prototypes Read Back

A prototype is the signature of a definition, written out with spaces of its own. It should
say the same as the definition: the tokens of the signature and a semicolon. This is settled
token by token. The written form is read back exactly if no token runs on into what is written
after it. If one does, the first that does so is lost for good: another token stands in its
place, or a comment, which takes a slash along that no later token can bring back.

Up to the opening parenthesis nothing ever runs on. The type has only words and stars, a word
there has a space after it or the parenthesis, and a star joins with nothing. Among the
parameters, where any token may stand, a space is set between words, after commas and before
stars and parentheses that follow words. Two marks therefore touch, and so do a word or a
number and the mark after it. For most this is harmless. A slash before a star, however, opens
a comment, and the rest of the prototype is gone.

## Main definitions

* `staysApart`: Tokens of which none runs on in the written form.
* `IsFollowing`: A text that may stand after a token.
* `Export.Opens`: A token that opens the body of an exported function.
* `Export.Accepts`: A definition for which a function is exported.

## Theorems

* `readings_spellAfter_append_iff`: Tokens are read back exactly if they stay apart.
* `Signature.declaration?_eq_some_iff`: The signatures of functions.
* `Export.mem_exported_iff`: Exported functions are those of accepted definitions.
* `Signature.readings_prototype`: A prototype is read back up to its parameters.
* `Declaration.tokenize_prototype_iff`: When a prototype says the same as the definition.
* `Declaration.tokenize_prototype_quotient`: A prototype that does not.
-/

namespace DialectBuild

section Spelling

variable {t before : Token} {ts : List Token} {r : Text}

/-- Whether no token of the list runs on into what is written after it, when `r` is written
    after the list. -/
def staysApart (r : Text) : List Token → Bool
  | [] => true
  | t :: ts => !t.runsOn (spellAfter t ts ++ r) && staysApart r ts

/-- A text that may stand after a token: it has some length and does not start with a line
    feed, which would end a literal that is not closed. -/
def IsFollowing (r : Text) : Prop :=
  2 ≤ r.length ∧ r.head? ≠ some (.char '\n')

/-- A token may stand after a token. -/
theorem Token.IsRead.isFollowing_append (h : t.IsRead) (hr : IsFollowing r) :
    IsFollowing (t.text ++ r) := by
  rcases h.exists_eq_cons with ⟨x, b, htext, hx, _⟩
  rw [htext]
  refine ⟨?_, fun h => hx (Option.some.inj h)⟩
  have := hr.1
  simp only [List.length_append, List.length_cons]
  omega

theorem isFollowing_spellAfter (hts : ∀ t ∈ ts, t.IsRead) (hr : IsFollowing r) :
    IsFollowing (spellAfter before ts ++ r) := by
  induction ts generalizing before with
  | nil => exact hr
  | cons t ts ih =>
      have htail : IsFollowing (spellAfter t ts ++ r) :=
        ih fun u hu => hts u (List.mem_cons_of_mem _ hu)
      have hrest := (hts t List.mem_cons_self).isFollowing_append htail
      rw [spellAfter, Token.gap]
      split
      · refine ⟨?_, by simp⟩
        have := hrest.1
        simp only [List.length_append, List.length_cons, List.length_nil] at this ⊢
        omega
      · simpa only [List.nil_append, List.append_assoc] using hrest

theorem readings_space (r : Text) : readings false ((" " : Text) ++ r) = readings false r :=
  readings_blank_cons rfl r

theorem readings_gap : readings false (before.gap t ++ r) = readings false r := by
  rw [Token.gap]
  split
  · exact readings_space r
  · rfl

/-- A token that does not run on is read back. -/
theorem readings_text_append (ht : t.IsRead) (hr : IsFollowing r) (hrun : t.runsOn r = false) :
    readings false (t.text ++ r) = t.reading :: readings false r := by
  cases ht.rereads hr.1 hr.2 with
  | same _ h => exact readings_token h
  | other hrun' _ _ => rw [hrun] at hrun'; exact absurd hrun' (by decide)
  | comment hrun' _ _ => rw [hrun] at hrun'; exact absurd hrun' (by decide)

/-- A token that runs on is not read back. Either another token is read in its place, or a
    comment, and then the slash that opens the comment is missing in all that is read. -/
theorem readings_text_append_ne {more : List (TokenKind × Text)} (ht : t.IsRead)
    (hr : IsFollowing r) (hrun : t.runsOn r = true)
    (hmore : (more.map (·.2.count (.char '/'))).sum = r.count (.char '/')) :
    readings false (t.text ++ r) ≠ t.reading :: more := by
  intro heq
  cases ht.rereads hr.1 hr.2 with
  | same hrun' _ => rw [hrun] at hrun'; exact absurd hrun' (by decide)
  | other _ hne h =>
      rw [readings_token h] at heq
      exact hne (Prod.mk.inj (List.cons.inj heq).1).2
  -- A comment swallows a slash, and no reading of the rest gives it back.
  | @comment text rest _ hslash h =>
      have hskip : readings false (t.text ++ r) = readings false rest := readings_eq_append h
      have hle := sum_count_readings_le (.char '/') false rest
      have hsplit := congrArg (List.count (.char '/')) (Lexeme.next?_eq_some h.next?).2
      have hpos := List.count_pos_iff.mpr hslash
      rw [← hskip, heq] at hle
      simp only [List.map_cons, List.sum_cons, hmore, List.count_append, Token.reading]
        at hle hsplit
      omega

/-- Tokens that stay apart are read back, whatever follows them. -/
theorem readings_spellAfter_append (ht : t.IsRead) (hts : ∀ u ∈ ts, u.IsRead)
    (hr : IsFollowing r) (hapart : staysApart r (t :: ts) = true) :
    readings false (t.text ++ (spellAfter t ts ++ r)) =
      (t :: ts).map Token.reading ++ readings false r := by
  induction ts generalizing t with
  | nil =>
      simp only [staysApart, Bool.and_true, Bool.not_eq_true'] at hapart
      exact readings_text_append ht hr hapart
  | cons u ts ih =>
      rw [staysApart, Bool.and_eq_true, Bool.not_eq_true'] at hapart
      have hu := hts u List.mem_cons_self
      have hrest := ih hu (fun v hv => hts v (List.mem_cons_of_mem _ hv)) hapart.2
      rw [readings_text_append ht (isFollowing_spellAfter hts hr) hapart.1, spellAfter,
        List.append_assoc, List.append_assoc, readings_gap, hrest]
      rfl

/-- Spaces aside, the written form of some tokens has the symbols of the tokens. -/
theorem count_spellAfter {x : Symbol} (hx : x ≠ ' ') (before : Token) (ts : List Token) :
    (spellAfter before ts).count x = ((ts.map Token.reading).map (·.2.count x)).sum := by
  induction ts generalizing before with
  | nil => rfl
  | cons t ts ih =>
      have hgap : (before.gap t).count x = 0 := by
        rw [Token.gap]
        split
        · exact List.count_eq_zero.mpr fun h => hx (List.mem_singleton.mp h)
        · rfl
      simp [spellAfter, hgap, ih, Token.reading]

/-- The first of some tokens that are read back does not run on. -/
theorem runsOn_eq_false_of_readings (ht : t.IsRead) (hts : ∀ u ∈ ts, u.IsRead)
    (hr : IsFollowing r)
    (hslash : ((readings false r).map (·.2.count (.char '/'))).sum = r.count (.char '/'))
    (h : readings false (t.text ++ (spellAfter t ts ++ r)) =
      (t :: ts).map Token.reading ++ readings false r) :
    t.runsOn (spellAfter t ts ++ r) = false := by
  refine Bool.eq_false_iff.mpr fun hrun => ?_
  have hmore : ((ts.map Token.reading ++ readings false r).map (·.2.count (.char '/'))).sum =
      (spellAfter t ts ++ r).count (.char '/') := by
    rw [List.map_append, List.sum_append, hslash, List.count_append,
      count_spellAfter (by decide)]
  exact readings_text_append_ne ht (isFollowing_spellAfter hts hr) hrun hmore h

/-- Tokens are read back exactly if they stay apart, provided that no slash is lost in what
    follows them. -/
theorem readings_spellAfter_append_iff (ht : t.IsRead) (hts : ∀ u ∈ ts, u.IsRead)
    (hr : IsFollowing r)
    (hslash : ((readings false r).map (·.2.count (.char '/'))).sum = r.count (.char '/')) :
    readings false (t.text ++ (spellAfter t ts ++ r)) =
      (t :: ts).map Token.reading ++ readings false r ↔ staysApart r (t :: ts) = true := by
  refine ⟨fun h => ?_, readings_spellAfter_append ht hts hr⟩
  induction ts generalizing t with
  | nil =>
      rw [staysApart, runsOn_eq_false_of_readings ht hts hr hslash h]
      rfl
  | cons u ts ih =>
      have hrun := runsOn_eq_false_of_readings ht hts hr hslash h
      have hu := hts u List.mem_cons_self
      -- The first token is read back, so the others are.
      rw [readings_text_append ht (isFollowing_spellAfter hts hr) hrun, spellAfter,
        List.append_assoc, List.append_assoc, readings_gap] at h
      rw [staysApart, hrun, ih hu (fun v hv => hts v (List.mem_cons_of_mem _ hv))
        (List.cons.inj h).2]
      rfl

end Spelling

namespace Signature

/-- What is split off a reversed list stands before an opening parenthesis. -/
theorem splitAtOpen?_eq_some {depth : Nat} {ts inside rest : List Token}
    (h : splitAtOpen? depth ts = some (inside, rest)) :
    ∃ o : Token, o.spells "(" = true ∧ ts = inside ++ o :: rest := by
  -- The token is found at once or behind the first one; the depth plays no part.
  fun_induction splitAtOpen? depth ts generalizing inside with
  | case1 depth => simp at h
  | case2 t ts ht =>
      cases h
      exact ⟨t, ht, rfl⟩
  | case3 t ts _ depth ih =>
      rcases Option.map_eq_some_iff.mp h with ⟨r, hr, heq⟩
      cases heq
      rcases ih hr with ⟨o, ho, rfl⟩
      exact ⟨o, ho, rfl⟩
  | case4 depth t ts _ ih =>
      rcases Option.map_eq_some_iff.mp h with ⟨r, hr, heq⟩
      cases heq
      rcases ih hr with ⟨o, ho, rfl⟩
      exact ⟨o, ho, rfl⟩

/-- A signature is made of what stands before its parentheses, the parentheses, and what
    stands inside. -/
theorem split?_eq_some {ts front params : List Token} (h : split? ts = some (front, params)) :
    ∃ o c : Token, o.spells "(" = true ∧ c.spells ")" = true ∧
      ts = front ++ o :: (params ++ [c]) := by
  unfold split? at h
  split at h
  next => simp at h
  next c back hback =>
    split at h
    next hc =>
      rcases Option.map_eq_some_iff.mp h with ⟨r, hr, heq⟩
      cases heq
      rcases splitAtOpen?_eq_some hr with ⟨o, ho, rfl⟩
      refine ⟨o, c, ho, hc, ?_⟩
      rw [← List.reverse_reverse ts, hback]
      simp
    next => simp at h

/-- The tokens that are the signature of a function, and what is declared by them. -/
theorem declaration?_eq_some_iff {sig : List Token} {d : Declaration} :
    declaration? sig = some d ↔ sig.length ≤ maxTokens ∧ ∃ first more name params,
      split? sig = some (first :: more ++ [name], params) ∧ isName name = true ∧
      first.kind = .ident ∧ (first :: more).all isTypeToken = true ∧
      params.all isParamToken = true ∧
      d = ⟨name.text, spell (first :: more), spell params, first.line⟩ := by
  have hguard : ∀ {p : Prop} [Decidable p] {u : Unit}, (guard p : Option Unit) = some u ↔ p := by
    intro p _ u
    rw [guard]
    split
    next hp => exact iff_of_true rfl hp
    next hp => exact iff_of_false (by simp [failure]) hp
  simp only [declaration?, Option.bind_eq_bind, Option.bind_eq_some_iff, hguard]
  constructor
  · rintro ⟨_, hlen, ⟨front, params⟩, hsplit, name, hname, first, hfirst, _, hall, heq⟩
    rcases List.getLast?_eq_some_iff.mp hname with ⟨type, rfl⟩
    simp only [List.dropLast_concat] at hfirst hall heq
    rcases List.head?_eq_some_iff.mp hfirst with ⟨more, rfl⟩
    simp only [Bool.and_eq_true, beq_iff_eq] at hall
    exact ⟨hlen, first, more, name, params, hsplit, hall.1.1.1, hall.1.1.2, hall.1.2, hall.2,
      (Option.some.inj heq).symm⟩
  · rintro ⟨hlen, first, more, name, params, hsplit, hname, hfirst, htype, hparams, rfl⟩
    refine ⟨(), hlen, _, hsplit, name, List.getLast?_concat, first, ?_, (), ?_, ?_⟩
    · rw [List.dropLast_concat]
      rfl
    · rw [List.dropLast_concat, hname, hfirst, htype, hparams]
      rfl
    · rw [List.dropLast_concat]
      rfl

end Signature

namespace Export

/-- The token `t` opens the body of the function `d`, which is new. -/
def Opens (e : Export) (t : Token) (d : Declaration) : Prop :=
  e.depth = 0 ∧ t.spells "\x7b" = true ∧ Signature.declaration? e.item = some d ∧
    e.found.any (·.name == d.name) = false

/-- The text has a definition with the signature `sig`, and the function `d` is exported for
    it. The signature is all that stands between the last item and the opening brace. -/
def Accepts (s : Text) (sig : List Token) (d : Declaration) : Prop :=
  ∃ before brace after, tokenize s = before ++ brace :: after ∧
    (before.foldl step start).item = sig ∧ (before.foldl step start).Opens brace d

/-- An item adds the function that it declares, if that is new. -/
theorem mem_addItem_iff {e : Export} {d : Declaration} :
    d ∈ e.addItem ↔ d ∈ e.found ∨ (Signature.declaration? e.item = some d ∧
      e.found.any (·.name == d.name) = false) := by
  rw [addItem]
  split
  next d' hd =>
    rw [hd, Option.some.injEq]
    split
    -- A name that is known already is not declared again.
    next hknown =>
      refine ⟨Or.inl, fun h => h.elim id fun h => ?_⟩
      rw [← h.1, hknown] at h
      exact absurd h.2 (by decide)
    next hnew =>
      rw [List.mem_append, List.mem_singleton]
      refine or_congr_right ⟨fun h => ⟨h.symm, ?_⟩, fun h => h.1.symm⟩
      rw [h]
      exact Bool.eq_false_iff.mpr hnew
  next hnone => simp [hnone]

/-- A token adds a function exactly if it opens its body. -/
theorem mem_found_step_iff {e : Export} {t : Token} {d : Declaration} :
    d ∈ (e.step t).found ↔ d ∈ e.found ∨ e.Opens t d := by
  have hadd := mem_addItem_iff (e := e) (d := d)
  rw [step, Opens]
  grind

/-- Some tokens add the functions whose bodies they open. -/
theorem mem_found_foldl_iff {e : Export} {ts : List Token} {d : Declaration} :
    d ∈ (ts.foldl step e).found ↔ d ∈ e.found ∨
      ∃ before t after, ts = before ++ t :: after ∧ (before.foldl step e).Opens t d := by
  induction ts generalizing e with
  | nil => simp
  | cons t ts ih =>
      -- A declaration of the rest is one of the whole, with the first token before it.
      rw [List.foldl_cons, ih, mem_found_step_iff, or_assoc]
      refine or_congr_right ⟨?_, ?_⟩
      · rintro (h | ⟨before, u, after, rfl, h⟩)
        · exact ⟨[], t, ts, rfl, h⟩
        · exact ⟨t :: before, u, after, rfl, h⟩
      · rintro ⟨before, u, after, hts, h⟩
        rcases before with _ | ⟨v, before⟩
        · cases hts
          exact Or.inl h
        · cases hts
          exact Or.inr ⟨before, u, after, rfl, h⟩

/-- The functions that a text exports are those of its accepted definitions. -/
theorem mem_exported_iff {s : Text} {d : Declaration} :
    d ∈ exported s ↔ ∃ sig, Accepts s sig d := by
  rw [exported, mem_found_foldl_iff]
  constructor
  · rintro (h | ⟨before, t, after, hs, h⟩)
    · exact absurd h List.not_mem_nil
    · exact ⟨_, before, t, after, hs, rfl, h⟩
  · rintro ⟨sig, before, t, after, hs, _, h⟩
    exact Or.inr ⟨before, t, after, hs, h⟩

theorem mem_item_step {e : Export} {t u : Token} (h : u ∈ (e.step t).item) :
    u ∈ e.item ∨ u = t := by
  rw [step] at h
  grind

theorem mem_item_foldl {e : Export} {ts : List Token} {t : Token}
    (h : t ∈ (ts.foldl step e).item) : t ∈ e.item ∨ t ∈ ts := by
  induction ts generalizing e with
  | nil => exact Or.inl h
  | cons u ts ih =>
      rcases ih h with h | h
      · rcases mem_item_step h with h | rfl
        · exact Or.inl h
        · exact Or.inr List.mem_cons_self
      · exact Or.inr (List.mem_cons_of_mem _ h)

/-- A signature is made of tokens of the text. -/
theorem Accepts.isRead {s : Text} {sig : List Token} {d : Declaration} (h : Accepts s sig d) :
    ∀ t ∈ sig, t.IsRead := by
  rcases h with ⟨before, brace, after, hs, rfl, _⟩
  intro t ht
  rcases mem_item_foldl ht with ht | ht
  · exact absurd ht List.not_mem_nil
  · refine isRead_of_mem_tokenize (s := s) ?_
    rw [hs]
    exact List.mem_append_left _ ht

end Export

namespace Token

/-- A single symbol that opens nothing is read as punctuation. -/
theorem IsRead.kind_eq_punct {t : Token} {x : Symbol} (h : t.IsRead) (ht : t.text = [x])
    (hx : Lexeme.isOpener x = false) : t.kind = .punct := by
  rcases t with ⟨kind, text, line⟩
  rcases h with ⟨lineStart, s, rest, h⟩
  cases h <;> simp_all [Lexeme.isOpener]

/-- A word starts with a letter, and all its other symbols are of words. -/
theorem IsRead.eq_cons_of_ident {t : Token} (h : t.IsRead) (ht : t.kind = .ident) :
    ∃ x b, t.text = x :: b ∧ Lexeme.isIdentStart x = true ∧ ∀ y ∈ b, y.isWord = true := by
  rcases t with ⟨kind, text, line⟩
  rcases h with ⟨lineStart, s, rest, h⟩
  cases h with
  | ident hx hs => exact ⟨_, _, rfl, hx, Tail.forall_of_run hs⟩
  | literal hq _ =>
      rcases Lexeme.quoteKind?_eq_some_iff.mp hq with ⟨_, rfl⟩ | ⟨_, rfl⟩ <;>
      exact absurd ht (by simp)
  | _ => exact absurd ht (by simp)

end Token

namespace Signature

variable {t u first name : Token} {ts more params : List Token} {r : Text}

theorem kind_or_text_of_isTypeToken (h : isTypeToken t = true) :
    t.kind = .ident ∨ t.text = "*" := by
  simp only [isTypeToken, Token.spells, Bool.and_eq_true, Bool.or_eq_true, beq_iff_eq] at h
  exact h.1

/-- In a type a word is followed by a space. -/
theorem gap_of_isTypeToken (ht : t.kind = .ident) (hu : isTypeToken u = true) :
    t.gap u = " " := by
  have hword : t.isWordlike = true := by
    rw [Token.isWordlike, ht]
    rfl
  have hspaced : t.isSpaced u = true := by
    rw [Token.isSpaced]
    rcases kind_or_text_of_isTypeToken hu with hu | hu
    · simp [Token.isWordlike, hu, ht]
    · simp [Token.spells, hu, hword]
  rw [Token.gap, hspaced]
  rfl

theorem runsOn_of_ident (ht : t.kind = .ident) : t.runsOn r = r.head?.any Symbol.isWord := by
  rw [Token.runsOn, ht]

theorem runsOn_star (ht : t.IsRead) (h : t.text = "*") : t.runsOn r = false := by
  have hkind := ht.kind_eq_punct (x := '*') h (by decide)
  rw [Token.runsOn, hkind, h]
  rfl

/-- The tokens of a type stay apart before a text that starts with a space, or with anything if
    the type ends in a star. -/
theorem staysApart_type (hread : ∀ t ∈ ts, t.IsRead) (htype : ∀ t ∈ ts, isTypeToken t = true)
    (hlast : ∀ t, ts.getLast? = some t → t.kind = .ident → r.head? = some (.char ' ')) :
    staysApart r ts = true := by
  induction ts with
  | nil => rfl
  | cons t ts ih =>
      have hrest : staysApart r ts = true := by
        refine ih (fun u hu => hread u (List.mem_cons_of_mem _ hu))
          (fun u hu => htype u (List.mem_cons_of_mem _ hu)) fun u hu => hlast u ?_
        rw [List.getLast?_cons, hu]
        rfl
      -- A word is followed by a space; a star never runs into what follows.
      have hrun : t.runsOn (spellAfter t ts ++ r) = false := by
        rcases kind_or_text_of_isTypeToken (htype t List.mem_cons_self) with ht | ht
        · have hspace : (spellAfter t ts ++ r).head? = some (.char ' ') := by
            rcases ts with _ | ⟨u, ts⟩
            · exact hlast t rfl ht
            · rw [spellAfter, gap_of_isTypeToken ht (htype u (by simp))]
              rfl
          rw [runsOn_of_ident ht, hspace]
          decide
        · exact runsOn_star (hread t List.mem_cons_self) ht
      rw [staysApart, hrun, hrest]
      rfl

/-- What is written after a token ends with the last token. -/
theorem exists_spellAfter_concat (before t : Token) (ts : List Token) :
    ∃ s, spellAfter before (ts ++ [t]) = s ++ t.text := by
  induction ts generalizing before with
  | nil => exact ⟨before.gap t, by rw [List.nil_append, spellAfter, spellAfter, List.append_nil]⟩
  | cons u ts ih =>
      rcases ih u with ⟨s, hs⟩
      exact ⟨before.gap u ++ u.text ++ s, by
        rw [List.cons_append, spellAfter, hs, List.append_assoc _ s]⟩

/-- The written form of tokens ends with the last of them. -/
theorem exists_spell_concat (t : Token) (ts : List Token) :
    ∃ s, spell (ts ++ [t]) = s ++ t.text := by
  rcases ts with _ | ⟨u, ts⟩
  · exact ⟨[], by rw [List.nil_append, spell, spellAfter, List.append_nil]; rfl⟩
  · rcases exists_spellAfter_concat u t ts with ⟨s, hs⟩
    exact ⟨u.text ++ s, by rw [List.cons_append, spell, hs, List.append_assoc]⟩

/-- A type that ends in a word does not end in a star. -/
theorem endsWith_star_of_ident (hread : t.IsRead) (hkind : t.kind = .ident)
    (h : ts.getLast? = some t) : (spell ts).endsWith "*" = false := by
  rcases hread.eq_cons_of_ident hkind with ⟨x, b, htext, hx, hb⟩
  rcases List.getLast?_eq_some_iff.mp h with ⟨ts, rfl⟩
  rcases exists_spell_concat t ts with ⟨s, hs⟩
  refine Bool.eq_false_iff.mpr fun hends => ?_
  rcases List.isSuffixOf_iff_suffix.mp hends with ⟨s', hs'⟩
  have hmem : .char '*' ∈ x :: b := by
    have hlast : (s ++ x :: b).getLast? = some (.char '*') := by
      rw [← htext, ← hs, ← hs']
      exact List.getLast?_concat
    rw [List.getLast?_append, List.getLast?_cons, Option.some_or, ← List.getLast?_cons] at hlast
    exact List.mem_of_getLast? hlast
  rcases List.mem_cons.mp hmem with rfl | hmem
  · exact absurd hx (by decide)
  · exact absurd (hb _ hmem) (by decide)

/-- At the start of a line a word is read as anywhere else. -/
theorem readings_lineStart (ht : t.IsRead) (hkind : t.kind = .ident) :
    readings true (t.text ++ r) = readings false (t.text ++ r) := by
  rcases ht.eq_cons_of_ident hkind with ⟨x, b, htext, hx, _⟩
  rw [htext, List.cons_append, readings_token (.ident hx rfl), readings_token (.ident hx rfl)]

theorem isFollowing_spell (hparams : ∀ t ∈ params, t.IsRead) (hr : IsFollowing r) :
    IsFollowing (spell params ++ r) := by
  rcases params with _ | ⟨t, ts⟩
  · exact hr
  · rw [spell, List.append_assoc]
    exact (hparams t List.mem_cons_self).isFollowing_append
      (isFollowing_spellAfter (fun u hu => hparams u (List.mem_cons_of_mem _ hu)) hr)

/-- What a prototype has after the type, up to its parameters, is read back. -/
theorem readings_name_open {o : Token} (hname : name.kind = .ident) (ho : o.text = "(")
    (hreadName : name.IsRead) (hreadOpen : o.IsRead) (hr : IsFollowing r) :
    readings false (name.text ++ (o.text ++ r)) =
      name.reading :: o.reading :: readings false r := by
  have hopen : o.runsOn r = false := by
    rw [Token.runsOn, hreadOpen.kind_eq_punct (x := '(') ho (by decide), ho]
    rfl
  have hnamed : name.runsOn (o.text ++ r) = false := by
    rw [runsOn_of_ident hname, ho]
    exact (by decide : Symbol.isWord '(' = false)
  rw [readings_text_append hreadName (hreadOpen.isFollowing_append hr) hnamed,
    readings_text_append hreadOpen hr hopen]

/-- The type is read back before a text that starts with a space, or with anything that can
    follow a token if the type ends in a star. -/
theorem readings_type (hfirst : first.kind = .ident)
    (htype : ∀ t ∈ first :: more, isTypeToken t = true)
    (hread : ∀ t ∈ first :: more, t.IsRead) (hr : IsFollowing r)
    (hlast : ∀ t, (first :: more).getLast? = some t → t.kind = .ident →
      r.head? = some (.char ' ')) :
    readings true (spell (first :: more) ++ r) =
      (first :: more).map Token.reading ++ readings false r := by
  have hreadFirst := hread first List.mem_cons_self
  rw [spell, List.append_assoc, readings_lineStart hreadFirst hfirst]
  exact readings_spellAfter_append hreadFirst (fun t ht => hread t (List.mem_cons_of_mem _ ht)) hr
    (staysApart_type hread htype hlast)

/-- The tokens of a prototype are those of the signature up to the parameters, and then what
    is read off the written parameters. -/
theorem readings_prototype {o : Token} (line : Nat) (params : List Token)
    (hfirst : first.kind = .ident) (htype : ∀ t ∈ first :: more, isTypeToken t = true)
    (hname : name.kind = .ident) (ho : o.text = "(")
    (hread : ∀ t ∈ first :: more ++ name :: o :: params, t.IsRead) :
    readings true (Declaration.prototype
      ⟨name.text, spell (first :: more), spell params, line⟩) =
      (first :: more ++ [name, o]).map Token.reading ++ readings false (spell params ++ ");") := by
  have hreadType : ∀ t ∈ first :: more, t.IsRead :=
    fun t ht => hread t (List.mem_append_left _ ht)
  have hreadName := hread name (by simp)
  have hreadOpen := hread o (by simp)
  have hparams : IsFollowing (spell params ++ ");") :=
    isFollowing_spell (fun t ht => hread t (by simp [ht])) ⟨by decide, by decide⟩
  have hfollow := hreadName.isFollowing_append (hreadOpen.isFollowing_append hparams)
  have hrest := readings_name_open hname ho hreadName hreadOpen hparams
  -- The space before the name is left out exactly if the type ends in a star.
  rcases hstar : (spell (first :: more)).endsWith "*" with _ | _
  · have hwritten : Declaration.prototype ⟨name.text, spell (first :: more), spell params, line⟩ =
        spell (first :: more) ++
          ((" " : Text) ++ (name.text ++ (o.text ++ (spell params ++ ");")))) := by
      simp only [Declaration.prototype, hstar, ho, List.append_assoc, Bool.false_eq_true, if_false]
    have hspaced : IsFollowing ((" " : Text) ++
        (name.text ++ (o.text ++ (spell params ++ ");")))) :=
      ⟨Nat.le_succ_of_le hfollow.1, by simp [Text.ofString]⟩
    rw [hwritten, readings_type hfirst htype hreadType hspaced fun _ _ _ => rfl,
      readings_space, hrest]
    simp
  · have hwritten : Declaration.prototype ⟨name.text, spell (first :: more), spell params, line⟩ =
        spell (first :: more) ++ (name.text ++ (o.text ++ (spell params ++ ");"))) := by
      simp only [Declaration.prototype, hstar, ho, List.append_assoc, if_true, List.nil_append]
    have hlast : ∀ t, (first :: more).getLast? = some t → t.kind = .ident →
        (name.text ++ (o.text ++ (spell params ++ ");"))).head? = some (.char ' ') := by
      intro t ht hkind
      rw [endsWith_star_of_ident (hreadType t (List.mem_of_getLast? ht)) hkind ht] at hstar
      exact absurd hstar (by decide)
    rw [hwritten, readings_type hfirst htype hreadType hfollow hlast, hrest]
    simp

/-- What closes a prototype is read as a parenthesis and a semicolon. -/
theorem readings_close :
    readings false ");" = ([(.punct, ")"), (.punct, ";")] : List (TokenKind × Text)) := by
  decide +kernel

/-- The parameters are read back exactly if they stay apart. -/
theorem readings_params_iff (hread : ∀ t ∈ params, t.IsRead) :
    readings false (spell params ++ ");") = params.map Token.reading ++ readings false ");" ↔
      staysApart ");" params = true := by
  rcases params with _ | ⟨t, ts⟩
  · exact iff_of_true rfl rfl
  · rw [spell, List.append_assoc]
    refine readings_spellAfter_append_iff (hread t List.mem_cons_self)
      (fun u hu => hread u (List.mem_cons_of_mem _ hu)) ⟨by decide, by decide⟩ ?_
    rw [readings_close]
    decide

end Signature

namespace Declaration

/-- A prototype has the tokens of the definition's signature and a semicolon exactly if no
    token among the parameters runs on into what is written after it. -/
theorem tokenize_prototype_iff {s : Text} {sig front params : List Token} {d : Declaration}
    (h : Export.Accepts s sig d) (hsplit : Signature.split? sig = some (front, params)) :
    d ∈ exported s ∧
      ((tokenize d.prototype).map Token.reading =
        sig.map Token.reading ++ ([(.punct, ";")] : List (TokenKind × Text)) ↔
      staysApart ");" params = true) := by
  refine ⟨Export.mem_exported_iff.mpr ⟨sig, h⟩, ?_⟩
  have hread := h.isRead
  rcases h with ⟨before, brace, after, _, rfl, _, _, hd, _⟩
  rcases Signature.declaration?_eq_some_iff.mp hd with
    ⟨_, first, more, name, params', hsplit', hname, hfirst, htype, _, rfl⟩
  rw [hsplit', Option.some.injEq, Prod.mk.injEq] at hsplit
  rcases hsplit with ⟨rfl, rfl⟩
  rcases Signature.split?_eq_some hsplit' with ⟨o, c, ho, hc, hsig⟩
  rw [hsig] at hread ⊢
  have hclose : c.reading = ((.punct, ")") : TokenKind × Text) := by
    have htext : c.text = ")" := eq_of_beq hc
    have hkind := (hread c (by simp)).kind_eq_punct (x := ')') htext (by decide)
    rw [Token.reading, hkind, htext]
  have hwritten := Signature.readings_prototype first.line params' hfirst
    (List.all_eq_true.mp htype) (eq_of_beq (Bool.and_eq_true_iff.mp hname).1) (eq_of_beq ho)
    fun t ht => hread t (by
      rw [List.append_assoc, List.singleton_append, ← List.cons_append, ← List.cons_append,
        ← List.append_assoc]
      exact List.mem_append_left _ ht)
  have hexpected : (first :: more ++ [name] ++ o :: (params' ++ [c])).map Token.reading ++
      ([(.punct, ";")] : List (TokenKind × Text)) =
      (first :: more ++ [name, o]).map Token.reading ++
        (params'.map Token.reading ++ readings false ");") := by
    rw [Signature.readings_close]
    simp [hclose]
  rw [map_reading_tokenize, hwritten, hexpected, List.append_right_inj]
  exact Signature.readings_params_iff fun t ht => hread t (by simp [ht])

/-- Tokens that all stand on the first line. -/
def onFirstLine (ts : List (TokenKind × String)) : List Token :=
  ts.map fun t => ⟨t.1, t.2, 1⟩

/-- The signature of a function with a quotient and an ellipsis among its parameters. -/
def variadicSignature : List Token := onFirstLine [
  (.ident, "int"), (.punct, "*"), (.ident, "f"), (.punct, "("), (.ident, "int"), (.ident, "a"),
  (.punct, "["), (.ident, "n"), (.punct, "/"), (.number, "2"), (.punct, "]"), (.punct, ","),
  (.punct, "..."), (.punct, ")")]

theorem tokenize_prototype_variadic :
    Export.Accepts "int *f(int a[n / 2], ...)\x7b" variadicSignature
      ⟨"f", "int *", "int a[n/2], ...", 1⟩ ∧
    (tokenize "int *f(int a[n/2], ...);").map Token.reading =
      variadicSignature.map Token.reading ++ ([(.punct, ";")] : List (TokenKind × Text)) := by
  have h : Export.Accepts "int *f(int a[n / 2], ...)\x7b" variadicSignature
      ⟨"f", "int *", "int a[n/2], ...", 1⟩ :=
    ⟨variadicSignature, ⟨.punct, "\x7b", 1⟩, [], by decide +kernel, by decide +kernel,
      by decide +kernel, by decide +kernel, by decide +kernel, by decide +kernel⟩
  have hsplit : Signature.split? variadicSignature =
      some (variadicSignature.take 3, (variadicSignature.drop 4).dropLast) := by decide +kernel
  exact ⟨h, (tokenize_prototype_iff h hsplit).2.mpr (by decide +kernel)⟩

/-- The signature of a function with a quotient by what a pointer points to. -/
def quotientSignature : List Token := onFirstLine [
  (.ident, "int"), (.ident, "f"), (.punct, "("), (.ident, "int"), (.ident, "n"), (.punct, ","),
  (.ident, "int"), (.punct, "*"), (.ident, "p"), (.punct, ","), (.ident, "int"), (.ident, "a"),
  (.punct, "["), (.ident, "n"), (.punct, "/"), (.punct, "*"), (.ident, "p"), (.punct, "]"),
  (.punct, ")")]

/-- The slash and the star touch in the prototype and open a comment, which takes in all that
    follows. -/
theorem tokenize_prototype_quotient :
    Export.Accepts "int f(int n, int *p, int a[n / *p]) \x7b \x7d" quotientSignature
      ⟨"f", "int", "int n, int *p, int a[n/*p]", 1⟩ ∧
    prototype ⟨"f", "int", "int n, int *p, int a[n/*p]", 1⟩ =
      "int f(int n, int *p, int a[n/*p]);" ∧
    (tokenize "int f(int n, int *p, int a[n/*p]);").map Token.reading =
      (quotientSignature.take 14).map Token.reading ∧
    (tokenize "int f(int n, int *p, int a[n/*p]);").map Token.reading ≠
      quotientSignature.map Token.reading ++ ([(.punct, ";")] : List (TokenKind × Text)) := by
  refine ⟨⟨quotientSignature, ⟨.punct, "\x7b", 1⟩, [⟨.punct, "\x7d", 1⟩], ?_, ?_, ?_⟩, ?_⟩
  · decide +kernel
  · decide +kernel
  · exact ⟨by decide +kernel, by decide +kernel, by decide +kernel, by decide +kernel⟩
  · decide +kernel

end Declaration

end DialectBuild
