import DialectBuild.Proofs.SignatureShape

/-!
# Tokens That Are Read Alike

What a unit exports does not hang on every detail of its tokens. The line of a token is only
passed on, and the inside of a literal is copied into the parameters at most. A change of
tokens that keeps all else leaves every decision as it was: the same braces are counted, the
same items are cut off, and the same of them are signatures.

So two lists of tokens, of which one is the other with each token changed in such a way, are
read in step. The functions found correspond one by one. They have the same names and types,
and they differ in line and parameters by the change of the tokens.

## Main definitions

* `Token.isQuoted`: A literal.
* `Token.Keeps`: A change of tokens that shows only in lines and literals.
* `Signature.Related`: Functions that are declared by the same tokens, changed and unchanged.
* `Export.Alike`: Units that are being read in step.

## Theorems

* `Token.Keeps.spells`: No mark is mistaken.
* `Signature.split?_map`: Changed tokens are split where the unchanged ones are.
* `Signature.declaration?_map_cases`: What changed tokens declare.
* `Export.Alike.step`, `Export.Alike.foldl`: Units are read in step.
-/

namespace DialectBuild

namespace Token

/-- Whether the token is a literal, which starts with its quote. -/
def isQuoted (t : Token) : Bool :=
  match t.text with
  | [] => false
  | q :: _ => decide (Lexeme.quoteKind? q = some t.kind)

/-- A change of tokens that shows only in their lines and inside literals. -/
structure Keeps (f : Token → Token) : Prop where
  /-- A token stays what it is. -/
  kind : ∀ t, (f t).kind = t.kind
  /-- A literal stays a literal, and nothing else becomes one. -/
  quoted : ∀ t, (f t).isQuoted = t.isQuoted
  /-- All other tokens stay as they are spelled. -/
  text : ∀ t, t.isQuoted = false → (f t).text = t.text

section Marks

variable {f : Token → Token} {t u : Token} {s : Text}

/-- A literal is a string or a character. -/
theorem isQuoted_of_kind (hstring : t.kind ≠ .string) (hchar : t.kind ≠ .char) :
    t.isQuoted = false := by
  rw [isQuoted]
  split
  next => rfl
  next q b _ =>
    refine decide_eq_false fun hq => ?_
    rcases Lexeme.quoteKind?_eq_some_iff.mp hq with ⟨_, hkind⟩ | ⟨_, hkind⟩
    · exact hstring hkind
    · exact hchar hkind

theorem isQuoted_of_ident (h : t.kind = .ident) : t.isQuoted = false :=
  isQuoted_of_kind (by rw [h]; decide) (by rw [h]; decide)

/-- A literal is not spelled like a mark or a word. -/
theorem spells_of_isQuoted (h : t.isQuoted = true)
    (hs : s.head?.bind Lexeme.quoteKind? = none) : t.spells s = false := by
  rw [spells, beq_eq_false_iff_ne]
  rintro rfl
  rw [isQuoted] at h
  split at h
  next => cases h
  next q b htext =>
    rw [htext] at hs
    rw [show Lexeme.quoteKind? q = none from hs] at h
    cases h

/-- What is spelled like a mark or a word is spelled so after the change, and nothing else is. -/
theorem Keeps.spells (hf : Keeps f) (t : Token) (hs : s.head?.bind Lexeme.quoteKind? = none) :
    (f t).spells s = t.spells s := by
  rcases hquoted : t.isQuoted with _ | _
  · rw [Token.spells, Token.spells, hf.text t hquoted]
  · rw [spells_of_isQuoted hquoted hs, spells_of_isQuoted ((hf.quoted t).trans hquoted) hs]

theorem Keeps.isWordlike (hf : Keeps f) (t : Token) : (f t).isWordlike = t.isWordlike := by
  rw [Token.isWordlike, Token.isWordlike, hf.kind]

/-- A test that no literal passes, and that goes by what a token is and how it is spelled, comes
    out the same. -/
theorem Keeps.test (hf : Keeps f) {p : Token → Bool} (t : Token)
    (hquoted : ∀ {t}, p t = true → t.isQuoted = false)
    (hsame : ∀ {t u : Token}, u.kind = t.kind → u.text = t.text → p u = p t) : p (f t) = p t := by
  rcases h : t.isQuoted with _ | _
  · exact hsame (hf.kind t) (hf.text t h)
  · have hfails : ∀ {u : Token}, u.isQuoted = true → p u = false := by
      intro u hu
      refine Bool.eq_false_iff.mpr fun hp => ?_
      rw [hquoted hp] at hu
      cases hu
    rw [hfails h, hfails ((hf.quoted t).trans h)]

/-- The spaces of the written form stay where they are. -/
theorem Keeps.gap (hf : Keeps f) (t u : Token) : (f t).gap (f u) = t.gap u := by
  have hspaced : (f t).isSpaced (f u) = t.isSpaced u := by
    rw [isSpaced, isSpaced, hf.spells t (by decide), hf.spells t (by decide),
      hf.spells u (by decide), hf.spells u (by decide), hf.spells u (by decide),
      hf.isWordlike, hf.isWordlike]
  rw [Token.gap, Token.gap, hspaced]

theorem Keeps.spellAfter (hf : Keeps f) {ts : List Token} (before : Token)
    (hts : ∀ t ∈ ts, (f t).text = t.text) :
    DialectBuild.spellAfter (f before) (ts.map f) = DialectBuild.spellAfter before ts := by
  induction ts generalizing before with
  | nil => rfl
  | cons t ts ih =>
      rcases List.forall_mem_cons.mp hts with ⟨ht, hts⟩
      rw [List.map_cons, DialectBuild.spellAfter, DialectBuild.spellAfter, hf.gap, ht, ih t hts]

/-- Tokens that stay as they are spelled have the same written form. -/
theorem Keeps.spell (hf : Keeps f) {ts : List Token} (hts : ∀ t ∈ ts, (f t).text = t.text) :
    DialectBuild.spell (ts.map f) = DialectBuild.spell ts := by
  rcases ts with _ | ⟨t, ts⟩
  · rfl
  · rcases List.forall_mem_cons.mp hts with ⟨ht, hts⟩
    rw [List.map_cons, DialectBuild.spell, DialectBuild.spell, ht, hf.spellAfter t hts]

end Marks

end Token

namespace Signature

variable {f : Token → Token}

section Tests

variable {t : Token}

theorem isQuoted_of_isTypeToken (h : isTypeToken t = true) : t.isQuoted = false := by
  rcases kind_or_text_of_isTypeToken h with hkind | htext
  · exact Token.isQuoted_of_ident hkind
  · rw [Token.isQuoted, htext]
    rfl

theorem isQuoted_of_isName (h : isName t = true) : t.isQuoted = false :=
  Token.isQuoted_of_ident (isName_iff.mp h).1

theorem isTypeToken_map (hf : Token.Keeps f) (t : Token) : isTypeToken (f t) = isTypeToken t := by
  refine hf.test t isQuoted_of_isTypeToken fun hkind htext => ?_
  rw [isTypeToken, isTypeToken, Token.spells, Token.spells, hkind, htext]

theorem isName_map (hf : Token.Keeps f) (t : Token) : isName (f t) = isName t := by
  refine hf.test t isQuoted_of_isName fun hkind htext => ?_
  rw [isName, isName, hkind, htext]

theorem isParamToken_map (hf : Token.Keeps f) (t : Token) :
    isParamToken (f t) = isParamToken t := by
  rw [isParamToken, isParamToken, hf.spells t (by decide), hf.spells t (by decide),
    hf.spells t (by decide), hf.spells t (by decide)]

end Tests

theorem splitAtOpen?_map (hf : Token.Keeps f) (depth : Nat) (ts : List Token) :
    splitAtOpen? depth (ts.map f) =
      (splitAtOpen? depth ts).map fun r => (r.1.map f, r.2.map f) := by
  -- The map keeps what the search compares, so each case stays the case it is.
  fun_induction splitAtOpen? depth ts with
  | case1 depth => rfl
  | case2 t ts hopen =>
      rw [← hf.spells t (by decide)] at hopen
      simp only [List.map_cons, splitAtOpen?, hopen, if_true]
      rfl
  | case3 t ts hopen depth ih =>
      rw [← hf.spells t (by decide)] at hopen
      simp only [List.map_cons, splitAtOpen?, hopen, if_true, ih, Option.map_map]
      rfl
  | case4 depth t ts hopen ih =>
      have hclose : (f t).spells ")" = t.spells ")" := hf.spells t (by decide)
      rw [← hf.spells t (by decide)] at hopen
      simp only [List.map_cons, splitAtOpen?, hopen, hclose, ih, Option.map_map]
      rfl

/-- Changed tokens are split where the unchanged ones are. -/
theorem split?_map (hf : Token.Keeps f) (ts : List Token) :
    split? (ts.map f) = (split? ts).map fun r => (r.1.map f, r.2.map f) := by
  rw [split?, split?, ← List.map_reverse]
  rcases ts.reverse with _ | ⟨c, back⟩
  · rfl
  · simp only [List.map_cons, splitAtOpen?_map hf]
    rw [hf.spells c (by decide)]
    split
    · simp only [Option.map_map, Function.comp_def, List.map_reverse]
    · rfl

theorem all_map {p : Token → Bool} (hp : ∀ t, p (f t) = p t) (ts : List Token) :
    (ts.map f).all p = ts.all p := by
  rw [List.all_map]
  exact congrArg ts.all (funext hp)

/-- A type is written alike after the change. -/
theorem spell_map_of_all (hf : Token.Keeps f) {type : List Token}
    (h : type.all isTypeToken = true) : spell (type.map f) = spell type :=
  hf.spell fun t ht => hf.text t (isQuoted_of_isTypeToken (List.all_eq_true.mp h t ht))

/-- What changed tokens declare. -/
theorem declares_map_iff (hf : Token.Keeps f) {ts : List Token} {d : Declaration} :
    declaration? (ts.map f) = some d ↔ ∃ first more name params,
      Shape ts first more name params ∧
        d = ⟨name.text, spell (first :: more), spell (params.map f), (f first).line⟩ := by
  rw [declaration?_eq_some_iff, List.length_map, split?_map hf]
  constructor
  · rintro ⟨hlength, first', more', name', params', hsplit, hname, hfirst, hall, hparams, rfl⟩
    -- The parts of the mapped signature are taken back to those they come from.
    rcases Option.map_eq_some_iff.mp hsplit with ⟨⟨front, params⟩, hcut, heq⟩
    rcases Prod.mk.inj heq with ⟨hfront, rfl⟩
    rcases List.map_eq_append_iff.mp hfront with ⟨type, last, rfl, htyped, hlast⟩
    rcases List.map_eq_cons_iff.mp htyped with ⟨first, more, rfl, rfl, rfl⟩
    rcases List.map_eq_singleton_iff.mp hlast with ⟨name, rfl, rfl⟩
    rw [isName_map hf] at hname
    rw [hf.kind] at hfirst
    rw [← List.map_cons, all_map (isTypeToken_map hf)] at hall
    rw [all_map (isParamToken_map hf)] at hparams
    refine ⟨first, more, name, params,
      shape_iff.mpr ⟨hlength, hcut, hname, hfirst, hall, hparams⟩, ?_⟩
    rw [hf.text name (isQuoted_of_isName hname), ← List.map_cons, spell_map_of_all hf hall]
  · rintro ⟨first, more, name, params, hshape, rfl⟩
    rcases shape_iff.mp hshape with ⟨hlength, hsplit, hname, hfirst, hall, hparams⟩
    -- The parts are mapped, and every check is one that the map does not change.
    refine ⟨hlength, f first, more.map f, f name, params.map f, ?_, ?_, ?_, ?_, ?_, ?_⟩
    · rw [hsplit]
      simp
    · rw [isName_map hf, hname]
    · rw [hf.kind, hfirst]
    · rw [← List.map_cons, all_map (isTypeToken_map hf), hall]
    · rw [all_map (isParamToken_map hf), hparams]
    · rw [hf.text name (isQuoted_of_isName hname), ← List.map_cons, spell_map_of_all hf hall]

/-- Functions that are declared by the same tokens, the second after the change `f`. -/
def Related (f : Token → Token) (d d' : Declaration) : Prop :=
  ∃ ts first more name params, Shape ts first more name params ∧
    d = ⟨name.text, spell (first :: more), spell params, first.line⟩ ∧
    d' = ⟨name.text, spell (first :: more), spell (params.map f), (f first).line⟩

theorem Related.name {d d' : Declaration} (h : Related f d d') : d'.name = d.name := by
  rcases h with ⟨_, _, _, _, _, _, rfl, rfl⟩
  rfl

/-- Tokens declare a function, changed and unchanged, or neither. -/
theorem declaration?_map_cases (hf : Token.Keeps f) (ts : List Token) :
    (declaration? ts = none ∧ declaration? (ts.map f) = none) ∨
      ∃ d d', declaration? ts = some d ∧ declaration? (ts.map f) = some d' ∧ Related f d d' := by
  rcases hd : declaration? ts with _ | d
  · refine Or.inl ⟨rfl, Option.eq_none_iff_forall_ne_some.mpr fun d' hd' => ?_⟩
    rcases (declares_map_iff hf).mp hd' with ⟨first, more, name, params, hshape, _⟩
    rw [declares_iff.mpr ⟨first, more, name, params, hshape, rfl⟩] at hd
    cases hd
  · rcases declares_iff.mp hd with ⟨first, more, name, params, hshape, hread⟩
    exact Or.inr ⟨d, _, rfl, (declares_map_iff hf).mpr ⟨first, more, name, params, hshape, rfl⟩,
      ts, first, more, name, params, hshape, hread, rfl⟩

end Signature

namespace Export

variable {f : Token → Token} {e e' : Export}

/-- Units that are being read in step, the second of them with tokens changed by `f`. -/
structure Alike (f : Token → Token) (e e' : Export) : Prop where
  /-- The same braces are open. -/
  depth : e'.depth = e.depth
  /-- The item is the same but for the change. -/
  item : e'.item = e.item.map f
  /-- The functions found correspond. -/
  found : List.Forall₂ (Signature.Related f) e.found e'.found

theorem Alike.start (f : Token → Token) : Alike f start start :=
  ⟨rfl, rfl, List.Forall₂.nil⟩

/-- Functions that correspond have the same names. -/
theorem any_name_of_related {ds ds' : List Declaration} {d d' : Declaration}
    (h : List.Forall₂ (Signature.Related f) ds ds') (hd : Signature.Related f d d') :
    ds'.any (·.name == d'.name) = ds.any (·.name == d.name) := by
  rw [hd.name]
  induction h with
  | nil => rfl
  | cons hfirst _ ih => rw [List.any_cons, List.any_cons, hfirst.name, ih]

theorem Alike.addItem (hf : Token.Keeps f) (h : Alike f e e') :
    List.Forall₂ (Signature.Related f) e.addItem e'.addItem := by
  rw [Export.addItem, Export.addItem, h.item]
  rcases Signature.declaration?_map_cases hf e.item with ⟨hd, hd'⟩ | ⟨d, d', hd, hd', hrelated⟩
  · rw [hd, hd']
    exact h.found
  · rw [hd, hd']
    simp only [any_name_of_related h.found hrelated]
    split
    · exact h.found
    · exact List.rel_append h.found (List.Forall₂.cons hrelated List.Forall₂.nil)

/-- A token and the changed token are read in step. -/
theorem Alike.step (hf : Token.Keeps f) (h : Alike f e e') (t : Token) :
    Alike f (e.step t) (e'.step (f t)) := by
  rw [Export.step, Export.step, h.depth, hf.spells t (by decide), hf.spells t (by decide),
    hf.spells t (by decide), h.item, List.length_map]
  split
  · split
    · exact ⟨rfl, rfl, h.found⟩
    · split
      · exact ⟨rfl, rfl, h.found⟩
      · exact h
  · split
    · exact ⟨rfl, rfl, h.addItem hf⟩
    · split
      · exact ⟨rfl, rfl, h.found⟩
      · split
        · exact ⟨rfl, by simp, h.found⟩
        · exact h

/-- Tokens and the changed tokens are read in step. -/
theorem Alike.foldl (hf : Token.Keeps f) (h : Alike f e e') (ts : List Token) :
    Alike f (ts.foldl Export.step e) ((ts.map f).foldl Export.step e') := by
  induction ts generalizing e e' with
  | nil => exact h
  | cons t ts ih => exact ih (h.step hf t)

end Export

end DialectBuild
