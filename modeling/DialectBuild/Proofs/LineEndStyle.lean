import DialectBuild.Proofs.ReturnedTokens

/-!
# Line End Style

What a text exports if its lines end with a carriage return and a line feed instead of a line
feed alone. It should export the same functions, and it does not always.

A line that goes on behind a backslash goes on no more: the backslash takes the carriage return
along, and the line feed ends the line. So the backslash becomes a token of its own, the rest of a
preprocessor line becomes code, and a literal is cut in two. Where no line goes on like this, the
same functions are exported with the same types on the same lines. A difference is left in
parameters: a literal without a closing quote ends with its line, and has the carriage return
inside.

## Main definitions

* `Text.LinesEnd`: The texts in which no line goes on behind a backslash.

## Theorems

* `length_spell_returned`: How much longer tokens are written with carriage returns.
* `Signature.exists_declaration?_returned`: What a signature declares with carriage returns.
* `Export.Accepts.returned`: What is accepted with carriage returns.
* `exported_withReturns_iff`: When a text exports the same functions with carriage returns.
-/

namespace DialectBuild

open Text

/-- Every line feed outside comments ends its line: no line goes on behind a backslash. -/
def Text.LinesEnd (s : Text) : Prop :=
  ∀ l ∈ lexemes s, l.StaysInLine

instance (s : Text) : Decidable s.LinesEnd :=
  inferInstanceAs (Decidable (∀ l ∈ lexemes s, l.StaysInLine))

theorem Token.line_returned (t : Token) : t.returned.line = t.line := by
  rw [returned]
  split <;> rfl

section Spelling

theorem length_text_returned (t : Token) :
    t.returned.text.length = t.text.length + if t.isOpen then 1 else 0 := by
  rw [Token.returned]
  split
  · exact List.length_append
  · rfl

theorem length_spellAfter_returned (before : Token) (ts : List Token) :
    (spellAfter before.returned (ts.map Token.returned)).length =
      (spellAfter before ts).length + ts.countP Token.isOpen := by
  induction ts generalizing before with
  | nil => rfl
  | cons t ts ih =>
      rw [List.map_cons, spellAfter, spellAfter, Token.keeps_returned.gap, List.countP_cons]
      simp only [List.length_append, length_text_returned, ih]
      omega

/-- The written form is longer by one symbol for each open literal. -/
theorem length_spell_returned (ts : List Token) :
    (spell (ts.map Token.returned)).length = (spell ts).length + ts.countP Token.isOpen := by
  rcases ts with _ | ⟨t, ts⟩
  · rfl
  · rw [List.map_cons, spell, spell, List.countP_cons]
    simp only [List.length_append, length_text_returned, length_spellAfter_returned]
    omega

theorem spell_map_returned_iff {ts : List Token} :
    spell (ts.map Token.returned) = spell ts ↔ ∀ t ∈ ts, t.isOpen = false := by
  constructor
  · intro h
    have hlength := length_spell_returned ts
    rw [h, Nat.left_eq_add, List.countP_eq_zero] at hlength
    exact fun t ht => Bool.eq_false_iff.mpr (hlength t ht)
  · intro h
    exact Token.keeps_returned.spell fun t ht => by rw [Token.returned_of_closed (h t ht)]

end Spelling

namespace Signature

variable {sig more params : List Token} {first name : Token} {d : Declaration}

/-- Only parameters can be open literals. -/
theorem Shape.isOpen_iff (h : Shape sig first more name params) :
    (∀ t ∈ sig, t.isOpen = false) ↔ ∀ t ∈ params, t.isOpen = false := by
  rcases shape_iff.mp h with ⟨_, _, hname, _, htype, _⟩
  rcases h.parts with ⟨o, c, ho, hc, rfl⟩
  have htypes : ∀ t ∈ first :: more, t.isOpen = false := fun t ht =>
    Token.isOpen_of_not_isQuoted (isQuoted_of_isTypeToken (List.all_eq_true.mp htype t ht))
  have hname := Token.isOpen_of_not_isQuoted (isQuoted_of_isName hname)
  have hopen : o.isOpen = false := by
    rw [Token.isOpen, ho]
    rfl
  have hclose : c.isOpen = false := by
    rw [Token.isOpen, hc]
    rfl
  refine ⟨fun hall t ht => hall t (by simp [ht]), fun hparams => ?_⟩
  have hmarks : ∀ t ∈ [name, o], t.isOpen = false :=
    List.forall_mem_cons.mpr ⟨hname, List.forall_mem_singleton.mpr hopen⟩
  rw [List.forall_mem_append, List.forall_mem_append, List.forall_mem_append]
  exact ⟨⟨⟨htypes, hmarks⟩, hparams⟩, List.forall_mem_singleton.mpr hclose⟩

/-- A signature declares the same function with carriage returns, up to those in open literals. -/
theorem exists_declaration?_returned (h : declaration? sig = some d) :
    ∃ d', declaration? (sig.map Token.returned) = some d' ∧ Related Token.returned d d' ∧
      (d' = d ↔ ∀ t ∈ sig, t.isOpen = false) := by
  rcases declares_iff.mp h with ⟨first, more, name, params, hshape, rfl⟩
  refine ⟨_, (declares_map_iff Token.keeps_returned).mpr ⟨first, more, name, params, hshape, rfl⟩,
    ⟨sig, first, more, name, params, hshape, rfl, rfl⟩, ?_⟩
  rw [hshape.isOpen_iff, ← spell_map_returned_iff, Token.line_returned, Declaration.mk.injEq]
  simp

end Signature

namespace Export

/-- Tokens that open no braces add no functions. -/
theorem found_foldl_of_noBrace {ts : List Token} (h : ∀ t ∈ ts, t.spells "\x7b" = false)
    (e : Export) : (ts.foldl step e).found = e.found := by
  induction ts generalizing e with
  | nil => rfl
  | cons t ts ih =>
      rcases List.forall_mem_cons.mp h with ⟨ht, hts⟩
      have hstep : (e.step t).found = e.found := by
        rw [step, ht]
        grind
      rw [List.foldl_cons, ih hts, hstep]

variable {s : Text} {sig : List Token} {d : Declaration}

/-- The functions of a text with and without carriage returns correspond. -/
theorem related_exported (h : s.LinesEnd) :
    List.Forall₂ (Signature.Related Token.returned) (exported s) (exported (withReturns s)) := by
  rcases exists_tokensFrom_withReturns 1 true s h with ⟨ts, rest, hts, hts', hrest⟩
  have halike := (Alike.start Token.returned).foldl Token.keeps_returned ts
  rw [exported, exported, show tokenize s = ts ++ rest from hts,
    show tokenize (withReturns s) = ts.map Token.returned ++ rest from hts', List.foldl_append,
    List.foldl_append, found_foldl_of_noBrace hrest, found_foldl_of_noBrace hrest]
  exact halike.found

/-- Carriage returns show only in the parameters. -/
theorem map_exported_withReturns (h : s.LinesEnd) :
    (exported (withReturns s)).map (fun d => (d.name, d.returnType, d.line)) =
      (exported s).map (fun d => (d.name, d.returnType, d.line)) := by
  have hequal : List.Forall₂ (· = ·)
      ((exported s).map (fun d => (d.name, d.returnType, d.line)))
      ((exported (withReturns s)).map (fun d => (d.name, d.returnType, d.line))) := by
    rw [List.forall₂_map_left_iff, List.forall₂_map_right_iff]
    refine (related_exported h).imp fun d d' hrelated => ?_
    rcases hrelated with ⟨_, _, _, _, _, _, rfl, rfl⟩
    rw [Token.line_returned]
  rw [List.forall₂_eq_eq_eq] at hequal
  exact hequal.symm

/-- A definition is accepted with carriage returns too, and exports the same function unless there
    are open literals in its signature. -/
theorem Accepts.returned (h : s.LinesEnd) (haccepts : Accepts s sig d) :
    ∃ d', Accepts (withReturns s) (sig.map Token.returned) d' ∧ d'.name = d.name ∧
      (d' = d ↔ ∀ t ∈ sig, t.isOpen = false) := by
  rcases exists_tokensFrom_withReturns 1 true s h with ⟨ts, rest, hts, hts', hrest⟩
  rcases haccepts with ⟨before, brace, after, hs, rfl, hdepth, hbrace, hd, hnew⟩
  rcases Signature.exists_declaration?_returned hd with ⟨d', hd', hrelated, hsame⟩
  have hsplit : ts ++ rest = before ++ brace :: after := hts.symm.trans hs
  -- The brace is not among the last tokens, which stay as they are.
  have hnot : brace ∉ rest := by
    intro hmem
    rw [hrest brace hmem] at hbrace
    cases hbrace
  have hmid : ∃ mid, ts = before ++ brace :: mid := by
    rcases List.append_eq_append_iff.mp hsplit with ⟨mid, _, hmid⟩ | ⟨mid, hts, hmid⟩
    · exact absurd (hmid ▸ List.mem_append_right mid List.mem_cons_self) hnot
    · rcases mid with _ | ⟨t, mid⟩
      · exact absurd (hmid ▸ List.mem_cons_self : brace ∈ [] ++ rest) hnot
      · rw [(List.cons.inj hmid).1]
        exact ⟨mid, hts⟩
  rcases hmid with ⟨mid, rfl⟩
  have halike := (Alike.start Token.returned).foldl Token.keeps_returned before
  refine ⟨d', ⟨before.map Token.returned, brace.returned, mid.map Token.returned ++ rest, ?_,
    halike.item, ?_, ?_, ?_, ?_⟩, hrelated.name, hsame⟩
  · rw [show tokenize (withReturns s) = _ from hts', List.map_append, List.map_cons,
      List.append_assoc, List.cons_append]
  · rw [halike.depth, hdepth]
  · rw [Token.keeps_returned.spells brace (by decide), hbrace]
  · rw [halike.item, hd']
  · rw [any_name_of_related halike.found hrelated, hnew]

theorem Accepts.mem_tokenize (h : Accepts s sig d) : ∀ t ∈ sig, t ∈ tokenize s := by
  rcases h with ⟨before, brace, after, hs, rfl, _⟩
  intro t ht
  rw [hs]
  rcases mem_item_foldl ht with ht | ht
  · exact absurd ht List.not_mem_nil
  · exact List.mem_append_left _ ht

theorem nodup_name_exported (s : Text) : ((exported s).map Declaration.name).Nodup := by
  rw [exported, found_eq_firsts]
  exact nodup_map_firsts _

/-- Functions with the same names in the same order are the same if each is among the others. -/
theorem eq_of_map_name {ds ds' : List Declaration}
    (hnames : ds'.map Declaration.name = ds.map Declaration.name)
    (hnodup : (ds'.map Declaration.name).Nodup) (hmem : ∀ d ∈ ds, d ∈ ds') : ds' = ds := by
  have hlength : ds'.length = ds.length := by
    simpa using congrArg List.length hnames
  refine List.ext_getElem hlength fun i hi hi' => ?_
  refine List.inj_on_of_nodup_map hnodup (List.getElem_mem hi) (hmem _ (List.getElem_mem hi')) ?_
  have hget := congrArg (·[i]?) hnames
  simpa [hi, hi'] using hget

end Export

/-- If no line goes on behind a backslash, carriage returns at the line ends leave the names, types
    and lines of the exported functions as they are. They leave their parameters as they are
    exactly if no exported function has an open literal in its signature. -/
theorem exported_withReturns_iff (s : Text) (h : s.LinesEnd) :
    (exported (withReturns s)).map (fun d => (d.name, d.returnType, d.line)) =
        (exported s).map (fun d => (d.name, d.returnType, d.line)) ∧
      (exported (withReturns s) = exported s ↔
        ∀ sig d, Export.Accepts s sig d → ∀ t ∈ sig, t.isOpen = false) := by
  have hshown := Export.map_exported_withReturns h
  refine ⟨hshown, ?_⟩
  have hnodup := Export.nodup_name_exported (withReturns s)
  constructor
  · -- Two functions of one name are the same, so the one with carriage returns has none.
    intro hsame sig d haccepts
    rcases haccepts.returned h with ⟨d', haccepts', hname, hiff⟩
    refine hiff.mp (List.inj_on_of_nodup_map hnodup ?_ ?_ hname)
    · exact Export.mem_exported_iff.mpr ⟨_, haccepts'⟩
    · rw [hsame]
      exact Export.mem_exported_iff.mpr ⟨_, haccepts⟩
  · -- Each function is found again, and by their names they stand in the same order.
    intro hclosed
    have hnames := congrArg (List.map Prod.fst) hshown
    rw [List.map_map, List.map_map] at hnames
    refine Export.eq_of_map_name hnames hnodup fun d hd => ?_
    rcases Export.mem_exported_iff.mp hd with ⟨sig, haccepts⟩
    rcases haccepts.returned h with ⟨d', haccepts', _, hiff⟩
    rw [← hiff.mpr (hclosed sig d haccepts)]
    exact Export.mem_exported_iff.mpr ⟨_, haccepts'⟩

/-- A text with a preprocessor line, a comment of two lines and a literal among parameters. -/
def plainUnit : Text :=
  "#include <a.h>\n/* a\n b */\nint f(int n,\n  char a['x'])\n\x7b return 0; \x7d\n"

/-- This text exports the same function with carriage returns. -/
theorem exported_plainUnit_withReturns :
    plainUnit.LinesEnd ∧ exported plainUnit = [⟨"f", "int", "int n, char a['x']", 4⟩] ∧
      exported (withReturns plainUnit) = exported plainUnit := by
  have hlines : plainUnit.LinesEnd := by decide +kernel
  have hclosed : ∀ t ∈ tokenize plainUnit, t.isOpen = false := by decide +kernel
  refine ⟨hlines, by decide +kernel, (exported_withReturns_iff plainUnit hlines).2.mpr ?_⟩
  intro sig d haccepts t ht
  exact hclosed t (haccepts.mem_tokenize t ht)

-- An open literal among the parameters takes the carriage return along.
example : exported "int f(int a['x\n]) \x7b return 0; \x7d\n" = [⟨"f", "int", "int a['x]", 1⟩] ∧
    exported (withReturns "int f(int a['x\n]) \x7b return 0; \x7d\n") =
      [⟨"f", "int", "int a['x\r]", 1⟩] := by
  decide +kernel

/-- A definition that goes on behind a backslash. -/
def continuedUnit : Text :=
  "int f(void) \\\n\x7b return 0; \x7d\n"

/-- With a carriage return the line ends behind the backslash, which keeps the function from being
    exported. -/
theorem exported_continuedUnit_withReturns :
    .char '\r' ∉ continuedUnit ∧ exported continuedUnit = [⟨"f", "int", "void", 1⟩] ∧
      exported (withReturns continuedUnit) = [] := by
  decide +kernel

end DialectBuild
