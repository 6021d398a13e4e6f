import DialectBuild.Proofs.Prototype

/-!
# The Shape of a Signature

Which tokens are the signature of a function, said as a grammar: a type that starts with a
word and has only words and stars, a name, and parameters between a pair of parentheses. The
parameters may have parentheses of their own as long as these match.

The parentheses are never matched from the front. The one that opens the parameters is looked
for from the back, by counting, and what stands inside is not looked at again. That it is
balanced follows from the count: read from the back, the parameters close every parenthesis
before they open it, and close as many as they open, and this is what being balanced means
when it is read from the other end. The scan stops at the first parenthesis it can stop at, so
there is only one way to take a signature apart.

## Main definitions

* `Signature.IsBalanced`: Tokens whose parentheses match.
* `Signature.OpensAll`: The same, read from the back, with some parentheses still to be opened.
* `Signature.Shape`: The grammar of signatures.

## Theorems

* `Signature.splitAtOpen?_eq_some_iff`: Where the scan from the back stops.
* `Signature.isBalanced_iff`: Balanced tokens read from the back.
* `Signature.split?_eq_some_iff`: A signature is cut at a balanced part.
* `Signature.shape_iff`: The grammar and the scan agree.
* `Signature.Shape.unique`: There is one way to take a signature apart.
* `Signature.declaration?_iff_shape`: The tokens that declare a function.
-/

namespace DialectBuild

namespace Signature

/-- How many parentheses the tokens open. -/
def openings (ts : List Token) : Nat :=
  ts.countP (·.spells "(")

/-- How many parentheses the tokens close. -/
def closings (ts : List Token) : Nat :=
  ts.countP (·.spells ")")

/-- Tokens whose parentheses match. -/
structure IsBalanced (ts : List Token) : Prop where
  /-- No part from the start closes more parentheses than it opens. -/
  fronts : ∀ front, front <+: ts → closings front ≤ openings front
  /-- Every parenthesis that is opened is closed. -/
  total : closings ts = openings ts

/-- Reversed tokens that open the `depth` parentheses closed before them and all that they
    close themselves, and none that has not been closed. -/
structure OpensAll (depth : Nat) (ts : List Token) : Prop where
  /-- No part from the start opens a parenthesis that is not closed yet. -/
  fronts : ∀ front, front <+: ts → openings front ≤ depth + closings front
  /-- In the end none is left. -/
  total : openings ts = depth + closings ts

section Balance

variable {depth : Nat} {t : Token} {ts : List Token}

theorem openings_cons (t : Token) (ts : List Token) :
    openings (t :: ts) = openings [t] + openings ts := by
  rw [← List.singleton_append]
  exact List.countP_append

theorem closings_cons (t : Token) (ts : List Token) :
    closings (t :: ts) = closings [t] + closings ts := by
  rw [← List.singleton_append]
  exact List.countP_append

theorem openings_singleton (t : Token) : openings [t] = if t.spells "(" then 1 else 0 :=
  List.countP_singleton

theorem closings_singleton (t : Token) : closings [t] = if t.spells ")" then 1 else 0 :=
  List.countP_singleton

/-- No token both opens and closes a parenthesis. -/
theorem closings_of_spells_open (h : t.spells "(" = true) : closings [t] = 0 := by
  have hclose : t.spells ")" = false := by
    rw [Token.spells, eq_of_beq h]
    decide
  rw [closings_singleton, hclose]
  rfl

theorem opensAll_nil_iff : OpensAll depth [] ↔ depth = 0 := by
  constructor
  · intro h
    exact (Nat.add_eq_zero_iff.mp h.total.symm).1
  · rintro rfl
    exact ⟨fun front hfront => by rw [List.prefix_nil.mp hfront]; exact Nat.le_refl _, rfl⟩

/-- One token opens or closes at most one parenthesis, and the others go on from there. -/
theorem opensAll_cons_iff : OpensAll depth (t :: ts) ↔
    openings [t] ≤ depth + closings [t] ∧ OpensAll (depth + closings [t] - openings [t]) ts := by
  constructor
  · intro h
    have hfirst := h.fronts [t] (List.prefix_append [t] ts)
    refine ⟨hfirst, fun front hfront => ?_, ?_⟩
    · have hle := h.fronts (t :: front) ((List.prefix_cons_inj t).mpr hfront)
      rw [openings_cons, closings_cons] at hle
      omega
    · have htotal := h.total
      rw [openings_cons, closings_cons] at htotal
      omega
  · rintro ⟨hfirst, h⟩
    refine ⟨fun front hfront => ?_, ?_⟩
    · -- A front part is empty or starts with `t`, and then the rest bounds it.
      rcases List.prefix_cons_iff.mp hfront with rfl | ⟨more, rfl, hmore⟩
      · exact Nat.zero_le _
      · have hle := h.fronts more hmore
        rw [openings_cons, closings_cons]
        omega
    · have htotal := h.total
      rw [openings_cons, closings_cons]
      omega

/-- A parenthesis that is opened is one less to be opened. -/
theorem opensAll_cons_open_iff (h : t.spells "(" = true) :
    OpensAll (depth + 1) (t :: ts) ↔ OpensAll depth ts := by
  rw [opensAll_cons_iff, openings_singleton, if_pos h, closings_of_spells_open h]
  exact and_iff_right (Nat.le_add_left 1 depth)

/-- Only a parenthesis that is closed makes one more to be opened. -/
theorem opensAll_cons_other_iff (h : ¬ t.spells "(" = true) :
    OpensAll depth (t :: ts) ↔ OpensAll (if t.spells ")" then depth + 1 else depth) ts := by
  rw [opensAll_cons_iff, openings_singleton, if_neg h, closings_singleton]
  split
  · exact and_iff_right (Nat.zero_le _)
  · exact and_iff_right (Nat.zero_le _)

/-- Balanced tokens are those that open, read from the back, all that they close. -/
theorem isBalanced_iff : IsBalanced ts ↔ OpensAll 0 ts.reverse := by
  have hopen : ∀ us : List Token, openings us.reverse = openings us := fun _ => List.countP_reverse
  have hclose : ∀ us : List Token, closings us.reverse = closings us := fun _ => List.countP_reverse
  -- A part from the start and the part behind it add up to the whole.
  have hsum : ∀ {front back : List Token}, front ++ back = ts →
      openings front + openings back = openings ts ∧
        closings front + closings back = closings ts := by
    rintro front back rfl
    exact ⟨List.countP_append.symm, List.countP_append.symm⟩
  constructor
  · intro h
    refine ⟨fun back hback => ?_, ?_⟩
    · rw [← List.reverse_reverse back, List.reverse_prefix] at hback
      rcases hback with ⟨front, hfront⟩
      have hle := h.fronts front ⟨_, hfront⟩
      have htotal := h.total
      have hparts := hsum hfront
      rw [hopen, hclose] at hparts
      omega
    · rw [hopen, hclose, h.total, Nat.zero_add]
  · intro h
    have htotal := h.total
    rw [hopen, hclose] at htotal
    refine ⟨fun front hfront => ?_, by omega⟩
    rcases hfront with ⟨back, hback⟩
    have hle := h.fronts back.reverse (List.reverse_prefix.mpr ⟨front, hback⟩)
    have hparts := hsum hback
    rw [hopen, hclose] at hle
    omega

end Balance

section Scan

variable {depth depth' : Nat} {t : Token} {ts inside rest front params : List Token}

/-- A token that the scan passes is put in front of those inside. -/
theorem passed_eq_some_iff {found : Option (List Token × List Token)}
    (hfound : ∀ {inside}, found = some (inside, rest) ↔
      OpensAll depth' inside ∧ ∃ o : Token, o.spells "(" = true ∧ ts = inside ++ o :: rest)
    (hstep : ∀ {inside}, OpensAll depth (t :: inside) ↔ OpensAll depth' inside)
    (hpass : t.spells "(" = true → depth ≠ 0) :
    (found.map fun r => (t :: r.1, r.2)) = some (inside, rest) ↔
      OpensAll depth inside ∧ ∃ o : Token, o.spells "(" = true ∧ t :: ts = inside ++ o :: rest := by
  rw [Option.map_eq_some_iff]
  constructor
  · rintro ⟨r, hr, heq⟩
    cases heq
    rcases hfound.mp hr with ⟨hall, o, ho, rfl⟩
    exact ⟨hstep.mpr hall, o, ho, rfl⟩
  · rintro ⟨hall, o, ho, hts⟩
    rcases inside with _ | ⟨u, inside⟩
    · -- The mark is not `t` itself: `t` was passed, and only at depth zero is a mark not passed.
      rw [← (List.cons.inj hts).1] at ho
      exact absurd (opensAll_nil_iff.mp hall) (hpass ho)
    · rcases List.cons.inj hts with ⟨rfl, rfl⟩
      exact ⟨(inside, rest), hfound.mpr ⟨hstep.mp hall, o, ho, rfl⟩, rfl⟩

/-- The scan from the back stops at the parenthesis that opens the last one closed, and at no
    other. -/
theorem splitAtOpen?_eq_some_iff : splitAtOpen? depth ts = some (inside, rest) ↔
    OpensAll depth inside ∧ ∃ o : Token, o.spells "(" = true ∧ ts = inside ++ o :: rest := by
  fun_induction splitAtOpen? depth ts generalizing inside with
  | case1 depth => simp
  | case2 t ts hopen =>
      -- This is the parenthesis that is looked for, so it is not one of those inside.
      constructor
      · intro h
        cases h
        exact ⟨opensAll_nil_iff.mpr rfl, t, hopen, rfl⟩
      · rintro ⟨hall, o, ho, hts⟩
        rcases inside with _ | ⟨u, inside⟩
        · cases hts
          rfl
        · rcases (List.cons.inj hts).1 with rfl
          have hfirst := (opensAll_cons_iff.mp hall).1
          rw [openings_singleton, if_pos hopen, closings_of_spells_open hopen] at hfirst
          omega
  | case3 t ts hopen depth ih =>
      exact passed_eq_some_iff ih (opensAll_cons_open_iff hopen) fun _ => Nat.succ_ne_zero depth
  | case4 depth t ts hopen ih =>
      exact passed_eq_some_iff ih (opensAll_cons_other_iff hopen) fun h => absurd h hopen

/-- A signature is cut where a balanced part between parentheses ends it. -/
theorem split?_eq_some_iff : split? ts = some (front, params) ↔ IsBalanced params ∧
    ∃ o c : Token, o.spells "(" = true ∧ c.spells ")" = true ∧
      ts = front ++ o :: (params ++ [c]) := by
  constructor
  · intro h
    unfold split? at h
    split at h
    next => cases h
    next c back hback =>
      split at h
      next hc =>
        rcases Option.map_eq_some_iff.mp h with ⟨r, hr, heq⟩
        cases heq
        rcases splitAtOpen?_eq_some_iff.mp hr with ⟨hall, o, ho, rfl⟩
        refine ⟨isBalanced_iff.mpr ?_, o, c, ho, hc, ?_⟩
        · rw [List.reverse_reverse]
          exact hall
        · rw [← List.reverse_reverse ts, hback]
          simp
      next => cases h
  · rintro ⟨hbalanced, o, c, ho, hc, rfl⟩
    -- Parentheses are matched from the end, so the signature is turned around.
    have hback : (front ++ o :: (params ++ [c])).reverse =
        c :: (params.reverse ++ o :: front.reverse) := by simp
    have hscan : splitAtOpen? 0 (params.reverse ++ o :: front.reverse) =
        some (params.reverse, front.reverse) :=
      splitAtOpen?_eq_some_iff.mpr ⟨isBalanced_iff.mp hbalanced, o, ho, rfl⟩
    rw [split?, hback]
    simp only [hc, if_true, hscan, Option.map_some, List.reverse_reverse]

end Scan

/-- The tokens are the signature of a function: the type `first :: more`, the name, and the
    parameters between parentheses. -/
structure Shape (ts : List Token) (first : Token) (more : List Token) (name : Token)
    (params : List Token) : Prop where
  /-- There are not too many of them. -/
  length : ts.length ≤ 64
  /-- The parts stand in this order. -/
  parts : ∃ o c : Token, o.text = "(" ∧ c.text = ")" ∧
    ts = (first :: more) ++ [name, o] ++ params ++ [c]
  /-- The type starts with a word. -/
  word : first.kind = .ident
  /-- The type has only words and stars, and no word that forbids to export the function. -/
  type : ∀ t ∈ first :: more, (t.kind = .ident ∨ t.text = "*") ∧ t.text ∉ rejectedWords
  /-- The name is a word. -/
  ident : name.kind = .ident
  /-- The name is no keyword. -/
  free : name.text ∉ keywords
  /-- The parentheses among the parameters match. -/
  balanced : IsBalanced params
  /-- No parameter is initialized, and no statement or body is among them. -/
  plain : ∀ t ∈ params, t.text ≠ "=" ∧ t.text ≠ ";" ∧ t.text ≠ "\x7b" ∧ t.text ≠ "\x7d"

section Grammar

variable {t first name : Token} {ts more params : List Token}

theorem isTypeToken_iff : isTypeToken t = true ↔
    (t.kind = .ident ∨ t.text = "*") ∧ t.text ∉ rejectedWords := by
  simp [isTypeToken, Token.spells]

theorem isName_iff : isName t = true ↔ t.kind = .ident ∧ t.text ∉ keywords := by
  simp [isName]

theorem isParamToken_iff : isParamToken t = true ↔
    t.text ≠ "=" ∧ t.text ≠ ";" ∧ t.text ≠ "\x7b" ∧ t.text ≠ "\x7d" := by
  simp [isParamToken, Token.spells, and_assoc]

/-- The grammar says the same as the scan and the tests that follow it. -/
theorem shape_iff : Shape ts first more name params ↔ ts.length ≤ maxTokens ∧
    split? ts = some (first :: more ++ [name], params) ∧ isName name = true ∧
    first.kind = .ident ∧ (first :: more).all isTypeToken = true ∧
    params.all isParamToken = true := by
  rw [split?_eq_some_iff, isName_iff, List.all_eq_true, List.all_eq_true]
  simp only [isTypeToken_iff, isParamToken_iff, Token.spells, beq_iff_eq]
  constructor
  · rintro ⟨hlength, ⟨o, c, ho, hc, hts⟩, hword, htype, hident, hfree, hbalanced, hplain⟩
    exact ⟨hlength, ⟨hbalanced, o, c, ho, hc, by simp [hts]⟩, ⟨hident, hfree⟩, hword, htype, hplain⟩
  · rintro ⟨hlength, ⟨hbalanced, o, c, ho, hc, hts⟩, ⟨hident, hfree⟩, hword, htype, hplain⟩
    exact ⟨hlength, ⟨o, c, ho, hc, by simp [hts]⟩, hword, htype, hident, hfree, hbalanced, hplain⟩

/-- There is one way at most to take tokens apart as a signature. -/
theorem Shape.unique {first' name' : Token} {more' params' : List Token}
    (h : Shape ts first more name params) (h' : Shape ts first' more' name' params') :
    first = first' ∧ more = more' ∧ name = name' ∧ params = params' := by
  have hsplit := (shape_iff.mp h).2.1
  rw [(shape_iff.mp h').2.1, Option.some.injEq, Prod.mk.injEq] at hsplit
  rcases hsplit with ⟨hfront, hparams⟩
  rcases List.append_inj' hfront rfl with ⟨htype, hname⟩
  rcases List.cons.inj htype with ⟨hfirst, hmore⟩
  exact ⟨hfirst.symm, hmore.symm, (List.cons.inj hname).1.symm, hparams.symm⟩

/-- What declares a function has the shape of a signature, and the function is read off it. -/
theorem declares_iff {d : Declaration} : declaration? ts = some d ↔ ∃ first more name params,
    Shape ts first more name params ∧
      d = ⟨name.text, spell (first :: more), spell params, first.line⟩ := by
  rw [declaration?_eq_some_iff]
  constructor
  · rintro ⟨hlength, first, more, name, params, hsplit, hname, hfirst, htype, hparams, hd⟩
    exact ⟨first, more, name, params,
      shape_iff.mpr ⟨hlength, hsplit, hname, hfirst, htype, hparams⟩, hd⟩
  · rintro ⟨first, more, name, params, hshape, hd⟩
    rcases shape_iff.mp hshape with ⟨hlength, hsplit, hname, hfirst, htype, hparams⟩
    exact ⟨hlength, first, more, name, params, hsplit, hname, hfirst, htype, hparams, hd⟩

end Grammar

/-- Tokens declare a function exactly if they have the shape of a signature. There is one way at
    most to see them so, and the function has the name, the written type and parameters, and the
    line that stand there. -/
theorem declaration?_iff_shape (ts : List Token) :
    (∀ d, declaration? ts = some d ↔ ∃ first more name params,
      Shape ts first more name params ∧
        d = ⟨name.text, spell (first :: more), spell params, first.line⟩) ∧
    ∀ first more name params first' more' name' params',
      Shape ts first more name params → Shape ts first' more' name' params' →
        first = first' ∧ more = more' ∧ name = name' ∧ params = params' :=
  ⟨fun _ => declares_iff, fun _ _ _ _ _ _ _ _ => Shape.unique⟩

end Signature

end DialectBuild
