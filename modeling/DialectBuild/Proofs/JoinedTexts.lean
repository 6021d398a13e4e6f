import DialectBuild.Proofs.AlikeTokens
import DialectBuild.Proofs.WholeItems

/-!
# Texts One After the Other

What a text exports that is made of two. If the first one ends between two lines, outside all
braces and between two items, then the two have nothing to do with each other: no piece of the
first is read differently for what follows, and the second is read as if it stood alone. Only
two things are carried over. Lines are counted on, so that the functions of the second text are
further down, and functions whose names the first text exports already are left out.

The last piece of the first text has to be a line end. A line feed that ends a comment or stands
behind a backslash would not do: the second text could go on with that piece, or start on a line
that is not a new one, where no preprocessor line can begin.

## Main definitions

* `linesPassed`: The lines that are passed with some pieces.
* `Token.moved`, `Declaration.moved`: The same further down.
* `EndsBetweenItems`: The texts that others can follow.

## Theorems

* `lexemesFrom_append_of_newline`: The pieces of two texts.
* `tokenize_append_of_newline`: The tokens of two texts.
* `Export.found_of_known`: What is found if some functions are known before.
* `Export.found_map_moved`: What is found further down.
* `exported_append`: The functions of two texts.
-/

namespace DialectBuild

open Text

/-- How many lines are passed with some pieces. A line feed inside a token is not counted. -/
def linesPassed : List Lexeme → Nat
  | [] => 0
  | l :: ls =>
      match l.kind with
      | .token _ => linesPassed ls
      | _ => l.text.lineFeeds + linesPassed ls

/-- The token `k` lines further down. -/
def Token.moved (k : Nat) (t : Token) : Token :=
  { t with line := t.line + k }

/-- The function `k` lines further down. -/
def Declaration.moved (k : Nat) (d : Declaration) : Declaration :=
  { d with line := d.line + k }

/-- The text is read to its end, which is a line end outside all braces and between two items. -/
structure EndsBetweenItems (a : Text) : Prop where
  /-- Reading does not stop before the end. -/
  read : unread a = []
  /-- The last piece is a line end. -/
  newline : (lexemes a).getLast?.map Lexeme.kind = some .newline
  /-- No braces are open. -/
  outside : ((tokenize a).foldl Export.step Export.start).depth = 0
  /-- No item is begun. -/
  between : ((tokenize a).foldl Export.step Export.start).item = []

section Pieces

variable {lineStart : Bool} {a : Text}

/-- A text whose last piece is a line feed ends with it. -/
theorem isEnded_of_newline (hread : (lexemesFrom lineStart a).2 = [])
    (hlast : (lexemesFrom lineStart a).1.getLast?.map Lexeme.kind = some .newline) : IsEnded a := by
  rcases Option.map_eq_some_iff.mp hlast with ⟨l, hl, hkind⟩
  rcases List.getLast?_eq_some_iff.mp hl with ⟨ls, hls⟩
  have htext : l.text = "\n" := by
    rcases reads_of_mem_lexemesFrom (List.mem_of_getLast? hl) with ⟨_, _, _, h⟩
    cases h <;> first | rfl | cases hkind
  have happend := lexemesFrom_append lineStart a
  rw [hread, hls, List.append_nil, List.map_append, List.flatten_append, List.map_singleton,
    List.flatten_singleton, htext] at happend
  rw [← happend]
  exact List.getLast?_concat

/-- A text whose last piece is a line feed is read apart from what follows it. -/
theorem lexemesFrom_append_of_newline (hread : (lexemesFrom lineStart a).2 = [])
    (hlast : (lexemesFrom lineStart a).1.getLast?.map Lexeme.kind = some .newline) (b : Text) :
    lexemesFrom lineStart (a ++ b) =
      ((lexemesFrom lineStart a).1 ++ (lexemesFrom true b).1, (lexemesFrom true b).2) := by
  have hended := isEnded_of_newline hread hlast
  fun_induction lexemesFrom lineStart a with
  | case1 lineStart a hnone => cases hlast
  | case2 lineStart a l rest hnext more ih =>
      have hl := Lexeme.next?_eq_some_iff.mp hnext
      have happend := (Lexeme.next?_eq_some hnext).2
      by_cases hrest : rest = []
      · -- This is the line feed itself, and the other text starts behind it.
        subst hrest
        have hmore : more.1 = [] := by
          rw [show more = ([], []) from lexemesFrom_of_none rfl]
        rw [hmore] at hlast ⊢
        have hkind : l.kind = .newline := Option.some.inj hlast
        cases hl <;> cases hkind
        exact lexemesFrom_of_reads (.newline b)
      · -- The text goes on to its last line feed, so no other text is next to this piece.
        have hended' : IsEnded rest := by
          rw [← happend] at hended
          exact (isEnded_append_iff hrest).mp hended
        have hne : more.1 ≠ [] := by
          intro hnil
          have hwhole := lexemesFrom_append (l.lineStartAfter lineStart) rest
          rw [show lexemesFrom (l.lineStartAfter lineStart) rest = more from rfl, hnil,
            show more.2 = [] from hread] at hwhole
          exact hrest hwhole.symm
        rw [List.getLast?_cons_of_ne_nil hne] at hlast
        rw [lexemesFrom_of_reads (hl.append hended hrest b), ih hread hlast hended']
        rfl

end Pieces

section Tokens

theorem linesPassed_token {l : Lexeme} {kind : TokenKind} (h : l.kind = .token kind)
    (ls : List Lexeme) : linesPassed (l :: ls) = linesPassed ls := by
  simp only [linesPassed, h]

theorem linesPassed_other {l : Lexeme} (h : ∀ kind, l.kind ≠ .token kind) (ls : List Lexeme) :
    linesPassed (l :: ls) = l.text.lineFeeds + linesPassed ls := by
  rw [linesPassed]
  split
  next kind hkind => exact absurd hkind (h kind)
  next => rfl

/-- The tokens of more pieces are counted on from the lines passed. -/
theorem tokensOf_append_linesPassed (n : Nat) (ls ls' : List Lexeme) :
    tokensOf n (ls ++ ls') = tokensOf n ls ++ tokensOf (n + linesPassed ls) ls' := by
  fun_induction tokensOf n ls with
  | case1 n => rfl
  | case2 n l ls kind hkind ih =>
      rw [List.cons_append, tokensOf_token hkind, ih, linesPassed_token hkind, List.cons_append]
  | case3 n l ls hkind ih =>
      rw [List.cons_append, tokensOf_other hkind, ih, linesPassed_other hkind, Nat.add_assoc]

/-- A later start moves every token. -/
theorem tokensOf_add (n k : Nat) (ls : List Lexeme) :
    tokensOf (n + k) ls = (tokensOf n ls).map (Token.moved k) := by
  fun_induction tokensOf n ls with
  | case1 n => rfl
  | case2 n l ls kind hkind ih =>
      rw [tokensOf_token hkind, ih, List.map_cons]
      rfl
  | case3 n l ls hkind ih =>
      rw [tokensOf_other hkind, ← ih, Nat.add_right_comm]

/-- The lines passed and those inside tokens are all the line feeds there are. -/
theorem linesPassed_add_lineFeeds (n : Nat) (ls : List Lexeme) :
    linesPassed ls + ((tokensOf n ls).map (·.text.lineFeeds)).sum =
      lineFeeds (ls.map Lexeme.text).flatten := by
  fun_induction tokensOf n ls with
  | case1 n => rfl
  | case2 n l ls kind hkind ih =>
      rw [linesPassed_token hkind, List.map_cons, List.map_cons, List.sum_cons, List.flatten_cons,
        lineFeeds_append, ← ih]
      exact Nat.add_left_comm _ _ _
  | case3 n l ls hkind ih =>
      rw [linesPassed_other hkind, List.map_cons, List.flatten_cons, lineFeeds_append, ← ih,
        Nat.add_assoc]

end Tokens

/-- The tokens of a text behind one that ends with a line end are its own, further down. -/
theorem tokenize_append_of_newline {a : Text} (hread : unread a = [])
    (hlast : (lexemes a).getLast?.map Lexeme.kind = some .newline) (b : Text) :
    tokenize (a ++ b) =
      tokenize a ++ (tokenize b).map (Token.moved (linesPassed (lexemes a))) := by
  rw [tokenize, lexemes, lexemesFrom_append_of_newline hread hlast, tokensOf_append_linesPassed,
    tokensOf_add]
  rfl

theorem Token.keeps_moved (k : Nat) : Keeps (moved k) :=
  ⟨fun _ => rfl, fun _ => rfl, fun _ _ => rfl⟩

namespace Export

/-- The items add their functions to those that are known, but for the names that are. -/
theorem found_eq_append (ts : List Token) (known : List Declaration) :
    (ts.foldl step ⟨0, [], known⟩).found =
      known ++ (firsts ((items [] ts).filterMap Signature.declaration?)).filter
        fun d => !known.any (·.name == d.name) := by
  have h := found_eq_items [] ts known
  rw [List.take_nil] at h
  rw [h, foldl_keep]

theorem found_eq_firsts (ts : List Token) :
    (ts.foldl step start).found = firsts ((items [] ts).filterMap Signature.declaration?) := by
  rw [start, found_eq_append, List.nil_append]
  exact List.filter_eq_self.mpr fun _ _ => rfl

/-- Functions whose names are known before are left out, and the others are found as ever. -/
theorem found_of_known (ts : List Token) (known : List Declaration) :
    (ts.foldl step ⟨0, [], known⟩).found =
      known ++ (ts.foldl step start).found.filter fun d => !known.any (·.name == d.name) := by
  rw [found_eq_append, found_eq_firsts]

/-- A function that is declared by tokens further down is the same further down. -/
theorem eq_moved_of_related {k : Nat} {d d' : Declaration}
    (h : Signature.Related (Token.moved k) d d') : d.moved k = d' := by
  rcases h with ⟨ts, first, more, name, params, hshape, rfl, rfl⟩
  rw [(Token.keeps_moved k).spell fun t _ => rfl]
  rfl

/-- Tokens further down declare the same functions further down. -/
theorem found_map_moved (k : Nat) (ts : List Token) :
    ((ts.map (Token.moved k)).foldl step start).found =
      (ts.foldl step start).found.map (Declaration.moved k) := by
  have halike := ((Alike.start (Token.moved k)).foldl (Token.keeps_moved k) ts).found
  have hequal := halike.imp fun d d' => eq_moved_of_related
  rw [← List.forall₂_map_left_iff, List.forall₂_eq_eq_eq] at hequal
  exact hequal.symm

end Export

/-- A text that follows one that ends between items exports its own functions behind those of the
    first, but for the names that are known already, and further down by as many lines as the
    first text has, not counting those inside its tokens. -/
theorem exported_append (a b : Text) (h : EndsBetweenItems a) :
    exported (a ++ b) = exported a ++
        ((exported b).filter fun d => !(exported a).any (·.name == d.name)).map
          (Declaration.moved (linesPassed (lexemes a))) ∧
      linesPassed (lexemes a) + ((tokenize a).map (·.text.lineFeeds)).sum = a.lineFeeds := by
  constructor
  · have hstate : (tokenize a).foldl Export.step Export.start = ⟨0, [], exported a⟩ := by
      rw [← h.outside, ← h.between]
      rfl
    rw [exported, tokenize_append_of_newline h.read h.newline, List.foldl_append, hstate,
      Export.found_of_known, Export.found_map_moved, List.filter_map]
    rfl
  · have hwhole := lexemesFrom_append true a
    rw [show (lexemesFrom true a).2 = [] from h.read, List.append_nil] at hwhole
    rw [tokenize, linesPassed_add_lineFeeds]
    exact congrArg lineFeeds hwhole

/-- A text whose first line goes on in a literal, with one function. -/
def firstUnit : Text :=
  "char *s = \"a\\\nb\"; /* \n */\nint f(void) \x7b return 0; \x7d\n"

/-- A text that defines the same function again and another one. -/
def secondUnit : Text :=
  "#include <a.h>\nlong f(int a) \x7b return a; \x7d\nint *g(char *s) \x7b return 0; \x7d\n"

/-- The second text adds its second function, three lines further down: the first text has four
    line feeds, and one of them is inside a literal. -/
theorem exported_firstUnit_append :
    EndsBetweenItems firstUnit ∧
      exported (firstUnit ++ secondUnit) =
        [⟨"f", "int", "void", 3⟩, ⟨"g", "int *", "char *s", 6⟩] := by
  have hends : EndsBetweenItems firstUnit :=
    ⟨by decide +kernel, by decide +kernel, by decide +kernel, by decide +kernel⟩
  refine ⟨hends, ?_⟩
  rw [(exported_append firstUnit secondUnit hends).1]
  decide +kernel

end DialectBuild
