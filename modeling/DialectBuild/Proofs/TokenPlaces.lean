import DialectBuild.Proofs.AlikeTokens
import DialectBuild.Proofs.LineNumbers

/-!
# Where Tokens Stand

The line of a token against the place where it stands. A token should have the number of its
line: one, and one more for each line feed before it in the text.

Line feeds are passed in five ways: as line ends, behind a backslash, in comments, on
preprocessor lines that go on, and in literals where a backslash escapes them. The first four
are counted when they are passed. A literal is a token, and its line feeds are not counted. So
a token has the right number exactly if no token before it has a line feed inside. From the
first literal that goes over a line end onwards every number is too small, by as many lines as
the literals before it take.

## Main definitions

* `PlacedToken`, `places`: The tokens of a text, each with the text before it.
* `feedsWithin`: The line feeds inside tokens.
* `Export.Defines`: A definition for which a function is exported, and what stands before it.

## Theorems

* `map_token_places`: The tokens with their places are the tokens.
* `line_of_placesOf`: The number of a token.
* `Export.item_suffix`: An item that fits the buffer is the last that was read.
* `places_lines`: Which tokens and definitions have the right number.
-/

namespace DialectBuild

open Text

/-- A token where it stands. -/
structure PlacedToken where
  /-- All the text before the token. -/
  front : Text
  /-- The token itself. -/
  token : Token
  deriving DecidableEq, Repr

/-- The tokens among the pieces of a text that starts on the given line after `front`. -/
def placesOf (front : Text) (line : Nat) : List Lexeme → List PlacedToken
  | [] => []
  | l :: ls =>
      match l.kind with
      | .token kind => ⟨front, kind, l.text, line⟩ :: placesOf (front ++ l.text) line ls
      | _ => placesOf (front ++ l.text) (line + l.text.lineFeeds) ls

/-- The tokens of a text with their places. -/
def places (s : Text) : List PlacedToken :=
  placesOf [] 1 (lexemes s)

/-- The line feeds inside tokens. -/
def feedsWithin (ps : List PlacedToken) : Nat :=
  (ps.map (·.token.text.lineFeeds)).sum

section Places

variable {front : Text} {line : Nat} {ls : List Lexeme} {earlier later : List PlacedToken}
  {p : PlacedToken}

theorem map_token_placesOf (front : Text) (line : Nat) (ls : List Lexeme) :
    (placesOf front line ls).map PlacedToken.token = tokensOf line ls := by
  fun_induction placesOf front line ls with
  | case1 front line => rfl
  | case2 front line l ls kind hkind ih => rw [List.map_cons, ih, tokensOf_token hkind]
  | case3 front line l ls hkind ih => rw [ih, tokensOf_other hkind]

/-- The tokens with their places are the tokens of the text. -/
theorem map_token_places (s : Text) : (places s).map PlacedToken.token = tokenize s :=
  map_token_placesOf [] 1 (lexemes s)

/-- A token stands in the text behind what is said to be before it. -/
theorem prefix_of_mem_placesOf (h : p ∈ placesOf front line ls) :
    p.front ++ p.token.text <+: front ++ (ls.map Lexeme.text).flatten := by
  fun_induction placesOf front line ls with
  | case1 front line => exact absurd h List.not_mem_nil
  | case2 front line l ls kind hkind ih =>
      rw [List.map_cons, List.flatten_cons, ← List.append_assoc]
      rcases List.mem_cons.mp h with rfl | h
      · exact List.prefix_append _ _
      · exact ih h
  | case3 front line l ls hkind ih =>
      rw [List.map_cons, List.flatten_cons, ← List.append_assoc]
      exact ih h

/-- The number of a token counts the line feeds before it but for those inside tokens. -/
theorem line_of_placesOf (h : placesOf front line ls = earlier ++ p :: later) :
    p.token.line + feedsWithin earlier + front.lineFeeds = line + p.front.lineFeeds := by
  -- What has been read is behind `front`, and the pieces add to it one after the other.
  fun_induction placesOf front line ls generalizing earlier with
  | case1 front line => exact absurd h.symm (List.append_ne_nil_of_right_ne_nil _ (by simp))
  | case2 front line l ls kind hkind ih =>
      rcases earlier with _ | ⟨q, earlier⟩
      · cases h
        rfl
      · rcases List.cons.inj h with ⟨rfl, hmore⟩
        have hrest := ih hmore
        rw [lineFeeds_append] at hrest
        simp only [feedsWithin, List.map_cons, List.sum_cons] at hrest ⊢
        omega
  | case3 front line l ls hkind ih =>
      have hrest := ih h
      rw [lineFeeds_append] at hrest
      omega

theorem feedsWithin_eq_zero_iff :
    feedsWithin earlier = 0 ↔ ∀ q ∈ earlier, .char '\n' ∉ q.token.text := by
  simp [feedsWithin, lineFeeds, List.sum_eq_zero_iff, List.count_eq_zero]

end Places

/-- A token of a text stands in it, and it has the number of its line exactly if no token before
    it has a line feed inside. -/
theorem line_iff_of_places {s : Text} {earlier later : List PlacedToken} {p : PlacedToken}
    (h : places s = earlier ++ p :: later) :
    p.front ++ p.token.text <+: s ∧
      p.token.line + feedsWithin earlier = 1 + p.front.lineFeeds ∧
      (p.token.line = 1 + p.front.lineFeeds ↔ ∀ q ∈ earlier, .char '\n' ∉ q.token.text) := by
  have hline : p.token.line + feedsWithin earlier = 1 + p.front.lineFeeds := line_of_placesOf h
  refine ⟨?_, hline, ?_⟩
  · have hmem : p ∈ places s := by
      rw [h]
      exact List.mem_append_right earlier List.mem_cons_self
    refine (prefix_of_mem_placesOf hmem).trans ?_
    conv => rhs; rw [← lexemesFrom_append true s]
    exact List.prefix_append _ _
  · rw [← feedsWithin_eq_zero_iff]
    omega

namespace Export

/-- An item that fits the buffer is what was read last, and inside braces there is none. -/
theorem item_suffix (ts : List Token) :
    (0 < (ts.foldl step start).depth → (ts.foldl step start).item = []) ∧
      ((ts.foldl step start).item.length ≤ Signature.maxTokens →
        (ts.foldl step start).item <:+ ts) := by
  induction ts using List.reverseRecOn with
  | nil => exact ⟨fun _ => rfl, fun _ => List.suffix_rfl⟩
  | append_singleton ts t ih =>
      rw [List.foldl_append, List.foldl_cons, List.foldl_nil]
      generalize ts.foldl step start = e at ih ⊢
      -- The item is emptied wherever it could cease to be a suffix, and an empty one is always one.
      have hempty : ∀ {e' : Export}, e'.item = [] → (0 < e'.depth → e'.item = []) ∧
          (e'.item.length ≤ Signature.maxTokens → e'.item <:+ ts ++ [t]) := by
        intro e' he'
        rw [he']
        exact ⟨fun _ => rfl, fun _ => List.nil_suffix⟩
      rw [step]
      split
      next hdepth =>
        have hitem := ih.1 hdepth
        split
        next => exact hempty hitem
        next =>
          split
          next => exact hempty hitem
          next => exact hempty hitem
      next hdepth =>
        split
        next => exact hempty rfl
        next =>
          split
          next => exact hempty rfl
          next =>
            split
            next hfits =>
              rcases ih.2 hfits with ⟨before, hbefore⟩
              refine ⟨fun h => absurd h hdepth, fun _ => ⟨before, ?_⟩⟩
              rw [← List.append_assoc, hbefore]
            next hfits =>
              exact ⟨fun h => absurd h hdepth, fun h => absurd h hfits⟩

/-- After the tokens `earlier` the function `d` is exported for the definition with the signature
    `sig`, whose body `brace` opens. -/
def Defines (earlier sig : List Token) (brace : Token) (d : Declaration) : Prop :=
  ((earlier ++ sig).foldl step start).item = sig ∧
    ((earlier ++ sig).foldl step start).Opens brace d

/-- A function is exported for a definition that stands in the text, and it has the number of the
    first token there. -/
theorem exists_places_of_mem_exported {s : Text} {d : Declaration} (h : d ∈ exported s) :
    ∃ earlier first more brace later,
      places s = earlier ++ first :: (more ++ brace :: later) ∧
      Defines (earlier.map PlacedToken.token) ((first :: more).map PlacedToken.token)
        brace.token d ∧
      d.line = first.token.line := by
  rcases mem_exported_iff.mp h with ⟨sig, before, brace, after, hs, hsig, hopens⟩
  have hd := hopens.2.2.1
  rw [hsig] at hd
  have hsuffix := (item_suffix before).2
  rw [hsig] at hsuffix
  rcases hsuffix (Signature.declaration?_eq_some_iff.mp hd).1 with ⟨front, rfl⟩
  have hplaces := map_token_places s
  rw [hs, List.append_assoc] at hplaces
  rcases List.map_eq_append_iff.mp hplaces with ⟨earlier, rest, hsplit, rfl, hrest⟩
  rcases List.map_eq_append_iff.mp hrest with ⟨item, back, rfl, rfl, hback⟩
  rcases List.map_eq_cons_iff.mp hback with ⟨placed, later, rfl, rfl, _⟩
  -- A signature has a first token.
  rcases Signature.declares_iff.mp hd with ⟨first, more, name, params, hshape, hread⟩
  rcases hshape.parts with ⟨o, c, _, _, hparts⟩
  rcases List.map_eq_cons_iff.mp hparts with ⟨placedFirst, placedMore, rfl, rfl, _⟩
  exact ⟨earlier, placedFirst, placedMore, placed, later, hsplit, ⟨hsig, hopens⟩, by rw [hread]⟩

end Export

/-- A token has the number of the line on which it starts exactly if no token before it has a
    line feed inside, and in general its number is too small by as many lines as these have. An
    exported function has the number of the first token of its definition, and so the right one
    exactly under the same condition. -/
theorem places_lines (s : Text) :
    (places s).map PlacedToken.token = tokenize s ∧
    (∀ earlier p later, places s = earlier ++ p :: later →
      p.front ++ p.token.text <+: s ∧
        p.token.line + feedsWithin earlier = 1 + p.front.lineFeeds ∧
        (p.token.line = 1 + p.front.lineFeeds ↔ ∀ q ∈ earlier, .char '\n' ∉ q.token.text)) ∧
    ∀ d ∈ exported s, ∃ earlier first more brace later,
      places s = earlier ++ first :: (more ++ brace :: later) ∧
        Export.Defines (earlier.map PlacedToken.token) ((first :: more).map PlacedToken.token)
          brace.token d ∧
        (d.line = 1 + first.front.lineFeeds ↔ ∀ q ∈ earlier, .char '\n' ∉ q.token.text) := by
  refine ⟨map_token_places s, fun earlier p later => line_iff_of_places, fun d hd => ?_⟩
  rcases Export.exists_places_of_mem_exported hd with
    ⟨earlier, first, more, brace, later, hplaces, hdefines, hline⟩
  refine ⟨earlier, first, more, brace, later, hplaces, hdefines, ?_⟩
  rw [hline]
  exact (line_iff_of_places hplaces).2.2

/-- A definition behind a literal that goes over a line end. -/
def behindLiteral : Text :=
  "char *s = \"a\\\nb\";\nint f(void) \x7b return 0; \x7d\n"

/-- The line feed in the literal is not counted: the function on the third line is said to be on
    the second. -/
theorem line_behind_literal :
    exported behindLiteral = [⟨"f", "int", "void", 2⟩] ∧
      ∃ p ∈ places behindLiteral, p.token = ⟨.ident, "int", 2⟩ ∧ 1 + p.front.lineFeeds = 3 := by
  decide +kernel

end DialectBuild
