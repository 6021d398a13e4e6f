import DialectBuild.Proofs.Interruption
import DialectBuild.Proofs.TokenPlaces

/-!
# Nothing Is Lost between Tokens

What the reader of C text passes on its way. A reader that skipped symbols, or that stood still,
would still give a list of tokens, and a wrong one would be hard to tell from it. So this is about
all pieces and not only about those that are tokens: each takes at least one symbol off the front of
what is left, and the pieces one after the other are the text as far as it was read.

The reader stops where no rule applies. Since any symbol but white space can stand as a punctuation
mark, that is at the end of the text or before white space for which C text has no use. A
preprocessor line is one piece with its `#`, and what follows the `#` may be empty.

## Theorems

* `Lexeme.next?_eq_none_iff_head?`: Where no rule applies.
* `length_lexemesFrom_le`: There are at most as many pieces as symbols.
* `head?_unread`: Where reading ends.
* `exists_piece_of_mem_placesOf`: A token is a piece, and it stands behind the pieces before it.
* `tokenize_coverage`: The pieces cover the text, and the tokens stand in it where they were read.
-/

namespace DialectBuild

namespace Lexeme

/-- Reading goes on unless the text is at its end or before white space that C text does not
    use. -/
theorem next?_eq_none_iff_head? {lineStart : Bool} {s : Text} :
    next? lineStart s = none ↔
      ∀ x ∈ s.head?, x.isBlank = true ∧ x ∉ (" \t\n\r\x0c\x0b" : Text) := by
  cases s with
  | nil =>
      have hnone : next? lineStart [] = none := by cases lineStart <;> rfl
      simp only [hnone, List.head?_nil, Option.not_mem_none, false_implies, implies_true]
  | cons x s =>
      have hinner : x ∉ (" \t\n\r\x0c\x0b" : Text) ↔ isInnerBlank x = false ∧ x ≠ '\n' := by
        simp [isInnerBlank, Text.ofString]
        tauto
      simp only [next?_eq_none_iff, hinner, List.head?_cons, Option.mem_some_iff, forall_eq']

/-- A piece is not empty, and a preprocessor line starts with its `#`. -/
theorem Reads.text_ne_nil {lineStart : Bool} {s rest : Text} {l : Lexeme}
    (h : Reads lineStart s l rest) :
    l.text ≠ [] ∧ (l.kind = .directive → l.text.head? = some (.char '#')) := by
  refine ⟨(next?_eq_some h.next?).1, fun hkind => ?_⟩
  cases h with
  | directive hline hs => rfl
  | _ => cases hkind

end Lexeme

/-- Every piece takes a symbol at least, so there are at most as many as symbols. -/
theorem length_lexemesFrom_le (lineStart : Bool) (s : Text) :
    (lexemesFrom lineStart s).1.length + (lexemesFrom lineStart s).2.length ≤ s.length := by
  fun_induction lexemesFrom lineStart s with
  | case1 lineStart s hnone => simp only [List.length_nil, Nat.zero_add, Nat.le_refl]
  | case2 lineStart s l rest hnext more ih =>
      have hshorter := Lexeme.length_lt_of_next? hnext
      simp only [more, List.length_cons] at ih ⊢
      omega

/-- Reading ends only where no rule applies. -/
theorem next?_lexemesFrom_snd (lineStart : Bool) (s : Text) :
    ∃ lineStart', Lexeme.next? lineStart' (lexemesFrom lineStart s).2 = none := by
  fun_induction lexemesFrom lineStart s with
  | case1 lineStart s hnone => exact ⟨lineStart, hnone⟩
  | case2 lineStart s l rest hnext more ih => exact ih

/-- What is left of a text is nothing, or it starts with white space that C text does not use. -/
theorem head?_unread (s : Text) :
    ∀ x ∈ (unread s).head?, x.isBlank = true ∧ x ∉ (" \t\n\r\x0c\x0b" : Text) := by
  rcases next?_lexemesFrom_snd true s with ⟨lineStart', hnone⟩
  exact Lexeme.next?_eq_none_iff_head?.mp hnone

/-- A token with its place is one of the pieces, and the text before it is made of the pieces
    before it. -/
theorem exists_piece_of_mem_placesOf {front : Text} {line : Nat} {ls : List Lexeme}
    {p : PlacedToken} (h : p ∈ placesOf front line ls) :
    ∃ before after, ls = before ++ ⟨.token p.token.kind, p.token.text⟩ :: after ∧
      p.front = front ++ (before.map Lexeme.text).flatten := by
  -- Whatever a piece is, it is added to the front of all that come after it.
  have hlater : ∀ {front : Text} {l : Lexeme} {ls : List Lexeme},
      (∃ before after, ls = before ++ ⟨.token p.token.kind, p.token.text⟩ :: after ∧
        p.front = front ++ l.text ++ (before.map Lexeme.text).flatten) →
      ∃ before after, l :: ls = before ++ ⟨.token p.token.kind, p.token.text⟩ :: after ∧
        p.front = front ++ (before.map Lexeme.text).flatten := by
    rintro front l ls ⟨before, after, rfl, hfront⟩
    refine ⟨l :: before, after, rfl, ?_⟩
    rw [hfront, List.map_cons, List.flatten_cons, List.append_assoc]
  fun_induction placesOf front line ls with
  | case1 front line => exact absurd h List.not_mem_nil
  | case2 front line l ls kind hkind ih =>
      rcases List.mem_cons.mp h with rfl | h
      · refine ⟨[], ls, ?_, (List.append_nil front).symm⟩
        rw [List.nil_append, ← hkind]
      · exact hlater (ih h)
  | case3 front line l ls hkind ih => exact hlater (ih h)

/-- A token stands in the text, right behind the pieces before it. -/
theorem substring_of_mem_places {s : Text} {p : PlacedToken} (h : p ∈ places s) :
    (s.drop p.front.length).take p.token.text.length = p.token.text := by
  rcases List.append_of_mem h with ⟨earlier, later, hplaces⟩
  rcases (line_iff_of_places hplaces).1 with ⟨rest, hrest⟩
  rw [← hrest, List.append_assoc, List.drop_left, List.take_left]

/-- Reading a text passes over all of it, piece by piece. The pieces and what is left are the text,
    no piece is empty, and so there are at most as many as symbols. The tokens are the pieces that
    are tokens, each at the place of the text where the pieces before it end. Something is left
    only before white space that C text does not use. -/
theorem tokenize_coverage (s : Text) :
    ((lexemes s).map Lexeme.text).flatten ++ unread s = s ∧
    (lexemes s).length ≤ s.length ∧
    (∀ l ∈ lexemes s, l.text ≠ [] ∧ (l.kind = .directive → l.text.head? = some (.char '#'))) ∧
    (tokenize s).map Token.reading = (lexemes s).filterMap Lexeme.reading? ∧
    (places s).map PlacedToken.token = tokenize s ∧
    (∀ p ∈ places s, (∃ before after,
        lexemes s = before ++ ⟨.token p.token.kind, p.token.text⟩ :: after ∧
        p.front = (before.map Lexeme.text).flatten) ∧
      (s.drop p.front.length).take p.token.text.length = p.token.text) ∧
    (unread s = [] ∨
      ∃ x r, unread s = x :: r ∧ x.isBlank = true ∧ x ∉ (" \t\n\r\x0c\x0b" : Text)) := by
  refine ⟨lexemesFrom_append true s, ?_, ?_, map_reading_tokenize s, map_token_places s, ?_, ?_⟩
  · have hlength := length_lexemesFrom_le true s
    exact le_trans (Nat.le_add_right _ _) hlength
  · intro l hl
    rcases reads_of_mem_lexemesFrom hl with ⟨lineStart', s', rest, hreads⟩
    exact hreads.text_ne_nil
  · intro p hp
    exact ⟨exists_piece_of_mem_placesOf hp, substring_of_mem_places hp⟩
  · rcases hunread : unread s with _ | ⟨x, r⟩
    · exact Or.inl rfl
    · have hhead := head?_unread s x (by rw [hunread]; rfl)
      exact Or.inr ⟨x, r, rfl, hhead⟩

example : lexemes "#\na" = [⟨.directive, "#"⟩, ⟨.newline, "\n"⟩, ⟨.token .ident, "a"⟩] := by
  decide +kernel

end DialectBuild
