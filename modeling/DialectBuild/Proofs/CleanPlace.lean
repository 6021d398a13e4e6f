import DialectBuild.Proofs.LeadingBlock
import DialectBuild.Proofs.Prototype

/-!
# A Clean Place for Includes

The place where new includes go is the start of a line, before the first exported definition.
An include is read there only if nothing is open: no comment, no literal, no preprocessor line
that goes on, and no brace.

The place is computed from the looks of the leading block and from the line of the first
exported definition, and either can mislead. Without exported definitions it is the end of the
leading block, and clean if the block reads as it looks. With one it is the start of the line
of the first definition, or of the first blank line right above it, and clean if the
definition stands free: no literal before it goes over a line end, so that its line is the one
it is said to have, no comment and no backslash reaches into its line or the blank lines above
it, and its line closes no brace that another line opened.

## Main definitions

* `Position.closesOwn`: Whether tokens close only braces that they open.
* `Position.StandsFree`: A definition before which includes can go.

## Theorems

* `Position.raise_spec`: Only blank lines are passed on the way up.
* `Export.exists_first`: The first token of an exported definition is outside all braces.
* `Position.includes_clean`: Includes go to a clean place.
-/

namespace DialectBuild

open Text

namespace Export

/-- The tokens of the current item start outside all braces. -/
theorem exists_first_of_item {ts : List Token} {first : Token}
    (h : first ∈ (ts.foldl step start).item.head?) :
    ∃ before after, ts = before ++ first :: after ∧ (before.foldl step start).depth = 0 := by
  induction ts using List.reverseRecOn with
  | nil => cases h
  | append_singleton ts t ih =>
      rw [List.foldl_append, List.foldl_cons, List.foldl_nil] at h
      have hmore : first ∈ (ts.foldl step start).item.head? →
          ∃ before after, ts ++ [t] = before ++ first :: after ∧
            (before.foldl step start).depth = 0 := by
        intro hfirst
        rcases ih hfirst with ⟨before, after, hts, hdepth⟩
        exact ⟨before, after ++ [t], by rw [hts]; simp, hdepth⟩
      rw [step] at h
      split at h
      next =>
        split at h
        next => exact hmore h
        next =>
          split at h
          next => exact hmore h
          next => exact hmore h
      next hdepth =>
        split at h
        next => cases h
        next =>
          split at h
          next => cases h
          next =>
            split at h
            next =>
              rcases hitem : (ts.foldl step start).item with _ | ⟨u, us⟩
              · -- The token is the first of a new item.
                rw [hitem] at h
                rw [← Option.some.inj h]
                exact ⟨ts, [], rfl, Nat.eq_zero_of_not_pos hdepth⟩
              · rw [hitem] at h hmore
                exact hmore h
            next => exact hmore h

/-- An exported definition starts outside all braces, on the line that it is said to have. -/
theorem exists_first {ts : List Token} {d : Declaration} (h : d ∈ (ts.foldl step start).found) :
    ∃ before first after, ts = before ++ first :: after ∧ first.line = d.line ∧
      (before.foldl step start).depth = 0 := by
  rcases mem_found_foldl_iff.mp h with h | ⟨before, t, after, rfl, hopens⟩
  · cases h
  · rcases Signature.declaration?_eq_some_iff.mp hopens.2.2.1 with
      ⟨_, first, more, name, params, hsplit, _, _, _, _, rfl⟩
    rcases Signature.split?_eq_some hsplit with ⟨o, c, _, _, hitem⟩
    have hhead : first ∈ (before.foldl step start).item.head? := by
      rw [hitem]
      rfl
    rcases exists_first_of_item hhead with ⟨front, back, rfl, hdepth⟩
    exact ⟨front, first, back ++ t :: after, by simp, rfl, hdepth⟩

end Export

namespace Position

/-- Whether tokens, of which `k` braces are open at their start, close only braces that they
    open. -/
def closesOwn : Nat → List Token → Bool
  | _, [] => true
  | k, t :: ts =>
      if t.spells "\x7b" then closesOwn (k + 1) ts
      else if t.spells "\x7d" then decide (0 < k) && closesOwn (k - 1) ts
      else closesOwn k ts

theorem closesOwn_of_append {k : Nat} {ts us : List Token} (h : closesOwn k (ts ++ us) = true) :
    closesOwn k ts = true := by
  -- The count is carried, and each token is checked before the ones after it are read.
  induction ts generalizing k with
  | nil => rfl
  | cons t ts ih =>
      rw [List.cons_append, closesOwn] at h
      rw [closesOwn]
      split
      next hopen =>
        rw [if_pos hopen] at h
        exact ih h
      next hopen =>
        rw [if_neg hopen] at h
        split
        next hclose =>
          rw [if_pos hclose, Bool.and_eq_true] at h
          rw [Bool.and_eq_true]
          exact ⟨h.1, ih h.2⟩
        next hclose =>
          rw [if_neg hclose] at h
          exact ih h

/-- Tokens that close only their own braces leave no fewer open than there were. -/
theorem depth_le_foldl {ts : List Token} {k depth : Nat} {e : Export} (h : closesOwn k ts = true)
    (he : e.depth = depth + k) : depth ≤ (ts.foldl Export.step e).depth := by
  -- Of the levels that are open, `k` were opened by these tokens, and no others are closed.
  induction ts generalizing k e with
  | nil =>
      rw [List.foldl_nil, he]
      exact Nat.le_add_right depth k
  | cons t ts ih =>
      rw [List.foldl_cons]
      rw [closesOwn] at h
      split at h
      next hopen =>
        refine ih h ?_
        rw [Export.step, if_pos hopen, if_pos hopen]
        split <;> simp only <;> omega
      next hopen =>
        split at h
        next hclose =>
          rw [Bool.and_eq_true, decide_eq_true_eq] at h
          refine ih h.2 ?_
          rw [Export.step, if_pos (by omega), if_neg hopen, if_pos hclose]
          simp only
          omega
        next hclose =>
          refine ih h ?_
          rw [Export.step, if_neg hopen, if_neg hclose]
          split
          next => exact he
          next => split <;> [skip; split] <;> exact he

/-- Only blank lines are passed on the way up, and the block above is not entered. -/
theorem raise_spec {lines : List Text} {floor p : Nat} (h : floor ≤ p) :
    floor ≤ raise lines floor p ∧
      ∀ i, raise lines floor p ≤ i → i < p → (lines[i]?.getD []).all Symbol.isBlank = true := by
  induction p with
  | zero => exact ⟨h, fun i _ hi => absurd hi (Nat.not_lt_zero i)⟩
  | succ p ih =>
      rw [raise]
      split
      next hblank =>
        rcases ih (by omega) with ⟨hfloor, hlines⟩
        refine ⟨hfloor, fun i hle hlt => ?_⟩
        by_cases hi : i = p
        · rw [hi]
          exact hblank.2
        · exact hlines i hle (by omega)
      next => exact ⟨h, fun i hle hlt => absurd hlt (by omega)⟩

/-- Nothing reaches into the line of a definition or into the blank lines right above it. -/
structure StandsFree (t : Text) (d : Declaration) : Prop where
  /-- No literal goes over a line end, so the definition is on the line that it is said to be. -/
  literals : ∀ i < d.line, (contextAt t i).isLiteral = false
  /-- No comment ends on the line. -/
  comment : (contextAt t (d.line - 1)).isComment = false
  /-- No backslash carries a line over, from the place of the includes to the definition. -/
  carried : ∀ i < d.line - 1, includes t.codeLines (exported t) ≤ i + 1 →
    ∀ l ∈ t.codeLines[i]?, l.endsWith "\\\n" = false
  /-- The line closes only braces that it opens. -/
  braces : closesOwn 0 ((tokenize t).filter (·.line == d.line)) = true

section Contexts

variable {t l : Text} {i : Nat}

theorem contextAt_succ_of_lt (hi : i + 1 < t.codeLines.length) (hl : t.codeLines[i]? = some l) :
    IsEnded l ∧ contextAt t (i + 1) = (contextAt t i).after l := by
  have hended : IsEnded l := by
    refine isEnded_of_mem_take hi (List.mem_iff_getElem?.mpr ⟨i, ?_⟩)
    rw [List.getElem?_take_of_lt (Nat.lt_succ_self i), hl]
  exact ⟨hended, by rw [contextAt_succ hl, closed_of_isEnded hended]⟩

theorem not_isCarried (hi : i + 1 < t.codeLines.length) (hl : t.codeLines[i]? = some l)
    (h : l.endsWith "\\\n" = false) : (contextAt t (i + 1)).isCarried = false := by
  rcases contextAt_succ_of_lt hi hl with ⟨hended, hsucc⟩
  rw [hsucc, Bool.eq_false_iff]
  intro hcarried
  rcases Context.endsWith_of_isCarried hended hcarried with ⟨b, rfl⟩
  rw [endsWith, Bool.eq_false_iff] at h
  exact h (List.isSuffixOf_iff_suffix.mpr (List.suffix_append b _))

theorem eq_code {c : Context} (hstopped : c ≠ .stopped) (hcomment : c.isComment = false)
    (hcarried : c.isCarried = false) : c = .code true := by
  cases c with
  | code lineStart =>
      cases lineStart with
      | true => rfl
      | false => cases hcarried
  | comment => cases hcomment
  | directive => cases hcarried
  | literal => cases hcarried
  | stopped => exact absurd rfl hstopped

/-- A blank line in front of a line of code is not inside a comment. -/
theorem not_isComment_of_blank (hi : i + 1 < t.codeLines.length) (hl : t.codeLines[i]? = some l)
    (hblank : ∀ x ∈ l, x.isBlank = true) (h : contextAt t (i + 1) = .code true) :
    (contextAt t i).isComment = false := by
  have hstar : .char '*' ∉ l := fun hmem => absurd (hblank _ hmem) (by decide)
  rw [(contextAt_succ_of_lt hi hl).2] at h
  cases hc : contextAt t i with
  | comment lineStart =>
      rw [hc, Context.after_comment (hasPart_of_noStar hstar)] at h
      cases h
  | _ => rfl

/-- White space has no tokens. -/
theorem readings_of_blank {lineStart : Bool} {b : Text} (hb : ∀ x ∈ b, x.isBlank = true) :
    readings lineStart b = [] := by
  induction b generalizing lineStart with
  | nil => exact readings_nil lineStart
  | cons x b ih =>
      rcases List.forall_mem_cons.mp hb with ⟨hx, hb⟩
      by_cases hinner : Lexeme.isInnerBlank x = true
      · rw [readings_blank_cons hinner, ih hb]
      · by_cases hfeed : x = '\n'
        · rw [hfeed, readings_eq_append (.newline b)]
          exact ih hb
        · rw [readings, lexemesFrom_of_none
            (Lexeme.next?_eq_none_iff.mpr ⟨hx, Bool.eq_false_iff.mpr hinner, hfeed⟩)]
          rfl

theorem tokens_of_blank {lineStart : Bool} {n : Nat} {b : Text} (hb : ∀ x ∈ b, x.isBlank = true) :
    (Context.code lineStart).tokens n b = [] := by
  have hread := Context.map_reading_tokens (.code lineStart) n b
  rw [Context.readings_code, readings_of_blank hb] at hread
  exact List.map_eq_nil_iff.mp hread

end Contexts

section Definition

variable {t l : Text} {d : Declaration} {n : Nat}

theorem take_flatten_of_lt {m : Nat} (hl : t.codeLines[n]? = some l) (h : n < m) :
    (t.codeLines.take m).flatten = (t.codeLines.take n).flatten ++
      (l ++ ((t.codeLines.drop (n + 1)).take (m - (n + 1))).flatten) := by
  rcases List.getElem?_eq_some_iff.mp hl with ⟨hn, hget⟩
  rcases Nat.exists_eq_add_of_lt h with ⟨k, rfl⟩
  rw [Nat.add_assoc, List.take_add, List.drop_eq_getElem_cons hn, hget, List.take_succ_cons,
    List.flatten_append, List.flatten_cons, ← Nat.add_assoc, Nat.add_right_comm n k 1,
    Nat.add_sub_cancel_left]

theorem eq_take_append (hl : t.codeLines[n]? = some l) :
    t = (t.codeLines.take n).flatten ++ (l ++ (t.codeLines.drop (n + 1)).flatten) := by
  rcases List.getElem?_eq_some_iff.mp hl with ⟨hn, hget⟩
  conv => lhs; rw [← flatten_codeLines t, ← List.take_append_drop n t.codeLines]
  rw [List.flatten_append, List.drop_eq_getElem_cons hn, hget, List.flatten_cons]

/-- A definition that stands free is on one of the lines of the text. -/
theorem line_le_of_standsFree (h : StandsFree t d) {x : Token} (hx : x ∈ tokenize t)
    (hline : x.line = d.line) : 0 < d.line ∧ d.line ≤ t.codeLines.length := by
  refine ⟨hline ▸ le_line_of_mem_tokensOf hx, ?_⟩
  by_contra hnot
  have hle := line_le_of_mem_tokenize hx fun i hi => h.literals i (by omega)
  omega

/-- A line that has tokens is not in a part of the text that has none. -/
theorem le_of_tokenize_take (hl : t.codeLines[n]? = some l) {m : Nat}
    (hm : m ≤ t.codeLines.length) (hlit : ∀ i ≤ n, (contextAt t i).isLiteral = false)
    (hempty : tokenize (t.codeLines.take m).flatten = []) {x : Token} (hx : x ∈ tokenize t)
    (hline : x.line = n + 1) : m ≤ n := by
  by_contra hnot
  by_cases hall : m = t.codeLines.length
  · rw [hall, List.take_length, flatten_codeLines] at hempty
    rw [hempty] at hx
    exact absurd hx List.not_mem_nil
  · have hn : n + 1 < t.codeLines.length := by omega
    rcases tokenize_take_append (Nat.lt_of_succ_lt hn) hlit with ⟨hread, _⟩
    rcases (contextAt t n).tokens_append (n + 1) (contextAt_succ_of_lt hn hl).1
      (noFeed_of_mem_codeLines (List.mem_of_getElem? hl)) with ⟨out, hout, hstep⟩
    -- The line has no tokens, and no literal goes on behind it, so the next token is further on.
    rw [take_flatten_of_lt hl (Nat.lt_of_not_le hnot), hread, hstep, List.append_eq_nil_iff,
      List.append_eq_nil_iff] at hempty
    rcases hempty with ⟨hbefore, hnil, hmore⟩
    have hnext : ((contextAt t n).after l).isLiteral = false := by
      rw [Bool.eq_false_iff]
      exact fun hlit => Context.tokens_ne_nil hlit _ _ hmore
    rw [eq_take_append hl, hread, hstep, hbefore, hnil, List.nil_append, List.nil_append,
      Context.nextLine_of_not_isLiteral hnext] at hx
    have hle : n + 1 + 1 ≤ x.line := le_line_of_mem_tokensOf hx
    omega

/-- Reading has not ended before a line that has tokens. -/
theorem ne_stopped_of_mem_tokenize (hn : n < t.codeLines.length)
    (hlit : ∀ i ≤ n, (contextAt t i).isLiteral = false) {x : Token} (hx : x ∈ tokenize t)
    (hline : n < x.line) : contextAt t n ≠ .stopped := by
  intro hstopped
  rcases tokenize_take_append hn hlit with ⟨hread, habove⟩
  have hnil : ∀ r, Context.stopped.tokens (n + 1) r = [] := fun _ => rfl
  rw [eq_take_append (List.getElem?_eq_getElem hn), hread, hstopped, hnil, List.append_nil] at hx
  have hle := habove x hx
  omega

/-- The lines from the place of the includes to the definition start between two pieces. -/
theorem contextAt_of_standsFree (h : StandsFree t d) (hd : d.line = n + 1)
    (hn : n < t.codeLines.length) (hreads : contextAt t n ≠ .stopped)
    (hblank : ∀ i, includes t.codeLines (exported t) ≤ i → i < n →
      (t.codeLines[i]?.getD []).all Symbol.isBlank = true) :
    ∀ i ≤ n, includes t.codeLines (exported t) ≤ i → contextAt t i = .code true := by
  have hline : ∀ i ≤ n, t.codeLines[i]? = some (t.codeLines[i]?.getD []) := by
    intro i hi
    rw [List.getElem?_eq_getElem (by omega)]
    rfl
  have hcarried : ∀ i ≤ n, includes t.codeLines (exported t) ≤ i →
      (contextAt t i).isCarried = false := by
    intro i hi hp
    rcases i with _ | i
    · rw [contextAt_zero]
      rfl
    · have hl := hline i (by omega)
      exact not_isCarried (by omega) hl (h.carried i (by omega) hp _ hl)
  intro i hi hp
  -- From the definition upwards: the line below is clean, and this one is blank.
  induction hk : n - i generalizing i with
  | zero =>
      have hin : i = n := by omega
      have hcomment := h.comment
      rw [hd, Nat.add_sub_cancel] at hcomment
      rw [hin] at hp ⊢
      exact eq_code hreads hcomment (hcarried n (Nat.le_refl n) hp)
  | succ k ih =>
      have hbelow := ih (i + 1) (by omega) (by omega) (by omega)
      have hall := List.all_eq_true.mp (hblank i hp (by omega))
      refine eq_code (contextAt_ne_stopped hreads hi (Nat.le_of_lt hn)) ?_ (hcarried i hi hp)
      exact not_isComment_of_blank (by omega) (hline i hi) hall hbelow

/-- No brace is open at the start of the line of the definition. -/
theorem depth_of_standsFree (h : StandsFree t d) (hd : d.line = n + 1)
    (hn : n < t.codeLines.length) {before after : List Token} {first : Token}
    (htokens : tokenize t = before ++ first :: after) (hline : first.line = d.line)
    (hdepth : (before.foldl Export.step Export.start).depth = 0) :
    ((tokenize (t.codeLines.take n).flatten).foldl Export.step Export.start).depth = 0 := by
  rcases tokenize_take_append hn fun i hi => h.literals i (by omega) with ⟨hread, habove⟩
  have hl : t.codeLines[n]? = some t.codeLines[n] := List.getElem?_eq_getElem hn
  have hcut := hread (t.codeLines[n] ++ (t.codeLines.drop (n + 1)).flatten)
  rw [← eq_take_append hl, htokens] at hcut
  have hsorted : (tokenize t).Pairwise (·.line ≤ ·.line) := sorted_tokensOf 1 (lexemes t)
  rw [htokens] at hsorted
  -- What is read before the definition is read above its line or on it.
  have hsplit : ∃ own, before = tokenize (t.codeLines.take n).flatten ++ own ∧
      ∀ x ∈ own, x.line = d.line := by
    rcases List.append_eq_append_iff.mp hcut with ⟨own, habove', hrest⟩ | ⟨own, hbefore, hrest⟩
    · rcases own with _ | ⟨y, own⟩
      · exact ⟨[], by rw [habove', List.append_nil, List.append_nil],
          fun x hx => absurd hx List.not_mem_nil⟩
      · have hy : y ∈ tokenize (t.codeLines.take n).flatten := by
          rw [habove']
          exact List.mem_append_right before List.mem_cons_self
        have hle := habove y hy
        rw [← (List.cons.inj hrest).1] at hle
        omega
    · refine ⟨own, hbefore, fun x hx => ?_⟩
      have hmem : x ∈ (contextAt t n).tokens (n + 1)
          (t.codeLines[n] ++ (t.codeLines.drop (n + 1)).flatten) := by
        rw [hrest]
        exact List.mem_append_left _ hx
      have hge : n + 1 ≤ x.line := le_line_of_mem_tokensOf hmem
      have hle := (List.pairwise_append.mp hsorted).2.2 x (hbefore ▸ List.mem_append_right _ hx)
        first List.mem_cons_self
      omega
  rcases hsplit with ⟨own, rfl, hown⟩
  have hbraces := h.braces
  have hnone : (tokenize (t.codeLines.take n).flatten).filter (·.line == d.line) = [] := by
    refine List.filter_eq_nil_iff.mpr fun x hx => ?_
    have hle := habove x hx
    rw [beq_iff_eq]
    omega
  have hself : own.filter (·.line == d.line) = own :=
    List.filter_eq_self.mpr fun x hx => beq_iff_eq.mpr (hown x hx)
  rw [htokens, List.filter_append, List.filter_append, hnone, hself, List.nil_append] at hbraces
  rw [List.foldl_append] at hdepth
  have hle := depth_le_foldl (closesOwn_of_append hbraces) (e :=
    (tokenize (t.codeLines.take n).flatten).foldl Export.step Export.start) (Nat.add_zero _).symm
  omega

/-- Blank lines have no tokens, so the tokens above the definition are those above its place. -/
theorem tokenize_take_of_blank {p : Nat} (hn : n < t.codeLines.length) (hp : p ≤ n)
    (hlit : ∀ i ≤ n, (contextAt t i).isLiteral = false)
    (hclean : ∀ i ≤ n, p ≤ i → contextAt t i = .code true)
    (hblank : ∀ i, p ≤ i → i < n → (t.codeLines[i]?.getD []).all Symbol.isBlank = true) :
    tokenize (t.codeLines.take n).flatten = tokenize (t.codeLines.take p).flatten := by
  -- Line by line from `p` on: a blank line of clean code adds no token.
  induction n, hp using Nat.le_induction with
  | base => rfl
  | succ n hp ih =>
      have hl : t.codeLines[n]? = some (t.codeLines[n]?.getD []) := by
        rw [List.getElem?_eq_getElem (Nat.lt_of_succ_lt hn)]
        rfl
      have hline : (t.codeLines.take (n + 1)).flatten =
          (t.codeLines.take n).flatten ++ t.codeLines[n]?.getD [] := by
        rw [take_flatten_of_lt hl (Nat.lt_succ_self n), Nat.sub_self, List.take_zero,
          List.flatten_nil, List.append_nil]
      rw [hline, (tokenize_take_append (Nat.lt_of_succ_lt hn) fun i hi => hlit i (by omega)).1,
        hclean n (by omega) hp, tokens_of_blank (List.all_eq_true.mp (hblank n hp (by omega))),
        List.append_nil]
      exact ih (by omega) (fun i hi => hlit i (by omega)) (fun i hi => hclean i (by omega))
        (fun i hle hlt => hblank i hle (by omega))

end Definition

/-- Includes go to a clean place: between two pieces and outside all braces, and not behind the
    line of the first exported definition. -/
theorem includes_clean {t : Text}
    (hempty : tokenize (t.codeLines.take (leadingEnd t.codeLines)).flatten = [])
    (hblock : exported t = [] → ReadsAsItLooks t)
    (hfree : ∀ d ∈ (exported t).head?, StandsFree t d) :
    contextAt t (includes t.codeLines (exported t)) = .code true ∧
    ((tokenize (t.codeLines.take (includes t.codeLines (exported t))).flatten).foldl
      Export.step Export.start).depth = 0 ∧
    ∀ d ∈ (exported t).head?, includes t.codeLines (exported t) < d.line := by
  rcases hexported : exported t with _ | ⟨d, ds⟩
  · rw [includes]
    refine ⟨contextAt_leadingEnd (hblock hexported), ?_, fun d hd => absurd hd (by simp)⟩
    rw [hempty]
    rfl
  · have hd : d ∈ (exported t).head? := by
      rw [hexported]
      rfl
    have h := hfree d hd
    have hfound : d ∈ ((tokenize t).foldl Export.step Export.start).found := List.mem_of_head? hd
    rcases Export.exists_first hfound with ⟨before, first, after, htokens, hline, hdepth⟩
    have hfirst : first ∈ tokenize t := by
      rw [htokens]
      exact List.mem_append_right before List.mem_cons_self
    rcases line_le_of_standsFree h hfirst hline with ⟨hpos, hle⟩
    rcases Nat.exists_eq_add_of_lt hpos with ⟨n, hn⟩
    rw [Nat.zero_add] at hn
    have hlt : n < t.codeLines.length := by omega
    have hlit : ∀ i ≤ n, (contextAt t i).isLiteral = false := fun i hi => h.literals i (by omega)
    have hfloor := le_of_tokenize_take (List.getElem?_eq_getElem hlt) (leadingEnd_le _) hlit hempty
      hfirst (hline.trans hn)
    have hplace : includes t.codeLines (exported t) =
        raise t.codeLines (leadingEnd t.codeLines) n := by
      rw [hexported, includes, hn, Nat.add_sub_cancel, Nat.max_eq_right hfloor]
    rw [← hexported]
    have hup : includes t.codeLines (exported t) ≤ n := hplace ▸ raise_le _ _ _
    have hblank : ∀ i, includes t.codeLines (exported t) ≤ i → i < n →
        (t.codeLines[i]?.getD []).all Symbol.isBlank = true :=
      hplace ▸ (raise_spec hfloor).2
    have hreads := ne_stopped_of_mem_tokenize hlt hlit hfirst (by omega)
    have hclean := contextAt_of_standsFree h hn hlt hreads hblank
    refine ⟨hclean _ hup (Nat.le_refl _), ?_, fun d' hd' => ?_⟩
    · rw [← tokenize_take_of_blank hlt hup hlit hclean hblank]
      exact depth_of_standsFree h hn hlt htokens hline hdepth
    · rw [Option.mem_unique hd' hd]
      omega

/-- A unit with a leading block, a type and a function. -/
def typedUnit : Text :=
  "#define A \\\n1\nstruct s { int x; };\n\nint f(void) { }\n"

/-- A unit that has a leading block and no function. -/
def bareUnit : Text :=
  "/* x\n*/\n#define A \\\n1\nint x;\n"

theorem includes_clean_units :
    (includes typedUnit.codeLines (exported typedUnit) = 3 ∧
      contextAt typedUnit 3 = .code true ∧
      ((tokenize (typedUnit.codeLines.take 3).flatten).foldl Export.step Export.start).depth = 0 ∧
      ∀ d ∈ (exported typedUnit).head?, 3 < d.line) ∧
    (includes bareUnit.codeLines (exported bareUnit) = 4 ∧ contextAt bareUnit 4 = .code true) := by
  have htyped : exported typedUnit = [⟨"f", "int", "void", 5⟩] := by decide +kernel
  have htypedPlace : includes typedUnit.codeLines (exported typedUnit) = 3 := by
    decide +kernel
  have hbare : exported bareUnit = [] := by decide +kernel
  have hbarePlace : includes bareUnit.codeLines (exported bareUnit) = 4 := by
    decide +kernel
  have hfree : StandsFree typedUnit ⟨"f", "int", "void", 5⟩ :=
    ⟨by decide +kernel, by decide +kernel, by decide +kernel, by decide +kernel⟩
  have hblock : ReadsAsItLooks bareUnit :=
    ⟨by decide +kernel, by decide +kernel, by decide +kernel, by decide +kernel⟩
  have htypedClean := includes_clean (t := typedUnit) (by decide +kernel)
    (fun h => absurd (htyped.symm.trans h) (List.cons_ne_nil _ _)) (fun d hd => by
      rw [htyped] at hd
      rw [← Option.some.inj hd]
      exact hfree)
  have hbareClean := includes_clean (t := bareUnit) (by decide +kernel) (fun _ => hblock)
    (fun d hd => by
      rw [hbare] at hd
      cases hd)
  rw [htypedPlace] at htypedClean
  rw [hbarePlace] at hbareClean
  exact ⟨⟨htypedPlace, htypedClean⟩, hbarePlace, hbareClean.1⟩

/-- A comment that ends on the line of the definition is still open at its start. -/
theorem includes_inside_comment :
    contextAt "int a;\n/* about\nf */ int f(void) { return 0; }\n"
      (includes (codeLines "int a;\n/* about\nf */ int f(void) { return 0; }\n")
        (exported "int a;\n/* about\nf */ int f(void) { return 0; }\n")) = .comment true := by
  decide +kernel

end Position

end DialectBuild
