import DialectBuild.Proofs.LineNumbers
import DialectBuild.Proofs.Prototype

/-!
# Items of Any Length

What a unit exports, said without a buffer. While a unit is read, no more of an item is kept
than is needed to know that it is no signature, and a function is passed over as soon as its
name is known. Here the unit is cut into its items first, each with all of its tokens. Then
the functions among them are taken, and at last those whose name is not new are dropped. Both
ways give the same functions.

One buffer stands for many items: it holds the first tokens of the item, one more than a
signature may have. An item that fits is there as a whole, and an item that does not fit
declares nothing, whole or cut.

The items are parts of the unit that follow one another. So the functions come in the order of
their lines.

## Main definitions

* `Export.afterBody`: What follows a body.
* `Export.items`: The items before the bodies of a unit.
* `Export.firsts`: Functions without those whose name is not new.

## Theorems

* `Signature.declaration?_take`: The buffer declares what the item declares.
* `Export.found_eq_afterBody`: A body is skipped.
* `Export.found_eq_items`: Reading on from the middle of an item.
* `Export.flatten_items_sublist`: The items follow one another.
* `Export.exported_eq_firsts`: The exported functions.
-/

namespace DialectBuild

namespace Signature

theorem declaration?_eq_none_of_lt {ts : List Token} (h : maxTokens < ts.length) :
    declaration? ts = none := by
  rw [Option.eq_none_iff_forall_ne_some]
  intro d hd
  have hlength := (declaration?_eq_some_iff.mp hd).1
  omega

/-- One token more than a signature may have is enough to know what an item declares. -/
theorem declaration?_take (ts : List Token) :
    declaration? (ts.take (maxTokens + 1)) = declaration? ts := by
  by_cases h : ts.length ≤ maxTokens
  · rw [List.take_of_length_le (Nat.le_succ_of_le h)]
  · have hlong : maxTokens < ts.length := Nat.lt_of_not_le h
    rw [declaration?_eq_none_of_lt hlong, declaration?_eq_none_of_lt]
    rw [List.length_take]
    omega

/-- A function has the line of the first token of its signature. -/
theorem line_of_declaration? {ts : List Token} {d : Declaration} (h : declaration? ts = some d) :
    ∃ first ∈ ts, d.line = first.line := by
  rcases declaration?_eq_some_iff.mp h with
    ⟨_, first, more, name, params, hsplit, _, _, _, _, rfl⟩
  rcases split?_eq_some hsplit with ⟨o, c, _, _, hts⟩
  refine ⟨first, ?_, rfl⟩
  rw [hts]
  exact List.mem_cons_self

end Signature

namespace Export

/-- What follows a body. The token that opens it is behind, and `depth` counts the braces inside
    it that are still open. -/
def afterBody (depth : Nat) : List Token → List Token
  | [] => []
  | t :: ts =>
      if t.spells "\x7b" then afterBody (depth + 1) ts
      else if t.spells "\x7d" then
        match depth with
        | 0 => ts
        | d + 1 => afterBody d ts
      else afterBody depth ts

theorem afterBody_suffix (depth : Nat) (ts : List Token) : afterBody depth ts <:+ ts := by
  fun_induction afterBody depth ts with
  | case1 depth => exact List.suffix_rfl
  | case2 depth t ts hopen ih => exact ih.trans (List.suffix_cons t ts)
  | case3 t ts hopen hclose => exact List.suffix_cons t ts
  | case4 t ts hopen hclose d ih => exact ih.trans (List.suffix_cons t ts)
  | case5 depth t ts hopen hclose ih => exact ih.trans (List.suffix_cons t ts)

/-- The items that stand before a body outside all braces, each with all of its tokens. An item
    starts behind a semicolon, a closing brace or a body. `item` is what has been read of the
    first one. -/
def items (item : List Token) : List Token → List (List Token)
  | [] => []
  | t :: ts =>
      if t.spells "\x7b" then
        item :: items [] (afterBody 0 ts)
      else if t.spells ";" || t.spells "\x7d" then
        items [] ts
      else
        items (item ++ [t]) ts
  termination_by ts => ts.length
  decreasing_by
    · exact Nat.lt_succ_of_le (afterBody_suffix 0 ts).length_le
    · exact Nat.lt_succ_self _
    · exact Nat.lt_succ_self _

/-- Functions without those whose name an earlier one has. -/
def firsts : List Declaration → List Declaration
  | [] => []
  | d :: ds => d :: (firsts ds).filter (fun d' => !d.name == d'.name)

section Names

/-- Some functions and one more, unless its name is known. -/
def keep (found : List Declaration) (d : Declaration) : List Declaration :=
  if found.any (·.name == d.name) then found else found ++ [d]

theorem addItem_eq_keep (e : Export) :
    e.addItem = (Signature.declaration? e.item).toList.foldl keep e.found := by
  rw [addItem]
  cases Signature.declaration? e.item with
  | none => rfl
  | some d => rfl

/-- Adding functions one by one leaves out those that are known or not the first. -/
theorem foldl_keep (ds found : List Declaration) :
    ds.foldl keep found =
      found ++ (firsts ds).filter (fun d => !found.any (·.name == d.name)) := by
  induction ds generalizing found with
  | nil => rw [List.foldl_nil, firsts, List.filter_nil, List.append_nil]
  | cons d ds ih =>
      rw [List.foldl_cons, ih, firsts, keep]
      by_cases hknown : found.any (·.name == d.name) = true
      · -- Whatever has the name of this function has a known name.
        rw [if_pos hknown, List.filter_cons, hknown, List.filter_filter]
        refine congrArg (found ++ ·) (List.filter_congr fun d' _ => ?_)
        by_cases hname : d.name = d'.name
        · rw [← hname, hknown]
          rfl
        · simp [hname]
      · rw [if_neg hknown, List.filter_cons, Bool.eq_false_iff.mpr hknown, List.filter_filter,
          List.append_assoc]
        refine congrArg (found ++ d :: ·) (List.filter_congr fun d' _ => ?_)
        rw [List.any_append, Bool.not_or]
        simp

theorem firsts_sublist (ds : List Declaration) : (firsts ds).Sublist ds := by
  induction ds with
  | nil => exact List.Sublist.refl []
  | cons d ds ih => exact (List.filter_sublist.trans ih).cons_cons d

theorem nodup_map_firsts (ds : List Declaration) : ((firsts ds).map Declaration.name).Nodup := by
  induction ds with
  | nil => exact List.nodup_nil
  | cons d ds ih =>
      rw [firsts, List.map_cons, List.nodup_cons]
      refine ⟨?_, ih.sublist (List.filter_sublist.map Declaration.name)⟩
      intro hmem
      rcases List.mem_map.mp hmem with ⟨d', hd', hname⟩
      have hother := (List.mem_filter.mp hd').2
      simp [hname] at hother

end Names

section Reading

variable {found : List Declaration} {item : List Token}

/-- A body is skipped: nothing in it is looked at. -/
theorem found_eq_afterBody (depth : Nat) (ts item : List Token) :
    (ts.foldl step ⟨depth + 1, item, found⟩).found =
      ((afterBody depth ts).foldl step ⟨0, item, found⟩).found := by
  -- Inside a body only the depth changes, so the tokens up to its end are passed over.
  fun_induction afterBody depth ts with
  | case1 depth => rfl
  | case2 depth t ts hopen ih =>
      rw [List.foldl_cons, step, if_pos (Nat.succ_pos depth), if_pos hopen]
      exact ih
  | case3 t ts hopen hclose =>
      rw [List.foldl_cons, step, if_pos (Nat.succ_pos 0), if_neg hopen, if_pos hclose]
      rfl
  | case4 t ts hopen hclose d ih =>
      rw [List.foldl_cons, step, if_pos (Nat.succ_pos (d + 1)), if_neg hopen, if_pos hclose]
      exact ih
  | case5 depth t ts hopen hclose ih =>
      rw [List.foldl_cons, step, if_pos (Nat.succ_pos depth), if_neg hopen, if_neg hclose]
      exact ih

/-- The buffer of a longer item. -/
theorem take_append_singleton (t : Token) :
    (item ++ [t]).take (Signature.maxTokens + 1) =
      if (item.take (Signature.maxTokens + 1)).length ≤ Signature.maxTokens then
        item.take (Signature.maxTokens + 1) ++ [t]
      else item.take (Signature.maxTokens + 1) := by
  rw [List.length_take]
  by_cases h : item.length ≤ Signature.maxTokens
  · rw [if_pos (Nat.le_trans (Nat.min_le_right _ _) h), List.take_of_length_le,
      List.take_of_length_le (Nat.le_succ_of_le h)]
    rw [List.length_append, List.length_singleton]
    omega
  · rw [if_neg (by omega), List.take_append_of_le_length (by omega)]

/-- Reading on from the middle of an item, of which the buffer holds the beginning, adds the
    functions of the items. -/
theorem found_eq_items (item ts : List Token) (found : List Declaration) :
    (ts.foldl step ⟨0, item.take (Signature.maxTokens + 1), found⟩).found =
      ((items item ts).filterMap Signature.declaration?).foldl keep found := by
  -- The induction follows the items. The buffer is cut from the item at every token.
  fun_induction items item ts generalizing found with
  | case1 item => rfl
  | case2 item t ts hopen ih =>
      have hstep : step ⟨0, item.take (Signature.maxTokens + 1), found⟩ t =
          ⟨1, [], (Signature.declaration? item).toList.foldl keep found⟩ := by
        rw [step, if_neg (Nat.lt_irrefl 0), if_pos hopen, addItem_eq_keep,
          Signature.declaration?_take]
      rw [List.foldl_cons, hstep, found_eq_afterBody]
      refine (ih _).trans ?_
      rw [List.filterMap_cons]
      cases Signature.declaration? item with
      | none => rfl
      | some d => rfl
  | case3 item t ts hopen hend ih =>
      rw [List.foldl_cons, step, if_neg (Nat.lt_irrefl 0), if_neg hopen, if_pos hend]
      exact ih found
  | case4 item t ts hopen hend ih =>
      rw [List.foldl_cons, step, if_neg (Nat.lt_irrefl 0), if_neg hopen, if_neg hend, ← ih,
        take_append_singleton]
      by_cases hfits : (item.take (Signature.maxTokens + 1)).length ≤ Signature.maxTokens
      · rw [if_pos hfits, if_pos hfits]
      · rw [if_neg hfits, if_neg hfits]

/-- The items are parts of what is read, one behind the other. -/
theorem flatten_items_sublist (item ts : List Token) :
    (items item ts).flatten.Sublist (item ++ ts) := by
  fun_induction items item ts with
  | case1 item => exact List.nil_sublist _
  | case2 item t ts hopen ih =>
      rw [List.flatten_cons]
      refine (ih.trans ?_).append_left item
      exact (afterBody_suffix 0 ts).sublist.cons t
  | case3 item t ts hopen hend ih =>
      exact ih.trans ((List.sublist_cons_self t ts).trans (List.sublist_append_right item _))
  | case4 item t ts hopen hend ih =>
      rw [List.append_assoc] at ih
      exact ih

/-- The functions of the items of a text come in the order of their lines. -/
theorem sorted_filterMap_items (s : Text) :
    ((items [] (tokenize s)).filterMap Signature.declaration?).Pairwise (·.line ≤ ·.line) := by
  have hsorted := (sorted_tokensOf 1 (lexemes s)).sublist (flatten_items_sublist [] (tokenize s))
  rw [List.pairwise_filterMap]
  refine (List.pairwise_flatten.mp hsorted).2.imp ?_
  intro a b hlines d hd d' hd'
  rcases Signature.line_of_declaration? hd with ⟨first, hfirst, hline⟩
  rcases Signature.line_of_declaration? hd' with ⟨first', hfirst', hline'⟩
  rw [hline, hline']
  exact hlines first hfirst first' hfirst'

end Reading

/-- The functions that a text exports are those of its items, in order and each name once, the
    items being taken with all of their tokens. No item with more tokens than a signature may
    have declares one, whatever it begins with, so that every function comes from an item that
    was read as a whole. The names differ, and the lines do not go down. -/
theorem exported_eq_firsts (s : Text) :
    exported s = firsts ((items [] (tokenize s)).filterMap Signature.declaration?) ∧
      (∀ item ∈ items [] (tokenize s), 64 < item.length → Signature.declaration? item = none) ∧
      (∀ d ∈ exported s, ∃ item ∈ items [] (tokenize s), item.length ≤ 64 ∧
        Signature.declaration? item = some d) ∧
      ((exported s).map Declaration.name).Nodup ∧
      ((exported s).map Declaration.line).Pairwise (· ≤ ·) := by
  have hexported : exported s =
      firsts ((items [] (tokenize s)).filterMap Signature.declaration?) := by
    rw [exported, start]
    refine (found_eq_items [] (tokenize s) []).trans ?_
    rw [foldl_keep, List.nil_append]
    exact List.filter_eq_self.mpr fun _ _ => rfl
  refine ⟨hexported, fun item _ => Signature.declaration?_eq_none_of_lt, ?_, ?_, ?_⟩
  · intro d hd
    rw [hexported] at hd
    rcases List.mem_filterMap.mp ((firsts_sublist _).mem hd) with ⟨item, hitem, hd⟩
    exact ⟨item, hitem, (Signature.declaration?_eq_some_iff.mp hd).1, hd⟩
  · rw [hexported]
    exact nodup_map_firsts _
  · rw [hexported, List.pairwise_map]
    exact (sorted_filterMap_items s).sublist (firsts_sublist _)

end Export

end DialectBuild
