import DialectBuild.Proofs.IncludeLine

/-!
# What Injection Leaves Behind

A text that injection is done with includes what it should: one of its lines leads to the
unit's own header, and one to each header beside it. This is all that a second injection
looks for, so it finds nothing to add.

The lines that were there before are still there, since lines are only put between them. The
one change to an old line is a line end at the end of a line that had none, and that changes
neither where the line leads nor whether it is a marker or a directive.

## Main definitions

* `Include.leadsTo`: Whether a line leads to a header.
* `Injection.Resolves`: It is known where all lines lead and where the headers are.
* `Injection.lacking`: The headers that no line leads to.
* `Injection.place`: Where new lines go.

## Theorems

* `codeLines_insertLines`: Inserted lines are lines of their own.
* `mem_insertLines`, `exists_mem_insertLines`: What stands between the old lines, and that they
  are kept.
* `Injection.ofText_of_resolves`, `Injection.ofText_eq_ok`: How an injection comes about.
* `Injection.reaches_text`: After injection every header is reached.
* `Injection.isSettled_text`: Injection keeps a text settled.
* `Injection.ofText_of_reaches`: If every header is reached, nothing is added.
-/

namespace DialectBuild

open Text

/-- A line that is closed is the line, or the line with the line end added. -/
theorem closed_cases (ending l : Text) :
    (IsEnded l ∧ closed ending l = l) ∨ (¬ IsEnded l ∧ closed ending l = l ++ ending) := by
  rw [closed]
  by_cases h : l.endsWith "\n" = true
  · exact Or.inl ⟨endsWith_feed_iff.mp h, if_pos h⟩
  · exact Or.inr ⟨fun hend => h (endsWith_feed_iff.mpr hend), if_neg h⟩

theorem isEnded_closed {ending : Text} (he : IsEnding ending) (l : Text) :
    IsEnded (closed ending l) := by
  rcases closed_cases ending l with ⟨hend, heq⟩ | ⟨_, heq⟩
  · rw [heq]
    exact hend
  · rw [heq]
    exact he.isEnded_append l

/-- A line end after a line that has none is the end of that line. -/
theorem codeLines_append_ending {ending l : Text} (he : IsEnding ending) (hl : .char '\n' ∉ l) :
    codeLines (l ++ ending) = [l ++ ending] := by
  have hne : ending ≠ [] := by
    rcases he with rfl | rfl
    · decide
    · decide
  refine codeLines_of_noFeed_dropLast (List.append_ne_nil_of_right_ne_nil l hne) ?_
  rw [List.dropLast_append_of_ne_nil hne]
  exact fun h => (List.mem_append.mp h).elim hl he.noFeed_dropLast

theorem codeLines_closed {ending : Text} (he : IsEnding ending) {l : Text}
    (hl : codeLines l = [l]) : codeLines (closed ending l) = [closed ending l] := by
  rcases closed_cases ending l with ⟨_, heq⟩ | ⟨hend, heq⟩
  · rw [heq]
    exact hl
  · rw [heq]
    exact codeLines_append_ending he
      (noFeed_of_not_isEnded (noFeed_dropLast_of_codeLines hl) hend)

theorem target_closed (f : Files) (base : Path) {ending : Text} (he : IsEnding ending) (l : Text) :
    Include.target f base (closed ending l) = Include.target f base l := by
  rcases closed_cases ending l with ⟨_, heq⟩ | ⟨_, heq⟩
  · rw [heq]
  · rw [heq, Include.target_append f base l he.isLineEnd]

/-- A line end that is added keeps a line settled. -/
theorem isSettled_closed {ending : Text} (he : IsEnding ending) {l : Text}
    (hl : codeLines l = [l]) (h : IsSettled l) : IsSettled (closed ending l) := by
  have hclosed := codeLines_closed he hl
  rcases closed_cases ending l with ⟨_, heq⟩ | ⟨_, heq⟩
  · rw [heq]
    exact h
  · rw [heq] at hclosed ⊢
    refine ⟨isDirectiveFree_append_lineEnds h.1 he.isLineEnd, ?_⟩
    have hmarker := h.2
    rw [hl, List.forall_mem_singleton] at hmarker
    rw [hclosed, List.forall_mem_singleton, splitEnding, trimEnd_append_of_all l he.isLineEnd]
    exact hmarker

section Insertion

variable {ending : Text} {lines new : List Text}

/-- The new lines go between two parts of the old ones, of which the first has its last line
    closed. -/
theorem insertLines_cases (ending : Text) (lines : List Text) (n : Nat) (new : List Text) :
    insertLines ending lines n new = new ++ lines ∨
      ∃ before l after, lines = before ++ l :: after ∧
        insertLines ending lines n new = before ++ closed ending l :: (new ++ after) := by
  have hsplit := List.take_append_drop n lines
  rw [insertLines]
  -- Only a line right before the new ones has to be closed.
  rcases List.eq_nil_or_concat (lines.take n) with htake | ⟨before, l, htake⟩
  · rw [htake, List.nil_append] at hsplit
    left
    rw [htake, hsplit]
    rfl
  · rw [List.concat_eq_append] at htake
    right
    refine ⟨before, l, lines.drop n, ?_, ?_⟩
    · rw [List.append_cons, ← htake, hsplit]
    · rw [htake, List.getLast?_concat]
      simp only [List.dropLast_concat, List.append_assoc, List.cons_append, List.nil_append]

theorem mem_insertLines {n : Nat} {l : Text} (h : l ∈ insertLines ending lines n new) :
    l ∈ new ∨ ∃ k ∈ lines, l = k ∨ l = closed ending k := by
  rcases insertLines_cases ending lines n new with heq | ⟨before, k, after, hlines, heq⟩
  · rw [heq] at h
    exact (List.mem_append.mp h).imp id (fun hl => ⟨l, hl, Or.inl rfl⟩)
  · rw [heq, List.mem_append, List.mem_cons, List.mem_append] at h
    rw [hlines]
    rcases h with h | rfl | h | h
    · exact Or.inr ⟨l, List.mem_append_left _ h, Or.inl rfl⟩
    · exact Or.inr ⟨k, List.mem_append_right _ List.mem_cons_self, Or.inr rfl⟩
    · exact Or.inl h
    · exact Or.inr ⟨l, List.mem_append_right _ (List.mem_cons_of_mem k h), Or.inl rfl⟩

theorem mem_insertLines_of_mem_new {n : Nat} {l : Text} (h : l ∈ new) :
    l ∈ insertLines ending lines n new := by
  rcases insertLines_cases ending lines n new with heq | ⟨before, k, after, _, heq⟩
  · rw [heq]
    exact List.mem_append_left _ h
  · rw [heq]
    exact List.mem_append_right _ (List.mem_cons_of_mem _ (List.mem_append_left _ h))

/-- Every old line is kept, if only in its closed form. -/
theorem exists_mem_insertLines {k : Text} (n : Nat) (new : List Text) (h : k ∈ lines) :
    ∃ l ∈ insertLines ending lines n new, l = k ∨ l = closed ending k := by
  rcases insertLines_cases ending lines n new with heq | ⟨before, k', after, hlines, heq⟩
  · rw [heq]
    exact ⟨k, List.mem_append_right _ h, Or.inl rfl⟩
  · rw [hlines, List.mem_append, List.mem_cons] at h
    rw [heq]
    rcases h with h | rfl | h
    · exact ⟨k, List.mem_append_left _ h, Or.inl rfl⟩
    · exact ⟨closed ending k, List.mem_append_right _ List.mem_cons_self, Or.inr rfl⟩
    · refine ⟨k, List.mem_append_right _ (List.mem_cons_of_mem _ ?_), Or.inl rfl⟩
      exact List.mem_append_right _ h

/-- All lines but the last are ended if those of the parts are. -/
theorem isEnded_insertLines (he : IsEnding ending) (hend : ∀ l ∈ lines.dropLast, IsEnded l)
    (hnew : ∀ l ∈ new, IsEnded l) (n : Nat) :
    ∀ l ∈ (insertLines ending lines n new).dropLast, IsEnded l := by
  intro l hl
  rcases insertLines_cases ending lines n new with heq | ⟨before, k, after, hlines, heq⟩
  · rw [heq] at hl
    by_cases hempty : lines = []
    · rw [hempty, List.append_nil] at hl
      exact hnew l (List.dropLast_subset new hl)
    · rw [List.dropLast_append_of_ne_nil hempty] at hl
      exact (List.mem_append.mp hl).elim (hnew l) (hend l)
  · rw [hlines, List.dropLast_append_of_ne_nil (List.cons_ne_nil k after)] at hend
    rw [heq, List.append_cons, ← List.append_assoc] at hl
    -- The line before the new ones may have been the last, and is closed for that reason.
    have hbefore : ∀ l ∈ before ++ [closed ending k] ++ new, IsEnded l := by
      simp only [List.forall_mem_append, List.forall_mem_singleton]
      exact ⟨⟨fun l h => hend l (List.mem_append_left _ h), isEnded_closed he k⟩, hnew⟩
    by_cases hempty : after = []
    · rw [hempty, List.append_nil] at hl
      exact hbefore l (List.dropLast_subset _ hl)
    · rw [List.dropLast_append_of_ne_nil hempty] at hl
      rcases List.mem_append.mp hl with hl | hl
      · exact hbefore l hl
      · refine hend l (List.mem_append_right before ?_)
        rw [List.dropLast_cons_of_ne_nil hempty]
        exact List.mem_cons_of_mem k hl

end Insertion

/-- The lines of a text with lines inserted are the old and the new ones. -/
theorem codeLines_insertLines {ending t : Text} (he : IsEnding ending) {new : List Text}
    (hline : ∀ l ∈ new, codeLines l = [l]) (hend : ∀ l ∈ new, IsEnded l) (n : Nat) :
    codeLines (insertLines ending t.codeLines n new).flatten =
      insertLines ending t.codeLines n new := by
  refine codeLines_flatten ?_
    (isEnded_insertLines he (fun _ hl => isEnded_of_mem_dropLast hl) hend n)
  intro l hl
  rcases mem_insertLines hl with hnew | ⟨k, hk, rfl | rfl⟩
  · exact hline l hnew
  · exact codeLines_of_mem hk
  · exact codeLines_closed he (codeLines_of_mem hk)

namespace Include

/-- Whether a line leads to where a header is. -/
def leadsTo (f : Files) (base header : Path) (l : Text) : Bool :=
  match f.resolve header, target f base l with
  | .ok place, .ok p => p == some place
  | _, _ => false

theorem leadsTo_of_resolve {f : Files} {base header : Path} {place : Place}
    (h : f.resolve header = .ok place) {l : Text} {p : Option Place}
    (hl : target f base l = .ok p) : leadsTo f base header l = (p == some place) := by
  rw [leadsTo, h, hl]

theorem reaches_iff_any {f : Files} {base header : Path} {lines : List Text} :
    Reaches f base lines header ↔ lines.any (leadsTo f base header) = true := by
  rw [List.any_eq_true]
  constructor
  · rintro ⟨place, hplace, l, hl, htarget⟩
    exact ⟨l, hl, by rw [leadsTo_of_resolve hplace htarget, beq_self_eq_true]⟩
  · rintro ⟨l, hl, hleads⟩
    rw [leadsTo] at hleads
    split at hleads
    next place p hplace htarget =>
      exact ⟨place, hplace, l, hl, htarget.trans (congrArg Except.ok (beq_iff_eq.mp hleads))⟩
    next => cases hleads

end Include

namespace Injection

open Include

variable {f : Files} {base own : Path} {siblings : List Path} {t : Text} {i : Injection}

/-- Where the lines of a text lead is known, and where the headers are. -/
structure Resolves (f : Files) (base : Path) (headers : List Path) (t : Text) : Prop where
  /-- Every line leads somewhere or is no include line. -/
  lines : ∀ l ∈ t.codeLines, ∃ p, target f base l = .ok p
  /-- Every header is somewhere. -/
  headers : ∀ h ∈ headers, ∃ place, f.resolve h = .ok place

/-- The headers that no line of the text leads to. -/
def lacking (f : Files) (base : Path) (headers : List Path) (t : Text) : List Path :=
  headers.filter fun h => !t.codeLines.any (leadsTo f base h)

/-- The index of the line that new include lines are put before. -/
def place (f : Files) (base own : Path) (t : Text) : Nat :=
  match t.codeLines.findIdx? (leadsTo f base own) with
  | some n => n + 1
  | none => Position.includes t.codeLines (exported t)

theorem mem_lacking_iff {headers : List Path} {h : Path} :
    h ∈ lacking f base headers t ↔ h ∈ headers ∧ ¬ Reaches f base t.codeLines h := by
  rw [lacking, List.mem_filter, reaches_iff_any, Bool.not_eq_true, Bool.not_eq_true_eq_eq_false]

theorem resolves_of_ofText (h : ofText f base own siblings t = .ok i) :
    Resolves f base (own :: siblings) t := by
  simp only [ofText, Outcome.bind_eq_ok_iff, Outcome.filterM_eq_ok_iff, targets,
    Outcome.mapM_eq_ok_iff, Outcome.pure_eq_ok_iff] at h
  rcases h with ⟨ownPlace, hown, targets, htargets, _, ⟨q, hq, _⟩, _⟩
  refine ⟨Outcome.exists_ok_of_map_eq htargets,
    List.forall_mem_cons.mpr ⟨⟨ownPlace, hown⟩, fun s hs => ?_⟩⟩
  rcases hq s hs with ⟨place, hplace, _⟩
  exact ⟨place, hplace⟩

/-- The headers that no line leads to are added, all at one place. -/
theorem ofText_of_resolves (h : Resolves f base (own :: siblings) t) :
    ofText f base own siblings t =
      .ok ⟨if lacking f base (own :: siblings) t = [] then t
        else (insertLines (endingInUse t.codeLines) t.codeLines (place f base own t)
          ((lacking f base (own :: siblings) t).map (line · (endingInUse t.codeLines)))).flatten,
        lacking f base (own :: siblings) t⟩ := by
  rcases Outcome.exists_map_eq_of_forall h.lines with ⟨targets, htargets⟩
  rcases List.forall_mem_cons.mp h.headers with ⟨⟨ownPlace, hown⟩, hsiblings⟩
  -- The targets answer for each header whether a line leads to it.
  have hfind : ∀ {s place}, f.resolve s = .ok place →
      t.codeLines.findIdx? (leadsTo f base s) = targets.findIdx? (· == some place) :=
    fun hplace => Outcome.findIdx?_of_map_eq (fun l p hl => leadsTo_of_resolve hplace hl) htargets
  have hany : ∀ {s place}, f.resolve s = .ok place →
      t.codeLines.any (leadsTo f base s) = decide (some place ∈ targets) := by
    intro s place hplace
    rw [← List.findIdx?_isSome, hfind hplace, List.findIdx?_isSome, List.any_beq',
      List.contains_eq_mem]
  simp only [ofText, Outcome.bind_eq_ok_iff, Outcome.filterM_eq_ok_iff, Include.targets,
    Outcome.mapM_eq_ok_iff, Outcome.pure_eq_ok_iff, List.contains_eq_mem]
  refine ⟨ownPlace, hown, targets, htargets, lacking f base siblings t,
    ⟨fun s => !t.codeLines.any (leadsTo f base s), ?_, rfl⟩, ?_⟩
  · intro s hs
    rcases hsiblings s hs with ⟨place, hplace⟩
    exact ⟨place, hplace, congrArg not (hany hplace).symm⟩
  · rw [← hfind hown]
    rcases hanchor : t.codeLines.findIdx? (leadsTo f base own) with _ | n
    · have hnot : t.codeLines.any (leadsTo f base own) = false := by
        rw [← List.findIdx?_isSome, hanchor]
        rfl
      have hcons : lacking f base (own :: siblings) t = own :: lacking f base siblings t :=
        List.filter_cons_of_pos (by rw [hnot]; rfl)
      rw [hcons, place, hanchor, if_neg (List.cons_ne_nil _ _)]
      rfl
    · have hled : t.codeLines.any (leadsTo f base own) = true := by
        rw [← List.findIdx?_isSome, hanchor]
        rfl
      have hsame : lacking f base (own :: siblings) t = lacking f base siblings t :=
        List.filter_cons_of_neg (by rw [hled]; exact Bool.false_ne_true)
      rw [hsame, place, hanchor]
      by_cases hempty : lacking f base siblings t = []
      · rw [hempty]
        rfl
      · rw [if_neg hempty]
        exact if_neg fun h => hempty (List.isEmpty_iff.mp h)

/-- How an injection comes about. -/
theorem ofText_eq_ok (h : ofText f base own siblings t = .ok i) :
    Resolves f base (own :: siblings) t ∧ i.added = lacking f base (own :: siblings) t ∧
      i.text = if i.added = [] then t
        else (insertLines (endingInUse t.codeLines) t.codeLines (place f base own t)
          (i.added.map (line · (endingInUse t.codeLines)))).flatten := by
  have hr := resolves_of_ofText h
  rw [ofText_of_resolves hr] at h
  cases h
  exact ⟨hr, rfl, rfl⟩

/-- The headers that are added are those that no line leads to. -/
theorem mem_added_iff (h : ofText f base own siblings t = .ok i) {s : Path} :
    s ∈ i.added ↔ s ∈ own :: siblings ∧ ¬ Reaches f base t.codeLines s := by
  rw [(ofText_eq_ok h).2.1, mem_lacking_iff]

/-- The lines of a text after injection: old ones, old ones that were closed, and an include
    line for each header that was added. -/
theorem codeLines_text (h : ofText f base own siblings t = .ok i)
    (hnames : ∀ s ∈ own :: siblings, NoLineEnd s.name) :
    (∀ l ∈ t.codeLines, ∃ k ∈ i.text.codeLines, k = l ∨ k = closed (endingInUse t.codeLines) l) ∧
      (∀ s ∈ i.added, line s (endingInUse t.codeLines) ∈ i.text.codeLines) ∧
      (∀ k ∈ i.text.codeLines, (∃ s ∈ i.added, k = line s (endingInUse t.codeLines)) ∨
        ∃ l ∈ t.codeLines, k = l ∨ k = closed (endingInUse t.codeLines) l) := by
  have htext := (ofText_eq_ok h).2.2
  by_cases hnone : i.added = []
  · rw [if_pos hnone] at htext
    rw [hnone, htext]
    refine ⟨fun l hl => ⟨l, hl, Or.inl rfl⟩, fun s hs => absurd hs List.not_mem_nil, ?_⟩
    exact fun k hk => Or.inr ⟨k, hk, Or.inl rfl⟩
  · rw [if_neg hnone] at htext
    have he := isEnding_endingInUse t.codeLines
    -- An include line is one line of code, since the name has no line end.
    have hnew : ∀ l ∈ i.added.map (line · (endingInUse t.codeLines)),
        codeLines l = [l] ∧ IsEnded l := by
      intro l hl
      rcases List.mem_map.mp hl with ⟨s, hs, rfl⟩
      have hname := hnames s ((mem_added_iff h).mp hs).1
      exact ⟨codeLines_append_ending he (noFeed_of_noLineEnd (isWritten_line hname).1),
        he.isEnded_append _⟩
    rw [htext, codeLines_insertLines he (fun l hl => (hnew l hl).1) (fun l hl => (hnew l hl).2)]
    refine ⟨fun l hl => exists_mem_insertLines _ _ hl, ?_, ?_⟩
    · intro s hs
      exact mem_insertLines_of_mem_new (List.mem_map_of_mem (f := (line · _)) hs)
    · intro k hk
      refine (mem_insertLines hk).imp (fun hk => ?_) id
      rcases List.mem_map.mp hk with ⟨s, hs, rfl⟩
      exact ⟨s, hs, rfl⟩

/-- After injection a line leads to the unit's own header, and one to each header beside it. -/
theorem reaches_text (h : ofText f base own siblings t = .ok i)
    (hlisted : ∀ s ∈ own :: siblings, IsListed base s) :
    ∀ s ∈ own :: siblings, Reaches f base i.text.codeLines s := by
  rcases codeLines_text h fun s hs => (hlisted s hs).quotable.noLineEnd with ⟨hkept, hadded, _⟩
  intro s hs
  by_cases hreach : Reaches f base t.codeLines s
  · rcases hreach with ⟨place, hplace, l, hl, htarget⟩
    rcases hkept l hl with ⟨k, hk, rfl | rfl⟩
    · exact ⟨place, hplace, k, hk, htarget⟩
    · exact ⟨place, hplace, _, hk,
        (target_closed f base (isEnding_endingInUse _) l).trans htarget⟩
  · rcases (ofText_eq_ok h).1.headers s hs with ⟨place, hplace⟩
    exact ⟨place, hplace, _, hadded s ((mem_added_iff h).mpr ⟨hs, hreach⟩),
      target_line (hlisted s hs) hplace _⟩

/-- After injection it is known of every line where it leads. -/
theorem target_text (h : ofText f base own siblings t = .ok i)
    (hlisted : ∀ s ∈ own :: siblings, IsListed base s) :
    ∀ l ∈ i.text.codeLines, ∃ p, target f base l = .ok p := by
  have hresolves := (ofText_eq_ok h).1
  rcases codeLines_text h fun s hs => (hlisted s hs).quotable.noLineEnd with ⟨_, _, hcases⟩
  intro k hk
  rcases hcases k hk with ⟨s, hs, rfl⟩ | ⟨l, hl, rfl | rfl⟩
  · have hmem := ((mem_added_iff h).mp hs).1
    rcases hresolves.headers s hmem with ⟨place, hplace⟩
    exact ⟨some place, target_line (hlisted s hmem) hplace _⟩
  · exact hresolves.lines k hl
  · rw [target_closed f base (isEnding_endingInUse _) l]
    exact hresolves.lines l hl

/-- Injection keeps a text settled: it writes neither directives nor markers. -/
theorem isSettled_text (h : ofText f base own siblings t = .ok i)
    (hnames : ∀ s ∈ own :: siblings, NoLineEnd s.name) (ht : IsSettled t) : IsSettled i.text := by
  rcases codeLines_text h hnames with ⟨_, _, hcases⟩
  have he := isEnding_endingInUse t.codeLines
  have hlines := isSettled_iff_codeLines.mp ht
  refine isSettled_iff_codeLines.mpr (fun k hk => ?_)
  rcases hcases k hk with ⟨s, hs, rfl⟩ | ⟨l, hl, rfl | rfl⟩
  · exact isSettled_line (hnames s ((mem_added_iff h).mp hs).1) he
  · exact hlines k hl
  · exact isSettled_closed he (codeLines_of_mem hl) (hlines l hl)

/-- If lines lead to the unit's own header and to each header beside it, nothing is added. -/
theorem ofText_of_reaches (htargets : ∀ l ∈ t.codeLines, ∃ p, target f base l = .ok p)
    (hreach : ∀ s ∈ own :: siblings, Reaches f base t.codeLines s) :
    ofText f base own siblings t = .ok ⟨t, []⟩ := by
  have hresolves : Resolves f base (own :: siblings) t := by
    refine ⟨htargets, fun s hs => ?_⟩
    rcases hreach s hs with ⟨place, hplace, _⟩
    exact ⟨place, hplace⟩
  have hnone : lacking f base (own :: siblings) t = [] :=
    List.eq_nil_iff_forall_not_mem.mpr fun s hs =>
      (mem_lacking_iff.mp hs).2 (hreach s (mem_lacking_iff.mp hs).1)
  rw [ofText_of_resolves hresolves, hnone, if_pos rfl]

end Injection

end DialectBuild
