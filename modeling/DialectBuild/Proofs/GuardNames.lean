import DialectBuild.Header
import DialectBuild.Path
import Mathlib

/-!
# Headers That Share a Guard

When two headers with the same file name, in different directories of a project, have different
guards. A guard is made from the path symbol by symbol, and none of the three things that
happen to a symbol can be undone: a slash becomes two underscores, which may also stand in a
name; a symbol that cannot stand in a macro becomes an underscore like any other; and letters
become capitals, which several of them may share.

These are the only reasons. Two directories give the same guards exactly if the one can be
respelled as the other in these three ways. Where names show no underscores next to each other
or at their end, the slashes can be told from the names again, and it is enough that no symbol
of the one directory looks like another symbol of the other one.

## Main definitions

* `Path.below`: A file below the project root.
* `Header.look`: How a text shows in a guard.
* `Header.Respelled`: One text made from another that looks the same.
* `Header.IsTidy`: A name that shows no underscores where a slash would.
* `Header.ToldApart`: Directories without symbols that look like each other.

## Theorems

* `Header.eqvGen_respelled_iff`: Texts look the same exactly if they are respellings.
* `Header.map_look_of_isTidy`: Between tidy names slashes are seen.
* `Header.guardName_below_eq_iff`: When headers share a guard, and when they never do.
-/

namespace DialectBuild

/-- The path of a file below the project root, by the directories on the way to it. -/
def Path.below (dirs : List Text) (file : Text) : Path :=
  ⟨.relative, dirs ++ [file]⟩

namespace Header

/-- The directories of a path, each with the slash after it. -/
def lead (dirs : List Text) : Text :=
  dirs.flatMap (· ++ "/")

theorem text_below (dirs : List Text) (file : Text) :
    (Path.below dirs file).text = lead dirs ++ file := by
  have hjoin : Text.join "/" (dirs ++ [file]) = lead dirs ++ file := by
    induction dirs with
    | nil => exact List.intercalate_singleton
    | cons x dirs ih =>
        rcases List.exists_cons_of_ne_nil (List.concat_ne_nil file dirs) with ⟨y, more, hmore⟩
        rw [hmore, Text.join] at ih
        rw [List.cons_append, hmore, Text.join, List.intercalate_cons_cons, ih, lead, lead,
          List.flatMap_cons]
        simp only [List.append_assoc]
  unfold Path.text
  rw [if_neg fun h => List.append_ne_nil_of_right_ne_nil dirs (List.cons_ne_nil file []) h.2]
  exact hjoin

/-- How a symbol of a path shows in a guard. -/
def shown (x : Symbol) : Text :=
  if x = Symbol.char '/' then "__" else if x.isWord then x.capitals else "_"

/-- How a text shows in a guard. -/
def look (t : Text) : Text :=
  t.flatMap shown

theorem look_append (s t : Text) : look (s ++ t) = look s ++ look t :=
  List.flatMap_append

theorem look_cons (x : Symbol) (t : Text) : look (x :: t) = shown x ++ look t :=
  List.flatMap_cons

theorem guardName_eq (key : Text) : guardName key = "CZ_" ++ look key := by
  rw [guardName, Text.capitalized, List.flatMap_assoc, look]
  congr 2
  funext x
  unfold shown
  split
  · rfl
  · split
    · rw [List.flatMap_cons, List.flatMap_nil, List.append_nil]
    · rfl

theorem look_of_isWord {t : Text} (h : ∀ x ∈ t, x.isWord = true) : look t = t.capitalized := by
  refine List.flatMap_congr fun x hx => ?_
  have hslash : x ≠ Symbol.char '/' := by
    rintro rfl
    exact absurd (h _ hx) (by decide)
  rw [shown, if_neg hslash, if_pos (h x hx)]

/-- One text is made from another by a step that a guard does not show. -/
inductive Respelled : Text → Text → Prop where
  /-- A slash looks like two underscores. -/
  | slash (a b : Text) : Respelled (a ++ ("/" ++ b)) (a ++ ("__" ++ b))
  /-- A symbol that cannot stand in a macro looks like an underscore. -/
  | mark (a b : Text) {x : Symbol} (hslash : x ≠ '/') (hword : x.isWord = false) :
      Respelled (a ++ ([x] ++ b)) (a ++ ("_" ++ b))
  /-- Letters look like others that have the same capitals. -/
  | letters (a b : Text) {s t : Text} (hs : ∀ x ∈ s, x.isWord = true)
      (ht : ∀ x ∈ t, x.isWord = true) (hcapitals : s.capitalized = t.capitalized) :
      Respelled (a ++ (s ++ b)) (a ++ (t ++ b))

theorem Respelled.look_eq {s t : Text} (h : Respelled s t) : look s = look t := by
  cases h with
  | slash a b => simp only [look_append]; rfl
  | @mark a b x hslash hword =>
      have hshown : look [x] = look "_" := by
        rw [look, List.flatMap_singleton, shown, if_neg hslash, hword, if_neg Bool.false_ne_true]
        rfl
      simp only [look_append, hshown]
  | letters a b hs ht hcapitals =>
      simp only [look_append, look_of_isWord hs, look_of_isWord ht, hcapitals]

theorem Respelled.append_left {s t : Text} (h : Respelled s t) (u : Text) :
    Respelled (u ++ s) (u ++ t) := by
  cases h with
  | slash a b =>
      rw [← List.append_assoc, ← List.append_assoc u]
      exact slash (u ++ a) b
  | mark a b hslash hword =>
      rw [← List.append_assoc, ← List.append_assoc u]
      exact mark (u ++ a) b hslash hword
  | letters a b hs ht hcapitals =>
      rw [← List.append_assoc, ← List.append_assoc u]
      exact letters (u ++ a) b hs ht hcapitals

theorem eqvGen_append_left {s t : Text} (h : Relation.EqvGen Respelled s t) (u : Text) :
    Relation.EqvGen Respelled (u ++ s) (u ++ t) := by
  induction h with
  | rel s t h => exact .rel _ _ (h.append_left u)
  | refl s => exact .refl _
  | symm s t _ ih => exact .symm _ _ ih
  | trans s t r _ _ ih ih' => exact .trans _ _ _ ih ih'

/-- Every text is a respelling of one that could stand in a macro but for its case. -/
theorem exists_words (t : Text) :
    ∃ w : Text, (∀ x ∈ w, x.isWord = true) ∧ Relation.EqvGen Respelled t w := by
  induction t with
  | nil => exact ⟨[], by simp, .refl _⟩
  | cons x t ih =>
      rcases ih with ⟨w, hw, ht⟩
      -- The rest is respelled behind the symbol, and then the symbol in front of it.
      have hrest := eqvGen_append_left ht [x]
      by_cases hslash : x = Symbol.char '/'
      · refine ⟨"__" ++ w, ?_, .trans _ _ _ hrest ?_⟩
        · simp only [List.forall_mem_append]
          exact ⟨by decide, hw⟩
        · rw [hslash]
          exact .rel _ _ (.slash [] w)
      · by_cases hword : x.isWord = true
        · exact ⟨x :: w, List.forall_mem_cons.mpr ⟨hword, hw⟩, hrest⟩
        · rw [Bool.not_eq_true] at hword
          refine ⟨"_" ++ w, ?_, .trans _ _ _ hrest (.rel _ _ (.mark [] w hslash hword))⟩
          simp only [List.forall_mem_append]
          exact ⟨by decide, hw⟩

/-- Texts look the same exactly if the one can be respelled as the other. -/
theorem eqvGen_respelled_iff {s t : Text} : Relation.EqvGen Respelled s t ↔ look s = look t := by
  have hlook : ∀ {s t : Text}, Relation.EqvGen Respelled s t → look s = look t := by
    intro s t h
    induction h with
    | rel s t h => exact h.look_eq
    | refl s => rfl
    | symm s t _ ih => exact ih.symm
    | trans s t r _ _ ih ih' => exact ih.trans ih'
  refine ⟨hlook, fun h => ?_⟩
  rcases exists_words s with ⟨v, hv, hsv⟩
  rcases exists_words t with ⟨w, hw, htw⟩
  have hcapitals : v.capitalized = w.capitalized := by
    rw [← look_of_isWord hv, ← look_of_isWord hw, ← hlook hsv, ← hlook htw, h]
  have hvw := Respelled.letters [] [] hv hw hcapitals
  rw [List.append_nil, List.append_nil, List.nil_append, List.nil_append] at hvw
  exact .trans _ _ _ hsv (.trans _ _ _ (.rel _ _ hvw) (.symm _ _ htw))

/-- A name that shows no two underscores in a row and none at its end. -/
def IsTidy (name : Text) : Prop :=
  ¬ ("__" : Text) <:+: look name ∧ ¬ ("_" : Text) <:+ look name

instance (name : Text) : Decidable (IsTidy name) :=
  inferInstanceAs (Decidable (¬ ("__" : Text) <:+: look name ∧ ¬ ("_" : Text) <:+ look name))

/-- What is before the first two underscores does not go on with them. -/
theorem eq_nil_of_underscores {a u r s : Text} (hrow : ¬ ("__" : Text) <:+: a ++ u)
    (hlast : ¬ ("_" : Text) <:+ a ++ u) (h : "__" ++ r = u ++ ("__" ++ s)) : u = [] := by
  have hunderscores : ("__" : Text) = [.char '_', .char '_'] := rfl
  rw [hunderscores, List.cons_append, List.cons_append, List.nil_append] at h
  rcases u with _ | ⟨x, _ | ⟨y, u⟩⟩
  · rfl
  · rw [List.cons_append, List.cons.injEq] at h
    rw [← h.1] at hlast
    exact absurd (List.suffix_append a _) hlast
  · rw [List.cons_append, List.cons_append, List.cons.injEq, List.cons.injEq] at h
    rw [← h.1, ← h.2.1] at hrow
    exact absurd ⟨a, u, List.append_assoc a _ u⟩ hrow

/-- A tidy name is known from what a guard shows of it and of what follows. -/
theorem look_eq_of_isTidy {a b r s : Text} (ha : IsTidy a) (hb : IsTidy b)
    (h : look a ++ ("__" ++ r) = look b ++ ("__" ++ s)) : look a = look b ∧ r = s := by
  have heq : look a = look b := by
    rcases List.append_eq_append_iff.mp h with ⟨u, hu, hrest⟩ | ⟨u, hu, hrest⟩
    · rw [eq_nil_of_underscores (hu ▸ hb.1) (hu ▸ hb.2) hrest, List.append_nil] at hu
      exact hu.symm
    · rw [eq_nil_of_underscores (hu ▸ ha.1) (hu ▸ ha.2) hrest, List.append_nil] at hu
      exact hu
  rw [heq] at h
  exact ⟨heq, List.append_cancel_left (List.append_cancel_left h)⟩

theorem look_lead_cons (name : Text) (dirs : List Text) :
    look (lead (name :: dirs)) = look name ++ ("__" ++ look (lead dirs)) := by
  rw [lead, List.flatMap_cons, ← lead, look_append, look_append, List.append_assoc]
  rfl

/-- Between tidy names slashes are seen, so that directories that look the same do so name by
    name. -/
theorem map_look_of_isTidy {d₁ d₂ : List Text} (h₁ : ∀ name ∈ d₁, IsTidy name)
    (h₂ : ∀ name ∈ d₂, IsTidy name) (h : look (lead d₁) = look (lead d₂)) :
    d₁.map look = d₂.map look := by
  induction d₁ generalizing d₂ with
  | nil =>
      cases d₂ with
      | nil => rfl
      | cons name d₂ =>
          rw [look_lead_cons] at h
          exact absurd h.symm (List.append_ne_nil_of_right_ne_nil _ (List.cons_ne_nil _ _))
  | cons name d₁ ih =>
      cases d₂ with
      | nil =>
          rw [look_lead_cons] at h
          exact absurd h (List.append_ne_nil_of_right_ne_nil _ (List.cons_ne_nil _ _))
      | cons name' d₂ =>
          rcases List.forall_mem_cons.mp h₁ with ⟨hname, h₁⟩
          rcases List.forall_mem_cons.mp h₂ with ⟨hname', h₂⟩
          rw [look_lead_cons, look_lead_cons] at h
          -- A tidy name is told apart from the mark after it, so the first names look the same, and
          -- the rest too.
          rcases look_eq_of_isTidy hname hname' h with ⟨hlook, hrest⟩
          rw [List.map_cons, List.map_cons, hlook, ih h₁ h₂ hrest]

theorem capitals_ne_nil (x : Symbol) : x.capitals ≠ [] := by
  cases x with
  | byte b => exact List.cons_ne_nil _ _
  | char c =>
      have htable : ∀ row ∈ Property.multipleCapitals, row.2 ≠ [] := by decide +kernel
      rw [Symbol.capitals, ne_eq, List.map_eq_nil_iff, Property.capitals]
      split
      · exact List.cons_ne_nil _ _
      · split
        next row codes hrow =>
          rw [List.map_eq_nil_iff]
          exact htable _ (Array.mem_of_find?_eq_some hrow)
        next =>
          split
          · exact List.cons_ne_nil _ _
          · exact List.cons_ne_nil _ _

theorem shown_ne_nil (x : Symbol) : shown x ≠ [] := by
  unfold shown
  split
  · exact List.cons_ne_nil _ _
  · split
    · exact capitals_ne_nil x
    · exact List.cons_ne_nil _ _

/-- No symbol of the one directory shows in a guard like another one of the other directory, or
    like the beginning of it. -/
def ToldApart (d₁ d₂ : List Text) : Prop :=
  ∀ x ∈ d₁.flatten, ∀ y ∈ d₂.flatten, shown x <+: shown y ∨ shown y <+: shown x → x = y

instance (d₁ d₂ : List Text) : Decidable (ToldApart d₁ d₂) :=
  inferInstanceAs (Decidable (∀ x ∈ d₁.flatten, ∀ y ∈ d₂.flatten,
    shown x <+: shown y ∨ shown y <+: shown x → x = y))

/-- Texts that look the same are the same if their symbols are told apart. -/
theorem eq_of_look_eq {s t : Text}
    (hst : ∀ x ∈ s, ∀ y ∈ t, shown x <+: shown y ∨ shown y <+: shown x → x = y)
    (h : look s = look t) : s = t := by
  induction s generalizing t with
  | nil =>
      cases t with
      | nil => rfl
      | cons y t =>
          rw [look_cons] at h
          exact absurd h.symm (List.append_ne_nil_of_left_ne_nil (shown_ne_nil y) _)
  | cons x s ih =>
      cases t with
      | nil =>
          rw [look_cons] at h
          exact absurd h (List.append_ne_nil_of_left_ne_nil (shown_ne_nil x) _)
      | cons y t =>
          rw [look_cons, look_cons] at h
          -- Both symbols show at the front of one text, so one of them shows at the front of the
          -- other.
          have hxy : x = y := by
            refine hst x List.mem_cons_self y List.mem_cons_self ?_
            exact List.prefix_or_prefix_of_prefix (List.prefix_append _ (look s))
              (h ▸ List.prefix_append _ _)
          rw [hxy] at h
          rw [hxy, ih (fun a ha b hb => hst a (List.mem_cons_of_mem x ha) b
            (List.mem_cons_of_mem y hb)) (List.append_cancel_left h)]

theorem eq_of_map_look_eq {d₁ d₂ : List Text} (hapart : ToldApart d₁ d₂)
    (h : d₁.map look = d₂.map look) : d₁ = d₂ := by
  induction d₁ generalizing d₂ with
  | nil => exact (List.map_eq_nil_iff.mp h.symm).symm
  | cons name d₁ ih =>
      cases d₂ with
      | nil => cases h
      | cons name' d₂ =>
          rcases List.cons.inj h with ⟨hname, hrest⟩
          have hfirst : name = name' := eq_of_look_eq (fun x hx y hy =>
            hapart x (List.mem_append_left _ hx) y (List.mem_append_left _ hy)) hname
          rw [hfirst, ih (fun x hx y hy =>
            hapart x (List.mem_append_right _ hx) y (List.mem_append_right _ hy)) hrest]

/-- Headers with the same file name share a guard exactly if one of their directories can be
    respelled as the other. They never do if the directories are different, all names are tidy
    and the symbols are told apart. -/
theorem guardName_below_eq_iff (d₁ d₂ : List Text) (file : Text) :
    (guardName (Path.below d₁ file).text = guardName (Path.below d₂ file).text ↔
      Relation.EqvGen Respelled (lead d₁) (lead d₂)) ∧
    ((∀ name ∈ d₁ ++ d₂, IsTidy name) → ToldApart d₁ d₂ → d₁ ≠ d₂ →
      guardName (Path.below d₁ file).text ≠ guardName (Path.below d₂ file).text) := by
  have hlook : guardName (Path.below d₁ file).text = guardName (Path.below d₂ file).text ↔
      look (lead d₁) = look (lead d₂) := by
    rw [guardName_eq, guardName_eq, text_below, text_below, look_append, look_append,
      List.append_cancel_left_eq, List.append_cancel_right_eq]
  refine ⟨hlook.trans eqvGen_respelled_iff.symm, fun htidy hapart hne h => hne ?_⟩
  rcases List.forall_mem_append.mp htidy with ⟨h₁, h₂⟩
  exact eq_of_map_look_eq hapart (map_look_of_isTidy h₁ h₂ (hlook.mp h))

/-- A slash and an underscore in the same place are told apart. -/
theorem guardName_below_nested :
    (∀ name ∈ (["lib", "util"] ++ ["lib_util"] : List Text), IsTidy name) ∧
    ToldApart ["lib", "util"] ["lib_util"] ∧
    guardName (Path.below ["lib", "util"] "f.cz.h").text ≠
      guardName (Path.below ["lib_util"] "f.cz.h").text := by
  have htidy : ∀ name ∈ (["lib", "util"] ++ ["lib_util"] : List Text), IsTidy name := by decide
  have hapart : ToldApart ["lib", "util"] ["lib_util"] := by decide
  exact ⟨htidy, hapart, (guardName_below_eq_iff _ _ "f.cz.h").2 htidy hapart (by decide)⟩

/-- Two underscores look like a slash, a hyphen like an underscore, and a capital like a small
    letter. -/
theorem guardName_below_shared :
    guardName (Path.below ["a", "b"] "f.cz.h").text =
      guardName (Path.below ["a__b"] "f.cz.h").text ∧
    guardName (Path.below ["a-b"] "f.cz.h").text = guardName (Path.below ["a_b"] "f.cz.h").text ∧
    guardName (Path.below ["lib"] "f.cz.h").text = guardName (Path.below ["Lib"] "f.cz.h").text ∧
    (["a", "b"] : List Text) ≠ ["a__b"] ∧ (["a-b"] : List Text) ≠ ["a_b"] ∧
    (["lib"] : List Text) ≠ ["Lib"] := by
  decide

end Header

end DialectBuild
