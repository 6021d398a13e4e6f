import DialectBuild.Build.Discovery
import DialectBuild.Proofs.Naming

/-!
# The Order of Names

Names are ordered by the codes of their symbols, and names below a directory by their paths.
Different symbols have different codes and different names different paths, so two lists that
are in order and have the same members, each once, are the same list. This is why the order in
which a directory lists its entries never matters.

## Theorems

* `Text.le_trans`, `Text.le_total`, `Text.le_antisymm`: Texts are in a linear order.
* `Path.ofText_text`: A path that is written is read as the same path.
* `eq_of_pairwise_of_mem_iff`: Lists in order are equal if they have the same members.
* `Discovery.mergeSort_eq`: Sorted names below a directory depend only on which there are.
* `headersBeside_perm`: So do the headers of the sources in a directory.
-/

namespace DialectBuild

theorem Symbol.code_injective : Function.Injective Symbol.code := by
  -- No character lives where the bytes are.
  have hgap : ∀ (c : Char) (b : UInt8), c.toNat ≠ 0xDC00 + b.toNat := by
    intro c b h
    have hb := b.toNat_lt
    rcases c.valid with hc | ⟨hc, _⟩
    · have hc' : c.toNat < 0xD800 := hc
      omega
    · have hc' : 0xDFFF < c.toNat := hc
      omega
  intro x y h
  cases x with
  | char c =>
      cases y with
      | char c' => exact congrArg Symbol.char (Char.toNat_inj.mp h)
      | byte b => exact absurd h (hgap c b)
  | byte b =>
      cases y with
      | char c => exact absurd h.symm (hgap c b)
      | byte b' => exact congrArg Symbol.byte (UInt8.toNat_inj.mp (Nat.add_left_cancel h))

namespace Text

theorem codes_injective : Function.Injective codes :=
  List.map_injective_iff.mpr Symbol.code_injective

theorem le_iff {s t : Text} : le s t = true ↔ s.codes ≤ t.codes := by
  rw [le, Bool.not_eq_true', ← Bool.not_eq_true, List.lex_eq_true_iff_lt]
  exact not_lt

theorem le_trans {s t u : Text} (h : le s t = true) (h' : le t u = true) : le s u = true :=
  le_iff.mpr (Preorder.le_trans _ _ _ (le_iff.mp h) (le_iff.mp h'))

theorem le_total (s t : Text) : (le s t || le t s) = true := by
  rw [Bool.or_eq_true, le_iff, le_iff]
  exact LinearOrder.le_total _ _

theorem le_antisymm {s t : Text} (h : le s t = true) (h' : le t s = true) : s = t :=
  codes_injective (PartialOrder.le_antisymm _ _ (le_iff.mp h) (le_iff.mp h'))

theorem pairwise_mergeSort (l : List Text) : (l.mergeSort le).Pairwise (le · · = true) :=
  List.pairwise_mergeSort (fun s t u => le_trans (s := s) (t := t) (u := u)) le_total l

theorem fields_append {sep : Symbol} {x : Text} (hx : sep ∉ x) (r : Text) :
    fields sep (x ++ sep :: r) = x :: fields sep r := by
  induction x with
  | nil => rw [List.nil_append, fields, if_pos rfl]
  | cons y x ih =>
      rw [List.mem_cons, not_or] at hx
      rw [List.cons_append, fields, if_neg (Ne.symm hx.1), ih hx.2]

/-- Names that hold no slash are the fields of the path they make. -/
theorem fields_join {names : List Text} (hne : names ≠ []) (h : ∀ x ∈ names, .char '/' ∉ x) :
    fields '/' (join "/" names) = names := by
  induction names with
  | nil => exact absurd rfl hne
  | cons x names ih =>
      rcases List.forall_mem_cons.mp h with ⟨hx, h⟩
      cases names with
      | nil =>
          rw [join, List.intercalate_singleton]
          exact fields_of_not_mem hx
      | cons y names =>
          rw [join, List.intercalate_cons_cons, List.append_assoc]
          exact (fields_append hx _).trans (congrArg (x :: ·) (ih (List.cons_ne_nil y names) h))

end Text

/-- A relative path that is written is read as the same path. -/
theorem Path.ofText_text {p : Path} (h : p.IsProper) (hrel : p.anchor = .relative) :
    ofText p.text = p := by
  rcases p with ⟨anchor, parts⟩
  cases hrel
  by_cases hempty : parts = []
  · rw [hempty]
    decide
  · have htext : text ⟨.relative, parts⟩ = Text.join "/" parts :=
      if_neg fun hdot => hempty hdot.2
    have hfields := Text.fields_join hempty fun x hx => (h x hx).2
    -- The path does not start with a slash, since its first part is not empty.
    have hslash : (Text.join "/" parts).takeWhile (· == Symbol.char '/') = [] := by
      rcases hjoin : Text.join "/" parts with _ | ⟨y, r⟩
      · rfl
      · rw [List.takeWhile_cons]
        refine if_neg fun hy => ?_
        rw [hjoin, beq_iff_eq.mp hy, Text.fields, if_pos rfl] at hfields
        have hfirst := (h [] (hfields ▸ List.mem_cons_self)).1
        cases hfirst
    rw [htext, ofText, hslash, hfields, List.filter_eq_self.mpr fun x hx => (h x hx).1]
    rfl

/-- Lists that are in order are equal if they have the same members, each once. -/
theorem eq_of_pairwise_of_mem_iff {α : Type} {le : α → α → Bool} {l l' : List α}
    (hl : l.Pairwise (le · · = true)) (hl' : l'.Pairwise (le · · = true)) (hn : l.Nodup)
    (hn' : l'.Nodup) (hmem : ∀ a, a ∈ l ↔ a ∈ l')
    (hanti : ∀ a ∈ l, ∀ b ∈ l, le a b = true → le b a = true → a = b) : l = l' := by
  refine List.Perm.eq_of_pairwise ?_ hl hl' ((List.perm_ext_iff_of_nodup hn hn').mpr hmem)
  exact fun a b ha hb => hanti a ha b ((hmem b).mpr hb)

namespace Discovery

/-- Names below a directory are told apart by their paths. -/
theorem pathText_injective {a b : List Text}
    (ha : ∀ x ∈ a, Path.isPart x = true ∧ .char '/' ∉ x)
    (hb : ∀ x ∈ b, Path.isPart x = true ∧ .char '/' ∉ x) (h : pathText a = pathText b) :
    a = b := by
  have hread := congrArg Path.ofText h
  have ha' : Path.IsProper ⟨.relative, a⟩ := ha
  have hb' : Path.IsProper ⟨.relative, b⟩ := hb
  rw [pathText, pathText, Path.ofText_text ha' rfl, Path.ofText_text hb' rfl] at hread
  exact congrArg Path.parts hread

theorem pairwise_mergeSort (l : List (List Text)) : (l.mergeSort le).Pairwise (le · · = true) := by
  refine List.pairwise_mergeSort (fun a b c => ?_) (fun a b => ?_) l
  · exact Text.le_trans
  · exact Text.le_total _ _

/-- Sorted names below a directory are determined by which names there are. -/
theorem mergeSort_eq {l l' : List (List Text)} (hn : l.Nodup) (hn' : l'.Nodup)
    (hmem : ∀ names, names ∈ l ↔ names ∈ l')
    (hnames : ∀ names ∈ l, ∀ x ∈ names, Path.isPart x = true ∧ .char '/' ∉ x) :
    l.mergeSort le = l'.mergeSort le := by
  refine eq_of_pairwise_of_mem_iff (pairwise_mergeSort l) (pairwise_mergeSort l')
    ((List.mergeSort_perm l le).nodup_iff.mpr hn) ((List.mergeSort_perm l' le).nodup_iff.mpr hn')
    (fun names => by rw [List.mem_mergeSort, List.mem_mergeSort, hmem]) ?_
  intro a ha b hb hab hba
  rw [List.mem_mergeSort] at ha hb
  exact pathText_injective (hnames a ha) (hnames b hb) (Text.le_antisymm hab hba)

end Discovery

namespace Path

theorem le_iff {p q : Path} : le p q = true ↔ p.codes ≤ q.codes := by
  have hlt : (fun a b : List Nat => a.lex b (· < ·)) = fun a b => decide (a < b) := by
    funext a b
    rw [Bool.eq_iff_iff, List.lex_eq_true_iff_lt, decide_eq_true_eq]
  rw [le, hlt, Bool.not_eq_true', ← Bool.not_eq_true, List.lex_eq_true_iff_lt]
  exact not_lt

theorem pairwise_mergeSort (l : List Path) : (l.mergeSort le).Pairwise (le · · = true) := by
  refine List.pairwise_mergeSort (fun p q r hpq hqr => ?_) (fun p q => ?_) l
  · exact le_iff.mpr (Preorder.le_trans _ _ _ (le_iff.mp hpq) (le_iff.mp hqr))
  · rw [Bool.or_eq_true, le_iff, le_iff]
    exact LinearOrder.le_total _ _

theorem codes_child (p : Path) (x : Text) : (p.child x).codes = p.codes ++ [x.codes] := by
  have habsolute : (p.child x).isAbsolute = p.isAbsolute := rfl
  have hanchor : (p.child x).anchor = p.anchor := rfl
  rw [codes, codes, habsolute, hanchor, child, ← List.append_assoc, List.map_append]
  rfl

/-- Paths in one directory are told apart by their order. -/
theorem le_antisymm_child {p : Path} {x y : Text} (h : le (p.child x) (p.child y) = true)
    (h' : le (p.child y) (p.child x) = true) : p.child x = p.child y := by
  have hcodes := PartialOrder.le_antisymm _ _ (le_iff.mp h) (le_iff.mp h')
  rw [codes_child, codes_child] at hcodes
  rw [Text.codes_injective (List.singleton_inj.mp (List.append_cancel_left hcodes))]

end Path

theorem nodup_eraseDups {α : Type} [BEq α] [LawfulBEq α] (l : List α) : l.eraseDups.Nodup := by
  induction hn : l.length using Nat.strong_induction_on generalizing l with
  | _ n ih =>
      cases l with
      | nil => exact List.nodup_nil
      | cons a l =>
          rw [List.eraseDups_cons, List.nodup_cons, List.mem_eraseDups, List.mem_filter]
          refine ⟨fun h => ?_, ih _ ?_ _ rfl⟩
          · rw [BEq.rfl] at h
            exact Bool.false_ne_true h.2
          · rw [← hn, List.length_cons]
            exact Nat.lt_succ_of_le (List.length_filter_le _ l)

/-- The headers beside that of a unit can be told if the sources there have names. -/
theorem exists_headersBeside (source : Path) {sources : List Path}
    (h : ∀ s ∈ sources, s.parent = source.parent → s.parts ≠ []) :
    ∃ headers, headersBeside source sources = .ok headers := by
  have hsiblings : ∀ s ∈ sources.filter fun s => s.parent = source.parent ∧ s ≠ source,
      ∃ p, sibling s (s.name ++ ".h") = .ok p := by
    intro s hs
    rcases List.mem_filter.mp hs with ⟨hmem, hbeside⟩
    exact ⟨_, sibling_eq_ok_iff.mpr ⟨h s hmem (of_decide_eq_true hbeside).1, rfl⟩⟩
  rcases Outcome.exists_map_eq_of_forall hsiblings with ⟨headers, hheaders⟩
  exact ⟨_, Outcome.bind_eq_ok_iff.mpr ⟨headers, Outcome.mapM_eq_ok_iff.mpr hheaders, rfl⟩⟩

/-- The headers beside that of a unit are in order, each once. -/
theorem pairwise_headersBeside {source : Path} {sources hs : List Path}
    (h : headersBeside source sources = .ok hs) :
    hs.Pairwise fun p q => Path.le p q = true ∧ p ≠ q := by
  simp only [headersBeside, Outcome.bind_eq_ok_iff, Outcome.pure_eq_ok_iff] at h
  rcases h with ⟨headers, _, rfl⟩
  exact (Path.pairwise_mergeSort _).and
    ((List.mergeSort_perm _ _).nodup_iff.mpr (nodup_eraseDups headers))

/-- The headers beside that of a unit depend only on which sources there are. -/
theorem headersBeside_perm {source : Path} {sources sources' hs : List Path}
    (hperm : sources'.Perm sources) (h : headersBeside source sources = .ok hs) :
    headersBeside source sources' = .ok hs := by
  -- Each of the sources has a header, whatever the order.
  have hexists : ∃ hs', headersBeside source sources' = .ok hs' := by
    simp only [headersBeside, Outcome.bind_eq_ok_iff, Outcome.mapM_eq_ok_iff] at h
    rcases h with ⟨headers, hmap, _⟩
    have heach : ∀ s ∈ sources'.filter fun s => s.parent = source.parent ∧ s ≠ source,
        ∃ p, sibling s (s.name ++ ".h") = .ok p :=
      fun s hs => Outcome.exists_ok_of_map_eq hmap s ((hperm.filter _).mem_iff.mp hs)
    rcases Outcome.exists_map_eq_of_forall heach with ⟨headers', hmap'⟩
    exact ⟨_, Outcome.bind_eq_ok_iff.mpr ⟨headers', Outcome.mapM_eq_ok_iff.mpr hmap', rfl⟩⟩
  rcases hexists with ⟨hs', h'⟩
  have hsorted : ∀ {sources hs}, headersBeside source sources = .ok hs →
      hs.Pairwise (Path.le · · = true) ∧ hs.Nodup :=
    fun h => List.pairwise_and_iff.mp (pairwise_headersBeside h)
  rw [h']
  refine congrArg _ (eq_of_pairwise_of_mem_iff (hsorted h').1 (hsorted h).1 (hsorted h').2
    (hsorted h).2 (fun p => ?_) fun p hp q hq hpq hqp => ?_)
  · simp only [mem_headersBeside_iff h', mem_headersBeside_iff h, hperm.mem_iff]
  · rcases (mem_headersBeside_iff h').mp hp with ⟨s, _, _, _, _, rfl⟩
    rcases (mem_headersBeside_iff h').mp hq with ⟨s', _, _, _, _, rfl⟩
    exact Path.le_antisymm_child hpq hqp

end DialectBuild
