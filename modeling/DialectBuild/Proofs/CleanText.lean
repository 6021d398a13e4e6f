import DialectBuild.Proofs.ByteLines
import DialectBuild.Proofs.Leftovers
import DialectBuild.Proofs.MarkerSpelling

/-!
# Texts That May Be Compiled

A text is clean if it has no directives and if its bytes are read as the same lines again. What
is left of any bytes after stripping is clean, and a clean text stays so when its imports are
expanded and includes are added to it.

The two properties have to go together. That no line of a text is a directive says something
about the bytes on disk only if no symbol of the text is written as a line end or as part of a
directive without being one. Expansion and injection write symbols of the text they are given,
characters of their own, and names of headers. So the names are all that has to be asked for,
and names that are read from bytes without line ends will do.

## Main definitions

* `Text.IsClean`: A text without directives that is legible.
* `Text.IsOneLine`: A name that is made of bytes without line ends.
* `Text.FitsLine`: A name that can stand on a line.
* `Files.HeadersFit`: The names of generated headers can stand on a line.

## Theorems

* `Stripped.isClean_text`: What is left after stripping is clean.
* `Expansion.isLegible_text`, `Injection.isLegible_text`: Expansion and injection write legible
  texts.
* `Expansion.fitsLine_of_mem_imports`: What is imported are headers of the directories named.
* `Injection.isClean_text`: Expansion and injection keep a text clean.
-/

namespace DialectBuild

open Text

namespace Text

theorem isLegible_of_isBlankRun {t : Text} (h : IsBlankRun t) : IsLegible t := by
  intro b hb
  rcases Directive.isSpaceOrTab_iff.mp (h _ hb) with hb | hb
  · cases hb
  · cases hb

theorem IsEnding.isLegible {e : Text} (h : IsEnding e) : IsLegible e := by
  rcases h with rfl | rfl
  · exact isLegible_ofString "\n"
  · exact isLegible_ofString "\r\n"

theorem isLegible_join {sep : Text} {ts : List Text} (hsep : IsLegible sep)
    (hts : ∀ t ∈ ts, IsLegible t) : IsLegible (join sep ts) := by
  intro b hb
  rcases mem_of_mem_join hb with hb | ⟨t, ht, hb⟩
  · exact hsep b hb
  · exact hts t ht b hb

theorem isLegible_of_mem_codeLines {t l : Text} (ht : IsLegible t) (hl : l ∈ t.codeLines) :
    IsLegible l := by
  rw [← flatten_codeLines t] at ht
  exact isLegible_flatten.mp ht l hl

/-- A name that is made of bytes, none of which ends a line. -/
def IsOneLine (t : Text) : Prop :=
  ∃ bs, Encoding.decode bs = t ∧ ∀ b ∈ bs, b ≠ 0x0D ∧ b ≠ 0x0A

/-- A name that can stand on a line. -/
structure FitsLine (t : Text) : Prop where
  /-- It is legible. -/
  legible : IsLegible t
  /-- It does not end the line. -/
  noLineEnd : NoLineEnd t

theorem FitsLine.append {t r : Text} (ht : FitsLine t) (hr : FitsLine r) : FitsLine (t ++ r) :=
  ⟨isLegible_append.mpr ⟨ht.legible, hr.legible⟩,
    noLineEnd_append.mpr ⟨ht.noLineEnd, hr.noLineEnd⟩⟩

/-- A line end in a text is a line end among its bytes. -/
theorem IsOneLine.fitsLine {t : Text} (h : IsOneLine t) : FitsLine t := by
  rcases h with ⟨bs, rfl, hbs⟩
  refine ⟨Encoding.isLegible_decode bs, fun x hx => ?_⟩
  -- The bytes of a symbol are among those that it was read from.
  have hbytes : ∀ b ∈ Encoding.encodeSymbol x, b ≠ 0x0D ∧ b ≠ 0x0A := by
    intro b hb
    refine hbs b ?_
    rw [← Encoding.encode_decode bs]
    exact List.mem_flatMap.mpr ⟨x, hx, hb⟩
  rw [Symbol.isLineEnd, Bool.or_eq_false_iff, decide_eq_false_iff_not, decide_eq_false_iff_not]
  constructor
  · rintro rfl
    exact (hbytes 0x0D (List.mem_singleton_self _)).1 rfl
  · rintro rfl
    exact (hbytes 0x0A (List.mem_singleton_self _)).2 rfl

/-- A text without directives whose bytes are read as the same lines again. -/
structure IsClean (t : Text) : Prop where
  /-- It is legible. -/
  legible : IsLegible t
  /-- None of its lines is a directive. -/
  free : IsDirectiveFree t

end Text

/-- What is left of bytes after stripping is clean. -/
theorem Stripped.isClean_text (n : BufferSize) (bs : Bytes) :
    IsClean (ofText n (Encoding.decode bs)).text where
  legible := by
    have hlegible := Encoding.isLegible_decode bs
    rw [← flatten_logicalLines (Encoding.decode bs), isLegible_flatten] at hlegible
    rw [stripped_ofText, isLegible_flatten]
    exact fun l hl => hlegible l (List.mem_filter.mp hl).1
  free := isDirectiveFree_text n _

/-- The path of a marker stands on its line. -/
theorem Marker.modulePath_subset {line : Text} {m : Marker} (h : ofLine? line = some m)
    (hfeed : .char '\n' ∉ line) : m.modulePath ⊆ line := by
  intro x hx
  cases spelled_of_ofLine? h hfeed with
  | bare => simp [words, hx]
  | line => simp [words, hx]
  | block => simp [words, hx]

namespace ExpandedLine

theorem isLegible_remark {indent path reason : Text} (hi : IsLegible indent) (hp : IsLegible path)
    (hr : IsLegible reason) : IsLegible (remark indent path reason) := by
  simp only [remark, isLegible_append]
  exact ⟨⟨⟨⟨⟨hi, isLegible_ofString _⟩, hp⟩, isLegible_ofString _⟩, hr⟩, isLegible_ofString _⟩

theorem isLegible_includeLines {indent path ending : Text} {headers : List Path}
    (hi : IsLegible indent) (hp : IsLegible path) (he : IsLegible ending)
    (hq : ∀ h ∈ headers, IsLegible h.name) :
    IsLegible (includeLines indent path ending headers) := by
  have hstem : IsLegible (trimEnd (· == .char '/') path) :=
    hp.subset fun _ hx => mem_of_mem_trimEnd hx
  have hbetween : IsLegible (if ending.isEmpty then "\n" else ending) := by
    by_cases hempty : ending.isEmpty = true
    · rw [if_pos hempty]
      exact isLegible_ofString _
    · rw [if_neg hempty]
      exact he
  refine isLegible_join hbetween fun l hl => ?_
  rcases List.mem_map.mp hl with ⟨h, hh, rfl⟩
  simp only [isLegible_append]
  exact ⟨⟨⟨⟨⟨hi, isLegible_ofString _⟩, hstem⟩, isLegible_ofString _⟩, hq h hh⟩,
    isLegible_ofString _⟩

variable {f : Files} {base : Path} {known : List Place} {n : Nat} {source : Text}
  {x : ExpandedLine}

/-- What a legible line becomes is legible. -/
theorem isLegible_of_becomes (h : Becomes f base known n source x)
    (hline : codeLines source = [source]) (ht : IsLegible source)
    (hq : ∀ i ∈ x.request, ∀ h ∈ i.headers, IsLegible h.name) : IsLegible x.text := by
  rcases splitEnding_of_codeLines hline with ⟨b, e, hsource, hsplit, hfeed, _⟩
  rw [hsource, isLegible_append] at ht
  rcases ht with ⟨hb, he⟩
  have hsnd : source.splitEnding.2 = e := by rw [hsplit]
  -- The parts of a marker are legible, and so is whatever is made of them.
  have hparts : ∀ m, Marker.ofLine? source.splitEnding.1 = some m →
      IsLegible m.indent ∧ IsLegible m.modulePath := by
    intro m hm
    rw [hsplit] at hm
    exact ⟨isLegible_of_isBlankRun (Marker.isBlankRun_indent hm),
      hb.subset (Marker.modulePath_subset hm hfeed)⟩
  have hremark : ∀ m path reason, Marker.ofLine? source.splitEnding.1 = some m →
      IsLegible path → IsLegible reason → IsLegible (remark m.indent path reason ++ e) :=
    fun m _ _ hm hp hr => isLegible_append.mpr ⟨isLegible_remark (hparts m hm).1 hp hr, he⟩
  cases h with
  | plain _ =>
      rw [hsource]
      exact isLegible_append.mpr ⟨hb, he⟩
  | blank hm _ =>
      rw [hsnd]
      exact hremark _ [] _ hm (isLegible_ofString "") (isLegible_ofString _)
  | again hm _ _ _ =>
      rw [hsnd]
      exact hremark _ _ _ hm (hparts _ hm).2 (isLegible_ofString _)
  | missing hm _ _ _ _ =>
      rw [hsnd]
      exact hremark _ _ _ hm (hparts _ hm).2 (isLegible_ofString _)
  | bare hm _ _ _ _ _ =>
      rw [hsnd]
      exact hremark _ _ _ hm (hparts _ hm).2 (isLegible_ofString _)
  | found hm _ _ _ _ _ _ =>
      rw [hsnd]
      rcases hparts _ hm with ⟨hindent, hpath⟩
      exact isLegible_append.mpr ⟨isLegible_includeLines hindent hpath he (hq _ rfl), he⟩

/-- What a line imports are the headers of a directory. -/
theorem headersIn_of_becomes (h : Becomes f base known n source x) {i : Import}
    (hi : i ∈ x.request) : i.headers = [] ∨ ∃ dir, f.headersIn dir = .ok i.headers := by
  cases h with
  | plain _ => cases hi
  | again _ _ _ _ => cases hi
  | found _ _ _ _ _ hh _ =>
      cases hi
      exact Or.inr ⟨_, hh⟩
  | _ =>
      cases hi
      exact Or.inl rfl

end ExpandedLine

namespace Files

/-- The names of generated headers can stand on a line. -/
def HeadersFit (f : Files) : Prop :=
  ∀ place x b, f.tree.find? (place ++ [x]) = some (.file b) → x.endsWith headerEnding = true →
    x.FitsLine

theorem HeadersFit.of_headersIn {f : Files} (h : f.HeadersFit) (hl : f.IsLinkless)
    (hsound : f.tree.IsSound) {dir : Path} {headers : List Path}
    (hheaders : f.headersIn dir = .ok headers) : ∀ p ∈ headers, p.name.FitsLine := by
  rcases headersIn_eq_ok hl hsound hheaders with ⟨names, rfl, _, _, hnames, _⟩
  intro p hp
  rcases List.mem_map.mp hp with ⟨x, hx, rfl⟩
  rcases (hnames x).mp hx with ⟨hlisted, hfile, hends⟩
  rcases (isFile_iff hl).mp hfile with ⟨b, hspot⟩
  have hfind := find?_of_spot hl hspot
  rw [placeOf_child (hsound.plain_of_mem_names hlisted)] at hfind
  rw [Path.name_child]
  exact h _ x b hfind hends

end Files

namespace Expansion

variable {f : Files} {base : Path} {known : List Place} {n : Nat} {ls : List Text} {t : Text}

/-- What lines import are the headers of directories. -/
theorem headersIn_of_mem_imports {i : Import} (hi : i ∈ (ofLines f base known n ls).imports) :
    i.headers = [] ∨ ∃ dir, f.headersIn dir = .ok i.headers := by
  induction ls generalizing known n with
  | nil => exact absurd hi List.not_mem_nil
  | cons l ls ih =>
      rw [ofLines] at hi
      rcases hx : ExpandedLine.ofLine f base known n l with e | x
      · rw [hx] at hi
        exact absurd hi List.not_mem_nil
      · rw [hx] at hi
        rcases mem_imports_cons.mp hi with hi | hi
        · exact ExpandedLine.headersIn_of_becomes (ExpandedLine.becomes_of_ofLine hx) hi
        · exact ih hi

/-- Headers that are imported have names that can stand on a line, if all headers have. -/
theorem fitsLine_of_mem_imports (hfit : f.HeadersFit) (hl : f.IsLinkless) (hsound : f.tree.IsSound)
    {i : Import} (hi : i ∈ (ofText f base t).imports) : ∀ h ∈ i.headers, h.name.FitsLine := by
  rcases headersIn_of_mem_imports hi with hnone | ⟨dir, hheaders⟩
  · rw [hnone]
    exact fun h hh => absurd hh List.not_mem_nil
  · exact hfit.of_headersIn hl hsound hheaders

theorem isLegible_ofLines (hline : ∀ l ∈ ls, codeLines l = [l]) (hls : ∀ l ∈ ls, IsLegible l)
    (hq : ∀ i ∈ (ofLines f base known n ls).imports, ∀ h ∈ i.headers, IsLegible h.name) :
    IsLegible (ofLines f base known n ls).text := by
  induction ls generalizing known n with
  | nil => exact isLegible_ofString ""
  | cons l ls ih =>
      rcases List.forall_mem_cons.mp hline with ⟨hl, hline⟩
      rcases List.forall_mem_cons.mp hls with ⟨hlegible, hls⟩
      rw [ofLines] at hq ⊢
      -- A line that fails ends the text; any other is legible as the line it becomes.
      rcases hx : ExpandedLine.ofLine f base known n l with e | x
      · exact isLegible_ofString ""
      · rw [hx] at hq
        have hxq : ∀ i ∈ x.request, ∀ h ∈ i.headers, IsLegible h.name :=
          fun i hi => hq i (mem_imports_cons.mpr (Or.inl hi))
        dsimp only
        rw [text, List.map_cons, List.flatten_cons, isLegible_append]
        refine ⟨ExpandedLine.isLegible_of_becomes (ExpandedLine.becomes_of_ofLine hx) hl hlegible
          hxq, ih hline hls fun i hi => hq i (mem_imports_cons.mpr (Or.inr hi))⟩

/-- What a legible text becomes is legible. -/
theorem isLegible_text (ht : IsLegible t)
    (hq : ∀ i ∈ (ofText f base t).imports, ∀ h ∈ i.headers, IsLegible h.name) :
    IsLegible (ofText f base t).text :=
  isLegible_ofLines (fun _ hl => codeLines_of_mem hl)
    (fun _ hl => isLegible_of_mem_codeLines ht hl) hq

end Expansion

namespace Injection

variable {f : Files} {base own : Path} {siblings : List Path} {t : Text} {i : Injection}

theorem isLegible_closed {ending l : Text} (he : IsLegible ending) (hl : IsLegible l) :
    IsLegible (closed ending l) := by
  rcases closed_cases ending l with ⟨_, heq⟩ | ⟨_, heq⟩
  · rw [heq]
    exact hl
  · rw [heq]
    exact isLegible_append.mpr ⟨hl, he⟩

/-- A legible text with its new includes is legible. -/
theorem isLegible_text (h : ofText f base own siblings t = .ok i)
    (hnames : ∀ s ∈ own :: siblings, IsLegible s.name) (ht : IsLegible t) : IsLegible i.text := by
  have hending := (isEnding_endingInUse t.codeLines).isLegible
  rw [(ofText_eq_ok h).2.2]
  by_cases hnone : i.added = []
  · rw [if_pos hnone]
    exact ht
  · rw [if_neg hnone, isLegible_flatten]
    intro l hl
    -- A line is new, old, or old with a line end that it lacked.
    rcases mem_insertLines hl with hnew | ⟨k, hk, rfl | rfl⟩
    · rcases List.mem_map.mp hnew with ⟨s, hs, rfl⟩
      simp only [Include.line, isLegible_append]
      exact ⟨⟨⟨isLegible_ofString _, hnames s ((mem_added_iff h).mp hs).1⟩, isLegible_ofString _⟩,
        hending⟩
    · exact isLegible_of_mem_codeLines ht hk
    · exact isLegible_closed hending (isLegible_of_mem_codeLines ht hk)

/-- A clean text is still clean when its imports are expanded and includes are added. -/
theorem isClean_text (hfit : f.HeadersFit) (hl : f.IsLinkless) (hsound : f.tree.IsSound)
    (ht : IsClean t) (hok : (Expansion.ofText f base t).failure = none)
    (hnames : ∀ s ∈ own :: siblings, s.name.FitsLine)
    (h : ofText f base own siblings (Expansion.ofText f base t).text = .ok i) :
    IsClean i.text := by
  have himports : ∀ j ∈ (Expansion.ofText f base t).imports, ∀ p ∈ j.headers, p.name.FitsLine :=
    fun j hj => Expansion.fitsLine_of_mem_imports hfit hl hsound hj
  have hsettled := Expansion.isSettled_text ht.free hok fun j hj p hp =>
    (himports j hj p hp).noLineEnd
  have hlegible := Expansion.isLegible_text ht.legible fun j hj p hp =>
    (himports j hj p hp).legible
  exact ⟨isLegible_text h (fun s hs => (hnames s hs).legible) hlegible,
    (isSettled_text h (fun s hs => (hnames s hs).noLineEnd) hsettled).1⟩

end Injection

end DialectBuild
