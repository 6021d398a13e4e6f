import DialectBuild.Proofs.MarkerSpelling

/-!
# Markers That Change Nothing

Expansion writes remarks and include lines in place of markers, and no C text is to be read
differently for it. It is not, as long as each marker is quiet where it stands. A remark has the
path of its marker in it, and is a comment: it ends too early if the path ends a comment, and
it ends a comment in which it stands. An include line is a preprocessor line only where one can
start. Inside a literal any marker changes the literal.

One line is compared with what it became, for every text that can follow, and the lines of a
text by induction, each in the context that the lines before it leave.

## Main definitions

* `ExpandedLine.isQuiet`: Whether a line is read as what it became.
* `Expansion.isQuiet`: Whether every line of a text is.

## Theorems

* `ExpandedLine.readings_of_becomes`: A quiet line is read as what it became.
* `Expansion.readings_ofLines`: Quiet lines are read as what they became.
* `Expansion.reading_tokenize_ofText`: Expansion keeps the tokens of a text with quiet markers.
-/

namespace DialectBuild

open Text

section Remark

variable {indent path reason : Text}

/-- What a remark says, without the signs of the comment around it. -/
def remarkBody (path reason : Text) : Text :=
  "czbuild: #import " ++ ("\"" ++ (path ++ ("\"" ++ (" - " ++ (reason ++ " ")))))

theorem remark_eq (indent path reason : Text) :
    remark indent path reason =
      indent ++ ("/*" ++ ((" " ++ remarkBody path reason) ++ ("*/" ++ ([] : Text)))) := by
  simp only [remark, remarkBody, List.append_assoc]
  rfl

theorem hasPart_remarkBody (s path : Text) (hr : .char '*' ∉ reason) :
    hasPart "*/" (s ++ remarkBody path reason) = (hasPart "*/" s || hasPart "*/" path) := by
  have hback : hasPart "*/" (" - " ++ (reason ++ " ")) = false := by
    refine hasPart_of_noStar ?_
    simp only [List.mem_append, not_or]
    exact ⟨by decide, hr, by decide⟩
  have hhead : (remarkBody path reason).head? ≠ some (.char '/') :=
    fun h => absurd (Option.some.inj h) (by decide)
  have hword : hasPart "*/" "czbuild: #import " = false := by decide
  rw [hasPart_append hhead, remarkBody, hasPart_quoted, hback, hword, Bool.or_false, Bool.false_or]

/-- A remark is read as nothing if the path in it does not end the comment. -/
theorem isDropped_remark {lineStart : Bool} (hi : IsBlankRun indent) (hr : .char '*' ∉ reason)
    (hp : hasPart "*/" path = false) : IsDropped lineStart (remark indent path reason) := by
  rw [remark_eq]
  refine (isDropped_blockComment ?_ (fun x hx => absurd hx List.not_mem_nil)).indent hi
  rw [hasPart_remarkBody " " path hr, hp]
  rfl

/-- A remark inside a comment ends the comment. -/
theorem isClosing_remark (hi : IsBlankRun indent) (hr : .char '*' ∉ reason)
    (hp : hasPart "*/" path = false) : IsClosing (remark indent path reason) := by
  have hblank : IsBlankRun " " := fun x hx => List.mem_singleton.mp hx ▸ rfl
  have hv := hasPart_remarkBody (indent ++ ("/*" ++ " ")) path hr
  rw [Marker.hasPart_open hi hblank, hp] at hv
  have hclosing := isClosing_of_hasPart hv (b := []) (fun x hx => absurd hx List.not_mem_nil)
  rw [remark_eq]
  simp only [List.append_assoc] at hclosing ⊢
  exact hclosing

theorem isContinued_remark (hi : IsBlankRun indent) (hp : NoLineEnd path) (hr : NoLineEnd reason) :
    IsContinued (remark indent path reason) :=
  isContinued_of_noFeed (noFeed_of_noLineEnd (ExpandedLine.noLineEnd_remark hi hp hr))
    (endsPlain_append_of_ne_nil (by decide) (by decide) _)

end Remark

section Includes

variable {indent path e : Text} {headers : List Path}

theorem isDirectiveLine_include (hi : IsBlankRun indent) (hp : NoLineEnd path) {h : Path}
    (hq : h.IsQuotable) :
    IsDirectiveLine (indent ++ "#include \"" ++ path ++ "/" ++ h.name ++ "\"") := by
  have hname := Marker.noLineEnd_of_isPathSymbol (Path.isPathSymbol_of_isQuotable hq)
  refine ⟨indent, "include \"" ++ path ++ "/" ++ h.name ++ "\"", hi, ?_, ?_, ?_⟩
  · simp only [List.mem_append, not_or]
    exact ⟨⟨⟨⟨by decide, noFeed_of_noLineEnd hp⟩, by decide⟩, noFeed_of_noLineEnd hname⟩, by decide⟩
  · exact endsPlain_append_of_ne_nil (by decide) (by decide) _
  · simp only [List.append_assoc]
    rfl

/-- The include lines of a directory are read as nothing, where a preprocessor line can start
    or one goes on. -/
theorem readings_includeLines {c : Context} (hc : c = .code true ∨ c = .directive)
    (hi : IsBlankRun indent) (hp : NoLineEnd path) (hne : headers ≠ [])
    (hq : ∀ h ∈ headers, h.IsQuotable) (he : ∀ x ∈ e, x.isLineEnd = true)
    (hfeed : .char '\n' ∉ e.dropLast) {u : Text} (hu : StartsEnded u) :
    c.readings (includeLines indent path e headers ++ u) = readings true u := by
  have hstem : NoLineEnd (trimEnd (· == .char '/') path) := fun x hx => hp x (mem_of_mem_trimEnd hx)
  rw [includeLines]
  generalize hks : headers.map (fun h => indent ++ ("#include \"" : Text) ++
    trimEnd (· == .char '/') path ++ "/" ++ h.name ++ "\"") = ks
  have hlines : ∀ k ∈ ks, IsDirectiveLine k := by
    intro k hk
    rw [← hks] at hk
    rcases List.mem_map.mp hk with ⟨h, hh, rfl⟩
    exact isDirectiveLine_include hi hstem (hq h hh)
  have hksne : ks ≠ [] := by
    rw [← hks]
    exact fun h => hne (List.map_eq_nil_iff.mp h)
  by_cases hempty : e = []
  · rw [hempty]
    exact readings_join_of_isEnded hc hlines hksne (by decide) (by decide)
      (e := "\n") (by decide) hu
  · rw [if_neg (fun h => hempty (List.isEmpty_iff.mp h))]
    by_cases hend : IsEnded e
    · exact readings_join_of_isEnded hc hlines hksne he hfeed hend hu
    · -- Carriage returns do not part the lines, which are then one preprocessor line.
      have hline := isDirectiveLine_join hlines hksne (noFeed_of_not_isEnded hfeed hend)
      rcases hc with rfl | rfl
      · rw [Context.readings_code]
        exact isDropped_of_isDirectiveLine hline u hu
      · exact isContinued_of_isDirectiveLine hline u hu

end Includes

namespace ExpandedLine

/-- Whether the line became the includes of a directory. -/
def isResolved (x : ExpandedLine) : Bool :=
  x.request.any Import.isResolved

/-- Whether the marker `m` on the line `body`, which starts in the context `c`, is read as what
    it became. The path must not end a comment in which it stands, before or after. Includes
    stand only where a preprocessor line can start. Inside a comment a marker that ends the
    comment becomes something that does, and any other marker something that does not. -/
def spares (c : Context) (body : Text) (m : Marker) (x : ExpandedLine) : Bool :=
  match c with
  | .code lineStart =>
      (!hasPart "*/" m.modulePath || (!Marker.isBlock body && x.isResolved)) &&
        (lineStart || (!Marker.isBare body && !x.isResolved))
  | .comment _ =>
      !hasPart "*/" m.modulePath && (Marker.isBlock body == !x.isResolved) &&
        (!x.isResolved || !hasPart "*/" x.text)
  | .literal _ _ => false
  | .directive => true
  | .stopped => true

/-- Whether the line is read as what it became, in the context `c` in which it starts. -/
def isQuiet (c : Context) (source : Text) (x : ExpandedLine) : Bool :=
  match Marker.ofLine? source.splitEnding.1 with
  | none => true
  | some m => x.spares c source.splitEnding.1 m

section Alike

variable {c : Context} {body : Text} {m : Marker} {x : ExpandedLine} {u : Text}

/-- A marker is read as the remark that stands in its place. -/
theorem readings_remark (hm : Marker.ofLine? body = some m) (hfeed : .char '\n' ∉ body)
    {path reason : Text} (hpath : NoLineEnd path)
    (hclean : hasPart "*/" m.modulePath = false → hasPart "*/" path = false)
    (hreason : NoLineEnd reason) (hstar : .char '*' ∉ reason) (hx : x.isResolved = false)
    (hspares : x.spares c body m = true) (hu : StartsEnded u) :
    c.readings (body ++ u) = c.readings (remark m.indent path reason ++ u) := by
  have hi := Marker.isBlankRun_indent hm
  have hp := Marker.isPathSymbol_of_ofLine? hm
  have hspelled := Marker.spelled_of_ofLine? hm hfeed
  -- What the marker is to the reader depends on what is open before it.
  cases c with
  | code lineStart =>
      simp only [spares, hx, Bool.not_false, Bool.and_true, Bool.and_false, Bool.or_false,
        Bool.and_eq_true, Bool.not_eq_true', Bool.or_eq_true] at hspares
      rcases hspares with ⟨hpart, hbare⟩
      rw [Context.readings_code, Context.readings_code,
        isDropped_remark hi hstar (hclean hpart) u hu]
      refine Marker.isDropped_of_spelled hspelled hi hp (fun h => ?_) (fun _ => hpart) u hu
      rw [h] at hbare
      exact hbare.resolve_right (by decide)
  | comment lineStart =>
      simp only [spares, hx, Bool.not_false, Bool.true_or, Bool.and_true, Bool.and_eq_true,
        Bool.not_eq_true', beq_iff_eq] at hspares
      rcases hspares with ⟨hpart, hblock⟩
      rw [isClosing_remark hi hstar (hclean hpart) lineStart u hu,
        Marker.isClosing_of_spelled hspelled hi hblock hpart lineStart u hu]
  | literal kind opened => cases hspares
  | directive =>
      rw [isContinued_remark hi hpath hreason u hu,
        Marker.isContinued_of_spelled hspelled hi hp u hu]
  | stopped => rfl

/-- A marker is read as the includes that stand in its place. -/
theorem readings_found (hm : Marker.ofLine? body = some m) (hfeed : .char '\n' ∉ body)
    {headers : List Path} (hne : headers ≠ []) (hq : ∀ h ∈ headers, h.IsQuotable) {e : Text}
    (he : ∀ x ∈ e, x.isLineEnd = true) (hefeed : .char '\n' ∉ e.dropLast)
    (hx : x.isResolved = true)
    (htext : x.text = includeLines m.indent m.modulePath e headers ++ e)
    (hspares : x.spares c body m = true) (hu : StartsEnded u) :
    c.readings (body ++ u) =
      c.readings (includeLines m.indent m.modulePath e headers ++ u) := by
  have hi := Marker.isBlankRun_indent hm
  have hp := Marker.isPathSymbol_of_ofLine? hm
  have hspelled := Marker.spelled_of_ofLine? hm hfeed
  have hincludes : ∀ c, c = Context.code true ∨ c = Context.directive →
      c.readings (includeLines m.indent m.modulePath e headers ++ u) = readings true u :=
    fun c hc => readings_includeLines hc hi (Marker.noLineEnd_of_isPathSymbol hp) hne hq he
      hefeed hu
  cases c with
  | code lineStart =>
      simp only [spares, hx, Bool.not_true, Bool.and_true, Bool.and_false, Bool.or_false,
        Bool.and_eq_true, Bool.not_eq_true', Bool.or_eq_true] at hspares
      rcases hspares with ⟨hpart, rfl⟩
      rw [hincludes _ (Or.inl rfl), Context.readings_code]
      refine Marker.isDropped_of_spelled hspelled hi hp (fun _ => rfl) (fun h => ?_) u hu
      rw [h] at hpart
      exact hpart.resolve_right (by decide)
  | comment lineStart =>
      simp only [spares, hx, Bool.not_true, Bool.false_or, Bool.and_eq_true,
        Bool.not_eq_true', beq_iff_eq, htext] at hspares
      -- No end of a comment lies across the last include and the line end.
      have hhead : e.head? ≠ some (.char '/') :=
        fun h => absurd (he _ (List.mem_of_head? h)) (by decide)
      rw [hasPart_append hhead, Bool.or_eq_false_iff] at hspares
      rcases hspares with ⟨⟨hpart, hblock⟩, hincludes, _⟩
      rw [Marker.isHidden_of_spelled hspelled hi hblock hpart lineStart u hu,
        isHidden_of_hasPart hincludes lineStart u hu]
  | literal kind opened => cases hspares
  | directive =>
      rw [hincludes _ (Or.inr rfl), Marker.isContinued_of_spelled hspelled hi hp u hu]
  | stopped => rfl

end Alike

/-- A line is read as what it becomes. -/
theorem readings_of_becomes {f : Files} {base : Path} {known : List Place} {n : Nat}
    {source : Text} {x : ExpandedLine} (h : Becomes f base known n source x)
    (hline : codeLines source = [source])
    (hq : ∀ i ∈ x.request, ∀ h ∈ i.headers, h.IsQuotable) {c : Context}
    (hquiet : x.isQuiet c source = true) {r : Text} (hr : IsEnded source ∨ r = []) :
    c.readings (source ++ r) = c.readings (x.text ++ r) := by
  rcases splitEnding_of_codeLines hline with ⟨b, e, hsource, hsplit, hfeed, he, hefeed⟩
  have hu : StartsEnded (e ++ r) := by
    refine startsEnded_append he hefeed (hr.imp_left fun hend => ?_)
    rw [hsource] at hend
    exact isEnded_of_append hfeed hend
  have hfst : source.splitEnding.1 = b := by rw [hsplit]
  have hsnd : source.splitEnding.2 = e := by rw [hsplit]
  have hspares : ∀ m, Marker.ofLine? source.splitEnding.1 = some m → x.spares c b m = true := by
    intro m hm
    rw [isQuiet, hm, hfst] at hquiet
    exact hquiet
  have hwhole : source ++ r = b ++ (e ++ r) := by rw [hsource, List.append_assoc]
  -- Three of the kinds leave a remark with the path as it was written.
  have hremark : ∀ m reason, Marker.ofLine? source.splitEnding.1 = some m → NoLineEnd reason →
      .char '*' ∉ reason → x.isResolved = false →
      c.readings (b ++ (e ++ r)) = c.readings (remark m.indent m.modulePath reason ++ e ++ r) := by
    intro m reason hm hreason hstar hx
    have hs := hspares m hm
    rw [hfst] at hm
    have hpath := Marker.noLineEnd_of_isPathSymbol (Marker.isPathSymbol_of_ofLine? hm)
    rw [List.append_assoc]
    exact readings_remark hm hfeed hpath id hreason hstar hx hs hu
  rw [hwhole]
  cases h with
  | plain hm => rw [← hwhole]
  | blank hm _ =>
      have hs := hspares _ hm
      rw [hfst] at hm
      rw [hsnd, List.append_assoc]
      exact readings_remark hm hfeed noLineEnd_nil (fun _ => rfl) (by decide) (by decide) rfl hs hu
  | again hm _ _ _ =>
      rw [hsnd]
      exact hremark _ _ hm (by decide) (by decide) rfl
  | missing hm _ _ _ _ =>
      rw [hsnd]
      exact hremark _ _ hm (by decide) (by decide) rfl
  | bare hm _ _ _ _ _ =>
      rw [hsnd]
      exact hremark _ _ hm (by decide) (by decide) rfl
  | found hm _ _ _ _ _ hne =>
      have hs := hspares _ hm
      rw [hfst] at hm
      rw [hsnd] at hs ⊢
      rw [List.append_assoc]
      exact readings_found hm hfeed hne (hq _ rfl) he hefeed
        (by simp [isResolved, Import.isResolved, hne]) rfl hs hu

end ExpandedLine

namespace Expansion

/-- Whether each of the lines is read as what it became, from the context `c` on. -/
def quietFrom : Context → List Text → List ExpandedLine → Bool
  | c, l :: ls, x :: xs => x.isQuiet c l && quietFrom (c.after l) ls xs
  | _, _, _ => true

/-- Whether each line of the text is read as what it became, where it stands. -/
def isQuiet (t : Text) (x : Expansion) : Bool :=
  quietFrom (.code true) t.codeLines x.lines

theorem readings_ofLines {f : Files} {base : Path} {known : List Place} {n : Nat}
    {ls : List Text} {c : Context} (hline : ∀ l ∈ ls, codeLines l = [l])
    (hend : ∀ l ∈ ls.dropLast, IsEnded l) (hok : (ofLines f base known n ls).failure = none)
    (hq : ∀ i ∈ (ofLines f base known n ls).imports, ∀ h ∈ i.headers, h.IsQuotable)
    (hquiet : quietFrom c ls (ofLines f base known n ls).lines = true) :
    c.readings (ofLines f base known n ls).text = c.readings ls.flatten := by
  induction ls generalizing known n c with
  | nil => rfl
  | cons l ls ih =>
      rcases List.forall_mem_cons.mp hline with ⟨hl, hline⟩
      rw [ofLines] at hok hq hquiet ⊢
      rcases hx : ExpandedLine.ofLine f base known n l with e | x
      · rw [hx] at hok
        cases hok
      · rw [hx] at hok hq hquiet
        dsimp only at hok hq hquiet ⊢
        rw [quietFrom, Bool.and_eq_true] at hquiet
        have hstep := fun {r : Text} (hr : IsEnded l ∨ r = []) =>
          ExpandedLine.readings_of_becomes (ExpandedLine.becomes_of_ofLine hx) hl
            (fun i hi => hq i (mem_imports_cons.mpr (Or.inl hi))) hquiet.1 hr
        rw [text, List.map_cons, List.flatten_cons, List.flatten_cons]
        -- Only the last line may lack its line feed.
        by_cases hls : ls = []
        · rw [hls]
          exact (hstep (Or.inr rfl)).symm
        · rw [List.dropLast_cons_of_ne_nil hls] at hend
          rcases List.forall_mem_cons.mp hend with ⟨hlend, hend⟩
          have hrest := ih hline hend hok (fun i hi => hq i (mem_imports_cons.mpr (Or.inr hi)))
            hquiet.2
          rcases c.readings_append hlend (noFeed_dropLast_of_codeLines hl) with ⟨out, hout⟩
          rw [text] at hrest
          rw [← hstep (Or.inl hlend), hout, hout, hrest]

/-- Expansion changes nothing that is read, as long as each marker is quiet where it stands. -/
theorem reading_tokenize_ofText {f : Files} {base : Path} {t : Text}
    (hok : (ofText f base t).failure = none)
    (hq : ∀ i ∈ (ofText f base t).imports, ∀ h ∈ i.headers, h.IsQuotable)
    (hquiet : (ofText f base t).isQuiet t = true) :
    (tokenize (ofText f base t).text).map Token.reading = (tokenize t).map Token.reading := by
  have hread := readings_ofLines (fun _ hl => codeLines_of_mem hl)
    (fun _ hl => isEnded_of_mem_dropLast hl) hok hq hquiet
  rw [Context.readings_code, Context.readings_code, flatten_codeLines] at hread
  rw [map_reading_tokenize, map_reading_tokenize]
  exact hread

/-- A directory with one header in a directory below it. -/
def oneHeader : Files :=
  ⟨{ entries := [(["p"], .dir), (["p", "lib"], .dir), (["p", "lib", "m.cz.h"], .file [])] }, ["p"]⟩

/-- Markers on lines of code, on a preprocessor line that goes on, and at the end of a comment. -/
def markedText : Text :=
  "#import \"lib\"\r\n#define A \\\n// #import \"no\"\n/*\n/* #import \"no\" */\nint x;"

/-- What becomes of them. -/
def markedExpansion : Expansion where
  lines := [
    { text := "#include \"lib/m.cz.h\"\r\n"
      request := some { modulePath := "lib", line := 1, headers := ["lib/m.cz.h"] }
      directory := some ["p", "lib"] },
    { text := "#define A \\\n" },
    { text := "/* czbuild: #import \"no\" - directory not found */\n"
      request := some { modulePath := "no", line := 3 }
      directory := some ["p", "no"]
      notice := some (importWarning { modulePath := "no", line := 3 } "directory not found: no") },
    { text := "/*\n" },
    { text := "/* czbuild: #import \"no\" - already imported */\n" },
    { text := "int x;" }]

theorem reading_tokenize_ofText_marked :
    ofText oneHeader "." markedText = markedExpansion ∧
    (tokenize (ofText oneHeader "." markedText).text).map Token.reading =
      (tokenize markedText).map Token.reading := by
  have hx : ofText oneHeader "." markedText = markedExpansion := by cbv
  refine ⟨hx, reading_tokenize_ofText ?_ ?_ ?_⟩
  · rw [hx]
    rfl
  · rw [hx]
    decide +kernel
  · rw [hx]
    decide +kernel

/-- A path that ends a comment ends the remark about it too early. -/
theorem reading_tokenize_ofText_starSlash :
    (ofText oneHeader "." "#import \"a*/b\"\nint x;\n").failure = none ∧
    (∀ i ∈ (ofText oneHeader "." "#import \"a*/b\"\nint x;\n").imports, ∀ h ∈ i.headers,
      h.IsQuotable) ∧
    (tokenize (ofText oneHeader "." "#import \"a*/b\"\nint x;\n").text).map Token.reading ≠
      (tokenize "#import \"a*/b\"\nint x;\n").map Token.reading := by
  have hx : ofText oneHeader "." "#import \"a*/b\"\nint x;\n" = { lines := [
      { text := "/* czbuild: #import \"a*/b\" - directory not found */\n"
        request := some { modulePath := "a*/b", line := 1 }
        directory := some ["p", "a*", "b"]
        notice := some (importWarning { modulePath := "a*/b", line := 1 }
          "directory not found: a*/b") },
      { text := "int x;\n" }] } := by
    cbv
  rw [hx]
  exact ⟨rfl, by decide +kernel, by decide +kernel⟩

end Expansion

end DialectBuild
