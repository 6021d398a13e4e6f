import DialectBuild.Proofs.BufferedReading
import DialectBuild.Proofs.DeskWork

/-!
# Which Units Are Built for Debugging

How the directives of a source reach the command that compiles it. A directive line sets whether the
unit is built for debugging if the words after its mark are `debug` and `true` or `false`, and
whatever comes then. `Directive.Sets` says how such a line is spelled. Every other line sets
nothing, also if it is a directive, and of several lines that do, the last one counts.

Only the source itself is read for this. What an external transpiler makes of it may have directives
of its own, and they are dropped without being looked at.

## Main definitions

* `Directive.Sets`: The line sets whether the unit is built for debugging.
* `Directive.settingLines`: The directive lines of a text that do.
* `Directive.LastSays`: What the last of them says.

## Theorems

* `Directive.debug_ofLine_iff`: What a line sets.
* `Directive.debug_ofLines_iff`: What several lines set.
* `Directive.ofLines_filter`: Lines that set nothing make no difference.
* `Desk.command_of_transpile`: The command that compiles a unit after transpiling.
-/

namespace DialectBuild

namespace Directive

/-- How a flag is spelled. -/
def flagText (b : Bool) : Text :=
  if b then "true" else "false"

theorem flag?_eq_some_iff {t : Text} {b : Bool} : Settings.flag? t = some b ↔ t = flagText b := by
  unfold Settings.flag? flagText
  by_cases htrue : t = "true"
  · rw [if_pos htrue, htrue]
    cases b <;> decide
  · rw [if_neg htrue]
    by_cases hfalse : t = "false"
    · rw [if_pos hfalse, hfalse]
      cases b <;> decide
    · rw [if_neg hfalse]
      cases b with
      | true => exact iff_of_false (fun h => (by cases h)) htrue
      | false => exact iff_of_false (fun h => (by cases h)) hfalse

/-- The line sets whether the unit is built for debugging: after the mark of a directive there are
    the word `debug` and a flag, with blanks before each, and the flag ends there. -/
def Sets (line : Text) (b : Bool) : Prop :=
  ∃ indent gap gap₁ gap₂ rest : Text,
    line = indent ++ "#pragma" ++ gap ++ "czar" ++ gap₁ ++ "debug" ++ gap₂ ++ flagText b ++ rest ∧
    Text.IsBlankRun indent ∧ (gap ≠ [] ∧ Text.IsBlankRun gap) ∧
    (gap₁ ≠ [] ∧ Text.IsBlankRun gap₁) ∧ (gap₂ ≠ [] ∧ Text.IsBlankRun gap₂) ∧
    ∀ x ∈ rest.head?, x.isWord = false

/-- A blank ends a word. -/
theorem endsWord_of_blank {gap : Text} (hne : gap ≠ []) (hgap : Text.IsBlankRun gap) (rest : Text) :
    ∀ x ∈ (gap ++ rest).head?, x.isWord = false := by
  have hblanks : Symbol.isWord ' ' = false ∧ Symbol.isWord '\t' = false := by decide
  cases gap with
  | nil => exact absurd rfl hne
  | cons y gap =>
      intro x hx
      rw [List.cons_append, List.head?_cons, Option.mem_some_iff] at hx
      rcases isSpaceOrTab_iff.mp (hgap y List.mem_cons_self) with hy | hy
      · rw [← hx, hy]
        exact hblanks.1
      · rw [← hx, hy]
        exact hblanks.2

/-- A line sets something exactly if it is spelled like that. -/
theorem debug_ofLine_iff {line : Text} {b : Bool} :
    (Settings.ofLine line).debug = some b ↔ Sets line b := by
  simp only [Settings.ofLine, bind, Option.bind_eq_some_iff, afterMark?_eq_some_iff,
    Text.skipSomeBlanks?_eq_some_iff]
  constructor
  · rintro ⟨t, ⟨indent, gap, rfl, hindent, hgap, hgap'⟩, u, ⟨_, gap₁, hgap₁, hgap₁', rfl⟩,
      ⟨name, v⟩, hname, w, ⟨_, gap₂, hgap₂, hgap₂', hv⟩, ⟨value, rest⟩, hvalue, hflag⟩
    -- Each step of reading tells the text apart into what it took and the rest.
    rcases Text.word?_eq_some_iff.mp hname with ⟨_, _, _, rfl⟩
    rcases Text.word?_eq_some_iff.mp hvalue with ⟨_, _, hrest, rfl⟩
    dsimp only at hv hflag
    subst hv
    by_cases hdebug : name = "debug"
    · rw [if_pos hdebug, flag?_eq_some_iff] at hflag
      subst hdebug hflag
      refine ⟨indent, gap, gap₁, gap₂, rest, ?_, hindent, ⟨hgap, hgap'⟩, ⟨hgap₁, hgap₁'⟩,
        ⟨hgap₂, hgap₂'⟩, hrest⟩
      simp only [List.append_assoc]
    · rw [if_neg hdebug] at hflag
      cases hflag
  · rintro ⟨indent, gap, gap₁, gap₂, rest, rfl, hindent, ⟨hgap, hgap'⟩, ⟨hgap₁, hgap₁'⟩,
      ⟨hgap₂, hgap₂'⟩, hrest⟩
    have hword : ∀ x ∈ flagText b, x.isWord = true := by
      cases b <;> decide
    have hdark : Text.StartsDark (flagText b ++ rest) := by
      cases b <;> exact Text.startsDark_cons.mpr rfl
    have hends : ∀ x ∈ (gap₂ ++ (flagText b ++ rest)).head?, x.isWord = false :=
      endsWord_of_blank hgap₂ hgap₂' _
    -- What one step leaves is what the next one reads.
    refine ⟨gap₁ ++ ("debug" ++ (gap₂ ++ (flagText b ++ rest))), ⟨indent, gap, ?_, hindent, hgap,
      hgap'⟩, "debug" ++ (gap₂ ++ (flagText b ++ rest)), ⟨Text.startsDark_cons.mpr rfl, gap₁, hgap₁,
      hgap₁', rfl⟩, ("debug", gap₂ ++ (flagText b ++ rest)), ?_, flagText b ++ rest,
      ⟨hdark, gap₂, hgap₂, hgap₂', rfl⟩, (flagText b, rest), ?_, ?_⟩
    · simp only [List.append_assoc]
    · exact Text.word?_eq_some_iff.mpr ⟨by decide, by decide, hends, rfl⟩
    · exact Text.word?_eq_some_iff.mpr ⟨by cases b <;> decide, hword, hrest, rfl⟩
    · rw [if_pos rfl, flag?_eq_some_iff]

instance (line : Text) (b : Bool) : Decidable (Sets line b) :=
  decidable_of_iff _ debug_ofLine_iff

/-- The directive lines of a text that set whether the unit is built for debugging. -/
def settingLines (t : Text) : List Text :=
  (t.logicalLines.filter isDirective).filter fun line => ∃ b, Sets line b

/-- The last directive line of a text that sets whether the unit is built for debugging says so. -/
def LastSays (t : Text) (b : Bool) : Prop :=
  ∃ line, (settingLines t).getLast? = some line ∧ Sets line b

theorem ofLines_concat (lines : List Text) (line : Text) :
    Settings.ofLines (lines ++ [line]) =
      (Settings.ofLines lines).override (Settings.ofLine line) := by
  rw [Settings.ofLines, List.foldl_concat]
  rfl

/-- A line that sets nothing makes no difference to those before. -/
theorem override_ofLine {line : Text} (h : ¬ ∃ b, Sets line b) (s : Settings) :
    s.override (Settings.ofLine line) = s := by
  have hnone : (Settings.ofLine line).debug = none := by
    refine Option.eq_none_iff_forall_not_mem.mpr fun b hb => h ⟨b, debug_ofLine_iff.mp hb⟩
  rw [Settings.override, hnone, Option.none_or]

/-- Lines that set nothing make no difference. -/
theorem ofLines_filter (lines : List Text) :
    Settings.ofLines (lines.filter fun line => ∃ b, Sets line b) = Settings.ofLines lines := by
  -- The induction is on the lines from the end, since the last ones win.
  induction lines using List.reverseRecOn with
  | nil => rfl
  | append_singleton lines line ih =>
      rw [List.filter_append, ofLines_concat]
      by_cases hsets : ∃ b, Sets line b
      · rw [List.filter_singleton, decide_eq_true hsets, cond_true, ofLines_concat, ih]
      · rw [List.filter_singleton, decide_eq_false hsets, cond_false, List.append_nil, ih,
          override_ofLine hsets]

/-- Of lines that all set something, the last one counts. -/
theorem debug_ofLines_iff {lines : List Text} (h : ∀ line ∈ lines, ∃ b, Sets line b) {b : Bool} :
    (Settings.ofLines lines).debug = some b ↔
      ∃ line, lines.getLast? = some line ∧ Sets line b := by
  rcases List.eq_nil_or_concat' lines with rfl | ⟨before, line, rfl⟩
  · refine iff_of_false (fun h => (by cases h)) ?_
    rintro ⟨line, hline, _⟩
    cases hline
  · rcases h line (List.mem_append_right before (List.mem_singleton_self line)) with ⟨c, hc⟩
    rw [ofLines_concat, Settings.override, debug_ofLine_iff.mpr hc, Option.some_or,
      List.getLast?_concat, ← debug_ofLine_iff.mpr hc, debug_ofLine_iff]
    exact ⟨fun h => ⟨line, rfl, h⟩, fun ⟨line', hline, h⟩ => Option.some.inj hline ▸ h⟩

/-- The settings of a text are those of its setting lines, and the last one counts. -/
theorem settings_of_text (t : Text) :
    Settings.ofLines (Stripped.ofText BufferSize.default t).removed =
      Settings.ofLines (settingLines t) ∧
    ∀ b, (Settings.ofLines (settingLines t)).debug = some b ↔ LastSays t b := by
  rw [stripped_ofText, settingLines, ofLines_filter]
  refine ⟨rfl, fun b => ?_⟩
  rw [← ofLines_filter, LastSays, settingLines, debug_ofLines_iff]
  intro line hline
  exact of_decide_eq_true (List.mem_filter.mp hline).2

end Directive

theorem Settings.isDebug_eq_false_iff {s : Settings} :
    s.isDebug = false ↔ s.debug = some false := by
  rcases s with ⟨_ | b⟩
  · exact iff_of_false (fun h => (by cases h)) fun h => (by cases h)
  · rw [isDebug, Option.getD_some, Option.some.injEq]

/-- The debug setting of a source reaches the command that compiles it. However the source is
    transpiled, the compiler is told to leave out what is for debugging exactly if the last line of
    the source that sets this says so. Nothing else matters: sources with the same such lines have
    the same settings, whatever other lines they have and whatever transpilers made of them. -/
theorem Desk.command_of_transpile {tools : Toolchain} {d d' : Desk} {t : Text}
    (h : Desk.transpile tools d = .ok t d') :
    ∃ raw a noDebug, d.workspace.files.text d.unit.source = .ok raw ∧
      Artifacts.ofSource d'.unit.source = .ok a ∧
      tools.commandToCompile d'.unit.settings a =
        tools.compiler ++ tools.compileFlags ++ noDebug ++
          (["-c", a.code.text, "-o", a.object.text] : List Text) ∧
      (Directive.LastSays raw false → noDebug = ["-DNDEBUG"]) ∧
      (¬ Directive.LastSays raw false → noDebug = []) ∧
      ∀ {tools₂ : Toolchain} {d₂ d₂' : Desk} {t₂ raw₂ : Text},
        Desk.transpile tools₂ d₂ = .ok t₂ d₂' →
        d₂.workspace.files.text d₂.unit.source = .ok raw₂ →
        Directive.settingLines raw₂ = Directive.settingLines raw →
        d₂'.unit.settings = d'.unit.settings := by
  rcases Desk.transpile_eq_ok h with ⟨a, raw, out, f₁, f, runs, ns, ha, hraw, _, _, rfl⟩
  rcases Directive.settings_of_text raw with ⟨hsettings, hlast⟩
  refine ⟨raw, a, _, hraw, ha, rfl, fun hfalse => ?_, fun hnot => ?_, ?_⟩
  · refine if_neg (Bool.not_eq_true _ ▸ Settings.isDebug_eq_false_iff.mpr ?_)
    rw [hsettings]
    exact (hlast false).mpr hfalse
  · refine if_pos (Bool.not_eq_false _ ▸ fun hdebug => hnot ((hlast false).mp ?_))
    rw [← hsettings]
    exact Settings.isDebug_eq_false_iff.mp hdebug
  · intro tools₂ d₂ d₂' t₂ raw₂ h₂ hraw₂ hsame
    rcases Desk.transpile_eq_ok h₂ with ⟨_, raw', _, _, _, _, _, _, hraw', _, _, rfl⟩
    rw [hraw₂, Except.ok.injEq] at hraw'
    subst hraw'
    exact ((Directive.settings_of_text raw₂).1.trans (congrArg _ hsame)).trans hsettings.symm

/-- A source whose lines set one thing and then the other. The last line sets nothing. -/
def tunedText : Text :=
  "#pragma czar debug true\r\t#pragma czar debug  false;\n#pragma czar debug truly"

/-- The unit of the source. -/
def tunedDesk : Desk :=
  ⟨{ files := ⟨{ entries := [(["a.cz"], .file (Encoding.encode tunedText))] }, []⟩
     tools := default }, TranslationUnit.ofSource "/a.cz"⟩

/-- The tools that make it. -/
def tunedTools : Toolchain :=
  { (default : Toolchain) with
    compiler := ["cc"]
    compileFlags := ["-O2"] }

theorem Desk.command_of_transpile_tuned : ∃ t d',
    Desk.transpile tunedTools tunedDesk = .ok t d' ∧ Directive.LastSays tunedText false ∧
    ∃ a, tunedTools.commandToCompile d'.unit.settings a =
      (["cc", "-O2", "-DNDEBUG", "-c", "/a.cz.c", "-o", "/a.o"] : List Text) := by
  have hread : tunedDesk.workspace.files.text tunedDesk.unit.source = .ok tunedText := by cbv
  have hbeside : Artifacts.ofSource tunedDesk.unit.source =
      .ok ⟨"/a.cz.c", "/a.cz.h", "/a.o"⟩ := by cbv
  have hwrite : writeAtomic "/a.cz.c" (Stripped.ofText BufferSize.default tunedText).text
      tunedDesk.workspace.files =
        .ok () ⟨{ entries :=
          [(["a.cz.c"], .file []), (["a.cz"], .file (Encoding.encode tunedText))] }, []⟩ := by
    cbv
  have hsays : Directive.LastSays tunedText false := by
    refine ((Directive.settings_of_text tunedText).2 false).mp ?_
    rw [← (Directive.settings_of_text tunedText).1]
    decide +kernel
  have hplain : tunedTools.transpiler = none := rfl
  rcases Desk.exists_transpile hplain hbeside hread hwrite with ⟨t, d', h⟩
  have hsource : d'.unit.source = tunedDesk.unit.source := by
    rcases Desk.transpile_eq_ok h with ⟨_, _, _, _, _, _, _, _, _, _, _, rfl⟩
    rfl
  rcases Desk.command_of_transpile h with ⟨raw, a, noDebug, hraw, ha, hcommand, hfalse, _⟩
  rw [hread, Except.ok.injEq] at hraw
  rw [hsource, hbeside, Except.ok.injEq] at ha
  subst hraw ha
  refine ⟨t, d', h, hsays, _, hcommand.trans ?_⟩
  rw [hfalse hsays]
  cbv

end DialectBuild
