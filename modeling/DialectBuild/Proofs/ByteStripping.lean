import DialectBuild.Proofs.ByteLines
import DialectBuild.Proofs.DeskWork
import DialectBuild.Proofs.TemporaryFiles

/-!
# Stripping a File

What is in a file after directives were removed: the bytes of the source without the lines that
are directives, every other byte as it was and in order. It does not matter whether the bytes can
be read as text, nor how large the buffer is.

Two things have to be so. There must be no link at the path of the temporary file, for it would be
moved in place of the file. And the source must not be the temporary file itself, which is emptied
before anything is read. A unit's source is read before anything is written, so only the first
matters there.

## Theorems

* `copyStrippedVia_eq_ok`: The steps of copying a file.
* `stripping_exact`: The bytes of a file without its directives.
* `stripping_through_link`: Where this is not so.
-/

namespace DialectBuild

open Encoding Files

/-- Copying a file without its directives: the source is opened, the temporary file is emptied and
    written, and then it is moved. -/
theorem copyStrippedVia_eq_ok {temporary source output : Path} {size : Int} {f g : Files}
    {removed : List Text} (h : copyStrippedVia temporary source output size f = .ok removed g) :
    ∃ place n f₁ f₂, f.openRead source = .ok place ∧ f.write temporary [] = .ok f₁ ∧
      f₁.write temporary (encode (Stripped.ofText n (decode (f₁.contentAt place))).text) =
        .ok f₂ ∧ f₂.rename temporary output = .ok g := by
  simp only [copyStrippedVia, Action.bind_eq_ok_iff, FileAction.query_eq_ok_iff,
    FileAction.change_eq_ok_iff] at h
  rcases h with ⟨place, _, ⟨hplace, rfl⟩, _, f₁, hempty, h⟩
  rcases hsize : BufferSize.ofInt? size with _ | n
  · rw [hsize] at h
    exact absurd h (fun h => Action.throw_eq_ok_iff.mp h)
  · rw [hsize] at h
    simp only [Action.bind_eq_ok_iff, Action.get_eq_ok_iff, FileAction.change_eq_ok_iff] at h
    rcases h with ⟨_, _, ⟨rfl, rfl⟩, _, f₂, hwrite, _, _, hrename, h⟩
    rw [Action.pure_eq_ok_iff] at h
    exact ⟨place, n, f₁, f₂, hplace, hempty, hwrite, h.2 ▸ hrename⟩

/-- Copying a file succeeds exactly if its steps do. -/
theorem copyStripped_eq_ok {source output : Path} {size : Int} {w w' : Workspace}
    {removed : List Text} (h : copyStripped source output size w = .ok removed w') :
    copyStrippedVia output.temporary source output size w.files = .ok removed w'.files := by
  -- The handler clears the temporary file and throws, so success is the success of the copy itself.
  have hfails : ∀ (temporary : Path) (e : OsError) (f' : Files) (a : List Text) (g' : Files),
      (do
        FileAction.change (·.unlinkIfPresent temporary)
        throw (transpileError "strip" ("Failed to strip directives: " ++ e.message) source) :
          FileAction (List Text)) f' ≠ .ok a g' := by
    intro temporary e f' a g'
    simp only [ne_eq, Action.bind_eq_ok_iff, Action.throw_eq_ok_iff, and_false, exists_false,
      not_false_eq_true]
  simp only [copyStripped, Action.bind_eq_ok_iff, Action.ofExcept_eq_ok_iff,
    Workspace.liftM_eq_ok_iff, Workspace.notify_eq_ok_iff, Action.pure_eq_ok_iff] at h
  rcases h with ⟨temporary, _, ⟨htemporary, rfl⟩, _, _, ⟨f, hcopy, rfl⟩, _, _, rfl, rfl, rfl⟩
  rw [Action.onOsError_eq_ok_iff (hfails temporary), (temporaryFor_eq_ok_iff.mp htemporary).2]
    at hcopy
  exact hcopy

/-- A file is copied without its directives, byte by byte, if it is not the temporary file and
    there is no link in the way of that. -/
theorem receives_of_copyStrippedVia {source output : Path} {size : Int} {f g : Files}
    {removed : List Text}
    (h : copyStrippedVia output.temporary source output size f = .ok removed g)
    (hlink : ¬ f.IsLink output.temporary) (hsource : ¬ f.SameFile source output.temporary) :
    ∃ content, f.read source = .ok content ∧ f.Receives output (Bytes.stripped content) g := by
  rcases copyStrippedVia_eq_ok h with ⟨place, n, f₁, f₂, hplace, hempty, hwrite, hrename⟩
  rcases exists_of_openRead hplace with ⟨content, hleads, hfile, hcontent⟩
  rcases LeadsTo.exists_of_write hempty with ⟨a, ha, hplain, hadded, rfl⟩
  have hfirst : f.Overwrites a [] (f.withEntry a (.file [])) := overwrites_withEntry hplain hadded
  -- The source is elsewhere, and is still what it was when it is read.
  have hne : place ≠ a := by
    rintro rfl
    exact hsource ⟨place, hplace, ha.openRead_eq hfile⟩
  have hkept : (f.withEntry a (.file [])).contentAt place = content := by
    rw [← hcontent]
    unfold contentAt
    rw [hfirst.find?, if_neg hne]
  rw [hkept, Stripped.encode_text] at hwrite
  -- The temporary path leads to the same place both times it is written.
  rcases LeadsTo.exists_of_write hwrite with ⟨a', ha', _, _, rfl⟩
  have heq : a' = a := ha'.unique (hfirst.leadsTo ha)
  subst heq
  refine ⟨content, hleads.read_eq hfile, ?_⟩
  exact receives_of_rename (hfirst.again _) (ha.of_not_isLink hlink) hrename

/-- A text is written byte by byte if there is no link in the way of the temporary file. -/
theorem receives_of_writeAtomic {p : Path} {t : Text} {f g : Files} {u : Unit}
    (h : writeAtomic p t f = .ok u g) (hlink : ¬ f.IsLink p.temporary) :
    f.Receives p (encode t) g := by
  rcases writeAtomic_eq_ok_iff.mp h with ⟨temporary, f₁, htemporary, hwrite, hrename⟩
  rw [(temporaryFor_eq_ok_iff.mp htemporary).2] at hwrite hrename
  rcases exists_overwrites_of_write hwrite with ⟨a, ha, hover⟩
  exact receives_of_rename hover (ha.of_not_isLink hlink) hrename

/-- Stripping is exact on bytes, valid or not. Reading bytes and writing them again gives back the
    same bytes. A file that is copied without its directives, with a buffer of any size, and the C
    text of a unit that is taken as it is are the bytes of the source without the lines that are
    directives, if there is no link at the path of the temporary file and the source is not that
    file. -/
theorem stripping_exact (bs : Bytes) (w : Workspace) :
    encode (decode bs) = bs ∧
    (∀ {source output : Path} {size : Int} {w' : Workspace} {removed : List Text},
      copyStripped source output size w = .ok removed w' →
      ¬ w.files.IsLink output.temporary → ¬ w.files.SameFile source output.temporary →
      ∃ content, w.files.read source = .ok content ∧
        w.files.Receives output (Bytes.stripped content) w'.files) ∧
    ∀ {tools : Toolchain} {u : TranslationUnit} {d : Desk} {t : Text}, tools.transpiler = none →
      Desk.transpile tools ⟨w, u⟩ = .ok t d →
      ¬ w.files.IsLink (Artifacts.beside u.source).code.temporary →
      ∃ content, w.files.read u.source = .ok content ∧
        w.files.Receives (Artifacts.beside u.source).code (Bytes.stripped content)
          d.workspace.files := by
  refine ⟨encode_decode bs, ?_, ?_⟩
  · intro source output size w' removed h hlink hsource
    exact receives_of_copyStrippedVia (copyStripped_eq_ok h) hlink hsource
  · intro tools u d t hplain h hlink
    rcases Desk.transpile_eq_ok h with ⟨a, raw, out, f₁, f, runs, ns, ha, hraw, hout, hcode, rfl⟩
    rw [Artifacts.eq_beside ha] at hcode
    rcases text_eq_ok_iff.mp hraw with ⟨content, hread, rfl⟩
    -- Without a transpiler, what is stripped is the source itself.
    cases hout with
    | external hsome _ =>
        rw [hplain] at hsome
        cases hsome
    | plain _ =>
        refine ⟨content, hread, ?_⟩
        rw [← Stripped.encode_text BufferSize.default]
        exact receives_of_writeAtomic hcode hlink

/-- Whether an action succeeded. -/
def didSucceed {σ α : Type} : EStateM.Result Failure σ α → Bool
  | .ok _ _ => true
  | .error _ _ => false

theorem exists_of_didSucceed {σ α : Type} {result : EStateM.Result Failure σ α}
    (h : didSucceed result = true) : ∃ a s, result = .ok a s := by
  cases result with
  | ok a s => exact ⟨a, s, rfl⟩
  | error e s => cases h

/-- Two bytes that belong to no character, a line that ends with a carriage return, and a
    directive that ends with both symbols of a line end. -/
def strayBytes : Bytes :=
  [0xFF, 0x0D] ++ encode "#pragma czar\r\n" ++ [0xC3]

/-- A file with these bytes, and a link to it. -/
def strayWorkspace : Workspace where
  files := ⟨{ entries := [(["a.cz"], .file strayBytes), (["l"], .link "a.cz")] }, []⟩
  tools := default

/-- The unit of the file. -/
def strayDesk : Desk :=
  ⟨strayWorkspace, TranslationUnit.ofSource "/a.cz"⟩

theorem stripped_strayBytes : Bytes.stripped strayBytes = [0xFF, 0x0D, 0xC3] := by cbv

theorem didSucceed_copyStripped :
    didSucceed (copyStripped "/l" "/out" 1 strayWorkspace) = true := by cbv

theorem didSucceed_transpile : didSucceed (Desk.transpile default strayDesk) = true := by
  cbv

theorem not_sameFile_stray : ¬ strayWorkspace.files.SameFile "/l" (Path.temporary "/out") := by
  have hnone : strayWorkspace.files.openRead (Path.temporary "/out") =
      .error (refuse .noEntry "/out.tmp") := by cbv
  rintro ⟨place, _, htemporary⟩
  rw [hnone] at htemporary
  cases htemporary

theorem read_stray : strayWorkspace.files.read "/l" = .ok strayBytes ∧
    strayWorkspace.files.read "/a.cz" = .ok strayBytes := by
  constructor
  · cbv
  · cbv

theorem stripping_exact_stray : ∃ removed w' t d',
    copyStripped "/l" "/out" 1 strayWorkspace = .ok removed w' ∧
    w'.files.read "/out" = .ok [0xFF, 0x0D, 0xC3] ∧
    Desk.transpile default strayDesk = .ok t d' ∧
    d'.workspace.files.read "/a.cz.c" = .ok [0xFF, 0x0D, 0xC3] ∧
    encode (decode strayBytes) = strayBytes := by
  rcases exists_of_didSucceed didSucceed_copyStripped with ⟨removed, w', hcopy⟩
  rcases exists_of_didSucceed didSucceed_transpile with ⟨t, d', htranspile⟩
  rcases stripping_exact strayBytes strayWorkspace with ⟨hsame, hcopied, htranspiled⟩
  refine ⟨removed, w', t, d', hcopy, ?_, htranspile, ?_, hsame⟩
  · rcases hcopied hcopy (not_isLink_of_absent ["out.tmp"] (by cbv))
      not_sameFile_stray with ⟨content, hread, hreceives⟩
    rw [read_stray.1, Except.ok.injEq] at hread
    rw [← hread, stripped_strayBytes] at hreceives
    exact hreceives.read (not_isLink_of_absent ["out"] (by cbv))
  · rcases htranspiled rfl htranspile
      (not_isLink_of_absent ["a.cz.c.tmp"] (by cbv)) with ⟨content, hread, hreceives⟩
    have hcontent : content = strayBytes := Except.ok.inj (hread.symm.trans read_stray.2)
    rw [hcontent, stripped_strayBytes] at hreceives
    exact hreceives.read (not_isLink_of_absent ["a.cz.c"] (by cbv))

/-- A file, and a link at the path of the temporary file that leads to the output. -/
def linkedWorkspace : Workspace where
  files := ⟨{ entries := [(["a.cz"], .file (encode "x")), (["out.tmp"], .link "out")] }, []⟩
  tools := default

/-- The file, and the link in place of the output. -/
def loopedWorkspace : Workspace :=
  { linkedWorkspace with
    files := ⟨{ entries := [(["out"], .link "out"), (["a.cz"], .file (encode "x"))] }, []⟩
    notices := [.debug .directives "Stripped 0 directive(s) from /a.cz"] }

/-- Where there is a link at the path of the temporary file, copying a file succeeds and leaves the
    link in place of it, which here leads to itself. -/
theorem stripping_through_link :
    copyStripped "/a.cz" "/out" 4096 linkedWorkspace = .ok [] loopedWorkspace ∧
    ("/a.cz" : Path) ≠ Path.temporary "/out" ∧
    loopedWorkspace.files.tree.find? ["out"] = some (.link "out") ∧
    ∀ content, ¬ linkedWorkspace.files.Receives "/out" content loopedWorkspace.files := by
  have hfind : loopedWorkspace.files.tree.find? ["out"] = some (.link "out") := by decide +kernel
  refine ⟨by cbv, by decide +kernel, hfind, fun content hreceives => ?_⟩
  rcases hreceives.placed with ⟨s, hspot, hfile⟩
  have hfree : linkedWorkspace.files.spot false "/out" = .ok (.absent ["out"]) := by cbv
  rw [hfree, Except.ok.injEq] at hspot
  rw [← hspot, Spot.place, hfind] at hfile
  cases hfile

end DialectBuild
