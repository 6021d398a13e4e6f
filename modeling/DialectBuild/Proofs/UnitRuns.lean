import DialectBuild.Build.Run
import DialectBuild.Proofs.DeskWork

/-!
# Units One After the Other

A phase takes every unit in turn. What a whole phase does is said once, for any relation that
holds between the unit and the workspace before and after one step. A property that steps
establish for the unit on the desk, and keep for all others, then holds of every unit at the
end.

What a phase shows on the console does not matter to any of this.

## Main definitions

* `Project.Passes`: Units are taken one after the other, each by a step of a given relation.

## Theorems

* `discover_eq_ok`: What discovery gives.
* `Project.passes_of_runUnits`: Doing something to every unit goes step by step.
* `Project.Passes.forall_of_done`: What steps establish and keep holds at the end.
* `Project.Passes.calls_of_steps`: The runs that steps add, in order.
* `Project.writeSources_eq_ok`: The first two phases as two passes over the units.
-/

namespace DialectBuild

namespace Workspace

variable {w w' : Workspace}

theorem say_eq_ok_iff {f : Console → Console} {u : Unit} :
    say f w = .ok u w' ↔ { w with console := f w.console } = w' :=
  Action.modify_eq_ok_iff

theorem enter_eq_ok {a a' : Activity} (h : enter a w = .ok a' w') :
    ∃ c, w' = { w with console := c } := by
  simp only [enter, Action.bind_eq_ok_iff, Action.get_eq_ok_iff, say_eq_ok_iff,
    Action.pure_eq_ok_iff] at h
  rcases h with ⟨_, _, ⟨rfl, rfl⟩, _, _, rfl, _, rfl⟩
  exact ⟨_, rfl⟩

end Workspace

/-- Discovery changes no file and gives a fresh unit for each source. -/
theorem discover_eq_ok {root : Path} {w w' : Workspace} {units : List TranslationUnit}
    (h : discover root w = .ok units w') :
    ∃ sources ns, w.files.sources root = .ok sources ∧
      units = sources.map TranslationUnit.ofSource ∧ w' = { w with notices := ns } := by
  simp only [discover, Action.bind_eq_ok_iff, Workspace.liftM_eq_ok_iff,
    FileAction.query_eq_ok_iff] at h
  rcases h with ⟨sources, _, ⟨_, ⟨hsources, rfl⟩, rfl⟩, h⟩
  by_cases hempty : sources.isEmpty = true
  · rw [if_pos hempty] at h
    simp only [Action.bind_eq_ok_iff, Action.throw_eq_ok_iff, false_and, exists_false] at h
  · rw [if_neg hempty] at h
    simp only [Action.bind_eq_ok_iff, Workspace.notify_eq_ok_iff, Action.pure_eq_ok_iff] at h
    rcases h with ⟨_, _, rfl, rfl, rfl⟩
    exact ⟨sources, _, hsources, rfl, rfl⟩

namespace Project

variable {α : Type} {p p' : Project}

theorem liftM_eq_ok_iff {a : Action Workspace α} {x : α} :
    (liftM a : Action Project α) p = .ok x p' ↔
      ∃ w, a p.workspace = .ok x w ∧ p' = { p with workspace := w } := by
  have hlift : (liftM a : Action Project α) p = onWorkspace a p := rfl
  rw [hlift, onWorkspace]
  rcases a p.workspace with ⟨y, w⟩ | ⟨e, w⟩
  · constructor
    · rintro ⟨rfl, rfl⟩
      exact ⟨w, rfl, rfl⟩
    · rintro ⟨_, ⟨rfl, rfl⟩, rfl⟩
      rfl
  · refine ⟨fun h => (by cases h), ?_⟩
    rintro ⟨_, h, _⟩
    cases h

/-- A phase is what it does, but for the console. -/
theorem phase_eq_ok {number : Int} {label : Text} {body : Action Project α} {x : α}
    (h : phase number label body p = .ok x p') :
    ∃ c c' p₁, body ⟨{ p.workspace with console := c }, p.units⟩ = .ok x p₁ ∧
      p' = ⟨{ p₁.workspace with console := c' }, p₁.units⟩ := by
  simp only [phase, Workspace.leave, Action.bind_eq_ok_iff, liftM_eq_ok_iff,
    Workspace.say_eq_ok_iff, Action.pure_eq_ok_iff] at h
  rcases h with ⟨_, _, ⟨_, henter, rfl⟩, _, p₁, hbody, _, _, ⟨_, rfl, rfl⟩, rfl, rfl⟩
  rcases Workspace.enter_eq_ok henter with ⟨c, rfl⟩
  exact ⟨c, _, p₁, hbody, rfl⟩

/-- Preparing a unit and showing it is preparing it, but for the console. -/
theorem prepareShown_eq_ok {root : Path} {tools : Toolchain} {d d' : Desk} {u : Unit}
    (h : prepareShown root tools d = .ok u d') :
    ∃ c d₁, Desk.prepare root tools d = .ok () d₁ ∧
      d' = ⟨{ d₁.workspace with console := c }, d₁.unit⟩ := by
  simp only [prepareShown, Action.bind_eq_ok_iff, Desk.unitOf_eq_ok_iff, Desk.liftM_eq_ok_iff,
    Workspace.say_eq_ok_iff] at h
  rcases h with ⟨_, d₁, hprepare, _, _, ⟨rfl, rfl⟩, _, rfl, rfl⟩
  exact ⟨_, d₁, hprepare, rfl⟩

/-- Saying something about each of some things changes the console only. -/
theorem forIn_say_eq_ok {β : Type} {l : List β} {f : β → Console → Console} {d d' : Desk}
    {u : PUnit} (h : forIn l PUnit.unit (fun b _ => do
      liftM (Workspace.say (f b))
      pure (ForInStep.yield PUnit.unit) : β → PUnit → Action Desk (ForInStep PUnit)) d =
        .ok u d') :
    ∃ c, d' = ⟨{ d.workspace with console := c }, d.unit⟩ := by
  induction l generalizing d with
  | nil =>
      rw [List.forIn_nil, Action.pure_eq_ok_iff] at h
      exact ⟨d.workspace.console, h.2.symm⟩
  | cons b l ih =>
      simp only [List.forIn_cons, Action.bind_eq_ok_iff, Desk.liftM_eq_ok_iff,
        Workspace.say_eq_ok_iff, Action.pure_eq_ok_iff] at h
      rcases h with ⟨_, _, ⟨_, _, ⟨_, rfl, rfl⟩, rfl, rfl⟩, h⟩
      rcases ih h with ⟨c, rfl⟩
      exact ⟨c, rfl⟩

/-- Finishing a unit and warning of its imports is finishing it, but for the console. -/
theorem finishShown_eq_ok {root : Path} {sources : List Path} {d d' : Desk} {u : Unit}
    (h : finishShown root sources d = .ok u d') :
    ∃ c d₁, Desk.finish sources d = .ok () d₁ ∧
      d' = ⟨{ d₁.workspace with console := c }, d₁.unit⟩ := by
  simp only [finishShown, Action.bind_eq_ok_iff, Desk.unitOf_eq_ok_iff,
    Action.pure_eq_ok_iff] at h
  rcases h with ⟨_, d₁, hfinish, _, _, ⟨rfl, rfl⟩, _, _, hloop, _, rfl⟩
  rcases forIn_say_eq_ok hloop with ⟨c, rfl⟩
  exact ⟨c, d₁, hfinish, rfl⟩

/-- Preparing a unit and showing it succeeds if preparing it does. -/
theorem exists_prepareShown {root : Path} {tools : Toolchain} {d d₁ : Desk}
    (h : Desk.prepare root tools d = .ok () d₁) : ∃ d', prepareShown root tools d = .ok () d' := by
  rw [prepareShown, Action.bind_of_ok h]
  exact ⟨_, rfl⟩

/-- Saying something about each of some things succeeds. -/
theorem exists_forIn_say {β : Type} (l : List β) (f : β → Console → Console) (d : Desk) :
    ∃ u d', forIn l PUnit.unit (fun b _ => do
      liftM (Workspace.say (f b))
      pure (ForInStep.yield PUnit.unit) : β → PUnit → Action Desk (ForInStep PUnit)) d =
        .ok u d' := by
  induction l generalizing d with
  | nil => exact ⟨_, _, rfl⟩
  | cons b l ih =>
      have hsay : (do
          liftM (Workspace.say (f b))
          pure (ForInStep.yield PUnit.unit) : Action Desk (ForInStep PUnit)) d =
            .ok (.yield PUnit.unit) ⟨{ d.workspace with console := f b d.workspace.console },
              d.unit⟩ := rfl
      rw [List.forIn_cons, Action.bind_of_ok hsay]
      exact ih _

/-- Finishing a unit and warning of its imports succeeds if finishing it does. -/
theorem exists_finishShown {root : Path} {sources : List Path} {d d₁ : Desk}
    (h : Desk.finish sources d = .ok () d₁) :
    ∃ d', finishShown root sources d = .ok () d' := by
  have hunit : Desk.unitOf d₁ = .ok d₁.unit d₁ := rfl
  rw [finishShown, Action.bind_of_ok h, Action.bind_of_ok hunit]
  rcases exists_forIn_say d₁.unit.unresolved (fun i c => c.warning
    (Path.display root d₁.unit.source ++ ": import \"" ++ i.modulePath ++
      "\" resolved to no headers")) d₁ with ⟨u, d₂, hloop⟩
  exact ⟨_, Action.bind_eq_ok_iff.mpr ⟨u, d₂, hloop, rfl⟩⟩

/-- Units are taken one after the other, each by a step of the relation `R` between the
    workspace and the unit before and after it. -/
inductive Passes (R : Workspace → TranslationUnit → Workspace → TranslationUnit → Prop) :
    Workspace → List TranslationUnit → Workspace → List TranslationUnit → Prop where
  | nil (w : Workspace) : Passes R w [] w []
  | cons {w w₁ w₂ : Workspace} {u u' : TranslationUnit} {us us' : List TranslationUnit}
      (hstep : R w u w₁ u') (hrest : Passes R w₁ us w₂ us') : Passes R w (u :: us) w₂ (u' :: us')

section Passing

variable {R : Workspace → TranslationUnit → Workspace → TranslationUnit → Prop}
  {w w' : Workspace} {us us' : List TranslationUnit}

theorem passes_of_runUnits {act : Action Desk α} {xs : List α}
    (hact : ∀ {d d' : Desk} {x : α}, act d = .ok x d' → R d.workspace d.unit d'.workspace d'.unit)
    (h : runUnits act us w = .ok xs p) : Passes R w us p.workspace p.units := by
  induction us generalizing w xs p with
  | nil =>
      rw [runUnits] at h
      rcases h with ⟨rfl, rfl⟩
      exact .nil w
  | cons u us ih =>
      rw [runUnits] at h
      rcases hu : act ⟨w, u⟩ with ⟨x, d⟩ | ⟨e, d⟩
      · rw [hu] at h
        dsimp only at h
        rcases hus : runUnits act us d.workspace with ⟨ys, q⟩ | ⟨e, q⟩
        · rw [hus] at h
          rcases h with ⟨rfl, rfl⟩
          exact .cons (hact hu) (ih hus)
        · rw [hus] at h
          cases h
      · rw [hu] at h
        cases h

/-- If a step turns the one property of its unit into the other and keeps both of all other
    units, a pass over all units does the same for each of them. Units in `done` have been
    taken before. -/
theorem Passes.forall_of_done (inv : Workspace → Prop)
    (before after : Workspace → TranslationUnit → Prop)
    (hstep : ∀ {w u w' u'}, R w u w' u' → inv w → before w u →
      inv w' ∧ after w' u' ∧ u'.source = u.source)
    (hbefore : ∀ {w u w' u'}, R w u w' u' → inv w → before w u →
      ∀ v, v.source ≠ u.source → before w v → before w' v)
    (hafter : ∀ {w u w' u'}, R w u w' u' → inv w → before w u →
      ∀ v, v.source ≠ u.source → after w v → after w' v)
    (h : Passes R w us w' us') (done : List TranslationUnit) (hinv : inv w)
    (hnodup : ((done ++ us).map TranslationUnit.source).Nodup) (hdone : ∀ u ∈ done, after w u)
    (hus : ∀ u ∈ us, before w u) :
    inv w' ∧ (∀ u ∈ done ++ us', after w' u) ∧
      us'.map TranslationUnit.source = us.map TranslationUnit.source := by
  induction h generalizing done with
  | nil w =>
      rw [List.append_nil]
      exact ⟨hinv, hdone, rfl⟩
  | @cons w w₁ w₂ u u' us us' hu _ ih =>
      rcases List.forall_mem_cons.mp hus with ⟨hbeforeu, hus⟩
      rcases hstep hu hinv hbeforeu with ⟨hinv₁, hafteru, hsource⟩
      -- The unit on the desk is none of the others, so they keep what they have.
      have hapart : ∀ v, v ∈ done ∨ v ∈ us → v.source ≠ u.source := by
        intro v hv heq
        rw [List.map_append, List.map_cons, List.nodup_append] at hnodup
        rcases hnodup with ⟨_, hnodup, hdisjoint⟩
        rcases hv with hv | hv
        · exact hdisjoint _ (List.mem_map_of_mem hv) _ List.mem_cons_self heq
        · exact (List.nodup_cons.mp hnodup).1 (heq ▸ List.mem_map_of_mem hv)
      have hnodup₁ : ((done ++ [u'] ++ us).map TranslationUnit.source).Nodup := by
        rw [List.append_assoc, List.singleton_append, List.map_append, List.map_cons, hsource,
          ← List.map_cons, ← List.map_append]
        exact hnodup
      have hdone₁ : ∀ v ∈ done ++ [u'], after w₁ v := by
        rw [List.forall_mem_append, List.forall_mem_singleton]
        exact ⟨fun v hv => hafter hu hinv hbeforeu v (hapart v (Or.inl hv)) (hdone v hv), hafteru⟩
      have hus₁ : ∀ v ∈ us, before w₁ v :=
        fun v hv => hbefore hu hinv hbeforeu v (hapart v (Or.inr hv)) (hus v hv)
      -- It is done now, and the pass goes on with the rest.
      rcases ih _ hinv₁ hnodup₁ hdone₁ hus₁ with ⟨hinv₂, hall, hsources⟩
      rw [List.append_assoc, List.singleton_append] at hall
      exact ⟨hinv₂, hall, by rw [List.map_cons, List.map_cons, hsource, hsources]⟩

/-- If a step leaves its unit as it is and adds one run, a pass adds one run for each unit, in
    their order. -/
theorem Passes.calls_of_steps (inv : Workspace → Prop) (ready : TranslationUnit → Prop)
    (callOf : TranslationUnit → ToolCall)
    (hstep : ∀ {w u w' u'}, R w u w' u' → inv w → ready u →
      inv w' ∧ u' = u ∧ ∃ r, w'.runs = w.runs ++ [r] ∧ r.call = callOf u)
    (h : Passes R w us w' us') (hinv : inv w) (hready : ∀ u ∈ us, ready u) :
    inv w' ∧ us' = us ∧
      ∃ rs, w'.runs = w.runs ++ rs ∧ rs.map ToolRun.call = us.map callOf := by
  induction h with
  | nil w => exact ⟨hinv, rfl, [], (List.append_nil _).symm, rfl⟩
  | cons hu _ ih =>
      rcases List.forall_mem_cons.mp hready with ⟨hreadyu, hrest⟩
      rcases hstep hu hinv hreadyu with ⟨hinv₁, rfl, r, hrun, hcall⟩
      rcases ih hinv₁ hrest with ⟨hinv₂, rfl, rs, hruns, hcalls⟩
      refine ⟨hinv₂, rfl, r :: rs, ?_, ?_⟩
      · rw [hruns, hrun, List.append_assoc, List.singleton_append]
      · rw [List.map_cons, List.map_cons, hcall, hcalls]

end Passing

/-- The first two phases are two passes over the units, but for the console. -/
theorem writeSources_eq_ok {root : Path} {tools : Toolchain} {u : Unit}
    (h : writeSources root tools p = .ok u p') :
    ∃ c c₁ c₂ xs ys q r,
      runUnits (prepareShown root tools) p.units { p.workspace with console := c } = .ok xs q ∧
      runUnits (finishShown root (p.units.map TranslationUnit.source)) q.units
        { q.workspace with console := c₁ } = .ok ys r ∧
      p' = ⟨{ r.workspace with console := c₂ }, r.units⟩ := by
  simp only [writeSources, Action.bind_eq_ok_iff, Action.get_eq_ok_iff] at h
  rcases h with ⟨_, _, ⟨rfl, rfl⟩, xs, _, hfirst, ys, _, hsecond, h⟩
  rcases phase_eq_ok hfirst with ⟨c, _, q, hq, rfl⟩
  rcases phase_eq_ok hsecond with ⟨c₁, c₂, r, hr, rfl⟩
  rw [Action.pure_eq_ok_iff] at h
  exact ⟨c, c₁, c₂, xs, ys, q, r, hq, hr, h.2.symm⟩

end Project

end DialectBuild
