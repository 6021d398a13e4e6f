import DialectBuild.Failure

/-!
# Actions

Steps that may change a state and may fail. What a step did before it failed stays done, so a
failure comes with a state as success does.

## Main definitions

* `Action`: A step that may change a state and may fail.
* `Action.onOsError`, `Action.onBuildError`: Handling some failures.
* `Action.ofExcept`: A value or a failure as an action.
-/

namespace DialectBuild

/-- A step that may change a state and may fail. The state is kept in both cases. -/
abbrev Action (σ : Type) := EStateM Failure σ

/-- Handles errors of the file system; other failures pass. -/
def Action.onOsError {σ α : Type} (a : Action σ α) (handle : OsError → Action σ α) : Action σ α :=
  tryCatch a fun e => match e with
    | .os o => handle o
    | _ => throw e

/-- Handles build errors; other failures pass. -/
def Action.onBuildError {σ α : Type} (a : Action σ α) (handle : BuildError → Action σ α) :
    Action σ α :=
  tryCatch a fun e => match e with
    | .build b => handle b
    | _ => throw e

/-- A value or a failure as an action. -/
def Action.ofExcept {σ α : Type} : Except Failure α → Action σ α
  | .ok a => pure a
  | .error e => throw e

end DialectBuild
