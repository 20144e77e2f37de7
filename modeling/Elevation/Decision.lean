import Elevation.Config
import Elevation.Environment
import Elevation.Failure

/-! The decision whether to run a command through the helper. It depends on its arguments alone: the
environment, the settings, and the answer of a probe that looks the helper up. -/

namespace Elevation

inductive Decision where
  | direct
  | escalated (helper helperPath preserveEnvFlag : String)
  | directFallback (helper : String)
  deriving DecidableEq, Repr

/-- Looks a name up in a search path. A probe may also throw. -/
abbrev Probe := String → String → Except Thrown (Option String)

namespace Decision

structure Verdict where
  answer : Except Thrown Decision
  lookups : List (String × String)

/-- A disabled escalation needs no helper. Otherwise a helper that is found is used, and one that
is not found is passed over only if the settings allow it. -/
def decide (environment : LaunchEnvironment) (privilege : Privilege) (probe : Probe) : Verdict :=
  if environment.escalationDisabled then ⟨.ok direct, []⟩
  else
    let lookups := [(privilege.helper, environment.searchPath)]
    match probe privilege.helper environment.searchPath with
    | .error thrown => ⟨.error thrown, lookups⟩
    | .ok (some path) =>
      ⟨.ok (escalated privilege.helper path privilege.preserveEnvFlag), lookups⟩
    | .ok none =>
      if privilege.degradeWithoutHelper then ⟨.ok (directFallback privilege.helper), lookups⟩
      else ⟨.error (.failure (Failure.helperUnavailable privilege.helper)), lookups⟩

/-- The command line of a decision. The helper goes by the name under which it was looked up, and
the command follows unchanged. -/
def argv (decision : Decision) (invocation : List String) : List String :=
  match decision with
  | escalated helper _ flag => helper :: flag :: invocation
  | direct => invocation
  | directFallback _ => invocation

end Decision

end Elevation
