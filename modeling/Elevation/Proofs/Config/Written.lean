import Elevation.Config
import Elevation.Proofs.Yaml.WrittenValue

/-! Config files as the documentation has them: the chosen settings, each on a line of its own below
the line that opens their section. -/

namespace Elevation.Config

open Yaml (Value)

inductive Key where
  | helper
  | preserveEnvFlag
  | degradeWithoutHelper
  deriving DecidableEq, Repr

inductive Setting where
  | helper (text : String)
  | preserveEnvFlag (text : String)
  | degradeWithoutHelper (flag : Bool)
  deriving DecidableEq, Repr

namespace Key

def text : Key → String
  | helper => Privilege.helperKey
  | preserveEnvFlag => Privilege.preserveEnvFlagKey
  | degradeWithoutHelper => Privilege.degradeWithoutHelperKey

def name (key : Key) : Yaml.Written.Name where
  text := key.text.toList
  ne_nil := by cases key <;> decide +kernel
  letters := by cases key <;> decide +kernel
  isText := by cases key <;> decide +kernel
  fits := by cases key <;> decide +kernel
  notIndex := by cases key <;> decide +kernel

end Key

def privilegeName : Yaml.Written.Name where
  text := privilegeKey.toList
  ne_nil := by decide +kernel
  letters := by decide +kernel
  isText := by decide +kernel
  fits := by decide +kernel
  notIndex := by decide +kernel

namespace Setting

def key : Setting → Key
  | helper _ => .helper
  | preserveEnvFlag _ => .preserveEnvFlag
  | degradeWithoutHelper _ => .degradeWithoutHelper

def value : Setting → Value
  | helper text => .string text
  | preserveEnvFlag text => .string text
  | degradeWithoutHelper flag => .boolean flag

def content (capital : Bool) : Setting → Yaml.Written.Content
  | helper text => .text capital text
  | preserveEnvFlag text => .text capital text
  | degradeWithoutHelper flag => .flag flag

def line (capital : Bool) (s : Setting) : Yaml.Written.Line := ⟨s.key.name, s.content capital⟩

end Setting

def written (capital : Bool) (settings : List Setting) : List Char :=
  Yaml.Written.source privilegeName (settings.map (Setting.line capital))

def valueOf (settings : List Setting) : Value :=
  .object [(privilegeKey, .object (settings.map fun s => (s.key.text, s.value)))]

theorem Key.text_injective {a b : Key} (h : a.text = b.text) : a = b := by
  cases a <;> cases b <;> first | rfl | exact absurd h (by decide)

theorem Key.text_mem_keys (key : Key) : key.text ∈ Privilege.keys := by
  cases key <;> decide

variable {settings : List Setting}

/-- A config file is read as the settings that were written to it. -/
theorem parse_written (capital : Bool) (hsome : settings ≠ [])
    (hkeys : (settings.map Setting.key).Nodup) :
    Yaml.parse (written capital settings) = some (valueOf settings) := by
  have hdistinct : Yaml.Written.Distinct (settings.map (Setting.line capital)) := by
    have htexts : (settings.map fun s => s.key.text.toList).Nodup := by
      rw [List.Nodup, List.pairwise_map] at hkeys ⊢
      exact hkeys.imp fun hne heq => hne (Key.text_injective (String.toList_inj.1 heq))
    simpa [Yaml.Written.Distinct, Function.comp_def, Setting.line, Key.name] using htexts
  have hvalue : Yaml.Written.value privilegeName (settings.map (Setting.line capital)) =
      valueOf settings := by
    have hfield (s : Setting) : (s.line capital).field = (s.key.text, s.value) := by
      cases s <;> simp [Setting.line, Setting.content, Yaml.Written.Line.field,
        Yaml.Written.Name.string, Key.name, Yaml.Written.Content.value, Setting.value]
    simp [Yaml.Written.value, valueOf, hfield, Yaml.Written.Name.string, privilegeName]
  obtain ⟨first, more, rfl⟩ := List.exists_cons_of_ne_nil hsome
  rw [← hvalue]
  exact Yaml.Written.parse_source privilegeName _ _ hdistinct

example : String.ofList (written true [.degradeWithoutHelper false, .helper "a \"b\"\n"]) =
    "privilege:\n  degrade_without_helper: false\n  helper: \"a \\\"b\\\"\\u000A\"\n" := by
  decide +kernel

end Elevation.Config
