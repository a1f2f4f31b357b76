import Quasi.Bindings
import Quasi.Number.Numeral
import Quasi.Text.Quoted
import Quasi.Text.UpperCase

/-!
# Settings

The runtime is configured by named texts, which are read each time they matter. A flag is one of
eight words in any case, a count is a positive integer, and a blank text counts as unset.
-/

namespace Quasi

/-- The settings that are made, by name. -/
abbrev Settings := Bindings String

/-- Why a setting cannot be used. -/
inductive SettingFault where
  | notFlag (name raw : String)
  | notInteger (name raw : String)
  | notPositive (name : String) (value : Int)
deriving DecidableEq, Repr

def SettingFault.message : SettingFault → String
  | .notFlag name raw => s!"{name} must be a boolean flag, got {Text.Quoted.quote raw}"
  | .notInteger name raw => s!"{name} must be an integer, got {Text.Quoted.quote raw}"
  | .notPositive name value => s!"{name} must be positive, got {value}"

namespace Settings

/-- The text of a setting that is made and not blank. -/
def text? (settings : Settings) (name : String) : Option String :=
  (settings.get? name).filter fun raw => !raw.toList.all Text.isBlank

/-- The flag that a text spells. -/
def flagWord? (raw : String) : Option Bool :=
  let word := String.ofList ((Text.trim Text.isBlank raw.toList).map Char.toLower)
  if ["1", "true", "yes", "on"].contains word then some true
  else if ["0", "false", "no", "off"].contains word then some false
  else none

def flag (settings : Settings) (name : String) (default : Bool) : Except SettingFault Bool :=
  match settings.text? name with
  | none => .ok default
  | some raw =>
      match flagWord? raw with
      | some value => .ok value
      | none => .error (.notFlag name raw)

def count (settings : Settings) (name : String) (default : Int) : Except SettingFault Int :=
  match settings.text? name with
  | none => .ok default
  | some raw =>
      match Numeral.integer? raw with
      | none => .error (.notInteger name raw)
      | some value => if value < 1 then .error (.notPositive name value) else .ok value

/-- The number of closure calls that may be under way at once. -/
def maxDepth (settings : Settings) : Except SettingFault Int :=
  settings.count "RHO_MAX_DEPTH" 100

/-- Whether a name may stand for the only formal that it is the beginning of. -/
def partialMatching (settings : Settings) : Except SettingFault Bool :=
  settings.flag "RHO_PARTIAL_MATCH" true

def logLevel (settings : Settings) : String :=
  Text.upper ((settings.get? "RHO_LOG_LEVEL").getD "WARNING")

theorem flag_default (name : String) (default : Bool) :
    flag [] name default = .ok default := rfl

end Settings

end Quasi
