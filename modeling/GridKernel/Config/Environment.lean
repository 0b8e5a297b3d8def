import GridKernel.Config.Basic
import GridKernel.Text.Integer

/-!
# Configuration from the environment

Variables override the defaults one by one, and the first that cannot be read is reported.
-/

namespace GridKernel.Config

/-- The value of a variable, if it is set. -/
abbrev Environment := String → Option String

def parseDevices (texts : List String) : Except ConfigFault (List Device) := texts.mapM Device.parse

/-- Applies a setting, if there is one. -/
def override (setting : Option String) (apply : Config → String → Except ConfigFault Config)
    (c : Config) : Except ConfigFault Config :=
  match setting with
  | none => .ok c
  | some text => apply c text

/-- A list of devices with commas between them; blank entries are skipped. -/
def setDevices (c : Config) (text : String) : Except ConfigFault Config := do
  let entries := (Text.split ',' text).filter fun s => Text.trim s ≠ ""
  return { c with devices := ← parseDevices entries }

def setFallback (c : Config) (text : String) : Except ConfigFault Config := do
  return { c with fallback := ← FallbackPolicy.parse text }

def setThreads (c : Config) (text : String) : Except ConfigFault Config :=
  match Text.nat? (Text.trim text) with
  | some n => .ok { c with threads := some n }
  | none => .error (.notANumber text)

/-- The defaults, overridden by the environment. -/
def ofEnvironment (env : Environment) : Except ConfigFault Config := do
  let c ← override (env "KERNELC_DEVICES") setDevices {}
  let c ← override (env "KERNELC_FALLBACK") setFallback c
  let c ← override (env threadsVariable) setThreads c
  c.validated

end GridKernel.Config
