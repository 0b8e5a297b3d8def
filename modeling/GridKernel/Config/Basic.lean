import GridKernel.Text.Blank

/-!
# Configuration of a dispatcher

Which devices may run a kernel, in order of preference, and what happens when the accelerator
fails. `validate` names the first rule that a configuration breaks.
-/

namespace GridKernel

/-- Where kernels run. -/
inductive Device where
  | accelerator
  /-- The host, on a pool of workers. -/
  | pool
  /-- The host, one work-item after the other. -/
  | sequential
  deriving DecidableEq, Repr

/-- What happens when the accelerator cannot build or run a kernel. -/
inductive FallbackPolicy where
  /-- The failure is reported. -/
  | strict
  /-- The next device is tried. -/
  | fallBack
  deriving DecidableEq, Repr

/-- How data moves between the host and the accelerator. -/
inductive TransferMode where
  /-- With every execution. -/
  | implicit
  /-- Only on request. -/
  | explicit
  deriving DecidableEq, Repr

def Device.name : Device → String
  | accelerator => "acc"
  | pool => "jtp"
  | sequential => "seq"

/-- Whether the device is the host. -/
def Device.isHost (d : Device) : Bool := d ≠ .accelerator

def FallbackPolicy.name : FallbackPolicy → String
  | strict => "strict"
  | fallBack => "fallback"

def TransferMode.name : TransferMode → String
  | implicit => "implicit"
  | explicit => "explicit"

inductive ConfigFault where
  | unknownDevice (text : String)
  | unknownPolicy (text : String)
  | notANumber (text : String)
  | noDevices
  | repeatedDevice (device : Device)
  | noThreads
  | tooManyThreads
  | noGroupSize
  | alreadySet
  | noUsableDevice (kernel : String)
  deriving DecidableEq, Repr

/-- The largest number of workers. -/
def maxThreads : Nat := 1024

/-- The setting that holds the number of workers. -/
def threadsVariable : String := "KERNELC_THREADS"

def ConfigFault.message : ConfigFault → String
  | unknownDevice text => s!"unknown device kind '{text}'"
  | unknownPolicy text => s!"unknown fallback policy '{text}'"
  | notANumber text => s!"{threadsVariable}: not a number: '{text}'"
  | noDevices => "at least one device is required"
  | repeatedDevice device => s!"device '{device.name}' listed twice"
  | noThreads => "num_threads must be > 0"
  | tooManyThreads => s!"num_threads too large (max {maxThreads})"
  | noGroupSize => "max_work_group_size must be > 0"
  | alreadySet => "default dispatch config already set"
  | noUsableDevice kernel => s!"no configured device can run kernel '{kernel}'"

/-- Reads a device by any of its names; blanks around it and capitals do not matter. -/
def Device.parse (text : String) : Except ConfigFault Device :=
  match Text.lower (Text.trim text) with
  | "acc" | "accelerator" | "gpu" | "opencl" => .ok .accelerator
  | "jtp" | "pool" | "threadpool" | "thread_pool" => .ok .pool
  | "seq" | "sequential" => .ok .sequential
  | other => .error (.unknownDevice other)

/-- Reads a policy by any of its names; blanks around it and capitals do not matter. -/
def FallbackPolicy.parse (text : String) : Except ConfigFault FallbackPolicy :=
  match Text.lower (Text.trim text) with
  | "strict" | "0" | "false" => .ok .strict
  | "fallback" | "fall_back" | "1" | "true" => .ok .fallBack
  | other => .error (.unknownPolicy other)

structure Config where
  /-- The devices to try, the preferred one first. -/
  devices : List Device := [.accelerator, .pool]
  fallback : FallbackPolicy := .strict
  /-- The number of workers; open if it is left to the host. -/
  threads : Option Nat := none
  /-- The largest number of work-items in a work-group. -/
  maxGroupSize : Nat := 256
  transfer : TransferMode := .implicit
  /-- What the workers' names begin with. -/
  workerName : String := "kernelc-worker"
  deriving DecidableEq, Repr

namespace Config

/-- The first device that stands in the list before. -/
def repeated? : List Device → List Device → Option Device
  | _, [] => none
  | seen, d :: rest => if seen.contains d then some d else repeated? (d :: seen) rest

def validate (c : Config) : Except ConfigFault Unit :=
  if c.devices.isEmpty then .error .noDevices
  else match repeated? [] c.devices with
    | some d => .error (.repeatedDevice d)
    | none =>
      if c.threads = some 0 then .error .noThreads
      else if c.threads.any (maxThreads < ·) then .error .tooManyThreads
      else if c.maxGroupSize = 0 then .error .noGroupSize
      else .ok ()

/-- The configuration itself, if it is valid. -/
def validated (c : Config) : Except ConfigFault Config := do
  c.validate
  return c

/-- The number of workers, on a host that has this many at once. -/
def workers (c : Config) (parallelism : Nat := 1) : Nat := c.threads.getD parallelism

/-- The devices after the accelerator, or all of them if it is not in the list. -/
def afterAccelerator (c : Config) : List Device :=
  match c.devices.idxOf? .accelerator with
  | some i => c.devices.drop (i + 1)
  | none => c.devices

end Config

end GridKernel
