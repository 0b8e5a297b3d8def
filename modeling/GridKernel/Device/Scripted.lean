import GridKernel.Device.Accelerator

/-!
# A scripted accelerator

An accelerator that fails where its script says so, writes down every operation, and whose
launches change memory in a fixed way. It stands in for a device in rehearsals.
-/

namespace GridKernel

structure Script where
  failBuild : Bool := false
  failLaunch : Bool := false
  /-- The arguments whose upload fails. -/
  failUpload : List Nat := []
  /-- The arguments whose download fails. -/
  failDownload : List Nat := []
  /-- The arguments whose download lacks the last byte. -/
  shortDownload : List Nat := []
  /-- The byte that a launch fills buffers with. -/
  fill : Option UInt8 := none
  deriving DecidableEq, Repr

/-- An operation the accelerator was asked for. -/
inductive DeviceEvent where
  | build (id : ProgramId) (entry : String)
  | upload (id : ProgramId) (arg : Nat) (bytes : List UInt8)
  | download (id : ProgramId) (arg : Nat)
  | launch (id : ProgramId) (args : List LaunchArg) (range : Range) (localSize : Dim3)
  deriving DecidableEq

structure Scripted where
  script : Script := {}
  /-- The number of the next program; a failed build uses one up. -/
  next : ProgramId := 0
  /-- The memory of each program's arguments, the latest write first. -/
  images : List ((ProgramId × Nat) × List UInt8) := []
  /-- The operations so far, the latest first. -/
  events : List DeviceEvent := []

namespace Scripted

def note (e : DeviceEvent) (s : Scripted) : Scripted := { s with events := e :: s.events }

def put (id : ProgramId) (arg : Nat) (bytes : List UInt8) (s : Scripted) : Scripted :=
  { s with images := ((id, arg), bytes) :: s.images.filter (·.1 ≠ (id, arg)) }

def build (source : Source) : DeviceAction Scripted ProgramId := fun s =>
  let id := s.next
  let s := { s.note (.build id source.entry) with next := id + 1 }
  (if s.script.failBuild then .error "build rejected" else .ok id, s)

def upload (id : ProgramId) (arg : Nat) (bytes : List UInt8) : DeviceAction Scripted Unit := fun s =>
  let s := s.note (.upload id arg bytes)
  if s.script.failUpload.contains arg then (.error s!"write of argument {arg} failed", s)
  else (.ok (), s.put id arg bytes)

def download (id : ProgramId) (arg : Nat) : DeviceAction Scripted (List UInt8) := fun s =>
  let s := s.note (.download id arg)
  let r : Except String (List UInt8) :=
    if s.script.failDownload.contains arg then .error s!"read of argument {arg} timed out"
    else match s.images.lookup (id, arg) with
      | none => .error s!"argument {arg} was never uploaded"
      | some bytes =>
        .ok (if s.script.shortDownload.contains arg then bytes.dropLast else bytes)
  (r, s)

/-- The memory of an argument after a launch: filled if the script says so, else every byte is
raised by one, and memory that does not have the argument's size is set to ones. -/
def launched (fill : Option UInt8) (bytes : Nat) (image : Option (List UInt8)) : List UInt8 :=
  match fill with
  | some b => List.replicate bytes b
  | none =>
    match image with
    | some image =>
      if image.length = bytes then image.map (· + 1) else List.replicate bytes 1
    | none => List.replicate bytes 1

def launchArg (id : ProgramId) (s : Scripted) : LaunchArg × Nat → Scripted
  | (.buffer bytes, arg) =>
    s.put id arg (launched s.script.fill bytes (s.images.lookup (id, arg)))
  | _ => s

def launch (id : ProgramId) (args : List LaunchArg) (range : Range) (localSize : Dim3) :
    DeviceAction Scripted Unit := fun s =>
  let s := s.note (.launch id args range localSize)
  if s.script.failLaunch then (.error "device lost", s)
  else (.ok (), args.zipIdx.foldl (launchArg id) s)

def accelerator : Accelerator Scripted := ⟨build, upload, download, launch⟩

end Scripted

end GridKernel
