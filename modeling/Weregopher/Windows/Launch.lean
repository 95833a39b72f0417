import Weregopher.Windows.CommandLine

/-! # Prepared launches of locked executables

What Windows itself decides about a launch is left to the callers of these
definitions. Paths are UTF-16 text; the parent of a path is kept with it.
-/
namespace Weregopher.Windows
open Lib.Checked Lib.Outcome

structure JobLimits where
  activeProcesses : UInt32
  processMemoryBytes : Nat
  jobMemoryBytes : Nat
  deriving DecidableEq

def JobLimits.new (activeProcesses : UInt32) (processMemoryBytes jobMemoryBytes : UInt64) : Result JobLimits := do
  if activeProcesses = 0 ∨ processMemoryBytes = 0 ∨ jobMemoryBytes = 0 then
    throw (invalidInput "Job Object limits must be nonzero")
  if processMemoryBytes > jobMemoryBytes then
    throw (invalidInput "per-process memory cannot exceed aggregate job memory")
  if processMemoryBytes.toNat > usizeMax then
    throw (invalidInput "per-process memory cannot be represented by Windows SIZE_T")
  if jobMemoryBytes.toNat > usizeMax then
    throw (invalidInput "aggregate job memory cannot be represented by Windows SIZE_T")
  return ⟨activeProcesses, processMemoryBytes.toNat, jobMemoryBytes.toNat⟩

def windowsCommandLineMaxUnits : Nat := 32767

def ProcessLaunchLimits.new (maxArguments maxArgumentUnits maxCommandLineUnits : Nat) :
    Result ProcessLaunchLimits := do
  if maxArguments = 0 ∨ maxArgumentUnits = 0 ∨ maxCommandLineUnits = 0 then
    throw (invalidInput "process launch limits must be nonzero")
  if maxArgumentUnits ≥ maxCommandLineUnits then
    throw (invalidInput "per-argument UTF-16 limit must be below the aggregate command-line limit")
  if maxCommandLineUnits > windowsCommandLineMaxUnits then
    throw (invalidInput "command-line limit exceeds the Windows CreateProcessW boundary")
  return ⟨maxArguments, maxArgumentUnits, maxCommandLineUnits⟩

def encodeWide (text : String) : List UInt16 :=
  text.toList.flatMap fun c =>
    if c.toNat < 0x10000 then [UInt16.ofNat c.toNat]
    else [UInt16.ofNat (0xD800 + (c.toNat - 0x10000) / 0x400), UInt16.ofNat (0xDC00 + (c.toNat - 0x10000) % 0x400)]

structure FileIdentity where
  volumeSerialNumber : UInt64
  fileId : BitVec 128
  deriving DecidableEq

structure LockedExecutable where
  path : List UInt16
  parent : Option (List UInt16)
  identity : FileIdentity
  lockInstanceId : UInt64
  deriving DecidableEq

structure PreparedProcessLaunch where
  executablePath : List UInt16
  executableIdentity : FileIdentity
  lockInstanceId : UInt64
  (application currentDirectory commandLine environment : List UInt16)
  deriving DecidableEq

def encodeNulTerminated (value : List UInt16) (maxUnits : Nat) : Result (List UInt16) := do
  let encoded ← encodeUnits value maxUnits
  return encoded ++ [0]

def emptyEnvironment : List UInt16 := [0, 0]

def LockedExecutable.prepareLaunch (executable : LockedExecutable) (arguments : List (List UInt16))
    (limits : ProcessLaunchLimits) : Result PreparedProcessLaunch := do
  let application ← encodeNulTerminated executable.path limits.argumentUnits
  let parent ← okOr (invalidInput "locked executable lost its absolute parent") executable.parent
  let currentDirectory ← encodeNulTerminated parent limits.argumentUnits
  let commandLine ← buildCommandLine executable.path arguments limits
  return ⟨executable.path, executable.identity, executable.lockInstanceId, application, currentDirectory, commandLine,
    emptyEnvironment⟩

/-- The first check of `launch_prepared`. -/
def PreparedProcessLaunch.isFor (prepared : PreparedProcessLaunch) (executable : LockedExecutable) : Bool :=
  executable.path = prepared.executablePath && executable.identity = prepared.executableIdentity &&
    executable.lockInstanceId = prepared.lockInstanceId

structure OwnedJobProcess where
  jobLimits : JobLimits
  processId : UInt32
  executable : LockedExecutable
  deriving DecidableEq

end Weregopher.Windows
