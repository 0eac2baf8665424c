/-
  ExportQuery.Main — the program on the machine it is started on.
-/

import ExportQuery.CommandLine.Run
import Std.Time

namespace ExportQuery.Machine

open ExportQuery.Calendar ExportQuery.CommandLine ExportQuery.Files

/-- The number and the wording of an error of the system. -/
def codeOf? : IO.Error → Option (Nat × String)
  | .alreadyExists _ code reason => some (code.toNat, reason)
  | .otherError code reason => some (code.toNat, reason)
  | .resourceBusy code reason => some (code.toNat, reason)
  | .resourceVanished code reason => some (code.toNat, reason)
  | .unsupportedOperation code reason => some (code.toNat, reason)
  | .hardwareFault code reason => some (code.toNat, reason)
  | .unsatisfiedConstraints code reason => some (code.toNat, reason)
  | .illegalOperation code reason => some (code.toNat, reason)
  | .protocolError code reason => some (code.toNat, reason)
  | .timeExpired code reason => some (code.toNat, reason)
  | .interrupted _ code reason => some (code.toNat, reason)
  | .noFileOrDirectory _ code reason => some (code.toNat, reason)
  | .invalidArgument _ code reason => some (code.toNat, reason)
  | .permissionDenied _ code reason => some (code.toNat, reason)
  | .resourceExhausted _ code reason => some (code.toNat, reason)
  | .inappropriateType _ code reason => some (code.toNat, reason)
  | .noSuchThing _ code reason => some (code.toNat, reason)
  | .unexpectedEof => none
  | .userError _ => none

/-- The error of a file. Numbers above 2^31 stand for negative ones. -/
def fileError (e : IO.Error) : FileError :=
  match codeOf? e with
  | none => .other e.toString.toList
  | some (code, reason) =>
    match if 0x80000000 < code then 0x100000000 - code else code with
    | 2 => .missing
    | 20 => .notDirectory
    | 21 => .isDirectory
    | 36 => .nameTooLong
    | n => .other (reason.capitalize ++ " (os error " ++ toString n ++ ")").toList

def disk : Disk IO where
  read := fun path => do
    if path.contains '\x00' then return .error .nulInPath
    try
      return .ok (← IO.FS.readBinFile (String.ofList path))
    catch e => return .error (fileError e)
  holds := fun path => do
    if path.contains '\x00' then return false
    (System.mkFilePath [String.ofList path]).pathExists

def today : IO Date := do
  let day ← Std.Time.PlainDate.now
  match Date.ofYmd? day.year day.month.val.toNat day.day.val.toNat with
  | some date => return date
  | none => throw (IO.userError "no date")

/-- The system waits in steps of a second at most, so that any number of milliseconds will do. -/
def wait (milliseconds : Nat) : IO Unit := do
  for _ in [0 : milliseconds / 1000] do
    IO.sleep 1000
  IO.sleep (milliseconds % 1000).toUInt32

def host : Host IO where
  disk := disk
  lookup := fun name => do return (← IO.getEnv (String.ofList name)).map String.toList
  today := today
  wait := wait
  say := fun s => do
    (← IO.getStdout).putStr (String.ofList s)
    (← IO.getStdout).flush
  warn := fun s => do (← IO.getStderr).putStr (String.ofList s)

end ExportQuery.Machine

def main (args : List String) : IO UInt32 := do
  return (← ExportQuery.CommandLine.run ExportQuery.Machine.host (args.map String.toList)).toUInt32
