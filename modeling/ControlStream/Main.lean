import ControlStream.CommandLine.FileTree
import ControlStream.CommandLine.Run

/-!
# The command line program

The outer layer: it gives the program access to files, the standard streams and the environment.
-/

namespace ControlStream

def systemErrorText : IO.Error → String
  | .noFileOrDirectory .. => FileError.notFound.message
  | .inappropriateType _ 21 _ => FileError.isDirectory.message
  | .inappropriateType .. => FileError.notDirectory.message
  | .permissionDenied .. => "Permission denied (os error 13)"
  | e => toString e

partial def readAll (stream : IO.FS.Stream) (read : ByteArray) : IO ByteArray := do
  let bytes ← stream.read 65536
  if bytes.isEmpty then return read
  readAll stream (read ++ bytes)

def attempt (act : IO ByteArray) : IO (Except String (List UInt8)) := do
  match ← act.toBaseIO with
  | .ok bytes => return .ok bytes.toList
  | .error e => return .error (systemErrorText e)

def realEnvironment : IO (Environment IO) := do
  return {
    home := ← IO.getEnv "HOME"
    contentsOf := fun path => attempt (IO.FS.readBinFile path)
    standardInput := attempt (do readAll (← IO.getStdin) .empty) }

end ControlStream

def main (args : List String) : IO UInt32 := do
  let outcome ← ControlStream.runCommandLine (← ControlStream.realEnvironment) args
  (← IO.getStdout).putStr outcome.stdout
  (← IO.getStderr).putStr outcome.stderr
  return outcome.exitCode.toUInt32
