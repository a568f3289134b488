import QueryShell.Shell.Basic
import QueryShell.Text.Utf8

/-! The program: reads the files and the input that the shell needs, and writes what it says. -/

namespace QueryShell.Shell

def decoded (bytes : ByteArray) : Except ReadFailure (List Char) :=
  match Text.ofUtf8 bytes.toList with
  | .ok cs => .ok cs
  | .error _ => .error .notText

def failureOf : IO.Error → ReadFailure
  | .noFileOrDirectory .. => .notFound
  | .permissionDenied .. => .notPermitted
  | .inappropriateType .. => .isADirectory
  | e => .other (toString e)

def readFile (path : String) : IO (Except ReadFailure (List Char)) := do
  try return decoded (← IO.FS.readBinFile path)
  catch e => return .error (failureOf e)

partial def readAll (stream : IO.FS.Stream) (before : ByteArray) : IO ByteArray := do
  let bytes ← stream.read 65536
  if bytes.isEmpty then return before else readAll stream (before ++ bytes)

def defaultConfig : IO (Option String) := do
  match ← IO.getEnv "XDG_CONFIG_HOME", ← IO.getEnv "HOME" with
  | some folder, _ => return some (folder ++ "/jqsh/config.toml")
  | none, some home => return some (home ++ "/.config/jqsh/config.toml")
  | none, none => return none

def execute (args : List String) : IO UInt32 := do
  let input ← readAll (← IO.getStdin) .empty
  let standardPath ← defaultConfig
  let wanted := ((Options.ofArguments? args).map Options.paths).getD [] ++ standardPath.toList
  let contents ← wanted.mapM fun path => do return (path, ← readFile path)
  let files : Files := fun path => (contents.lookup path).getD (.error .notFound)
  let outcome := run ⟨files, decoded input, standardPath, .system⟩ args
  let (out, err) := (← IO.getStdout, ← IO.getStderr)
  out.putStr (String.ofList outcome.transcript.results)
  err.putStr (String.ofList outcome.transcript.reports)
  out.flush
  return UInt32.ofNat outcome.status

end QueryShell.Shell

def main (args : List String) : IO UInt32 := QueryShell.Shell.execute args
