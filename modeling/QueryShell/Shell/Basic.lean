import QueryShell.Config.File
import QueryShell.Filter.Interchange
import QueryShell.Session
import QueryShell.Shell.Files
import QueryShell.Shell.Options
import QueryShell.Shell.Report
import QueryShell.Value.Json
import QueryShell.Value.Render

/-! The shell: one filter on a stream of values, or a session with a filter on each line. Results go
to one output and exceptions to another. -/

namespace QueryShell.Shell

structure Surroundings where
  files : Files
  input : Except ReadFailure (List Char)
  /-- Where the configuration is if no other place is given. -/
  defaultConfig : Option String
  runner : Runner

structure Transcript where
  results : List Char
  reports : List Char

namespace Transcript

def empty : Transcript := ⟨[], []⟩

def append (first second : Transcript) : Transcript :=
  ⟨first.results ++ second.results, first.reports ++ second.reports⟩

def result (line : List Char) : Transcript := ⟨line ++ ['\n'], []⟩

def reported (line : List Char) : Transcript := ⟨[], line ++ ['\n']⟩

/-- An exception is reported, any other value is a result. -/
def ofValue (layout : Layout) (v : Value) : Transcript :=
  match v.asException? with
  | some e => e.report.foldl (fun t line => t.append (reported line.toList)) empty
  | none => result (v.render layout).toList

def ofValues (layout : Layout) (vs : List Value) : Transcript :=
  vs.foldl (fun t v => t.append (ofValue layout v)) empty

end Transcript

structure Outcome where
  status : Nat
  transcript : Transcript

def Outcome.failed (before : Transcript) (failure : Failure) : Outcome :=
  ⟨1, before.append ⟨[], failure.report⟩⟩

/-- A configuration that is asked for must be there and be right. -/
def loadConfig (files : Files) (path : String) : Except Failure Config :=
  let activity := "loading config " ++ path
  match files path with
  | .error e =>
    .error ⟨activity, (Error.context ("Failed to read " ++ path) (.io e.message)).causes⟩
  | .ok cs =>
    match Config.ofText cs with
    | .ok config => .ok config
    | .error e => .error ⟨activity, e.causes⟩

/-- Writes the configuration to a file. That its folder can be made and the file be written is taken
for granted. -/
def saveConfig (files : Files) (path : String) (config : Config) : Except Error Files :=
  config.toText.map fun text => files.write path (Text.toUtf8 text)

def config (around : Surroundings) (options : Options) : Except Failure Config := do
  let config ← match options.config, around.defaultConfig with
    | some path, _ => loadConfig around.files path
    | none, some path => pure ((loadConfig around.files path).toOption.getD .standard)
    | none, none => pure .standard
  return if options.compact then { config with output := ⟨0⟩ } else config

def readFilter (files : Files) (source : String) : Except Failure Filter := do
  let text ← match Options.filterPath? source with
    | none => pure source.toList
    | some path =>
      match files path with
      | .ok cs => pure cs
      | .error e => throw ⟨"reading filter file " ++ path, [e.message]⟩
  match Filter.ofInterchange text with
  | .ok filter => return filter
  | .error e => throw ⟨"parsing filter AST", [e.message]⟩

def readInput (input : Except ReadFailure (List Char)) : Except Failure (List Value) :=
  match input with
  | .error e => .error ⟨"reading input values", [e.message]⟩
  | .ok cs =>
    match Value.readStream cs with
    | .ok vs => .ok vs
    | .error e => .error ⟨"parsing input values", e.causes⟩

def runTurn (session : Session) (filter : Filter) (input : List Value) :
    Except Failure (List Value × Session) :=
  match session.run ⟨filter, input, none⟩ with
  | (.ok stream, next) => .ok (stream.values, next)
  | (.error e, _) => .error ⟨e.message, e.causes.tail⟩

def runFilter (around : Surroundings) (layout : Layout) (session : Session) (source : String) :
    Except Failure Outcome := do
  let filter ← readFilter around.files source
  let input ← readInput around.input
  let (vs, _) ← runTurn session filter input
  return ⟨if Stream.raises vs then 1 else 0, .ofValues layout vs⟩

def isSpace (c : Char) : Bool :=
  let n := c.toNat
  (0x9 ≤ n && n ≤ 0xd) || n = 0x20 || n = 0x85 || n = 0xa0 || n = 0x1680 ||
    (0x2000 ≤ n && n ≤ 0x200a) || n = 0x2028
    || n = 0x2029 || n = 0x202f || n = 0x205f || n = 0x3000

/-- One line of a session. A line that is no filter is reported and changes nothing. -/
def runLine (layout : Layout) (session : Session) (line : List Char) :
    Except Failure (Transcript × Session) :=
  if line.all isSpace then .ok (.empty, session)
  else
    match Filter.ofInterchange line with
    | .error e => .ok (.reported ("jqsh: syntax error: " ++ e.message).toList, session)
    | .ok filter => do
      let (vs, next) ← runTurn session filter []
      return (.ofValues layout vs, next)

def runLines (layout : Layout) (session : Session) (before : Transcript) :
    List (List Char) → Outcome
  | [] => ⟨0, before⟩
  | line :: rest =>
    match runLine layout session line with
    | .ok (transcript, next) => runLines layout next (before.append transcript) rest
    | .error failure => .failed before failure

def runSession (around : Surroundings) (layout : Layout) (session : Session) : Outcome :=
  match around.input with
  | .ok cs => runLines layout session .empty (Text.lines cs)
  | .error e => .failed .empty ⟨"reading filter", [e.message]⟩

def runWith (around : Surroundings) (options : Options) : Except Failure Outcome := do
  let config ← config around options
  let session :=
    (Session.start ⟨.standard, around.runner, config⟩).withContext ⟨options.arguments, true⟩
  let layout : Layout := ⟨config.output.indent⟩
  match options.filter with
  | some source => runFilter around layout session source
  | none => return runSession around layout session

def usage : String := "usage: jqsh [--filter FILTER] [--config FILE] [--compact] [ARGUMENT]..."

def run (around : Surroundings) (args : List String) : Outcome :=
  match Options.ofArguments? args with
  | none => ⟨2, .reported usage.toList⟩
  | some options =>
    match runWith around options with
    | .ok outcome => outcome
    | .error failure => .failed .empty failure

end QueryShell.Shell
