import QueryShell.Command.Codec
import QueryShell.Command.Runner
import QueryShell.Eval.Builtin

/-! What an evaluation can draw on: the functions, the external programs and the settings. -/

namespace QueryShell

structure Runtime where
  builtins : Builtins
  runner : Runner
  config : Config

def Runtime.call (runtime : Runtime) (program : String) (input : List UInt8) :
    Run (Except LaunchFailure (List UInt8)) := do
  Run.record ⟨program, input⟩
  return runtime.runner program input

end QueryShell
