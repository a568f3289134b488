/-! The settings of the program, in the sections of its configuration file. -/

namespace QueryShell

structure EngineSettings where
  threadNamePrefix : String
  deriving DecidableEq

/-- Whether a program's input ends with an end-of-transmission byte, and whether such a byte is
taken off its output. -/
structure CommandSettings where
  endOfTransmission : Bool
  stripTrailingEot : Bool
  deriving DecidableEq

/-- Spaces for each level of nesting in printed results; none prints each result on one line. -/
structure OutputSettings where
  indent : Nat
  deriving DecidableEq

structure Config where
  engine : EngineSettings
  command : CommandSettings
  output : OutputSettings
  deriving DecidableEq

def Config.standard : Config := ⟨⟨"jqsh"⟩, ⟨true, true⟩, ⟨2⟩⟩

end QueryShell
