/-! Evaluation with a record of the external programs that were called. -/

namespace QueryShell

structure Call where
  program : String
  input : List UInt8
  deriving DecidableEq

structure Run (α : Type) where
  result : α
  calls : List Call

namespace Run

def pure {α : Type} (a : α) : Run α := ⟨a, []⟩

def bind {α β : Type} (run : Run α) (next : α → Run β) : Run β :=
  ⟨(next run.result).result, run.calls ++ (next run.result).calls⟩

instance : Monad Run where
  pure := pure
  bind := bind

def record (call : Call) : Run Unit := ⟨(), [call]⟩

end Run
end QueryShell
