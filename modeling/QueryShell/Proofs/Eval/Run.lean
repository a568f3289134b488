import Mathlib.Control.Basic
import QueryShell.Eval.Run

/-! Evaluations one after the other: results are passed on, calls are put on record in order. Two
evaluations side by side are related if their results are and the calls are the same. -/

namespace QueryShell.Run

attribute [ext] Run

variable {α β : Type}

@[simp]
theorem result_pure (a : α) : (Pure.pure a : Run α).result = a := rfl

@[simp]
theorem calls_pure (a : α) : (Pure.pure a : Run α).calls = [] := rfl

@[simp]
theorem result_bind (run : Run α) (next : α → Run β) :
    (run >>= next).result = (next run.result).result := rfl

@[simp]
theorem calls_bind (run : Run α) (next : α → Run β) :
    (run >>= next).calls = run.calls ++ (next run.result).calls := rfl

@[simp]
theorem result_map (f : α → β) (run : Run α) : (f <$> run).result = f run.result := rfl

@[simp]
theorem calls_map (f : α → β) (run : Run α) : (f <$> run).calls = run.calls :=
  List.append_nil run.calls

instance : LawfulMonad Run :=
  LawfulMonad.mk' Run
    (fun run => Run.ext rfl (List.append_nil run.calls))
    (fun _ _ => rfl)
    (fun _ _ _ => Run.ext rfl (List.append_assoc _ _ _))

/-- Two runs that make the same calls, with results that stand in a relation. -/
structure Related (r : α → α → Prop) (first second : Run α) : Prop where
  result : r first.result second.result
  calls : first.calls = second.calls

namespace Related

variable {r : α → α → Prop} {first second : Run α}

theorem pure {a b : α} (h : r a b) : Related r (Pure.pure a) (Pure.pure b) := ⟨h, rfl⟩

theorem bind {q : β → β → Prop} {next next' : α → Run β} (h : Related r first second)
    (hnext : ∀ a b, r a b → Related q (next a) (next' b)) :
    Related q (first >>= next) (second >>= next') := by
  have hafter := hnext first.result second.result h.result
  refine ⟨hafter.result, ?_⟩
  rw [calls_bind, calls_bind, h.calls, hafter.calls]

/-- What comes after one and the same run may differ. -/
theorem bind_same {q : β → β → Prop} (run : Run α) {next next' : α → Run β}
    (hnext : ∀ a, Related q (next a) (next' a)) : Related q (run >>= next) (run >>= next') := by
  have hafter := hnext run.result
  refine ⟨hafter.result, ?_⟩
  rw [calls_bind, calls_bind, hafter.calls]

/-- What comes after two related runs may do away with the difference. -/
theorem bind_eq {next next' : α → Run β} (h : Related r first second)
    (hnext : ∀ a b, r a b → next a = next' b) : first >>= next = second >>= next' := by
  have hafter := hnext first.result second.result h.result
  apply Run.ext
  · rw [result_bind, result_bind, hafter]
  · rw [calls_bind, calls_bind, h.calls, hafter]

end Related

end QueryShell.Run
