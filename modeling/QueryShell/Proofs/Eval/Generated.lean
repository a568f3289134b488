import QueryShell.Eval.Generator
import QueryShell.Proofs.Stream.FirstException

/-! What gets through of what a node generates, item by item. -/

namespace QueryShell.Generated

variable {vs : List Value}

theorem go_eq_go (first second : List Item) (ending : Ending) (items : List Item) :
    values.go ⟨first, ending⟩ items = values.go ⟨second, ending⟩ items := by
  induction items with
  | nil => rfl
  | cons item items ih =>
    cases item with
    | value v => rw [values.go, values.go, ih]
    | fault e => rfl

theorem values_exception {e : Value} (he : e.isException = true) (items : List Item)
    (ending : Ending) :
    values ⟨.value e :: items, ending⟩ = [e] := by
  rw [values, values.go, if_pos he]

theorem values_plain {v : Value} (hv : v.isException = false) (items : List Item)
    (ending : Ending) :
    values ⟨.value v :: items, ending⟩ = v :: values ⟨items, ending⟩ := by
  rw [values, values.go, if_neg (Bool.not_eq_true _ ▸ hv), go_eq_go _ items, values]

theorem values_cancelled {e : Error} (he : e.isCancelled = true) (items : List Item)
    (ending : Ending) :
    values ⟨.fault e :: items, ending⟩ = [] := by
  rw [values, values.go, if_pos he]

theorem values_fault {e : Error} (he : e.isCancelled = false) (items : List Item)
    (ending : Ending) :
    values ⟨.fault e :: items, ending⟩ = [(Exception.internal e.message).toValue] := by
  rw [values, values.go, if_neg (Bool.not_eq_true _ ▸ he)]

theorem values_ofValues (values : List Value) :
    (ofValues values).values = Stream.throughException values := by
  induction values with
  | nil => rfl
  | cons v vs ih =>
    rw [ofValues] at ih ⊢
    rw [List.map_cons, Stream.throughException]
    cases hv : v.isException with
    | true => rw [values_exception hv, if_pos rfl]
    | false => rw [values_plain hv, ih, if_neg Bool.false_ne_true]

theorem values_once (v : Value) : (once v).values = [v] :=
  (values_ofValues [v]).trans (Stream.throughException_of_terminal (Stream.terminal_singleton v))

end QueryShell.Generated
