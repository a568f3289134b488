import QueryShell.Proofs.Eval.Assignments
import QueryShell.Proofs.Eval.Naming

/-! A single assignment. Either the one variable that its left side selects is bound to all that its
right side yields, and the input goes through, or one exception is raised and nothing is bound. -/

namespace QueryShell

namespace Filter

/-- The variable that a filter selects for an assignment. A computed name is worked out on no
input. -/
inductive Selects (runtime : Runtime) (namespaces : Namespaces) : Filter → Variable → Prop where
  | literal {f : Filter} {v : Variable} (h : f.binding? = some v) : Selects runtime namespaces f v
  | computed {label : Filter} {name : String} (hcomputed : label.literalName? = none)
    (h : (label.eval runtime ⟨[], namespaces⟩).result.values = [.string name]) :
    Selects runtime namespaces (.globalVariable label) (.global name)

def isVariable : Filter → Bool
  | .name _ => true
  | .globalVariable _ => true
  | _ => false

/-- What is raised of an assignment to a filter that selects no variable. -/
inductive Refuses (runtime : Runtime) (namespaces : Namespaces) : Filter → Exception → Prop where
  | unassignable {f : Filter} (h : f.isVariable = false) :
    Refuses runtime namespaces f (.assignment f.kind f.source)
  | unnamed {label : Filter} {e : Exception} (hcomputed : label.literalName? = none)
    (h : Namer.Unnamed (label.eval runtime ⟨[], namespaces⟩).result.values e) :
    Refuses runtime namespaces (.globalVariable label) e

variable {runtime : Runtime} {f : Filter} {v : Variable}

theorem isVariable_of_binding? (h : f.binding? = some v) : f.isVariable = true := by
  rcases eq_of_binding? h with ⟨_, rfl, _⟩ | ⟨_, _, rfl, _⟩ <;> rfl

theorem not_refuses_of_selects {namespaces : Namespaces} (h : f.Selects runtime namespaces v)
    (e : Exception) :
    ¬ f.Refuses runtime namespaces e := by
  intro hrefuses
  cases h with
  | literal h =>
    cases hrefuses with
    | unassignable hvariable => simp [isVariable_of_binding? h] at hvariable
    | unnamed hcomputed _ => simp [binding?, hcomputed] at h
  | computed _ h =>
    cases hrefuses with
    | unassignable hvariable => cases hvariable
    | unnamed _ hunnamed => exact hunnamed.not_name _ h

theorem Selects.unique {namespaces : Namespaces} {w : Variable}
    (hv : f.Selects runtime namespaces v) (hw : f.Selects runtime namespaces w) : w = v := by
  cases hv with
  | literal hv =>
    cases hw with
    | literal hw => exact Option.some.inj (hw.symm.trans hv)
    | computed hcomputed _ => simp [binding?, hcomputed] at hv
  | computed hcomputed hv =>
    cases hw with
    | literal hw => simp [binding?, hcomputed] at hw
    | computed _ hw => simpa [hv, eq_comm] using hw

theorem result_bind_of_selects {input : Stream} (h : f.Selects runtime input.namespaces v)
    (values : List Value) :
    (Node.bind (f.target runtime) values input).result =
      ⟨Stream.throughException input.values, input.namespaces.bind values v⟩ := by
  cases h with
  | literal h =>
    rcases eq_of_binding? h with ⟨label, rfl, rfl⟩ | ⟨label, name, rfl, hliteral, rfl⟩
    · rfl
    · simp only [target, Node.bind, hliteral, Namer.resolve_literal, pure_bind]
      rfl
  | computed hcomputed h =>
    simp only [target, Node.bind, hcomputed, Namer.resolve_computed, Run.result_bind, h]
    rfl

theorem selects_or_refuses (runtime : Runtime) (f : Filter) (values : List Value) (input : Stream) :
    (∃ v, f.Selects runtime input.namespaces v) ∨
    ∃ e, f.Refuses runtime input.namespaces e ∧
      (Node.bind (f.target runtime) values input).result =
        { input with values := [e.toValue] } := by
  cases f with
  | name label => exact .inl ⟨.local label, .literal rfl⟩
  | globalVariable label =>
    cases hliteral : label.literalName? with
    | some name => exact .inl ⟨.global name, .literal (by rw [binding?, hliteral, Option.map_some])⟩
    | none =>
      by_cases hname : ∃ name, (label.eval runtime ⟨[], input.namespaces⟩).result.values =
        [.string name]
      · obtain ⟨name, hname⟩ := hname
        exact .inl ⟨.global name, .computed hliteral hname⟩
      · obtain ⟨e, he, hsensible⟩ := Namer.exists_unnamed (not_exists.mp hname)
        refine .inr ⟨e, .unnamed hliteral he, ?_⟩
        simp only [target, Node.bind, hliteral, Namer.resolve_computed, Run.result_bind,
          Run.result_pure, hsensible]
        rfl
  | _ => exact .inr ⟨_, .unassignable rfl, rfl⟩

/-- An assignment whose right side yields an exception raises the first one, whatever the left side
is. If it yields none, then either the left side selects no variable, and what it refuses is raised,
or it selects one. That variable is then bound to all that the right side has yielded, and the input
goes through to its first exception. All else is as it was. -/
theorem eval_assign_atomic (runtime : Runtime) (l r : Filter) (input : Stream) :
    let stored := (r.eval runtime input).result.values
    let output := ((assign l r).eval runtime input).result
    match Stream.firstException? stored with
    | some e => output = { input with values := [e] }
    | none =>
      (∃ e : Exception, l.Refuses runtime input.namespaces e ∧
        (∀ v, ¬ l.Selects runtime input.namespaces v) ∧
        output = { input with values := [e.toValue] }) ∨
      ∃ v, (∀ w, l.Selects runtime input.namespaces w ↔ w = v) ∧
        (∀ e, ¬ l.Refuses runtime input.namespaces e) ∧
        output = ⟨Stream.throughException input.values, input.namespaces.bind stored v⟩ ∧
        ∀ w, output.namespaces.get? w = if w = v then some stored else input.namespaces.get? w := by
  intro stored output
  have heval : output = (Node.assign (l.target runtime) (r.eval runtime) input).result := by
    rw [← eval_assign]
  cases hfirst : Stream.firstException? stored with
  | some e =>
    dsimp only
    rw [heval, Node.assign, Run.result_bind, hfirst]
    rfl
  | none =>
    have hbind : output = (Node.bind (l.target runtime) stored input).result := by
      rw [heval, Node.assign, Run.result_bind, hfirst]
    rcases selects_or_refuses runtime l stored input with ⟨v, hv⟩ | ⟨e, he, hraised⟩
    · have hbound : output =
          ⟨Stream.throughException input.values, input.namespaces.bind stored v⟩ :=
        hbind.trans (result_bind_of_selects hv stored)
      refine .inr ⟨v, fun w => ⟨hv.unique, fun hw => hw ▸ hv⟩, not_refuses_of_selects hv, hbound,
        fun w => ?_⟩
      rw [hbound, Namespaces.get?_bind]
    · exact .inl ⟨e, he, fun v hv => not_refuses_of_selects hv e he, hbind.trans hraised⟩

end Filter
end QueryShell
