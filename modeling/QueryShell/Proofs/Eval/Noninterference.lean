import Mathlib.Data.Set.Insert
import QueryShell.Proofs.Eval.Confined

/-! The local variables that a filter can read are those whose names stand in it. All others, and
with them the format strings and the context, can be anything without a difference to its values and
calls. -/

namespace QueryShell.Filter

mutual

/-- The names that stand in a filter, as a part of it at any depth. -/
def mentions : Filter → List String
  | .empty => []
  | .parens body => body.mentions
  | .array body => body.mentions
  | .object body => body.mentions
  | .name label => [label]
  | .number _ => []
  | .string _ => []
  | .pipe l r => l.mentions ++ r.mentions
  | .apply attributes => mentionsAll attributes
  | .comma l r => l.mentions ++ r.mentions
  | .add l r => l.mentions ++ r.mentions
  | .multiply l r => l.mentions ++ r.mentions
  | .assign l r => l.mentions ++ r.mentions
  | .semicolon l r => l.mentions ++ r.mentions
  | .pair l r => l.mentions ++ r.mentions
  | .command program => program.mentions
  | .globalVariable label => label.mentions

def mentionsAll : List Filter → List String
  | [] => []
  | f :: fs => f.mentions ++ mentionsAll fs

end

theorem mem_mentionsAll {name : String} {f : Filter} {fs : List Filter} (hf : f ∈ fs)
    (h : name ∈ f.mentions) : name ∈ mentionsAll fs := by
  induction fs with
  | nil => simp at hf
  | cons g gs ih =>
    rw [mentionsAll, List.mem_append]
    rcases List.mem_cons.mp hf with rfl | hmem
    · exact .inl h
    · exact .inr (ih hmem)

variable {names : Set String}

/-- A filter is run in ignorance of the local variables that it does not name. -/
theorem confined_eval {runtime : Runtime} (hbuiltins : runtime.builtins.Confined names)
    {f : Filter} (hf : ∀ name ∈ f.mentions, name ∈ names) : (f.eval runtime).Confined names := by
  induction f using Filter.induction with
  | empty => exact Node.confined_constant _
  | number text => exact Node.confined_constant _
  | string text => exact Node.confined_constant _
  | parens body ih => exact Node.confined_parens (ih hf)
  | array body ih => exact Node.confined_arrayOf (ih hf)
  | object body ih => exact Node.confined_objectOf (ih hf)
  | name label =>
    rw [eval]
    exact Node.confined_name hbuiltins (hf label List.mem_cons_self)
  | pipe l r ihl ihr =>
    obtain ⟨hl, hr⟩ := List.forall_mem_append.mp hf
    exact Node.confined_pipe (ihl hl) (ihr hr)
  | apply attributes ih =>
    have hparts : ∀ g ∈ attributes, (g.eval runtime).Confined names := fun g hg =>
      ih g hg fun name hname => hf name (mem_mentionsAll hg hname)
    rcases eval_apply_cases runtime attributes with h | ⟨text, h⟩ | ⟨head, args, rfl, h⟩
    · rw [h]
      exact Node.confined_identity
    · rw [h]
      exact Node.confined_constant _
    · rw [h]
      have hargs : ∀ argument ∈ args.map (eval runtime), argument.Confined names := by
        rw [List.forall_mem_map]
        exact fun g hg => hparts g (List.mem_cons_of_mem head hg)
      exact Node.confined_call hbuiltins (hparts head List.mem_cons_self) hargs
  | comma l r ihl ihr =>
    obtain ⟨hl, hr⟩ := List.forall_mem_append.mp hf
    exact Node.confined_comma (ihl hl) (ihr hr)
  | add l r ihl ihr =>
    obtain ⟨hl, hr⟩ := List.forall_mem_append.mp hf
    exact Node.confined_binary .add (ihl hl) (ihr hr)
  | multiply l r ihl ihr =>
    obtain ⟨hl, hr⟩ := List.forall_mem_append.mp hf
    exact Node.confined_binary .multiply (ihl hl) (ihr hr)
  | pair l r ihl ihr =>
    obtain ⟨hl, hr⟩ := List.forall_mem_append.mp hf
    exact Node.confined_binary .pair (ihl hl) (ihr hr)
  | assign l r _ ihlabel ihr =>
    obtain ⟨hl, hr⟩ := List.forall_mem_append.mp hf
    rw [eval_assign]
    refine Node.confined_assign (fun namer hnamer => ?_) (ihr hr)
    -- Only a global variable is a target with a label of its own.
    cases l with
    | globalVariable label =>
      obtain rfl := Node.Target.global.inj hnamer
      exact ihlabel label rfl hl
    | _ => cases hnamer
  | semicolon l r ihl ihr =>
    obtain ⟨hl, hr⟩ := List.forall_mem_append.mp hf
    rw [eval]
    exact Node.confined_semicolon (ihl hl) (ihr hr)
  | command program ih =>
    rw [eval]
    exact Node.confined_command runtime (ih hf)
  | globalVariable label ih =>
    rw [eval]
    exact Node.confined_globalVariable (ih hf)

/-- Whatever the format strings, the context and the local variables are that a filter does not
name, it yields the same values and makes the same calls, and what it leaves behind agrees again. -/
theorem eval_noninterference (runner : Runner) (config : Config) {names : Set String} {f : Filter}
    (hf : ∀ name ∈ f.mentions, name ∈ names) (values : List Value) {first second : Namespaces}
    (h : first.Agree names second) :
    let run := f.eval ⟨.standard, runner, config⟩ ⟨values, first⟩
    let run' := f.eval ⟨.standard, runner, config⟩ ⟨values, second⟩
    run.result.values = run'.result.values ∧ run.calls = run'.calls ∧
      run.result.namespaces.Agree names run'.result.namespaces := by
  intro run run'
  have hagree : Stream.Agree names ⟨values, first⟩ ⟨values, second⟩ := ⟨rfl, h⟩
  have hrelated : Run.Related (Stream.Agree names) run run' :=
    confined_eval (Builtins.confined_standard names) hf hagree
  exact ⟨hrelated.result.values, hrelated.calls, hrelated.result.namespaces⟩

/-- A body run for each value sees one of two local variables, and the other one has no say. -/
theorem eval_of_unmentioned_variable :
    let names : Set String := {"each", "x"}
    let f : Filter := .semicolon
      (.assign (.globalVariable (.string "g"))
        (.apply [.name "each", .comma (.name "x") .identity]))
      (.globalVariable (.string "g"))
    let first : Namespaces :=
      ⟨[], [("x", [.null]), ("y", [.string "a"])], [("f", "b")], ⟨["c"], false⟩⟩
    let second : Namespaces := { Namespaces.empty with locals := [("x", [.null])] }
    let values : List Value := [.boolean true]
    let run := f.eval ⟨.standard, .system, .standard⟩ ⟨values, first⟩
    let run' := f.eval ⟨.standard, .system, .standard⟩ ⟨values, second⟩
    (∀ name ∈ f.mentions, name ∈ names) ∧ first.Agree names second ∧
      run'.result.values = [.null, .boolean true] ∧ run.result.values = run'.result.values ∧
      run.calls = run'.calls ∧ run.result.namespaces.Agree names run'.result.namespaces := by
  intro names f first second values run run'
  have hf : ∀ name ∈ f.mentions, name ∈ names := by
    intro name hname
    have hmentions : f.mentions = ["each", "x"] := rfl
    rw [hmentions] at hname
    simpa only [names, Set.mem_insert_iff, Set.mem_singleton_iff, List.mem_cons, List.not_mem_nil,
      or_false] using hname
  have hagree : first.Agree names second := by
    refine ⟨rfl, ?_⟩
    rintro name (rfl | rfl) <;> rfl
  have hvalues : run'.result.values = [.null, .boolean true] := by cbv
  obtain ⟨h1, h2, h3⟩ := eval_noninterference .system .standard hf values hagree
  exact ⟨hf, hagree, hvalues, h1, h2, h3⟩

end QueryShell.Filter
