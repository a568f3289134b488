import QueryShell.Channel.Slots
import QueryShell.Proofs.Channel.Queue
import QueryShell.Proofs.Eval.Faultless

/-! Evaluation in two stages: some forms handle the stream themselves, and the others generate
values behind a bridge. Between them the stages cover every form, so that neither is ever asked for
one that it does not know, and nothing else in a filter that can be read makes a fault either. -/

namespace QueryShell

/-- A read under a token that has not fired may wait, and does not fail. -/
theorem Queue.pop_unfired_ne_failed {α : Type} (q : Queue α) (e : ChannelError) :
    (q.pop (.patient none)).1 ≠ .failed e := by
  rcases pop_cases q (.patient none) with ⟨_, hpop⟩ | ⟨hfired, _⟩ | ⟨_, hpop⟩ | ⟨v, rest, _, hpop⟩ |
    ⟨rest, _, hpop⟩
  · simp [hpop]
  · cases hfired
  · simp [hpop, Access.onEmpty]
  · simp [hpop]
  · simp [hpop]

theorem Slots.read_unfired_ne_failed (slots : Slots) (kind : SlotKind) (e : ChannelError) :
    slots.read kind false ≠ .failed e := by
  unfold read
  split <;> simp

theorem Slots.snapshot_unfired_ne_failed (slots : Slots) (e : ChannelError) :
    slots.snapshot false ≠ .failed e := by
  unfold snapshot
  split <;> simp

namespace Filter

mutual

/-- All that a filter consists of, at any depth, from the filter itself. -/
def parts : Filter → List Filter
  | .empty => [.empty]
  | .parens body => .parens body :: body.parts
  | .array body => .array body :: body.parts
  | .object body => .object body :: body.parts
  | .name label => [.name label]
  | .number text => [.number text]
  | .string text => [.string text]
  | .pipe l r => .pipe l r :: (l.parts ++ r.parts)
  | .apply attributes => .apply attributes :: partsAll attributes
  | .comma l r => .comma l r :: (l.parts ++ r.parts)
  | .add l r => .add l r :: (l.parts ++ r.parts)
  | .multiply l r => .multiply l r :: (l.parts ++ r.parts)
  | .assign l r => .assign l r :: (l.parts ++ r.parts)
  | .semicolon l r => .semicolon l r :: (l.parts ++ r.parts)
  | .pair l r => .pair l r :: (l.parts ++ r.parts)
  | .command program => .command program :: program.parts
  | .globalVariable label => .globalVariable label :: label.parts

def partsAll : List Filter → List Filter
  | [] => []
  | f :: fs => f.parts ++ partsAll fs

end

theorem mem_partsAll {g : Filter} {fs : List Filter} : g ∈ partsAll fs ↔ ∃ f ∈ fs, g ∈ f.parts := by
  induction fs with
  | nil => simp [partsAll]
  | cons f fs ih => simp [partsAll, ih]

theorem mem_parts_self (f : Filter) : f ∈ f.parts := by
  cases f <;> simp [parts]

theorem mem_parts_trans {f g h : Filter} (hg : g ∈ f.parts) (hh : h ∈ g.parts) : h ∈ f.parts := by
  induction f using Filter.induction with
  | empty | name | number | string =>
    rw [parts, List.mem_singleton] at hg
    exact hg ▸ hh
  | parens body ih | array body ih | object body ih | command body ih | globalVariable body ih =>
    rw [parts, List.mem_cons] at hg
    rcases hg with rfl | hg
    · exact hh
    · rw [parts]
      exact List.mem_cons_of_mem _ (ih hg)
  | apply attributes ih =>
    rw [parts, List.mem_cons] at hg
    rcases hg with rfl | hg
    · exact hh
    · obtain ⟨a, ha, hg⟩ := mem_partsAll.mp hg
      rw [parts]
      exact List.mem_cons_of_mem _ (mem_partsAll.mpr ⟨a, ha, ih a ha hg⟩)
  | assign l r ihl _ ihr =>
    rw [parts, List.mem_cons, List.mem_append] at hg
    rcases hg with rfl | hg
    · exact hh
    · rw [parts, List.mem_cons, List.mem_append]
      exact .inr (hg.imp ihl ihr)
  | pipe l r ihl ihr | comma l r ihl ihr | add l r ihl ihr | multiply l r ihl ihr
  | semicolon l r ihl ihr
  | pair l r ihl ihr =>
    rw [parts, List.mem_cons, List.mem_append] at hg
    rcases hg with rfl | hg
    · exact hh
    · rw [parts, List.mem_cons, List.mem_append]
      exact .inr (hg.imp ihl ihr)

/-- The filters that stand directly in a filter. -/
def components : Filter → List Filter
  | .parens body => [body]
  | .array body => [body]
  | .object body => [body]
  | .pipe l r => [l, r]
  | .apply attributes => attributes
  | .comma l r => [l, r]
  | .add l r => [l, r]
  | .multiply l r => [l, r]
  | .assign l r => [l, r]
  | .semicolon l r => [l, r]
  | .pair l r => [l, r]
  | .command program => [program]
  | .globalVariable label => [label]
  | _ => []

theorem mem_parts_of_mem_components {f g : Filter} (h : g ∈ f.components) : g ∈ f.parts := by
  cases f with
  | apply attributes => exact List.mem_cons_of_mem _ (mem_partsAll.mpr ⟨g, h, mem_parts_self g⟩)
  | empty | name | number | string => cases h
  | parens body | array body | object body | command body | globalVariable body =>
    obtain rfl := List.mem_singleton.mp h
    exact List.mem_cons_of_mem _ (mem_parts_self g)
  | pipe l r | comma l r | add l r | multiply l r | assign l r | semicolon l r | pair l r =>
    rw [parts, List.mem_cons, List.mem_append]
    rcases List.mem_pair.mp h with rfl | rfl
    · exact .inr (.inl (mem_parts_self g))
    · exact .inr (.inr (mem_parts_self g))

def IsNumeral (text : String) : Prop := ∃ n, Decimal.ofText text.toList = .ok n

/-- No external program is called, and every numeral can be read, those in two halves included. -/
structure Legible (f : Filter) : Prop where
  command : ∀ program, .command program ∉ f.parts
  number : ∀ text, .number text ∈ f.parts → IsNumeral text
  halves : ∀ attributes text, .apply attributes ∈ f.parts → splitDecimal? attributes = some text →
    IsNumeral text

theorem Legible.part {f g : Filter} (h : f.Legible) (hg : g ∈ f.parts) : g.Legible where
  command program hprogram := h.command program (mem_parts_trans hg hprogram)
  number text htext := h.number text (mem_parts_trans hg htext)
  halves attributes text happly := h.halves attributes text (mem_parts_trans hg happly)

/-! ### The two stages -/

/-- Whether the first stage leaves the form to the second one. -/
def isBridged : Filter → Bool
  | .name _ => false
  | .assign .. => false
  | .semicolon .. => false
  | .globalVariable _ => false
  | .apply attributes => !attributes.all isEmpty && (splitDecimal? attributes).isSome
  | _ => true

def noGenerator (f : Filter) : Generated :=
  .faulty (.internal (f.kind ++ " node has no generator form"))

def generateOperation (op : Operator) (left right : Evaluator) (inner : Stream) :
    Run Generated := do
  let first ← left inner
  let second ← right inner
  match Stream.firstException? (first.values ++ second.values) with
  | some e => return .once e
  | none => return .ofValues (op.pairwise first.values second.values)

/-- The second stage: what a form generates from the values before the first exception. -/
def generate (runtime : Runtime) (f : Filter) (inner : Stream) : Run Generated :=
  match f with
  | .empty => return .nothing
  | .parens body => do return .ofValues (← body.eval runtime inner).values
  | .array body => do return .once (.array (← body.eval runtime inner).values)
  | .object body => do
    match Node.entriesOf (← body.eval runtime inner).values with
    | .ok entries => return .once (.object entries)
    | .error e => return .raised e
  | .number text => return Node.numeral text
  | .string text => return .once (.string text)
  | .pipe l r => do return .ofValues (← r.eval runtime (← l.eval runtime inner)).values
  | .comma l r => do
    let first ← l.eval runtime inner
    let second ← r.eval runtime inner
    return .ofValues (first.values ++ second.values)
  | .add l r => generateOperation .add (l.eval runtime) (r.eval runtime) inner
  | .multiply l r => generateOperation .multiply (l.eval runtime) (r.eval runtime) inner
  | .pair l r => generateOperation .pair (l.eval runtime) (r.eval runtime) inner
  | .command program => do
    match ← Namer.resolve ⟨program.literalName?, program.eval runtime⟩ inner with
    | .error e => return .raised e
    | .ok label => Node.answer runtime label inner.values
  | .apply attributes =>
    match splitDecimal? attributes with
    | some text => return Node.numeral text
    | none => return noGenerator f
  | .name _ => return noGenerator f
  | .assign .. => return noGenerator f
  | .semicolon .. => return noGenerator f
  | .globalVariable _ => return noGenerator f

/-- The first stage, with the second one for all that it does not handle. -/
def dispatch (runtime : Runtime) (f : Filter) : Evaluator :=
  match f with
  | .name label => Node.name runtime label
  | .apply attributes =>
    if f.isIdentity then Node.identity
    else if (splitDecimal? attributes).isNone then evalCall runtime attributes
    else bridge (f.generate runtime)
  | .assign l r => Node.assign (l.target runtime) (r.eval runtime)
  | .semicolon l r => Node.semicolon (l.eval runtime) (r.eval runtime)
  | .globalVariable label => Node.globalVariable ⟨label.literalName?, label.eval runtime⟩
  | _ => bridge (f.generate runtime)

theorem eval_eq_dispatch (runtime : Runtime) (f : Filter) :
    f.eval runtime = f.dispatch runtime := by
  cases f with
  | assign l r => exact eval_assign runtime l r
  | apply attributes =>
    rw [eval, dispatch, isIdentity]
    split
    · rfl
    · cases hsplit : splitDecimal? attributes with
      | some text =>
        have hgenerate : (apply attributes).generate runtime =
            fun _ => return Node.numeral text := by
          funext inner
          rw [generate, hsplit]
        rw [if_neg (by simp), hgenerate]
        rfl
      | none => rfl
  | _ => rfl

theorem eval_of_isBridged (runtime : Runtime) {f : Filter} (h : f.isBridged = true) :
    f.eval runtime = bridge (f.generate runtime) := by
  rw [eval_eq_dispatch]
  cases f with
  | apply attributes =>
    obtain ⟨hfull, hsplit⟩ := Bool.and_eq_true_iff.mp h
    rw [dispatch, isIdentity, if_neg (by simpa using hfull),
      if_neg (by simp [Option.isSome_iff_ne_none.mp hsplit])]
  | name | assign | semicolon | globalVariable => cases h
  | _ => rfl

/-! ### Neither stage makes a fault -/

theorem makesNoFault_generateOperation (op : Operator) {left right : Evaluator}
    (hleft : left.Faultless) (hright : right.Faultless) :
    MakesNoFault (generateOperation op left right) := by
  intro inner hinner
  have hfirst := (hleft hinner).values
  have hsecond := (hright hinner).values
  rw [generateOperation, Run.result_bind, Run.result_bind]
  split
  · next e he =>
    have hboth := List.forall_mem_append.mpr ⟨hfirst, hsecond⟩
    exact Generated.faultless_once (Stream.faultless_firstException? hboth e he)
  · exact Generated.faultless_ofValues (op.faultless_pairwise hfirst hsecond)

theorem makesNoFault_generate {runtime : Runtime} {f : Filter} (hf : f.Legible)
    (hbridged : f.isBridged = true) (hparts : ∀ g ∈ f.components, (g.eval runtime).Faultless) :
    MakesNoFault (f.generate runtime) := by
  intro inner hinner
  have hself := mem_parts_self f
  cases f with
  | empty => exact Generated.faultless_nothing
  | parens body =>
    exact Generated.faultless_ofValues (hparts body (by simp [components]) hinner).values
  | array body =>
    exact Generated.faultless_once (.array (hparts body (by simp [components]) hinner).values)
  | object body =>
    have hentries := Node.allows_entriesOf (hparts body (by simp [components]) hinner).values
    rw [generate, Run.result_bind]
    split
    · next entries hok =>
      exact Generated.faultless_once
        (.object fun e he => hentries.of_ok hok e (Dictionary.mem_ofEntries he))
    · next e herror => exact Generated.faultless_once (hentries.of_error herror)
  | number text => exact Node.faultless_numeral (hf.number text hself)
  | string text => exact Generated.faultless_once (.string text)
  | pipe l r =>
    have hl := hparts l (by simp [components])
    have hr := hparts r (by simp [components])
    exact Generated.faultless_ofValues (hr (hl hinner)).values
  | comma l r =>
    have hl := (hparts l (by simp [components]) hinner).values
    have hr := (hparts r (by simp [components]) hinner).values
    exact Generated.faultless_ofValues (List.forall_mem_append.mpr ⟨hl, hr⟩)
  | add l r | multiply l r | pair l r =>
    exact makesNoFault_generateOperation _ (hparts l (by simp [components]))
      (hparts r (by simp [components])) hinner
  | apply attributes =>
    obtain ⟨text, htext⟩ := Option.isSome_iff_exists.mp (Bool.and_eq_true_iff.mp hbridged).2
    rw [generate, htext]
    exact Node.faultless_numeral (hf.halves attributes text hself htext)
  | command program => exact absurd hself (hf.command program)
  | name | assign | semicolon | globalVariable => cases hbridged

theorem faultless_eval {runtime : Runtime} (hbuiltins : runtime.builtins.Faultless) {f : Filter}
    (hf : f.Legible) :
    (f.eval runtime).Faultless := by
  have hcomponent : ∀ {f : Filter}, f.Legible → ∀ g ∈ f.components, g.Legible := fun hf g hg =>
    hf.part (mem_parts_of_mem_components hg)
  have hbridged : ∀ {f : Filter}, f.Legible → f.isBridged = true →
      (∀ g ∈ f.components, (g.eval runtime).Faultless) → (f.eval runtime).Faultless := by
    intro f hf hb hparts
    rw [eval_of_isBridged runtime hb]
    exact faultless_bridge (makesNoFault_generate hf hb hparts)
  induction f using Filter.induction with
  | empty | number | string => exact hbridged hf rfl nofun
  | parens body ih | array body ih | object body ih | command body ih =>
    refine hbridged hf rfl fun g hg => ?_
    obtain rfl := List.mem_singleton.mp hg
    exact ih (hcomponent hf g hg)
  | pipe l r ihl ihr | comma l r ihl ihr | add l r ihl ihr | multiply l r ihl ihr
  | pair l r ihl ihr =>
    refine hbridged hf rfl fun g hg => ?_
    rcases List.mem_pair.mp hg with rfl | rfl
    · exact ihl (hcomponent hf g hg)
    · exact ihr (hcomponent hf g hg)
  | name label =>
    rw [eval]
    exact Node.faultless_name hbuiltins label
  | apply attributes ih =>
    have hparts : ∀ g ∈ attributes, (g.eval runtime).Faultless :=
      fun g hg => ih g hg (hcomponent hf g hg)
    rw [eval_eq_dispatch, dispatch]
    split
    · exact Node.faultless_identity
    · next hfull =>
      split
      · cases attributes with
        | nil => exact absurd rfl hfull
        | cons head args =>
          rw [evalCall, evalAll_eq_map]
          refine Node.faultless_call hbuiltins (hparts head List.mem_cons_self)
            (List.forall_mem_map.mpr fun g hg => ?_)
          exact hparts g (List.mem_cons_of_mem head hg)
      · next hsplit =>
        refine faultless_bridge (makesNoFault_generate hf ?_ hparts)
        rw [isBridged]
        rw [isIdentity] at hfull
        simp [hfull, Option.isSome_iff_ne_none, Option.isNone_iff_eq_none.not.mp hsplit]
  | assign l r _ ihlabel ihr =>
    rw [eval_assign]
    refine Node.faultless_assign (fun namer hnamer => ?_)
      (ihr (hcomponent hf r (by simp [components])))
    -- Only a global variable is a target with a label of its own.
    cases l with
    | globalVariable label =>
      obtain rfl := Node.Target.global.inj hnamer
      have hl := hcomponent hf (.globalVariable label) (by simp [components])
      exact ihlabel label rfl (hcomponent hl label (by simp [components]))
    | _ => cases hnamer
  | semicolon l r ihl ihr =>
    rw [eval]
    exact Node.faultless_semicolon (ihl (hcomponent hf l (by simp [components])))
      (ihr (hcomponent hf r (by simp [components])))
  | globalVariable label ih =>
    rw [eval]
    exact Node.faultless_globalVariable (ih (hcomponent hf label (by simp [components])))

/-- Over input and variables without faults, a filter that can be read yields none and leaves none
in its variables: the two stages cover every part of it, no function looks for an argument that it
was not given, and reading from a channel whose token has not fired does not fail. -/
theorem eval_faultless (runner : Runner) (config : Config) {f : Filter} (hf : f.Legible)
    {input : Stream} (hinput : input.Faultless) :
    let runtime : Runtime := ⟨.standard, runner, config⟩
    (f.eval runtime input).result.Faultless ∧
      (∀ g ∈ f.parts, g.eval runtime = g.dispatch runtime ∧
        (g.isBridged = true → MakesNoFault (g.generate runtime))) ∧
      (∀ name (args : List Filter) function,
        runtime.builtins.lookup name args.length = .ok function →
        (∀ g ∈ args, g ∈ f.parts) → MakesNoFault (function (args.map (eval runtime)))) ∧
      (∀ (q : Queue Value) e, (q.pop (.patient none)).1 ≠ .failed e) ∧
      ∀ (slots : Slots) e, (∀ kind, slots.read kind false ≠ .failed e) ∧
        slots.snapshot false ≠ .failed e := by
  intro runtime
  have hbuiltins : runtime.builtins.Faultless := Builtins.faultless_standard
  have hparts : ∀ g ∈ f.parts, (g.eval runtime).Faultless :=
    fun g hg => faultless_eval hbuiltins (hf.part hg)
  refine ⟨faultless_eval hbuiltins hf hinput,
    fun g hg => ⟨eval_eq_dispatch runtime g, fun hbridged => ?_⟩,
    fun name args function hlookup hargs => ?_, Queue.pop_unfired_ne_failed,
    fun slots e =>
      ⟨fun kind => slots.read_unfired_ne_failed kind e, slots.snapshot_unfired_ne_failed e⟩⟩
  · refine makesNoFault_generate (hf.part hg) hbridged fun h hh => hparts h ?_
    exact mem_parts_trans hg (mem_parts_of_mem_components hh)
  · refine hbuiltins name _ function hlookup _ (List.length_map _)
      (List.forall_mem_map.mpr fun g hg => ?_)
    exact hparts g (hargs g hg)

/-- A numeral in two halves is bound, and a body run for each value adds it to what is no number in
the end. -/
theorem eval_faultless_binding_then_each :
    let f : Filter :=
      .semicolon (.assign (.globalVariable (.name "g")) (.apply [.number "1", .number "5"]))
      (.apply [.name "each", .add (.globalVariable (.name "g")) .identity])
    let input : Stream :=
      ⟨[.number ⟨1, 0⟩, .array [.exception "type" []]],
        { Namespaces.empty with locals := [("x", [.null])] }⟩
    f.Legible ∧ input.Faultless ∧
      (f.eval ⟨.standard, .system, .standard⟩ input).result.Faultless := by
  intro f input
  have hf : f.Legible := by
    refine ⟨fun program => by simp [f, parts, partsAll, identity], fun text htext => ?_,
      fun attributes text h hsplit => ?_⟩
    · have htext : text = "1" ∨ text = "5" := by simpa [f, parts, partsAll, identity] using htext
      rcases htext with rfl | rfl
      · exact ⟨⟨1, 0⟩, rfl⟩
      · exact ⟨⟨5, 0⟩, rfl⟩
    · have happly : attributes = [.number "1", .number "5"] ∨ splitDecimal? attributes = none := by
        simp [f, parts, partsAll, identity] at h
        rcases h with rfl | rfl | rfl <;> simp [splitDecimal?]
      rcases happly with rfl | hnone
      · obtain rfl : "1.5" = text := Option.some.inj hsplit
        exact ⟨⟨15, 1⟩, rfl⟩
      · rw [hnone] at hsplit
        cases hsplit
  have hinput : input.Faultless := by
    have htype : Value.Faultless (.exception "type" []) := Exception.faultless_wrongType
    refine ⟨?_, ⟨nofun, fun name values hvalues => ?_⟩⟩
    · simpa [input] using ⟨.number _, .array (by simpa using htype)⟩
    · have hstored : (name, values) ∈ [("x", [Value.null])] := Dictionary.mem_of_find? hvalues
      obtain ⟨_, rfl⟩ := Prod.mk.inj (List.mem_singleton.mp hstored)
      exact List.forall_mem_singleton.mpr .null
  exact ⟨hf, hinput, (eval_faultless .system .standard hf hinput).1⟩

end Filter
end QueryShell
