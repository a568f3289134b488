import QueryShell.Eval.Basic

/-! The courses that the evaluation of a filter can take. A node that finishes before it has read
its input to the end leaves it to chance how much of the input its caller still moves, and whether
the exception of the input is come to at all. `Filter.eval` is the course in which every caller
comes to the end before its node has finished. A course says what is put out; that a thread cannot
be started at all is left out. -/

namespace QueryShell

/-- What a node makes, and whether it has read to the end by then. Of a node that stops with an
exception the second says nothing. -/
structure Made where
  generated : Generated
  atEnd : Bool

/-- What comes out of a filter, and whether its input has been taken to the end by then, or to its
first exception. Of an output with an exception the second says nothing. -/
structure Passage where
  output : Stream
  atEnd : Bool

/-- What a node may make of what it reads. -/
abbrev Making := Stream → Made → Prop

abbrev Course := Stream → Passage → Prop

namespace Course

/-- The caller moves the values of the input until it comes to the end or to an exception, which it
then puts out, or until it sees that the node has finished. -/
inductive bridged (making : Making) (input : Stream) : Passage → Prop where
  | prompt {made : Made} (h : making { input with values := Stream.plain input.values } made) :
    bridged making input
      ⟨{ input with
        values := made.generated.followedBy (Stream.firstException? input.values) }, true⟩
  /-- The node has finished of its own accord, over so many values as the caller had moved by
  then. -/
  | late {moved : List Value} (hmoved : moved <+: Stream.plain input.values) {made : Made}
    (h : making { input with values := moved } made)
    (hstop : made.atEnd = false ∨ Stream.raises made.generated.values = true) :
    bridged making input ⟨{ input with values := made.generated.values }, false⟩

def raise (e : Exception) : Course := fun input passage =>
  passage = ⟨{ input with values := [e.toValue] }, false⟩

def identity : Course := fun input passage =>
  passage = ⟨{ input with values := Stream.throughException input.values }, true⟩

def replay (values : List Value) : Course := fun input passage =>
  passage = ⟨Node.replay values input, true⟩

/-- What a namer may stand for. A name that is computed has its output read to the end, unless there
is no name in it. -/
inductive Resolves (literal? : Option String) (compute : Course) (input : Stream) :
    Except Exception String → Bool → Prop where
  | literal {name : String} (h : literal? = some name) :
    Resolves literal? compute input (.ok name) false
  | computed (h : literal? = none) {passage : Passage} (hcompute : compute input passage) :
    Resolves literal? compute input (Namer.sensible passage.output.values) passage.atEnd

end Course

/-! ### Nodes and functions behind a bridge -/

namespace Making

def constant (generated : Generated) : Making := fun _ made => made = ⟨generated, false⟩

def parens (body : Course) : Making := fun inner made =>
  ∃ passage, body inner passage ∧ made = ⟨.ofValues passage.output.values, passage.atEnd⟩

/-- The array is put out at once, and its items are collected behind it. -/
def arrayOf (body : Course) : Making := fun inner made =>
  ∃ passage, body inner passage ∧ made = ⟨.once (.array passage.output.values), false⟩

def objectOf (body : Course) : Making := fun inner made =>
  ∃ passage, body inner passage ∧
    made = ⟨.once (Node.objectFrom passage.output.values), passage.atEnd⟩

/-- The end of the input is behind the end of what the left side yields. -/
def pipe (left right : Course) : Making := fun inner made =>
  ∃ first last, left inner first ∧ right first.output last ∧
    made = ⟨.ofValues last.output.values, first.atEnd && last.atEnd⟩

/-- Both sides read what is split off from one bridge, so that one of them is enough to come to its
end. -/
def comma (left right : Course) : Making := fun inner made =>
  ∃ first second, left inner first ∧ right inner second ∧
    made = ⟨.ofValues (first.output.values ++ second.output.values), first.atEnd || second.atEnd⟩

def paired (op : Operator) (first second : List Value) : Generated :=
  match Stream.firstException? (first ++ second) with
  | some e => .once e
  | none => .ofValues (op.pairwise first second)

def binary (op : Operator) (left right : Course) : Making := fun inner made =>
  ∃ first second, left inner first ∧ right inner second ∧
    made = ⟨paired op first.output.values second.output.values, first.atEnd || second.atEnd⟩

/-- The values that are passed to the program are read to the end, once there is a program. -/
def command (runtime : Runtime) (literal? : Option String) (compute : Course) :
    Making := fun inner made =>
  ∃ name atEnd, Course.Resolves literal? compute inner name atEnd ∧
    made = match name with
      | .error e => ⟨.raised e, false⟩
      | .ok program => ⟨(Node.answer runtime program inner.values).result, true⟩

/-- The outputs of the body for each value by itself. The end comes behind the last value. -/
inductive eachValue (body : Course) (namespaces : Namespaces) :
    List Value → List Value → Bool → Prop where
  | ended : eachValue body namespaces [] [] true
  | raised {v : Value} {passage : Passage} (h : body ⟨[v], namespaces⟩ passage)
    (hraises : Stream.raises passage.output.values = true) (vs : List Value) :
    eachValue body namespaces (v :: vs) passage.output.values false
  | next {v : Value} {passage : Passage} (h : body ⟨[v], namespaces⟩ passage)
    (hraises : Stream.raises passage.output.values = false) {vs rest : List Value} {atEnd : Bool}
    (hrest : eachValue body namespaces vs rest atEnd) :
    eachValue body namespaces (v :: vs) (passage.output.values ++ rest) atEnd

def each (body : Course) : Making := fun inner made =>
  ∃ values atEnd, eachValue body inner.namespaces inner.values values atEnd ∧
    made = ⟨.ofValues values, atEnd⟩

/-- The value at a position is put out without a look behind it. -/
def nth (position : Course) : Making := fun inner made =>
  ∃ passage, position inner passage ∧
    made = match Builtin.selected inner.values passage.output.values with
      | .ok v => ⟨.once v, false⟩
      | .error e => ⟨.raised e, false⟩

def counting : List Value → List Value × Bool
  | [] => ([], true)
  | v :: vs =>
    match Builtin.integerOf v with
    | .ok bound => (Builtin.upTo bound ++ (counting vs).1, (counting vs).2)
    | .error e => ([e.toValue], false)

def range : Making := fun inner made =>
  made = ⟨.ofValues (counting inner.values).1, (counting inner.values).2⟩

def spelling : List Value → Except Exception (List Char) × Bool
  | [] => (.ok [], true)
  | v :: vs =>
    match Builtin.characterOf v with
    | .ok c => ((spelling vs).1.map (c :: ·), (spelling vs).2)
    | .error e => (.error e, false)

def implode : Making := fun inner made =>
  made = match spelling inner.values with
    | (.ok cs, atEnd) => ⟨.once (.string (String.ofList cs)), atEnd⟩
    | (.error e, atEnd) => ⟨.raised e, atEnd⟩

/-- The body runs once for each value that is read, exception or not. -/
inductive iterated (body : Course) : List Value → Stream → Stream → Bool → Prop where
  | ended (state : Stream) : iterated body [] state state true
  | next {state last : Stream} {passage : Passage} (h : body state passage) (v : Value)
    {vs : List Value}
    {atEnd : Bool} (hrest : iterated body vs passage.output last atEnd) :
    iterated body (v :: vs) state last atEnd

def reduce (init body : Course) : Making := fun inner made =>
  ∃ state last atEnd, init inner state ∧ iterated body inner.values state.output last atEnd ∧
    made = ⟨.ofValues last.values, atEnd⟩

inductive steps (body : Course) : List Value → Stream → List Value → Bool → Prop where
  | ended (state : Stream) : steps body [] state [] true
  | raised {state : Stream} {passage : Passage} (h : body state passage)
    (hraises : Stream.raises passage.output.values = true) (v : Value) (vs : List Value) :
    steps body (v :: vs) state passage.output.values false
  | next {state : Stream} {passage : Passage} (h : body state passage)
    (hraises : Stream.raises passage.output.values = false) (v : Value) {vs rest : List Value}
    {atEnd : Bool} (hrest : steps body vs passage.output rest atEnd) :
    steps body (v :: vs) state (passage.output.values ++ rest) atEnd

def forEach (init body : Course) : Making := fun inner made =>
  ∃ state values atEnd, init inner state ∧ steps body inner.values state.output values atEnd ∧
    made = ⟨.ofValues values, atEnd⟩

/-- What the functions of the standard table make, by name and arguments. -/
def routine (label : String) (args : List Course) : Making :=
  match label, args with
  | "each", [body] => each body
  | "empty", [] => constant .nothing
  | "false", [] => constant (.once (.boolean false))
  | "for", [init, body] => forEach init body
  | "implode", [] => implode
  | "nth", [position] => nth position
  | "null", [] => constant (.once .null)
  | "range", [] => range
  | "reduce", [init, body] => reduce init body
  | "true", [] => constant (.once (.boolean true))
  | _, _ => fun _ _ => False

end Making

/-! ### Nodes that handle the stream themselves -/

namespace Course

def name (runtime : Runtime) (label : String) : Course := fun input passage =>
  match input.namespaces.locals.get? label with
  | some values => replay values input passage
  | none =>
    match runtime.builtins.lookup label 0 with
    | .ok _ => bridged (.routine label []) input passage
    | .error e => raise e input passage

/-- A name that is computed is computed from a copy of the input, which ends where the input
ends. -/
def call (runtime : Runtime) (literal? : Option String) (compute : Course) (args : List Course) :
    Course :=
  fun input passage => ∃ head atEnd, Resolves literal? compute input head atEnd ∧
    match head with
    | .error e => raise e input passage
    | .ok label =>
      match runtime.builtins.lookup label args.length with
      | .ok _ =>
        ∃ body, bridged (.routine label args) input body ∧
          passage = ⟨body.output, body.atEnd || atEnd⟩
      | .error e => raise e input passage

def globalVariable (literal? : Option String) (compute : Course) : Course := fun input passage =>
  match literal? with
  | some name => replay (Node.globalValues input.namespaces.globals name) input passage
  | none => ∃ label, compute input label ∧
    match Namer.sensible label.output.values with
    | .error e => raise e input passage
    | .ok name => passage =
      ⟨{ input with values := Node.globalValues input.namespaces.globals name }, label.atEnd⟩

def bindLocal (label : String) (values : List Value) : Course := fun input passage =>
  passage = ⟨Node.withBinding input
    { input.namespaces with locals := input.namespaces.locals.bind label values }, true⟩

def bindGlobal (literal? : Option String) (compute : Course) (values : List Value) : Course :=
  fun input passage => ∃ label atEnd,
    Resolves literal? compute { input with values := [] } label atEnd ∧ match label with
    | .error e => raise e input passage
    | .ok name => passage = ⟨Node.withBinding input
      { input.namespaces with globals := input.namespaces.globals.bind name values }, true⟩

def assign (bind : List Value → Course) (right : Course) : Course := fun input passage =>
  ∃ stored, right input stored ∧
    match Stream.firstException? stored.output.values with
    | some e => passage = ⟨{ input with values := [e] }, false⟩
    | none => bind stored.output.values input passage

/-- The scopes that the left side leaves, with the rest of what the right side gets. -/
def carried (input : Stream) (left : Namespaces) : Stream :=
  ⟨input.values, { input.namespaces with globals := left.globals, locals := left.locals }⟩

/-- The right side is passed the whole input, to its end and whatever is in it. -/
def semicolon (left right : Course) : Course := fun input passage =>
  ∃ before, left input before ∧
    match Stream.firstException? before.output.values with
    | some e => passage = ⟨{ before.output with values := [e] }, false⟩
    | none =>
      ∃ behind, right (carried input before.output.namespaces) behind ∧
        passage = ⟨behind.output, true⟩

end Course

namespace Filter

mutual

def course (runtime : Runtime) : Filter → Course
  | .empty => .bridged (.constant .nothing)
  | .parens f => .bridged (.parens (course runtime f))
  | .array f => .bridged (.arrayOf (course runtime f))
  | .object f => .bridged (.objectOf (course runtime f))
  | .name label => .name runtime label
  | .number text => .bridged (.constant (Node.numeral text))
  | .string text => .bridged (.constant (.once (.string text)))
  | .pipe l r => .bridged (.pipe (course runtime l) (course runtime r))
  | .apply attributes =>
    if attributes.all isEmpty then .identity
    else
      match splitDecimal? attributes with
      | some text => .bridged (.constant (Node.numeral text))
      | none => courseOfCall runtime attributes
  | .comma l r => .bridged (.comma (course runtime l) (course runtime r))
  | .add l r => .bridged (.binary .add (course runtime l) (course runtime r))
  | .multiply l r => .bridged (.binary .multiply (course runtime l) (course runtime r))
  | .pair l r => .bridged (.binary .pair (course runtime l) (course runtime r))
  | .assign (.name label) r => .assign (.bindLocal label) (course runtime r)
  | .assign (.globalVariable f) r =>
    .assign (.bindGlobal f.literalName? (course runtime f)) (course runtime r)
  | .assign l r => .assign (fun _ => .raise (.assignment l.kind l.source)) (course runtime r)
  | .semicolon l r => .semicolon (course runtime l) (course runtime r)
  | .command f => .bridged (.command runtime f.literalName? (course runtime f))
  | .globalVariable f => .globalVariable f.literalName? (course runtime f)

def courseOfCall (runtime : Runtime) : List Filter → Course
  | [] => .identity
  | head :: args => .call runtime head.literalName? (course runtime head) (courses runtime args)

def courses (runtime : Runtime) : List Filter → List Course
  | [] => []
  | f :: fs => course runtime f :: courses runtime fs

end

end Filter
end QueryShell
