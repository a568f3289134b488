import QueryShell.Dictionary

/-! Tables of settings, and how a table grows line by line. How a table came about tells what may be
added to it. -/

namespace QueryShell.Toml

inductive Form where
  /-- Opened by a header of its own, or the table of the whole document. -/
  | header
  /-- Named on the way to another table by a header. -/
  | implied
  /-- Named on the way to an entry by a dotted key. -/
  | dotted
  /-- Written in one piece between braces. -/
  | sealed
  deriving DecidableEq

/-- Floating-point numbers and points in time are kept as they are written. -/
inductive Node where
  | text (s : String)
  | integer (n : Int)
  | float (written : String)
  | moment (written : String)
  | boolean (flag : Bool)
  | array (items : List Node)
  | table (form : Form) (entries : List (String × Node))
  /-- A list of tables, each opened by a header of its own. -/
  | tables (items : List Node)

namespace Node

def root : Node := .table .header []

/-- Changes the table at the end of a path, and makes the tables on the way that are missing. The
last one of a list of tables stands for it. A dotted key leads through no table with a header of its
own. -/
def changeAt (isDotted : Bool) (change : Node → Option Node) : List String → Node → Option Node
  | [], node => change node
  | key :: path, .table form entries =>
    let step (child : Node) : Option Node := do
      return .table form (Dictionary.insert key (← changeAt isDotted change path child) entries)
    match Dictionary.find? key entries with
    | none => step (.table (if isDotted then .dotted else .implied) [])
    | some (.table .sealed _) => none
    | some (.table .header es) => if isDotted then none else step (.table .header es)
    | some (.table inner es) => step (.table inner es)
    | some (.tables items) => do
      let last ← changeAt isDotted change path (← items.getLast?)
      return .table form (Dictionary.insert key (.tables (items.dropLast ++ [last])) entries)
    | some _ => none
  | _ :: _, _ => none

/-- A new entry of a table. Behind a dotted key only a table that dotted keys made takes entries. -/
def addEntry (isDotted : Bool) (key : String) (value : Node) : Node → Option Node
  | .table form entries =>
    if isDotted = decide (form = .dotted) && !Dictionary.contains key entries then
      some (.table form (Dictionary.insert key value entries))
    else none
  | _ => none

def assign (path : List String) (key : String) (value : Node) (node : Node) : Option Node :=
  changeAt true (addEntry (!path.isEmpty) key value) path node

/-- A table gets one header at most. -/
def openTable (key : String) : Node → Option Node
  | .table form entries =>
    match Dictionary.find? key entries with
    | none => some (.table form (Dictionary.insert key root entries))
    | some (.table .implied es) =>
      some (.table form (Dictionary.insert key (.table .header es) entries))
    | some _ => none
  | _ => none

def openElement (key : String) : Node → Option Node
  | .table form entries =>
    match Dictionary.find? key entries with
    | none => some (.table form (Dictionary.insert key (.tables [root]) entries))
    | some (.tables items) =>
      some (.table form (Dictionary.insert key (.tables (items ++ [root])) entries))
    | some _ => none
  | _ => none

end Node

structure Key where
  path : List String
  last : String

def Key.all (key : Key) : List String := key.path ++ [key.last]

inductive Statement where
  | entry (key : Key) (value : Node)
  | header (key : Key)
  | element (key : Key)

/-- A document as far as it is read, with the path of the table that entries go to. -/
structure Draft where
  root : Node
  current : List String

namespace Draft

def empty : Draft := ⟨.root, []⟩

def add (draft : Draft) : Statement → Option Draft
  | .entry key value => do
    return ⟨← Node.changeAt false (Node.assign key.path key.last value) draft.current draft.root,
      draft.current⟩
  | .header key =>
    do return ⟨← Node.changeAt false (Node.openTable key.last) key.path draft.root, key.all⟩
  | .element key =>
    do return ⟨← Node.changeAt false (Node.openElement key.last) key.path draft.root, key.all⟩

def addAll (draft : Draft) : List Statement → Option Draft
  | [] => some draft
  | s :: rest => do addAll (← draft.add s) rest

end Draft
end QueryShell.Toml
