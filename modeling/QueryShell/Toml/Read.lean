import QueryShell.Toml.Number

/-! Reading a document of settings. -/

namespace QueryShell.Toml

/-- A key has fewer parts than this, and values nest less deep. -/
def depthLimit : Nat := 80

def readKey : Reader Key := fun cs => do
  let (keys, rest) ← readKeysWithin (cs.length + 1) cs
  if keys.length < depthLimit then return (⟨keys.dropLast, ← keys.getLast?⟩, rest) else none

/-- The items of a list behind its opening bracket. A comma may stand behind the last one. -/
def itemsWithin (item : Reader Node) : Nat → Reader (List Node)
  | 0, _ => none
  | steps + 1, cs =>
    match skipGaps false cs with
    | ']' :: rest => some ([], rest)
    | start => do
      let (x, rest) ← item start
      match skipGaps false rest with
      | ',' :: rest => do
        let (xs, rest) ← itemsWithin item steps rest
        return (x :: xs, rest)
      | ']' :: rest => return ([x], rest)
      | _ => none

def readEntry (item : Reader Node) : Reader (Key × Node) := fun cs => do
  let (key, rest) ← readKey cs
  let (x, rest) ← item (skipBlanks (← readMark '=' (skipBlanks rest)))
  return ((key, x), skipBlanks rest)

/-- The entries of a table between braces. No comma may stand behind the last one. -/
def entriesWithin (item : Reader Node) : Nat → Reader (List (Key × Node))
  | 0, _ => none
  | steps + 1, cs => do
    let (entry, rest) ← readEntry item cs
    match rest with
    | ',' :: rest => do
      let (entries, rest) ← entriesWithin item steps rest
      return (entry :: entries, rest)
    | '\x7d' :: rest => return ([entry], rest)
    | _ => none

def sealedTable (entries : List (Key × Node)) : Option Node :=
  entries.foldlM (fun table (key, value) => Node.assign key.path key.last value table)
    (.table .sealed [])

/-- A value with `room` more levels of nesting allowed in it. -/
def valueWithin (room : Nat) : Reader Node := fun cs =>
  match cs with
  | [] => none
  | c :: rest =>
    if c = '"' || c = '\'' then (readString cs).map fun (text, rest) => (.text text, rest)
    else if c = '[' then
      match room with
      | 0 => none
      | room + 1 =>
        (itemsWithin (valueWithin room) cs.length rest).map fun (xs, rest) => (.array xs, rest)
    else if c = '\x7b' then
      match room, skipBlanks rest with
      | 0, _ => none
      | _ + 1, '\x7d' :: rest => some (.table .sealed [], rest)
      | room + 1, rest => do
        let (entries, rest) ← entriesWithin (valueWithin room) cs.length rest
        return (← sealedTable entries, rest)
    else if c = 't' then (readName ['t', 'r', 'u', 'e'] cs).map fun rest => (.boolean true, rest)
    else if c = 'f' then (readName ['f', 'a', 'l', 's', 'e'] cs).map fun rest =>
      (.boolean false, rest)
    else readNumber cs

def readHeader (cs : List Char) : Option (Statement × List Char) :=
  match cs with
  | '[' :: rest => do
    let (key, rest) ← readKey rest
    return (.element key, ← readMark ']' (← readMark ']' (skipBlanks rest)))
  | rest => do
    let (key, rest) ← readKey rest
    return (.header key, ← readMark ']' (skipBlanks rest))

def readStatement : Reader Statement
  | '[' :: rest => readHeader rest
  | cs => do
    let ((key, value), rest) ← readEntry (valueWithin (depthLimit - 1)) cs
    return (.entry key value, rest)

def statementsWithin : Nat → List Char → Option (List Statement)
  | 0, _ => none
  | steps + 1, cs =>
    match skipGaps false cs with
    | [] => some []
    | start => do
      let (statement, rest) ← readStatement start
      return statement :: (← statementsWithin steps (← endOfLine rest))

/-- The table that a document makes. A byte order mark in front of it does not count. -/
def read (cs : List Char) : Option Node := do
  let start := match cs with
    | '\ufeff' :: rest => rest
    | rest => rest
  let draft ← Draft.empty.addAll (← statementsWithin (start.length + 1) start)
  return draft.root

end QueryShell.Toml
