import QueryShell.Filter.Interchange
import QueryShell.Proofs.Eval.Form
import QueryShell.Proofs.Json.Read

/-! A filter that was written to be passed on is read back as it was, whatever its texts hold. The
reader follows the writer form by form, with one level of nesting for each brace and each
bracket. -/

namespace QueryShell

namespace Json

mutual

/-- How deep brackets and braces stand in each other. -/
def depth : Json → Nat
  | .array items => depthItems items + 1
  | .object entries => depthEntries entries + 1
  | _ => 0

def depthItems : List Json → Nat
  | [] => 0
  | j :: js => max (depth j) (depthItems js)

def depthEntries : List (String × Json) → Nat
  | [] => 0
  | (_, j) :: rest => max (depth j) (depthEntries rest)

end

theorem depth_entry (key : String) (j : Json) : depth (.object [(key, j)]) = j.depth + 1 := by
  rw [depth, depthEntries, depthEntries, Nat.max_zero]

end Json

namespace Filter

open Json

mutual

/-- What a filter is written as. -/
def json : Filter → Json
  | .empty => .string "Empty"
  | .parens f => .object [("Parens", json f)]
  | .array f => .object [("Array", json f)]
  | .object f => .object [("Object", json f)]
  | .name n => .object [("Name", .string n)]
  | .number text => .object [("Number", .string text)]
  | .string text => .object [("String", .string text)]
  | .pipe l r => .object [("Pipe", .array [json l, json r])]
  | .apply fs => .object [("Apply", .array (jsonAll fs))]
  | .comma l r => .object [("Comma", .array [json l, json r])]
  | .add l r => .object [("Add", .array [json l, json r])]
  | .multiply l r => .object [("Multiply", .array [json l, json r])]
  | .assign l r => .object [("Assign", .array [json l, json r])]
  | .semicolon l r => .object [("Semicolon", .array [json l, json r])]
  | .pair l r => .object [("Pair", .array [json l, json r])]
  | .command f => .object [("Command", json f)]
  | .globalVariable f => .object [("GlobalVariable", json f)]

def jsonAll : List Filter → List Json
  | [] => []
  | f :: fs => json f :: jsonAll fs

end

theorem text_entry (label : String) (j : Json) :
    text (.object [(label, j)]) = form label j.text := by
  rw [text, entriesTail, form]

theorem text_pair (l r : Json) : text (.array [l, r]) = listOfTwo l.text r.text := by
  rw [text, itemsTail, itemsTail, listOfTwo, List.append_assoc]

theorem itemsTail_jsonAll {fs : List Filter} (h : ∀ f ∈ fs, f.json.text = f.interchange) :
    itemsTail (jsonAll fs) = interchangeTail fs := by
  induction fs with
  | nil => rfl
  | cons f fs ih =>
    obtain ⟨hf, hfs⟩ := List.forall_mem_cons.mp h
    rw [jsonAll, itemsTail, interchangeTail, hf, ih hfs]

/-- The interchange text of a filter is JSON. -/
theorem text_json (f : Filter) : f.json.text = f.interchange := by
  induction f using Filter.induction with
  | empty => rfl
  | name | number | string => rw [json, text_entry, interchange, text]
  | parens _ ih | array _ ih | object _ ih | command _ ih | globalVariable _ ih =>
    rw [json, text_entry, interchange, ih]
  | pipe _ _ ihl ihr | comma _ _ ihl ihr | add _ _ ihl ihr | multiply _ _ ihl ihr
  | assign _ _ ihl _ ihr
  | semicolon _ _ ihl ihr | pair _ _ ihl ihr =>
    rw [json, text_entry, text_pair, interchange, ihl, ihr]
  | apply fs ih =>
    rw [json, text_entry]
    cases fs with
    | nil => rfl
    | cons f fs =>
      obtain ⟨hf, hfs⟩ := List.forall_mem_cons.mp ih
      rw [jsonAll, text, interchange, hf, itemsTail_jsonAll hfs]

/-! ### Reading a form -/

/-- The text is read as the filter, with so much room for nesting, whatever stands behind it. -/
structure Reads (room : Nat) (cs : List Char) (f : Filter) : Prop where
  starts : Starts cs
  read : ∀ rest, readWithin room (cs ++ rest) = .ok (f, rest)

theorem quoted_append (text : String) (rest : List Char) :
    Text.quoted text.toList ++ rest = '"' :: (text.toList.flatMap Text.escaped ++ '"' :: rest) := by
  simp [Text.quoted]

theorem readText_quoted (expected text : String) (rest : List Char) :
    readText expected (Text.quoted text.toList ++ rest) = .ok (text, rest) := by
  rw [quoted_append, readText, skipBlanks_cons rfl]
  exact scanString_quoted text rest

theorem readForm_quoted {label : String} {shape : Shape}
    (hshape : Dictionary.find? label forms = some shape) (rest : List Char) :
    readForm (Text.quoted label.toList ++ rest) = .ok ((label, shape), rest) := by
  rw [readForm, readText_quoted]
  simp only [bind, Except.bind, hshape]
  rfl

theorem form_append (label : String) (held rest : List Char) :
    form label held ++ rest =
      '\x7b' :: (Text.quoted label.toList ++ ':' :: (held ++ '\x7d' :: rest)) := by
  simp [form]

/-- How what stands in a list is read, where a list is allowed. -/
def listReader : Nat → Option (Reader Filter)
  | 0 => none
  | room + 1 => some (readWithin room)

theorem readWithin_form {label : String} {shape : Shape}
    (hshape : Dictionary.find? label forms = some shape) (room : Nat) (held : List Char) :
    readWithin (room + 1) ('\x7b' :: (Text.quoted label.toList ++ ':' :: held)) =
      readHeld label (readWithin room) (listReader room) shape held >>=
        fun (f, rest) => closeForm f rest := by
  have hstart : (skipBlanks (Text.quoted label.toList ++ ':' :: held)).isEmpty = false := by
    rw [quoted_append, skipBlanks_cons rfl]
    rfl
  rw [readWithin, skipBlanks_cons rfl]
  simp only [hstart, bind, Except.bind, readForm_quoted hshape, scanColon_cons, Bool.false_eq_true,
    if_false]
  cases room <;> rfl

theorem reads_form {label : String} {shape : Shape}
    (hshape : Dictionary.find? label forms = some shape) {room : Nat} {held : List Char}
    {f : Filter}
    (hheld : ∀ rest,
      readHeld label (readWithin room) (listReader room) shape (held ++ '\x7d' :: rest) =
        .ok (f, '\x7d' :: rest)) : Reads (room + 1) (form label held) f where
  starts := ⟨'\x7b', _, rfl, rfl, by decide⟩
  read rest := by
    rw [form_append, readWithin_form hshape, hheld]
    rfl

theorem reads_bare (room : Nat) : Reads room (Text.quoted "Empty".toList) .empty where
  starts := ⟨'"', _, rfl, rfl, by decide⟩
  read rest := by
    have hform : readForm ('"' :: ("Empty".toList.flatMap Text.escaped ++ '"' :: rest)) =
        .ok (("Empty", .nothing .empty), rest) := by
      rw [← quoted_append]
      exact readForm_quoted rfl rest
    rw [quoted_append, readWithin, skipBlanks_cons rfl]
    simp only [hform, bind, Except.bind]
    rfl

theorem reads_text {label : String} {make : String → Filter}
    (hshape : Dictionary.find? label forms = some (.text make)) (room : Nat) (text : String) :
    Reads (room + 1) (form label (Text.quoted text.toList)) (make text) := by
  refine reads_form hshape fun rest => ?_
  rw [readHeld]
  simp only [readText_quoted]
  rfl

theorem reads_one {label : String} {make : Filter → Filter}
    (hshape : Dictionary.find? label forms = some (.one make)) {room : Nat} {cs : List Char}
    {f : Filter} (h : Reads room cs f) : Reads (room + 1) (form label cs) (make f) := by
  refine reads_form hshape fun rest => ?_
  rw [readHeld]
  simp only [h.read]
  rfl

theorem listOfTwo_append (left right rest : List Char) :
    listOfTwo left right ++ rest = '[' :: (left ++ ',' :: (right ++ ']' :: rest)) := by
  simp [listOfTwo]

theorem nextItem_start {start : List Char} (h : Starts start) :
    nextItem true start = .ok (some start) :=
  nextItem_first (List.forall_mem_nil _) h

theorem nextItem_next {start : List Char} (h : Starts start) :
    nextItem false (',' :: start) = .ok (some start) :=
  nextItem_comma (List.forall_mem_nil _) h

theorem reads_two {label : String} {make : Filter → Filter → Filter}
    (hshape : Dictionary.find? label forms = some (.two make)) {room : Nat} {left right : List Char}
    {l r : Filter} (hl : Reads room left l) (hr : Reads room right r) :
    Reads (room + 2) (form label (listOfTwo left right)) (make l r) := by
  refine reads_form hshape fun rest => ?_
  have htwo : readTwo label make (readWithin room)
      (left ++ ',' :: (right ++ ']' :: '\x7d' :: rest)) = .ok (make l r, '\x7d' :: rest) := by
    rw [readTwo, nextItem_start (hl.starts.append _)]
    simp only [bind, Except.bind, hl.read, nextItem_next (hr.starts.append _), hr.read]
    rfl
  rw [listOfTwo_append, readHeld, listReader, Option.map_some, readList, skipBlanks_cons rfl]
  simp only [htwo]
  rfl

/-! ### Lists of any length -/

theorem itemsWithin_interchangeTail {room : Nat} {fs : List Filter}
    (h : ∀ f ∈ fs, Reads room f.interchange f) {steps : Nat} (hsteps : fs.length < steps)
    (rest : List Char) :
    itemsWithin (readWithin room) steps false (interchangeTail fs ++ rest) = .ok (fs, rest) := by
  obtain ⟨steps, rfl⟩ := Nat.exists_eq_succ_of_ne_zero (Nat.ne_of_gt (Nat.zero_lt_of_lt hsteps))
  induction fs generalizing steps with
  | nil => exact itemsWithin_of_none (nextItem_close (List.forall_mem_nil _) false rest) steps
  | cons f fs ih =>
    obtain ⟨hf, hfs⟩ := List.forall_mem_cons.mp h
    obtain ⟨steps, rfl⟩ :=
      Nat.exists_eq_succ_of_ne_zero
        (Nat.ne_of_gt (Nat.zero_lt_of_lt (Nat.lt_of_succ_lt_succ hsteps)))
    have hnext : nextItem false (interchangeTail (f :: fs) ++ rest) =
        .ok (some (f.interchange ++ (interchangeTail fs ++ rest))) := by
      rw [interchangeTail, List.append_assoc]
      exact nextItem_next (hf.starts.append _)
    exact itemsWithin_of_some hnext (hf.read _) (ih hfs steps (Nat.lt_of_succ_lt_succ hsteps))

theorem length_lt_interchangeTail (fs : List Filter) : fs.length < (interchangeTail fs).length := by
  induction fs with
  | nil => exact Nat.zero_lt_one
  | cons f fs ih =>
    simp only [interchangeTail, List.length_append, List.length_cons]
    omega

theorem reads_apply {room : Nat} {fs : List Filter} (h : ∀ f ∈ fs, Reads room f.interchange f) :
    Reads (room + 2) (interchange (.apply fs)) (.apply fs) := by
  cases fs with
  | nil =>
    rw [interchange]
    exact reads_form rfl fun rest => rfl
  | cons f fs =>
    obtain ⟨hf, hfs⟩ := List.forall_mem_cons.mp h
    rw [interchange]
    refine reads_form rfl fun rest => ?_
    have hitems : items (readWithin room)
        (f.interchange ++ (interchangeTail fs ++ '\x7d' :: rest)) =
          .ok (f :: fs, '\x7d' :: rest) := by
      have hlength := length_lt_interchangeTail fs
      refine itemsWithin_of_some (nextItem_start (hf.starts.append _)) (hf.read _)
        (itemsWithin_interchangeTail hfs ?_ ('\x7d' :: rest))
      simp only [List.length_append]
      omega
    rw [List.cons_append, List.cons_append, List.append_assoc, readHeld, listReader,
      Option.map_some, readList, skipBlanks_cons rfl]
    simp only [readMany, hitems]
    rfl

/-! ### Reading what was written -/

/-- The filter is read back where there is room for it. -/
def Readable (f : Filter) : Prop := ∀ room, f.json.depth ≤ room → Reads room f.interchange f

theorem depth_le_depthItems {fs : List Filter} {f : Filter} (hf : f ∈ fs) :
    f.json.depth ≤ depthItems (jsonAll fs) := by
  induction fs with
  | nil => cases hf
  | cons g fs ih =>
    rw [jsonAll, depthItems]
    rcases List.mem_cons.mp hf with rfl | hf
    · exact Nat.le_max_left ..
    · exact Nat.le_trans (ih hf) (Nat.le_max_right ..)

/-- A form takes one level more than what it holds. -/
theorem Readable.entry {label : String} {j : Json} {f : Filter}
    (hjson : f.json = .object [(label, j)])
    (h : ∀ room, j.depth ≤ room → Reads (room + 1) f.interchange f) : f.Readable := by
  intro room hroom
  rw [hjson, depth_entry] at hroom
  obtain ⟨room, rfl⟩ := Nat.exists_eq_add_of_le' (Nat.le_trans (Nat.le_add_left 1 _) hroom)
  exact h room (Nat.le_of_succ_le_succ hroom)

/-- A form that holds a list takes two. -/
theorem Readable.list {label : String} {js : List Json} {f : Filter}
    (hjson : f.json = .object [(label, .array js)])
    (h : ∀ room, depthItems js ≤ room → Reads (room + 2) f.interchange f) : f.Readable := by
  refine .entry hjson fun room hroom => ?_
  rw [depth] at hroom
  obtain ⟨room, rfl⟩ := Nat.exists_eq_add_of_le' (Nat.le_trans (Nat.le_add_left 1 _) hroom)
  exact h room (Nat.le_of_succ_le_succ hroom)

theorem Readable.text {label text : String} {make : String → Filter}
    (hshape : Dictionary.find? label forms = some (.text make))
    (hjson : (make text).json = .object [(label, .string text)])
    (hwritten : (make text).interchange = form label (Text.quoted text.toList)) :
    (make text).Readable := by
  refine .entry hjson fun room _ => ?_
  rw [hwritten]
  exact reads_text hshape room text

theorem Readable.one {label : String} {make : Filter → Filter} {f : Filter}
    (hshape : Dictionary.find? label forms = some (.one make))
    (hjson : (make f).json = .object [(label, f.json)])
    (hwritten : (make f).interchange = form label f.interchange) (hf : f.Readable) :
    (make f).Readable := by
  refine .entry hjson fun room hroom => ?_
  rw [hwritten]
  exact reads_one hshape (hf room hroom)

theorem Readable.two {label : String} {make : Filter → Filter → Filter} {l r : Filter}
    (hshape : Dictionary.find? label forms = some (.two make))
    (hjson : (make l r).json = .object [(label, .array [l.json, r.json])])
    (hwritten : (make l r).interchange = form label (listOfTwo l.interchange r.interchange))
    (hl : l.Readable) (hr : r.Readable) : (make l r).Readable := by
  refine .list hjson fun room hroom => ?_
  rw [depthItems, depthItems, depthItems] at hroom
  rw [hwritten]
  exact reads_two hshape (hl room (by omega)) (hr room (by omega))

theorem Readable.apply {fs : List Filter} (h : ∀ f ∈ fs, f.Readable) :
    (Filter.apply fs).Readable := by
  have hjson : (Filter.apply fs).json = .object [("Apply", .array (jsonAll fs))] := by rw [json]
  exact .list hjson fun room hroom =>
    reads_apply fun f hf => h f hf room (Nat.le_trans (depth_le_depthItems hf) hroom)

theorem readable (f : Filter) : f.Readable := by
  induction f using Filter.induction with
  | empty => exact fun room _ => reads_bare room
  | name => exact .text rfl rfl rfl
  | number => exact .text rfl rfl rfl
  | string => exact .text rfl rfl rfl
  | parens _ ih => exact .one rfl rfl rfl ih
  | array _ ih => exact .one rfl rfl rfl ih
  | object _ ih => exact .one rfl rfl rfl ih
  | command _ ih => exact .one rfl rfl rfl ih
  | globalVariable _ ih => exact .one rfl rfl rfl ih
  | pipe _ _ ihl ihr => exact .two rfl rfl rfl ihl ihr
  | comma _ _ ihl ihr => exact .two rfl rfl rfl ihl ihr
  | add _ _ ihl ihr => exact .two rfl rfl rfl ihl ihr
  | multiply _ _ ihl ihr => exact .two rfl rfl rfl ihl ihr
  | assign _ _ ihl _ ihr => exact .two rfl rfl rfl ihl ihr
  | semicolon _ _ ihl ihr => exact .two rfl rfl rfl ihl ihr
  | pair _ _ ihl ihr => exact .two rfl rfl rfl ihl ihr
  | apply _ ih => exact .apply ih

theorem interchange_injective : Function.Injective interchange := by
  intro f g h
  have hf := (readable f (max f.json.depth g.json.depth) (Nat.le_max_left ..)).read []
  have hg := (readable g (max f.json.depth g.json.depth) (Nat.le_max_right ..)).read []
  rw [h, hg] at hf
  exact (congrArg Prod.fst (Except.ok.inj hf)).symm

/-- The text of a filter is that of its JSON form. Where brackets and braces nest no deeper than the
reader allows, it is read as the filter that was written, and no other filter has the same text. -/
theorem ofInterchange_interchange {f : Filter} (h : f.json.depth ≤ 127) :
    f.json.text = f.interchange ∧ ofInterchange f.interchange = .ok f ∧
      ∀ g : Filter, g.interchange = f.interchange → g = f := by
  refine ⟨text_json f, ?_, fun g hg => interchange_injective hg⟩
  have hread := (readable f nestingLimit h).read []
  rw [List.append_nil] at hread
  rw [ofInterchange, hread]
  rfl

theorem ofInterchange_interchange_nested :
    let f : Filter := .semicolon (.assign (.name "x\"\n") (.number "1.5"))
      (.pipe (.apply [.name "each", .command (.string "\\ \u0001 é"), .empty]) (.apply []))
    f.json.depth ≤ 127 ∧ ofInterchange f.interchange = .ok f := by
  intro f
  have hdepth : f.json.depth ≤ 127 := by decide
  exact ⟨hdepth, (ofInterchange_interchange hdepth).2.1⟩

end Filter
end QueryShell
