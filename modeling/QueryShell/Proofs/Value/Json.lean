import QueryShell.Proofs.Json.Read
import QueryShell.Proofs.Value.Reread
import QueryShell.Value.Json

/-! Values that have a JSON form, and the texts that are read back as them. -/

namespace QueryShell

namespace Value

/-- No exception is in the value, lists and objects nest no deeper than so many levels, and every
scale can be stored. -/
inductive Fits : Nat → Value → Prop where
  | null (levels : Nat) : Fits levels .null
  | boolean (levels : Nat) (flag : Bool) : Fits levels (.boolean flag)
  | number (levels : Nat) {n : Decimal}
    (h : -Decimal.scaleBound ≤ n.scale ∧ n.scale < Decimal.scaleBound) :
    Fits levels (.number n)
  | string (levels : Nat) (text : String) : Fits levels (.string text)
  | array {levels : Nat} {items : List Value} (h : ∀ v ∈ items, Fits levels v) :
    Fits (levels + 1) (.array items)
  | object {levels : Nat} {entries : List (String × Value)} (h : ∀ e ∈ entries, Fits levels e.2) :
    Fits (levels + 1) (.object entries)

mutual

/-- The JSON form of a value without exceptions. -/
def json : Value → Json
  | .exception .. => .null
  | .null => .null
  | .boolean flag => .boolean flag
  | .number n => .number (n.toTextWith 'e')
  | .string text => .string text
  | .array items => .array (itemsJson items)
  | .object entries => .object (entriesJson entries)

def itemsJson : List Value → List Json
  | [] => []
  | v :: vs => json v :: itemsJson vs

def entriesJson : List (String × Value) → List (String × Json)
  | [] => []
  | (key, v) :: rest => (key, json v) :: entriesJson rest

end

theorem itemsJson_eq_map (vs : List Value) : itemsJson vs = vs.map json := by
  induction vs with
  | nil => rfl
  | cons v vs ih => rw [itemsJson, ih, List.map_cons]

theorem entriesJson_eq_map (es : List (String × Value)) :
    entriesJson es = es.map fun e => (e.1, e.2.json) := by
  induction es with
  | nil => rfl
  | cons e es ih => rw [entriesJson, ih, List.map_cons]

/-! ### To JSON and back -/

theorem itemsToJson_of_forall {vs : List Value} (h : ∀ v ∈ vs, v.toJsonCanonical = .ok v.json) :
    itemsToJson vs = .ok (itemsJson vs) := by
  induction vs with
  | nil => rfl
  | cons v vs ih =>
    obtain ⟨hv, hvs⟩ := List.forall_mem_cons.mp h
    rw [itemsToJson, hv, ih hvs]
    rfl

theorem entriesToJson_of_forall {es : List (String × Value)}
    (h : ∀ e ∈ es, e.2.toJsonCanonical = .ok e.2.json) :
    entriesToJson es = .ok (entriesJson es) := by
  induction es with
  | nil => rfl
  | cons e es ih =>
    obtain ⟨he, hes⟩ := List.forall_mem_cons.mp h
    rw [entriesToJson, he, ih hes]
    rfl

/-- The text of a number is a JSON number at every scale. -/
theorem numberToJson_eq (n : Decimal) : numberToJson n = .ok (.number (n.toTextWith 'e')) := by
  obtain ⟨s, hs⟩ := Decimal.Spelling.exists_of n
  rw [numberToJson, Decimal.toText, hs.toTextWith, hs.toTextWith,
    Json.readNumber_text hs.wellFormed rfl]

theorem toJsonCanonical_of_fits {levels : Nat} {v : Value} (h : v.Fits levels) :
    v.toJsonCanonical = .ok v.json := by
  induction h with
  | @number levels n h => exact numberToJson_eq n
  | array h ih =>
    rw [toJsonCanonical, itemsToJson_of_forall ih]
    rfl
  | object h ih =>
    rw [toJsonCanonical, entriesToJson_of_forall ih]
    rfl
  | _ => rfl

theorem ofJsonItems_of_forall {vs : List Value} (h : ∀ v ∈ vs, ofJson v.json = .ok v.reread) :
    ofJsonItems (itemsJson vs) = .ok (rereadItems vs) := by
  induction vs with
  | nil => rfl
  | cons v vs ih =>
    obtain ⟨hv, hvs⟩ := List.forall_mem_cons.mp h
    rw [itemsJson, ofJsonItems, hv, ih hvs]
    rfl

theorem ofJsonEntries_of_forall {es : List (String × Value)}
    (h : ∀ e ∈ es, ofJson e.2.json = .ok e.2.reread) :
    ofJsonEntries (entriesJson es) = .ok (rereadEntries es) := by
  induction es with
  | nil => rfl
  | cons e es ih =>
    obtain ⟨he, hes⟩ := List.forall_mem_cons.mp h
    rw [entriesJson, ofJsonEntries, he, ih hes]
    rfl

theorem ofJson_json {levels : Nat} {v : Value} (h : v.Fits levels) :
    ofJson v.json = .ok v.reread := by
  induction h with
  | number levels h =>
    rw [json, ofJson, Decimal.ofText_toTextWith h]
    rfl
  | array h ih =>
    rw [json, ofJson, ofJsonItems_of_forall ih]
    rfl
  | object h ih =>
    rw [json, ofJson, ofJsonEntries_of_forall ih]
    rfl
  | _ => rfl

theorem json_reread (v : Value) : v.reread.json = v.json := by
  induction v using Value.induction with
  | number n =>
    rw [reread, json, json, Decimal.toTextWith_reread]
  | array items ih =>
    rw [reread, json, json, itemsJson_eq_map, itemsJson_eq_map, rereadItems_eq_map, List.map_map]
    exact congrArg Json.array (List.map_congr_left ih)
  | object entries ih =>
    rw [reread, json, json, entriesJson_eq_map, entriesJson_eq_map, rereadEntries_eq_map,
      List.map_map]
    exact congrArg Json.object (List.map_congr_left fun e he => congrArg (e.1, ·) (ih e he))
  | _ => rfl

theorem fits_reread {levels : Nat} {v : Value} (h : v.Fits levels) : v.reread.Fits levels := by
  induction h with
  | null levels => exact .null levels
  | boolean levels flag => exact .boolean levels flag
  | number levels h => exact .number levels (Decimal.scale_reread h)
  | string levels text => exact .string levels text
  | array h ih =>
    rw [reread, rereadItems_eq_map]
    exact .array (List.forall_mem_map.mpr ih)
  | object h ih =>
    rw [reread, rereadEntries_eq_map]
    exact .object (List.forall_mem_map.mpr ih)

/-! ### Texts that are read as a value -/

theorem isBlank_newline (layout : Layout) (depth : Nat) :
    ∀ c ∈ layout.newline depth, Json.isBlank c = true := by
  rw [Layout.newline]
  split
  · nofun
  · refine List.forall_mem_cons.mpr ⟨rfl, fun c hc => ?_⟩
    rw [List.eq_of_mem_replicate hc]
    rfl

theorem exists_comma_append (layout : Layout) (depth : Nat) :
    ∃ blanks, (∀ c ∈ blanks, Json.isBlank c = true) ∧
    layout.comma ++ layout.newline depth = ',' :: blanks := by
  have hnewline := isBlank_newline layout depth
  rw [Layout.comma]
  split
  · exact ⟨' ' :: layout.newline depth, List.forall_mem_cons.mpr ⟨rfl, hnewline⟩, rfl⟩
  · exact ⟨layout.newline depth, hnewline, rfl⟩

theorem isBlank_nil : ∀ c ∈ ([] : List Char), Json.isBlank c = true := nofun

theorem isBlank_space : ∀ c ∈ [' '], Json.isBlank c = true := by simp [Json.isBlank]

theorem reads_number (levels : Nat) (n : Decimal) {mark : Char}
    (hmark : Decimal.isExponentMark mark = true) :
    Json.Reads levels (n.toTextWith mark) (.number (n.toTextWith 'e')) := by
  obtain ⟨s, hs⟩ := Decimal.Spelling.exists_of n
  rw [hs.toTextWith, hs.toTextWith]
  exact Json.reads_number levels hs.wellFormed hmark

theorem readsItems_itemsTail {levels depth : Nat} {layout : Layout} {vs : List Value}
    (h : ∀ v ∈ vs, Json.Reads levels (v.text layout (depth + 1)) v.json) :
    Json.ReadsItems levels (itemsTail layout depth vs) (itemsJson vs) := by
  induction vs with
  | nil => exact Json.readsItems_nil (isBlank_newline layout depth) levels
  | cons v vs ih =>
    obtain ⟨hv, hvs⟩ := List.forall_mem_cons.mp h
    obtain ⟨blanks, hblanks, hcomma⟩ := exists_comma_append layout (depth + 1)
    rw [itemsTail, hcomma, List.cons_append, List.cons_append, List.append_assoc]
    exact Json.readsItems_cons hblanks hv (ih hvs)

theorem readsEntries_entriesTail {levels depth : Nat} {layout : Layout} {es : List (String × Value)}
    (h : ∀ e ∈ es, Json.Reads levels (e.2.text layout (depth + 1)) e.2.json) :
    Json.ReadsEntries levels (entriesTail layout depth es) (entriesJson es) := by
  induction es with
  | nil => exact Json.readsEntries_nil (isBlank_newline layout depth) levels
  | cons e es ih =>
    obtain ⟨he, hes⟩ := List.forall_mem_cons.mp h
    obtain ⟨blanks, hblanks, hcomma⟩ := exists_comma_append layout (depth + 1)
    have hentry := Json.readsEntries_cons hblanks isBlank_space e.1 he (ih hes)
    rw [entriesTail, entriesJson, hcomma]
    simpa [Json.entryText] using hentry

theorem sorted_entriesJson {es : List (String × Value)} (h : Dictionary.Sorted es) :
    Dictionary.Sorted (entriesJson es) := by
  rw [entriesJson_eq_map]
  exact (Dictionary.sorted_map json).mpr h

/-- However a value is laid out, it is read as its JSON form. -/
theorem reads_text {levels : Nat} {v : Value} (hfits : v.Fits levels) (hordered : v.Ordered)
    (layout : Layout) (depth : Nat) : Json.Reads levels (v.text layout depth) v.json := by
  induction hfits generalizing depth with
  | null levels => exact Json.reads_null levels
  | boolean levels flag =>
    cases flag with
    | true => exact Json.reads_true levels
    | false => exact Json.reads_false levels
  | number levels h => exact reads_number levels _ rfl
  | string levels text => exact Json.reads_string levels text
  | @array levels items h ih =>
    cases hordered with
    | array hordered =>
      have hitems : ∀ v ∈ items, Json.Reads levels (v.text layout (depth + 1)) v.json := fun v hv =>
        ih v hv (hordered v hv) (depth + 1)
      cases items with
      | nil => exact Json.reads_array_nil levels
      | cons v vs =>
        obtain ⟨hv, hvs⟩ := List.forall_mem_cons.mp hitems
        rw [text, json, itemsJson, List.cons_append, List.cons_append, List.append_assoc]
        exact Json.reads_array_cons (isBlank_newline layout (depth + 1)) hv
          (readsItems_itemsTail hvs)
  | @object levels entries h ih =>
    cases hordered with
    | object hsorted hordered =>
      have hentries : ∀ e ∈ entries, Json.Reads levels (e.2.text layout (depth + 1)) e.2.json :=
        fun e he => ih e he (hordered e he) (depth + 1)
      cases entries with
      | nil => exact Json.reads_object_nil levels
      | cons e es =>
        obtain ⟨he, hes⟩ := List.forall_mem_cons.mp hentries
        have hobject := Json.reads_object_cons (isBlank_newline layout (depth + 1)) isBlank_space
          (sorted_entriesJson hsorted) he (readsEntries_entriesTail hes)
        rw [text, json, entriesJson]
        simpa [Json.entryText] using hobject

theorem readsItems_jsonTail {levels : Nat} {vs : List Value}
    (h : ∀ v ∈ vs, Json.Reads levels v.json.text v.json) :
    Json.ReadsItems levels (Json.itemsTail (itemsJson vs)) (itemsJson vs) := by
  induction vs with
  | nil => exact Json.readsItems_nil isBlank_nil levels
  | cons v vs ih =>
    obtain ⟨hv, hvs⟩ := List.forall_mem_cons.mp h
    exact Json.readsItems_cons isBlank_nil hv (ih hvs)

theorem readsEntries_jsonTail {levels : Nat} {es : List (String × Value)}
    (h : ∀ e ∈ es, Json.Reads levels e.2.json.text e.2.json) :
    Json.ReadsEntries levels (Json.entriesTail (entriesJson es)) (entriesJson es) := by
  induction es with
  | nil => exact Json.readsEntries_nil isBlank_nil levels
  | cons e es ih =>
    obtain ⟨he, hes⟩ := List.forall_mem_cons.mp h
    have hentry := Json.readsEntries_cons isBlank_nil isBlank_nil e.1 he (ih hes)
    rw [entriesJson, Json.entriesTail]
    simpa [Json.entryText] using hentry

theorem reads_jsonText {levels : Nat} {v : Value} (hfits : v.Fits levels) (hordered : v.Ordered) :
    Json.Reads levels v.json.text v.json := by
  induction hfits with
  | null levels => exact Json.reads_null levels
  | boolean levels flag =>
    cases flag with
    | true => exact Json.reads_true levels
    | false => exact Json.reads_false levels
  | number levels h => exact reads_number levels _ rfl
  | string levels text => exact Json.reads_string levels text
  | @array levels items h ih =>
    cases hordered with
    | array hordered =>
      cases items with
      | nil => exact Json.reads_array_nil levels
      | cons v vs =>
        obtain ⟨hv, hvs⟩ := List.forall_mem_cons.mp fun v hv => ih v hv (hordered v hv)
        exact Json.reads_array_cons isBlank_nil hv (readsItems_jsonTail hvs)
  | @object levels entries h ih =>
    cases hordered with
    | object hsorted hordered =>
      cases entries with
      | nil => exact Json.reads_object_nil levels
      | cons e es =>
        obtain ⟨he, hes⟩ := List.forall_mem_cons.mp fun e he => ih e he (hordered e he)
        have hobject :=
          Json.reads_object_cons isBlank_nil isBlank_nil (sorted_entriesJson hsorted) he
          (readsEntries_jsonTail hes)
        rw [json, entriesJson, Json.text]
        simpa [Json.entryText] using hobject

/-! ### Streams -/

theorem readStreamWithin_append {blanks : List Char} (h : ∀ c ∈ blanks, Json.isBlank c = true)
    (text : List Char) (steps : Nat) (cs : List Char) :
    readStreamWithin text steps (blanks ++ cs) = readStreamWithin text steps cs := by
  cases steps with
  | zero => rfl
  | succ steps => rw [readStreamWithin, readStreamWithin, Json.nextOfStream_append h]

/-- A line for each value, in any layout that is read as its JSON form. -/
theorem readStreamWithin_lines {line : Value → List Char} {vs : List Value} {levels : Nat}
    (h : ∀ v ∈ vs, v.Fits levels ∧ Json.Reads Json.nestingLimit (line v) v.json) (text : List Char)
    (steps : Nat) (rest : List Char) :
    readStreamWithin text (vs.length + steps) (vs.flatMap (fun v => line v ++ ['\n']) ++ rest) =
      (vs.map reread ++ ·) <$> readStreamWithin text steps rest := by
  induction vs with
  | nil =>
    rw [List.length_nil, Nat.zero_add]
    exact (id_map _).symm
  | cons v vs ih =>
    obtain ⟨⟨hfits, hreads⟩, hvs⟩ := List.forall_mem_cons.mp h
    have hnewline : ∀ c ∈ ['\n'], Json.isBlank c = true := by simp [Json.isBlank]
    have hnext := Json.nextOfStream_of_reads hreads (rfl : Json.endsValue '\n' = true)
    have hrest := readStreamWithin_append hnewline text (vs.length + steps)
    have hlength : (v :: vs).length + steps = vs.length + steps + 1 := by
      rw [List.length_cons]
      omega
    rw [hlength, List.flatMap_cons, List.append_assoc, List.append_assoc, List.singleton_append,
      readStreamWithin, hnext]
    simp only [ofJson_json hfits, bind, Except.bind]
    rw [← List.singleton_append, hrest, ih hvs, List.map_cons]
    cases readStreamWithin text steps rest <;> rfl

theorem readStream_lines {line : Value → List Char} {vs : List Value} {levels : Nat}
    (h : ∀ v ∈ vs, v.Fits levels ∧ Json.Reads Json.nestingLimit (line v) v.json)
    (rest : List Char) :
    ∃ steps, readStream (vs.flatMap (fun v => line v ++ ['\n']) ++ rest) =
      (vs.map reread ++ ·) <$>
        readStreamWithin (vs.flatMap (fun v => line v ++ ['\n']) ++ rest) (steps + 1) rest := by
  have hlength := Json.length_le_flatMap (fun v => by simp : ∀ v, 1 ≤ (line v ++ ['\n']).length) vs
  refine ⟨(vs.flatMap (fun v => line v ++ ['\n']) ++ rest).length - vs.length, ?_⟩
  rw [← readStreamWithin_lines h, readStream]
  congr 1
  rw [List.length_append]
  omega

end Value
end QueryShell
