import QueryShell.Command.Codec
import QueryShell.Proofs.Value.Json

/-! Only exceptions have no JSON form. The first one that an observer comes to in a value is the
reason why the value has none, and values of which one has none leave a program without input. -/

namespace QueryShell

namespace Value

/-- The values directly in a value, in the order in which an observer comes to them: for an object,
what each key holds in the end, in the order of the keys. -/
def parts : Value → List Value
  | .array items => items
  | .object entries => (Dictionary.ofEntries entries).map Prod.snd
  | _ => []

/-- An exception is the value, or is in it at any depth. Entries of an object that others have
replaced do not count. -/
inductive HoldsException : Value → Prop where
  | here (name : String) (fields : List (String × Value)) : HoldsException (.exception name fields)
  | part {v w : Value} (hmem : w ∈ v.parts) (h : HoldsException w) : HoldsException v

/-- The first exception that an observer comes to in a value has the name. -/
inductive FirstException (name : String) : Value → Prop where
  | here (fields : List (String × Value)) : FirstException name (.exception name fields)
  | part {v w : Value} {before after : List Value} (hparts : v.parts = before ++ w :: after)
    (hbefore : ∀ u ∈ before, ¬ u.HoldsException) (h : FirstException name w) : FirstException name v

theorem parts_induction {motive : Value → Prop} (h : ∀ v, (∀ w ∈ v.parts, motive w) → motive v)
    (v : Value) :
    motive v := by
  induction v using Value.induction with
  | array items ih => exact h _ ih
  | object entries ih =>
    refine h _ (List.forall_mem_map.mpr fun e he => ih e (Dictionary.mem_ofEntries he))
  | _ => exact h _ nofun

/-- Among values of which some hold exceptions, there is a first one. -/
theorem exists_first_holding {vs : List Value} (h : ∃ v ∈ vs, v.HoldsException) :
    ∃ before v after, vs = before ++ v :: after ∧ v.HoldsException ∧
    ∀ u ∈ before, ¬ u.HoldsException := by
  induction vs with
  | nil => simp at h
  | cons v vs ih =>
    by_cases hv : v.HoldsException
    · exact ⟨[], v, vs, rfl, hv, nofun⟩
    · obtain ⟨before, w, after, rfl, hw, hbefore⟩ := ih (by simpa [hv] using h)
      exact ⟨v :: before, w, after, rfl, hw, List.forall_mem_cons.mpr ⟨hv, hbefore⟩⟩

theorem exists_firstException {v : Value} (h : v.HoldsException) :
    ∃ name, FirstException name v := by
  induction v using parts_induction with
  | h v ih =>
    cases h with
    | here name fields => exact ⟨name, .here fields⟩
    | @part _ w hmem hw =>
      obtain ⟨before, first, after, hparts, hfirst, hbefore⟩ := exists_first_holding ⟨w, hmem, hw⟩
      obtain ⟨name, hname⟩ := ih first (hparts ▸ by simp) hfirst
      exact ⟨name, .part hparts hbefore hname⟩

/-! ### The JSON form of a value and of its parts -/

theorem entriesToJson_eq (es : List (String × Value)) :
    entriesToJson es = (List.zip (Dictionary.keys es) ·) <$> itemsToJson (es.map Prod.snd) := by
  induction es with
  | nil => rfl
  | cons e es ih =>
    rw [entriesToJson, List.map_cons, itemsToJson, ih]
    cases toJsonCanonical e.2 with
    | error e => rfl
    | ok json => cases itemsToJson (es.map Prod.snd) <;> rfl

/-- What a later entry has replaced is no part of an object. -/
theorem exists_parts_object (entries : List (String × Value)) : ∃ es, Dictionary.Sorted es ∧
    (∀ key v, (key, v) ∈ es ↔ Dictionary.IsLast key v entries) ∧
    (object entries).parts = es.map Prod.snd := by
  have hsorted := Dictionary.sorted_ofEntries entries
  refine ⟨Dictionary.ofEntries entries, hsorted, fun key v => ?_, rfl⟩
  rw [hsorted.mem_iff, Dictionary.find?_ofEntries_eq_some_iff]

theorem parts_object (es : List (String × Value)) :
    (canonicalEntries es).map Prod.snd = (object es).parts.map canonical := by
  have hsorted := Dictionary.sorted_ofEntries es
  have hobject := canonical_ofEntries es
  rw [canonical, canonical, canonicalEntries_of_sorted hsorted] at hobject
  rw [← Value.object.inj hobject, parts, List.map_map, List.map_map]
  rfl

/-- A value that is no exception has a JSON form if its parts do. -/
theorem toJson_of_parts {v : Value} (h : v.isException = false) :
    ∃ make : List Json → Json, v.toJson = make <$> itemsToJson (v.parts.map canonical) := by
  cases v with
  | exception name fields => cases h
  | null => exact ⟨fun _ => .null, rfl⟩
  | boolean flag => exact ⟨fun _ => .boolean flag, rfl⟩
  | number n => exact ⟨fun _ => .number (n.toTextWith 'e'), numberToJson_eq n⟩
  | string text => exact ⟨fun _ => .string text, rfl⟩
  | array items =>
    refine ⟨.array, ?_⟩
    rw [toJson, canonical, toJsonCanonical, canonicalItems_eq_map]
    rfl
  | object entries =>
    refine ⟨fun js => .object (List.zip (Dictionary.keys (canonicalEntries entries)) js), ?_⟩
    rw [toJson, canonical, toJsonCanonical, entriesToJson_eq, parts_object]
    cases itemsToJson ((object entries).parts.map canonical) <;> rfl

theorem exists_itemsToJson {vs : List Value} (h : ∀ v ∈ vs, ∃ json, v.toJson = .ok json) :
    ∃ js, itemsToJson (vs.map canonical) = .ok js := by
  induction vs with
  | nil => exact ⟨[], rfl⟩
  | cons v vs ih =>
    obtain ⟨⟨json, hv⟩, hvs⟩ := List.forall_mem_cons.mp h
    obtain ⟨js, hjs⟩ := ih hvs
    rw [toJson] at hv
    refine ⟨json :: js, ?_⟩
    rw [List.map_cons, itemsToJson, hv, hjs]
    rfl

theorem itemsToJson_of_failure {before after : List Value} {v : Value} {e : Error}
    (hbefore : ∀ w ∈ before, ∃ json, w.toJson = .ok json) (hv : v.toJson = .error e) :
    itemsToJson ((before ++ v :: after).map canonical) = .error e := by
  induction before with
  | nil =>
    rw [toJson] at hv
    rw [List.nil_append, List.map_cons, itemsToJson, hv]
    rfl
  | cons w before ih =>
    obtain ⟨⟨json, hw⟩, hrest⟩ := List.forall_mem_cons.mp hbefore
    rw [toJson] at hw
    rw [List.cons_append, List.map_cons, itemsToJson, hw, ih hrest]
    rfl

theorem isException_of_not_holdsException {v : Value} (h : ¬ v.HoldsException) :
    v.isException = false := by
  cases v with
  | exception name fields => exact absurd (.here name fields) h
  | _ => rfl

theorem exists_toJson {v : Value} (h : ¬ v.HoldsException) : ∃ json, v.toJson = .ok json := by
  induction v using parts_induction with
  | h v ih =>
    obtain ⟨js, hjs⟩ := exists_itemsToJson fun w hw => ih w hw fun hholds => h (.part hw hholds)
    obtain ⟨make, hmake⟩ := toJson_of_parts (isException_of_not_holdsException h)
    exact ⟨make js, by rw [hmake, hjs]; rfl⟩

theorem toJson_of_firstException {name : String} {v : Value} (h : FirstException name v) :
    v.toJson = .error (.notSerializable name) := by
  induction h with
  | here fields => rfl
  | @part v w before after hparts hbefore _ ih =>
    have hplain : v.isException = false := by
      cases v with
      | exception name fields => cases before <;> cases hparts
      | _ => rfl
    obtain ⟨make, hmake⟩ := toJson_of_parts hplain
    rw [hmake, hparts, itemsToJson_of_failure (fun u hu => exists_toJson (hbefore u hu)) ih]
    rfl

theorem exists_toJsonText_iff {v : Value} :
    (∃ text, v.toJsonText = .ok text) ↔ ¬ v.HoldsException := by
  constructor
  · rintro ⟨text, htext⟩ hholds
    obtain ⟨name, hname⟩ := exists_firstException hholds
    rw [toJsonText, toJson_of_firstException hname] at htext
    cases htext
  · intro h
    obtain ⟨json, hjson⟩ := exists_toJson h
    exact ⟨json.text, by rw [toJsonText, hjson]; rfl⟩

theorem holdsException_of_failure {v : Value} {e : Error} (h : v.toJsonText = .error e) :
    v.HoldsException := by
  by_contra hplain
  obtain ⟨text, htext⟩ := exists_toJsonText_iff.mpr hplain
  rw [h] at htext
  cases htext

theorem toJsonText_eq_error_iff {v : Value} {e : Error} :
    v.toJsonText = .error e ↔ ∃ name, FirstException name v ∧ e = .notSerializable name := by
  constructor
  · intro herror
    obtain ⟨name, hname⟩ := exists_firstException (holdsException_of_failure herror)
    rw [toJsonText, toJson_of_firstException hname] at herror
    cases herror
    exact ⟨name, hname, rfl⟩
  · rintro ⟨name, hname, rfl⟩
    rw [toJsonText, toJson_of_firstException hname]
    rfl

end Value

namespace Command

open Value (HoldsException FirstException)

theorem exists_encodeLines {values : List Value} (h : ∀ v ∈ values, ¬ v.HoldsException) :
    ∃ text, encodeLines values = .ok text := by
  induction values with
  | nil => exact ⟨[], rfl⟩
  | cons v values ih =>
    obtain ⟨hv, hvalues⟩ := List.forall_mem_cons.mp h
    obtain ⟨line, hline⟩ := Value.exists_toJsonText_iff.mpr hv
    obtain ⟨text, htext⟩ := ih hvalues
    exact ⟨line ++ '\n' :: text, by rw [encodeLines, hline, htext]; rfl⟩

theorem encodeLines_of_failure {before after : List Value} {v : Value} {e : Error}
    (hbefore : ∀ w ∈ before, ¬ w.HoldsException) (hv : v.toJsonText = .error e) :
    encodeLines (before ++ v :: after) = .error e := by
  induction before with
  | nil =>
    rw [List.nil_append, encodeLines, hv]
    rfl
  | cons w before ih =>
    obtain ⟨hw, hrest⟩ := List.forall_mem_cons.mp hbefore
    obtain ⟨line, hline⟩ := Value.exists_toJsonText_iff.mpr hw
    rw [List.cons_append, encodeLines, hline, ih hrest]
    rfl

/-- The values are not encoded if one of them holds an exception, and the first that does is the
reason. -/
theorem encodeInput_eq_error_iff {settings : CommandSettings} {values : List Value}
    {e : Exception} :
    encodeInput settings values = .error e ↔
      ∃ before v after name, values = before ++ v :: after ∧ (∀ w ∈ before, ¬ w.HoldsException) ∧
        FirstException name v ∧ e = .internal (Error.notSerializable name).message := by
  constructor
  · intro herror
    by_cases hplain : ∀ v ∈ values, ¬ v.HoldsException
    · obtain ⟨text, htext⟩ := exists_encodeLines hplain
      rw [encodeInput, htext] at herror
      cases herror
    · push Not at hplain
      obtain ⟨before, v, after, hvalues, hv, hbefore⟩ := Value.exists_first_holding hplain
      obtain ⟨name, hname⟩ := Value.exists_firstException hv
      refine ⟨before, v, after, name, hvalues, hbefore, hname, ?_⟩
      have htext : v.toJsonText = .error (.notSerializable name) :=
        Value.toJsonText_eq_error_iff.mpr ⟨name, hname, rfl⟩
      rw [encodeInput, hvalues, encodeLines_of_failure hbefore htext] at herror
      exact (Except.error.inj herror).symm
  · rintro ⟨before, v, after, name, rfl, hbefore, hname, rfl⟩
    rw [encodeInput,
      encodeLines_of_failure hbefore (Value.toJsonText_eq_error_iff.mpr ⟨name, hname, rfl⟩)]

/-- A value has a JSON form exactly if it holds no exception at any depth, so every number has one.
Otherwise it is refused in the name of the first exception in it, where those that an object holds
come in the order of the keys, and only the last entry for a key counts. Values are encoded exactly
if each of them has a JSON form; otherwise there is one `internal` exception, which tells of the
first value that has none. -/
theorem serialization_refuses_exceptions :
    (∀ entries, ∃ es, Dictionary.Sorted es ∧
      (∀ key v, (key, v) ∈ es ↔ Dictionary.IsLast key v entries) ∧
      (Value.object entries).parts = es.map Prod.snd) ∧
    (∀ v : Value, ((∃ text, v.toJsonText = .ok text) ↔ ¬ v.HoldsException) ∧
      ∀ e, v.toJsonText = .error e ↔ ∃ name, FirstException name v ∧ e = .notSerializable name) ∧
    (∀ n : Decimal, ∃ text, (Value.number n).toJsonText = .ok text) ∧
    ∀ (settings : CommandSettings) (values : List Value),
      ((∃ e, encodeInput settings values = .error e) ↔ ∃ v ∈ values, ∃ e, v.toJsonText = .error e) ∧
      ∀ e, encodeInput settings values = .error e ↔
        ∃ before v after name, values = before ++ v :: after ∧ (∀ w ∈ before, ¬ w.HoldsException) ∧
          FirstException name v ∧ e = .internal (Error.notSerializable name).message := by
  refine ⟨Value.exists_parts_object,
    fun v => ⟨Value.exists_toJsonText_iff, fun e => Value.toJsonText_eq_error_iff⟩, fun n => ?_,
    fun settings values => ⟨⟨?_, ?_⟩, fun e => encodeInput_eq_error_iff⟩⟩
  · refine Value.exists_toJsonText_iff.mpr fun h => ?_
    cases h with
    | part hmem => cases hmem
  · rintro ⟨e, herror⟩
    obtain ⟨before, v, after, name, rfl, _, hname, _⟩ := encodeInput_eq_error_iff.mp herror
    exact ⟨v, by simp, _, Value.toJsonText_eq_error_iff.mpr ⟨name, hname, rfl⟩⟩
  · rintro ⟨v, hmem, e, herror⟩
    obtain ⟨before, w, after, hvalues, hw, hbefore⟩ :=
      Value.exists_first_holding ⟨v, hmem, Value.holdsException_of_failure herror⟩
    obtain ⟨name, hname⟩ := Value.exists_firstException hw
    exact ⟨_, encodeInput_eq_error_iff.mpr ⟨before, w, after, name, hvalues, hbefore, hname, rfl⟩⟩

/-- The exception that arrives first stands behind the one under the smaller key, and one that is
replaced does not count. -/
example :
    (Value.object [("b", .exception "late" []), ("a", .array [.exception "early" []])]).toJsonText =
      .error (.notSerializable "early") ∧
    (Value.object [("b", .exception "late" []), ("b", .number ⟨-15, -20⟩)]).toJsonText =
      .ok "\x7b\"b\":-15e+20\x7d".toList := by
  cbv

end Command
end QueryShell
