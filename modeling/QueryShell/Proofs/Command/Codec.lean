import Mathlib.Data.List.Forall2
import QueryShell.Command.Codec
import QueryShell.Proofs.Text.Utf8
import QueryShell.Proofs.Value.Json

/-! Values that are sent to an external program come back as they were if the program echoes its
input, unless it is told of the end of the transmission and its echo of that is not taken off. -/

namespace QueryShell.Command

/-- The lines that are sent for values in canonical form. -/
def lines (vs : List Value) : List Char := vs.flatMap fun v => v.json.text ++ ['\n']

theorem encodeLines_eq {values : List Value} {levels : Nat}
    (h : ∀ v ∈ values, v.canonical.Fits levels) :
    encodeLines values = .ok (lines (values.map Value.canonical)) := by
  induction values with
  | nil => rfl
  | cons v values ih =>
    obtain ⟨hv, hvalues⟩ := List.forall_mem_cons.mp h
    rw [encodeLines, Value.toJsonText, Value.toJson, Value.toJsonCanonical_of_fits hv, ih hvalues]
    simp [lines, bind, Except.bind, pure, Except.pure]

theorem lines_reread (vs : List Value) : lines (vs.map Value.reread) = lines vs := by
  rw [lines, lines, List.flatMap_map]
  simp only [Value.json_reread]

theorem encodeLines_reread {vs : List Value} (h : ∀ v ∈ vs, v.Fits Json.nestingLimit ∧ v.Ordered) :
    encodeLines (vs.map Value.reread) = .ok (lines vs) := by
  have hsame : ∀ v ∈ vs, v.reread.canonical = v.reread := fun v hv =>
    Value.canonical_of_ordered (Value.ordered_reread (h v hv).2)
  have hfits : ∀ w ∈ vs.map Value.reread, w.canonical.Fits Json.nestingLimit :=
    List.forall_mem_map.mpr fun v hv => (hsame v hv).symm ▸ Value.fits_reread (h v hv).1
  have hcanonical : (vs.map Value.reread).map Value.canonical = vs.map Value.reread := by
    rw [List.map_map]
    exact List.map_congr_left hsame
  rw [encodeLines_eq hfits, hcanonical, lines_reread]

theorem toUtf8_append (first second : List Char) :
    Text.toUtf8 (first ++ second) = Text.toUtf8 first ++ Text.toUtf8 second :=
  List.flatMap_append

theorem getLast?_lines_ne (vs : List Value) :
    (Text.toUtf8 (lines vs)).getLast? ≠ some endOfTransmission := by
  induction vs using List.reverseRecOn with
  | nil => nofun
  | append_singleton vs v _ =>
    have hlast : lines (vs ++ [v]) = lines vs ++ v.json.text ++ ['\n'] := by
      simp [lines]
    have hnewline : Text.toUtf8 ['\n'] = [0x0a] := rfl
    rw [hlast, toUtf8_append, hnewline, List.getLast?_append_of_ne_nil _ (List.cons_ne_nil _ _)]
    decide

/-- What is decoded when the output is the input. -/
theorem stripped_encoded (settings : CommandSettings) (vs : List Value) :
    stripped settings
        (Text.toUtf8 (lines vs) ++ if settings.endOfTransmission then [endOfTransmission] else []) =
      Text.toUtf8 (lines vs ++
        if settings.endOfTransmission && !settings.stripTrailingEot then ['\x04'] else []) := by
  obtain ⟨endOfTransmission', stripTrailingEot⟩ := settings
  have hlines := getLast?_lines_ne vs
  cases endOfTransmission' with
  | false => simp [stripped, hlines]
  | true =>
    cases stripTrailingEot with
    | false =>
      have hmark : Text.toUtf8 ['\x04'] = [endOfTransmission] := rfl
      simp [stripped, toUtf8_append, hmark]
    | true => simp [stripped]

theorem readStream_lines {vs : List Value} (h : ∀ v ∈ vs, v.Fits Json.nestingLimit ∧ v.Ordered)
    (rest : List Char) : ∃ steps, Value.readStream (lines vs ++ rest) =
      (vs.map Value.reread ++ ·) <$> Value.readStreamWithin (lines vs ++ rest) (steps + 1) rest :=
  Value.readStream_lines (fun v hv => ⟨(h v hv).1, Value.reads_jsonText (h v hv).1 (h v hv).2⟩) rest

/-- The codec round-trips: values without exceptions that nest at most 127 levels deep are encoded,
and decoding the bytes gives equal values, in order, that are encoded to the same bytes. If the end
of the transmission is marked and the mark is not taken off, decoding fails whatever was sent. -/
theorem decodeOutput_encodeInput (settings : CommandSettings) (values : List Value)
    (h : ∀ v ∈ values, v.canonical.Fits 127) :
    ∃ bytes, encodeInput settings values = .ok bytes ∧
      (settings.stripTrailingEot = true ∨ settings.endOfTransmission = false →
        ∃ back, decodeOutput settings bytes = .ok back ∧ List.Forall₂ Value.Equal back values ∧
          encodeInput settings back = .ok bytes) ∧
      (settings.endOfTransmission = true → settings.stripTrailingEot = false →
        ∃ detail, decodeOutput settings bytes = .error (.commandOutput detail)) := by
  have hcanonical : ∀ v ∈ values.map Value.canonical, v.Fits Json.nestingLimit ∧ v.Ordered :=
    List.forall_mem_map.mpr fun v hv => ⟨h v hv, Value.ordered_canonical v⟩
  refine ⟨_, by rw [encodeInput, encodeLines_eq h], fun hplain => ?_, fun hmarked hkept => ?_⟩
  · have hmark : (settings.endOfTransmission && !settings.stripTrailingEot) = false := by
      rcases hplain with hstrip | hend
      · rw [hstrip, Bool.not_true, Bool.and_false]
      · rw [hend, Bool.false_and]
    obtain ⟨steps, hread⟩ := readStream_lines hcanonical []
    refine ⟨(values.map Value.canonical).map Value.reread, ?_, ?_, ?_⟩
    · rw [decodeOutput, stripped_encoded, hmark, if_neg (by simp), Text.ofUtf8_toUtf8]
      simp only [hread]
      exact congrArg Except.ok (List.append_nil _)
    · rw [List.map_map, List.forall₂_map_left_iff]
      exact List.forall₂_same.mpr fun v _ => Value.equal_reread v
    · rw [encodeInput, encodeLines_reread hcanonical]
  · obtain ⟨steps, hread⟩ := readStream_lines hcanonical ['\x04']
    have hfault : ∃ e,
        Value.readStreamWithin (lines (values.map Value.canonical) ++ ['\x04']) (steps + 1)
          ['\x04'] = .error e := ⟨_, rfl⟩
    obtain ⟨e, hfault⟩ := hfault
    rw [hfault] at hread
    have hmark : (settings.endOfTransmission && !settings.stripTrailingEot) = true := by
      rw [hmarked, hkept]; rfl
    refine ⟨e.message, ?_⟩
    rw [decodeOutput, stripped_encoded, hmark, if_pos rfl, Text.ofUtf8_toUtf8]
    simp only [hread]
    rfl

theorem decodeOutput_encodeInput_nested :
    let values : List Value :=
      [.object [("b", .array [.number ⟨15, 1⟩, .null]), ("a", .string "x")], .number ⟨3, -20⟩]
    (∀ v ∈ values, v.canonical.Fits 127) ∧
      ∃ bytes, encodeInput ⟨true, true⟩ values = .ok bytes ∧
        ∃ back, decodeOutput ⟨true, true⟩ bytes = .ok back ∧ List.Forall₂ Value.Equal back values ∧
          encodeInput ⟨true, true⟩ back = .ok bytes := by
  intro values
  have harray : Value.Fits 126 (.array [.number ⟨15, 1⟩, .null]) :=
    .array
      (List.forall_mem_cons.mpr ⟨.number _ (by decide), List.forall_mem_singleton.mpr (.null _)⟩)
  have hcanonical :
      (Value.object [("b", .array [.number ⟨15, 1⟩, .null]), ("a", .string "x")]).canonical =
        .object [("a", .string "x"), ("b", .array [.number ⟨15, 1⟩, .null])] := rfl
  have hobject :
      (Value.object [("b", .array [.number ⟨15, 1⟩, .null]), ("a", .string "x")]).canonical.Fits
        127 := by
    rw [hcanonical]
    exact .object (List.forall_mem_cons.mpr ⟨.string _ _, List.forall_mem_singleton.mpr harray⟩)
  have hfits : ∀ v ∈ values, v.canonical.Fits 127 :=
    List.forall_mem_cons.mpr ⟨hobject, List.forall_mem_singleton.mpr (.number _ (by decide))⟩
  obtain ⟨bytes, hbytes, hback, _⟩ := decodeOutput_encodeInput ⟨true, true⟩ values hfits
  exact ⟨hfits, bytes, hbytes, hback (.inl rfl)⟩

end QueryShell.Command
