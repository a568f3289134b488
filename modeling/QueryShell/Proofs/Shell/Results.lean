import Mathlib.Data.List.Forall2
import QueryShell.Proofs.Value.Json
import QueryShell.Shell.Basic

/-! Results that are printed can be read again, whatever their layout. -/

namespace QueryShell.Shell

namespace Transcript

def printed (layout : Layout) (vs : List Value) : List Char :=
  (vs.map (Value.render layout)).flatMap fun text => text.toList ++ ['\n']

theorem ofValue_eq {v : Value} (h : v.isException = false) (layout : Layout) :
    ofValue layout v = ⟨(v.render layout).toList ++ ['\n'], []⟩ := by
  cases v with
  | exception name fields => cases h
  | _ => rfl

theorem ofValues_eq {vs : List Value} (h : ∀ v ∈ vs, v.isException = false) (layout : Layout) :
    ofValues layout vs = ⟨printed layout vs, []⟩ := by
  have hfold : ∀ before : List Char,
      vs.foldl (fun t v => Transcript.append t (ofValue layout v)) (Transcript.mk before []) =
        ⟨before ++ printed layout vs, []⟩ := by
    induction vs with
    | nil =>
      intro before
      rw [printed, List.map_nil, List.flatMap_nil, List.append_nil]
      rfl
    | cons v vs ih =>
      obtain ⟨hv, hvs⟩ := List.forall_mem_cons.mp h
      intro before
      rw [List.foldl_cons, ofValue_eq hv, append, List.append_nil, ih hvs, printed, printed,
        List.map_cons, List.flatMap_cons, List.append_assoc]
  exact hfold []

theorem printed_eq (layout : Layout) (vs : List Value) :
    printed layout vs = (vs.map Value.canonical).flatMap fun v => v.text layout 0 ++ ['\n'] := by
  simp [printed, Value.render, List.flatMap_map]

end Transcript

theorem isException_canonical (v : Value) : v.canonical.isException = v.isException := by
  cases v <;> rfl

theorem isException_of_fits {levels : Nat} {v : Value} (h : v.Fits levels) :
    v.isException = false := by
  cases h <;> rfl

/-- Printed results are readable input: values without exceptions that nest at most 127 levels deep
are read back from the lines that are printed for them. What is read back is equal to them, in
order, does not depend on the layout, and is printed as they were. -/
theorem readStream_results (values : List Value) (h : ∀ v ∈ values, v.canonical.Fits 127) :
    ∃ back, List.Forall₂ Value.Equal back values ∧ ∀ layout : Layout,
      Value.readStream (Transcript.ofValues layout values).results = .ok back ∧
        back.map (Value.render layout) = values.map (Value.render layout) ∧
        Transcript.ofValues layout back = Transcript.ofValues layout values := by
  refine ⟨(values.map Value.canonical).map Value.reread, ?_, fun layout => ?_⟩
  · rw [List.map_map, List.forall₂_map_left_iff]
    exact List.forall₂_same.mpr fun v _ => Value.equal_reread v
  · have hreads : ∀ v ∈ values.map Value.canonical,
        v.Fits Json.nestingLimit ∧ Json.Reads Json.nestingLimit (v.text layout 0) v.json :=
      List.forall_mem_map.mpr fun v hv =>
        ⟨h v hv, Value.reads_text (h v hv) (Value.ordered_canonical v) layout 0⟩
    have hrender : ((values.map Value.canonical).map Value.reread).map (Value.render layout) =
        values.map (Value.render layout) := by
      rw [List.map_map, List.map_map]
      exact List.map_congr_left fun v _ => Value.render_reread layout v
    have hvalues : ∀ v ∈ values, v.isException = false := fun v hv =>
      (isException_canonical v).symm.trans (isException_of_fits (h v hv))
    have hback : ∀ v ∈ (values.map Value.canonical).map Value.reread, v.isException = false :=
      List.forall_mem_map.mpr fun v hv => isException_of_fits (Value.fits_reread (hreads v hv).1)
    obtain ⟨steps, hread⟩ := Value.readStream_lines hreads []
    refine ⟨?_, hrender, ?_⟩
    · rw [Transcript.ofValues_eq hvalues, Transcript.printed_eq,
        ← List.append_nil (List.flatMap _ _), hread]
      exact congrArg Except.ok (List.append_nil _)
    · rw [Transcript.ofValues_eq hvalues, Transcript.ofValues_eq hback, Transcript.printed, hrender,
        Transcript.printed]

theorem readStream_results_nested :
    let values : List Value := [.array [.number ⟨15, 1⟩, .array [], .string "x"], .number ⟨3, -20⟩]
    (∀ v ∈ values, v.canonical.Fits 127) ∧
      ∃ back, List.Forall₂ Value.Equal back values ∧ ∀ layout : Layout,
        Value.readStream (Transcript.ofValues layout values).results = .ok back ∧
          back.map (Value.render layout) = values.map (Value.render layout) ∧
          Transcript.ofValues layout back = Transcript.ofValues layout values := by
  intro values
  have harray : (Value.array [.number ⟨15, 1⟩, .array [], .string "x"]).canonical.Fits 127 :=
    .array (List.forall_mem_cons.mpr ⟨.number _ (by decide),
      List.forall_mem_cons.mpr ⟨.array nofun, List.forall_mem_singleton.mpr (.string _ _)⟩⟩)
  have hfits : ∀ v ∈ values, v.canonical.Fits 127 :=
    List.forall_mem_cons.mpr ⟨harray, List.forall_mem_singleton.mpr (.number _ (by decide))⟩
  exact ⟨hfits, readStream_results values hfits⟩

end QueryShell.Shell
