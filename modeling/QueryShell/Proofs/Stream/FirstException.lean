import Mathlib.Data.List.Infix
import Mathlib.Data.List.TakeWhile
import QueryShell.Stream.Basic

/-! A stream cut at its first exception: the values before it, the exception itself, and the values
up to it. -/

namespace QueryShell.Stream

/-- At most one exception, and nothing behind it. -/
def Terminal (values : List Value) : Prop := ∀ v ∈ values.dropLast, v.isException = false

instance (values : List Value) : Decidable (Terminal values) :=
  inferInstanceAs (Decidable (∀ v ∈ values.dropLast, v.isException = false))

theorem raises_eq_false_iff {values : List Value} :
    raises values = false ↔ ∀ v ∈ values, v.isException = false := by
  simp [raises]

theorem firstException?_eq_none_iff {values : List Value} :
    firstException? values = none ↔ raises values = false := by
  simp [firstException?, raises]

theorem raises_iff_firstException? {values : List Value} :
    raises values = true ↔ ∃ e, firstException? values = some e := by
  rw [← Bool.not_eq_false, ← firstException?_eq_none_iff, ← ne_eq, Option.ne_none_iff_exists']

theorem isException_of_firstException? {values : List Value} {e : Value}
    (h : firstException? values = some e) : e.isException = true :=
  List.find?_some h

theorem raises_append (first second : List Value) :
    raises (first ++ second) = (raises first || raises second) :=
  List.any_append

theorem firstException?_append (first second : List Value) :
    firstException? (first ++ second) = (firstException? first).or (firstException? second) :=
  List.find?_append

theorem raises_toList_firstException? (values : List Value) :
    raises (firstException? values).toList = raises values := by
  cases h : firstException? values with
  | none => exact (firstException?_eq_none_iff.mp h).symm
  | some e =>
    have he := isException_of_firstException? h
    rw [raises_iff_firstException?.mpr ⟨e, h⟩]
    simp [raises, he]

theorem throughException_eq_plain_append (values : List Value) :
    throughException values = plain values ++ (firstException? values).toList := by
  induction values with
  | nil => rfl
  | cons v vs ih =>
    cases hv : v.isException with
    | true => simp [throughException, plain, firstException?, hv]
    | false =>
      simp only [plain, firstException?] at ih
      simp [throughException, plain, firstException?, hv, ih]

theorem raises_plain (values : List Value) : raises (plain values) = false := by
  rw [raises_eq_false_iff]
  intro v hv
  simpa using List.mem_takeWhile_imp hv

theorem plain_of_raises_eq_false {values : List Value} (h : raises values = false) :
    plain values = values := by
  rw [raises_eq_false_iff] at h
  exact List.takeWhile_eq_self_iff.mpr (fun v hv => by simp [h v hv])

theorem throughException_of_raises_eq_false {values : List Value} (h : raises values = false) :
    throughException values = values := by
  rw [throughException_eq_plain_append, plain_of_raises_eq_false h,
    firstException?_eq_none_iff.mpr h, Option.toList_none, List.append_nil]

theorem with_plain_of_raises_eq_false {input : Stream} (h : raises input.values = false) :
    { input with values := plain input.values } = input := by
  rw [plain_of_raises_eq_false h]

/-- What is behind an exception does not get through. -/
theorem throughException_append_exception (before after : List Value) {e : Value}
    (he : e.isException = true) :
    throughException (before ++ e :: after) = throughException (before ++ [e]) := by
  induction before with
  | nil => simp [throughException, he]
  | cons v vs ih => simp [throughException, ih]

theorem plain_throughException (values : List Value) :
    plain (throughException values) = plain values := by
  induction values with
  | nil => rfl
  | cons v vs ih =>
    cases hv : v.isException with
    | true => simp [throughException, plain, hv]
    | false =>
      simp only [plain] at ih
      simp [throughException, plain, hv, ih]

theorem firstException?_throughException (values : List Value) :
    firstException? (throughException values) = firstException? values := by
  induction values with
  | nil => rfl
  | cons v vs ih =>
    cases hv : v.isException with
    | true => simp [throughException, firstException?, hv]
    | false =>
      simp only [firstException?] at ih
      simp [throughException, firstException?, hv, ih]

theorem raises_throughException (values : List Value) :
    raises (throughException values) = raises values := by
  rw [Bool.eq_iff_iff, raises_iff_firstException?, raises_iff_firstException?,
    firstException?_throughException]

theorem throughException_throughException (values : List Value) :
    throughException (throughException values) = throughException values := by
  rw [throughException_eq_plain_append (throughException values), plain_throughException,
    firstException?_throughException, ← throughException_eq_plain_append]

theorem terminal_append_toList {values : List Value} (h : raises values = false)
    (last? : Option Value) : Terminal (values ++ last?.toList) := by
  rw [raises_eq_false_iff] at h
  intro v hv
  cases last? with
  | none => exact h v (List.mem_of_mem_dropLast (by simpa using hv))
  | some last => exact h v (by simpa using hv)

theorem terminal_of_raises_eq_false {values : List Value} (h : raises values = false) :
    Terminal values := by
  simpa using terminal_append_toList h none

theorem terminal_singleton (v : Value) : Terminal [v] := by simp [Terminal]

theorem Terminal.cons {v : Value} {vs : List Value} (hv : v.isException = false)
    (h : Terminal vs) : Terminal (v :: vs) := by
  cases vs with
  | nil => exact terminal_singleton v
  | cons w ws =>
    intro u hu
    rw [List.dropLast_cons_of_ne_nil (List.cons_ne_nil w ws), List.mem_cons] at hu
    rcases hu with rfl | hu
    · exact hv
    · exact h u hu

theorem terminal_throughException (values : List Value) : Terminal (throughException values) := by
  rw [throughException_eq_plain_append]
  exact terminal_append_toList (raises_plain values) _

theorem Terminal.tail {v : Value} {vs : List Value} (h : Terminal (v :: vs)) : Terminal vs := by
  intro u hu
  cases vs with
  | nil => cases hu
  | cons w ws => exact h u (List.mem_cons_of_mem v hu)

theorem throughException_of_terminal {values : List Value} (h : Terminal values) :
    throughException values = values := by
  induction values with
  | nil => rfl
  | cons v vs ih =>
    rw [throughException]
    cases hv : v.isException with
    | true =>
      cases vs with
      | nil => rfl
      | cons w ws =>
        have hplain := h v List.mem_cons_self
        rw [hv] at hplain
        cases hplain
    | false => rw [if_neg Bool.false_ne_true, ih h.tail]

theorem throughException_toList (last? : Option Value) :
    throughException last?.toList = last?.toList :=
  throughException_of_terminal (terminal_append_toList rfl last? : Terminal ([] ++ last?.toList))

theorem throughException_append (first second : List Value) :
    throughException (first ++ second) =
      if raises first = true then throughException first else first ++ throughException second := by
  induction first with
  | nil => rfl
  | cons v vs ih =>
    cases hv : v.isException with
    | true => simp [throughException, raises, hv]
    | false =>
      have hraises : raises (v :: vs) = raises vs := by simp [raises, hv]
      have hcut : ∀ rest, throughException (v :: rest) = v :: throughException rest := by
        simp [throughException, hv]
      rw [List.cons_append, hcut, hcut, ih, hraises]
      by_cases h : raises vs = true <;> simp [h]

theorem throughException_throughException_append (first second : List Value) :
    throughException (throughException first ++ second) = throughException (first ++ second) := by
  rw [throughException_append, throughException_append, raises_throughException,
    throughException_throughException]
  by_cases h : raises first = true
  · rw [if_pos h, if_pos h]
  · rw [if_neg h, if_neg h, throughException_of_raises_eq_false (Bool.not_eq_true _ ▸ h)]

theorem throughException_append_congr (first : List Value) {second second' : List Value}
    (h : throughException second = throughException second') :
    throughException (first ++ second) = throughException (first ++ second') := by
  rw [throughException_append, throughException_append, h]

theorem throughException_append_throughException (first second : List Value) :
    throughException (first ++ throughException second) = throughException (first ++ second) :=
  throughException_append_congr first (throughException_throughException second)

variable {make make' : Value → List Value}

theorem throughException_flatMap_congr {values : List Value}
    (h : ∀ v ∈ values, throughException (make v) = throughException (make' v)) :
    throughException (values.flatMap make) = throughException (values.flatMap make') := by
  induction values with
  | nil => rfl
  | cons v vs ih =>
    have hhead := h v List.mem_cons_self
    have htail := ih fun w hw => h w (List.mem_cons_of_mem v hw)
    calc throughException (make v ++ vs.flatMap make)
      _ = throughException (throughException (make v) ++ vs.flatMap make) :=
        (throughException_throughException_append _ _).symm
      _ = throughException (make' v ++ vs.flatMap make) := by
        rw [hhead, throughException_throughException_append]
      _ = throughException (make' v ++ vs.flatMap make') := throughException_append_congr _ htail

theorem throughException_flatMap_throughException (hmake : ∀ e, e.isException = true → make e = [e])
    (values : List Value) :
    throughException ((throughException values).flatMap make) =
      throughException (values.flatMap make) := by
  induction values with
  | nil => rfl
  | cons v vs ih =>
    rw [throughException, List.flatMap_cons]
    cases hv : v.isException with
    | true => simp [throughException, hmake v hv, hv]
    | false => exact throughException_append_congr (make v) ih

/-- It is the same to make something of the values before an exception and to let the exception
stand for itself. -/
theorem throughException_flatMap_plain (hmake : ∀ e, e.isException = true → make e = [e])
    (values : List Value) :
    throughException ((plain values).flatMap make ++ (firstException? values).toList) =
      throughException (values.flatMap make) := by
  have hlast : (firstException? values).toList = (firstException? values).toList.flatMap make := by
    cases h : firstException? values with
    | none => rfl
    | some e => simp [hmake e (isException_of_firstException? h)]
  calc throughException ((plain values).flatMap make ++ (firstException? values).toList)
    _ = throughException ((throughException values).flatMap make) := by
      rw [throughException_eq_plain_append values, List.flatMap_append, ← hlast]
    _ = throughException (values.flatMap make) :=
      throughException_flatMap_throughException hmake values

end QueryShell.Stream
