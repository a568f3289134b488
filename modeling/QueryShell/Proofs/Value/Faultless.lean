import QueryShell.Proofs.Dictionary
import QueryShell.Value.Operator

/-! A fault of the program itself shows as an exception named `internal`. The exceptions that the
language raises have other names, and the operators make no fault out of values that hold none. -/

namespace QueryShell

/-- No exception named `internal` is the value or is in it at any depth. Of the entries of an object
those count that can be looked up. -/
inductive Value.Faultless : Value → Prop where
  | exception {name : String} {fields : List (String × Value)} (hname : name ≠ "internal")
    (h : ∀ e ∈ fields, Faultless e.2) : Faultless (.exception name fields)
  | null : Faultless .null
  | boolean (flag : Bool) : Faultless (.boolean flag)
  | number (n : Decimal) : Faultless (.number n)
  | string (text : String) : Faultless (.string text)
  | array {items : List Value} (h : ∀ v ∈ items, Faultless v) : Faultless (.array items)
  | object {entries : List (String × Value)}
    (h : ∀ e ∈ Dictionary.ofEntries entries, Faultless e.2) :
    Faultless (.object entries)

namespace Exception

def Faultless (e : Exception) : Prop := e.toValue.Faultless

theorem faultless_named {name : String} (h : name ≠ "internal") : (named name).Faultless :=
  .exception h nofun

theorem Faultless.withField {e : Exception} (h : e.Faultless) (key : String) {v : Value}
    (hv : v.Faultless) :
    (e.withField key v).Faultless := by
  cases h with
  | exception hname hfields =>
    refine .exception hname fun entry hentry => ?_
    rcases Dictionary.mem_insert hentry with rfl | hentry
    · exact hv
    · exact hfields entry hentry

theorem Faultless.withText {e : Exception} (h : e.Faultless) (key text : String) :
    (e.withText key text).Faultless :=
  h.withField key (.string text)

theorem Faultless.withCount {e : Exception} (h : e.Faultless) (key : String) (n : Nat) :
    (e.withCount key n).Faultless :=
  h.withField key (.number _)

theorem faultless_undefinedName (missing : String) : (undefinedName missing).Faultless :=
  (faultless_named (by decide)).withText _ missing

theorem faultless_argumentCount (expected : List Nat) (received : Nat) :
    (argumentCount expected received).Faultless := by
  have hexpected : (Value.array (expected.map fun n => .number (.ofNat n))).Faultless :=
    .array (List.forall_mem_map.mpr fun n _ => .number _)
  exact ((faultless_named (by decide)).withField _ hexpected).withCount _ received

theorem faultless_wrongType : wrongType.Faultless := faultless_named (by decide)

theorem faultless_notInteger : notInteger.Faultless := faultless_named (by decide)

theorem faultless_notUnicode : notUnicode.Faultless := faultless_named (by decide)

theorem faultless_noSuchPosition : noSuchPosition.Faultless := faultless_named (by decide)

theorem faultless_noPosition : noPosition.Faultless := faultless_named (by decide)

theorem faultless_assignment (targetKind targetSource : String) :
    (assignment targetKind targetSource).Faultless :=
  ((faultless_named (by decide)).withText _ targetKind).withText _ targetSource

theorem faultless_tooLong (length times : Nat) : (tooLong length times).Faultless :=
  ((faultless_named (by decide)).withCount _ length).withCount _ times

theorem faultless_noSensibleString (reason : String) : (noSensibleString reason).Faultless :=
  (faultless_named (by decide)).withText _ reason

/-- A result for which something holds, or an exception that is no fault. -/
def Allows {α : Type} (good : α → Prop) : Except Exception α → Prop
  | .ok a => good a
  | .error e => e.Faultless

theorem Allows.of_ok {α : Type} {good : α → Prop} {outcome : Except Exception α} {a : α}
    (h : Allows good outcome) (hok : outcome = .ok a) : good a := by
  rwa [hok] at h

theorem Allows.of_error {α : Type} {good : α → Prop} {outcome : Except Exception α} {e : Exception}
    (h : Allows good outcome) (herror : outcome = .error e) : e.Faultless := by
  rwa [herror] at h

theorem Allows.bind {α β : Type} {good : α → Prop} {good' : β → Prop} {outcome : Except Exception α}
    {next : α → Except Exception β} (h : Allows good outcome)
    (hnext : ∀ a, good a → Allows good' (next a)) :
    Allows good' (outcome >>= next) := by
  cases outcome with
  | ok a => exact hnext a h
  | error e => exact h

theorem Allows.map {α β : Type} {good : α → Prop} {good' : β → Prop} {outcome : Except Exception α}
    {f : α → β} (h : Allows good outcome) (hf : ∀ a, good a → good' (f a)) :
    Allows good' (f <$> outcome) := by
  cases outcome with
  | ok a => exact hf a h
  | error e => exact h

end Exception

namespace Value

open Exception (Allows)

theorem faultless_of_mem_array {items : List Value} (h : (Value.array items).Faultless) :
    ∀ v ∈ items, v.Faultless := by
  cases h with
  | array h => exact h

theorem faultless_of_asEntry? {v : Value} {entry : String × Value} (h : v.Faultless)
    (hentry : v.asEntry? = some entry) :
    entry.2.Faultless := by
  unfold asEntry? at hentry
  split at hentry
  · cases hentry
    exact faultless_of_mem_array h _ (by simp)
  · cases hentry

theorem allows_add {left right : Value} (hl : left.Faultless) (hr : right.Faultless) :
    Allows Faultless (left.add right) := by
  unfold add
  split
  · exact .number _
  · exact .string _
  · refine .array fun v hv => ?_
    rcases List.mem_append.mp hv with hv | hv
    · exact faultless_of_mem_array hl v hv
    · exact faultless_of_mem_array hr v hv
  · refine .object fun e he => ?_
    cases hl with
    | object hl =>
      cases hr with
      | object hr =>
        rcases Dictionary.mem_union (Dictionary.mem_ofEntries he) with he | he
        · exact hl e he
        · exact hr e he
  · exact Exception.faultless_wrongType

theorem allows_repetitions (n : Decimal) : Allows (fun _ => True) (repetitions n) := by
  unfold repetitions
  split
  · exact Exception.faultless_notInteger
  · split
    · trivial
    · split
      · trivial
      · exact Exception.faultless_notInteger

theorem mem_of_mem_repeated {α : Type} {items : List α} {times : Nat} {a : α}
    (h : a ∈ repeated items times) :
    a ∈ items := by
  unfold repeated at h
  split at h
  · cases h
  · obtain ⟨copy, hcopy, ha⟩ := List.mem_flatten.mp h
    rwa [List.eq_of_mem_replicate hcopy] at ha

theorem allows_repetition {α : Type} (items : List α) (n : Decimal) :
    Allows (fun copies => ∀ a ∈ copies, a ∈ items) (repetition items n) := by
  refine (allows_repetitions n).bind fun times _ => ?_
  split
  · exact fun a ha => mem_of_mem_repeated ha
  · exact Exception.faultless_tooLong _ _

theorem allows_repeatText (text : String) (n : Decimal) : Allows Faultless (repeatText text n) :=
  (allows_repetition text.toList n).map fun _ _ => .string _

theorem allows_repeatItems {items : List Value} (h : (Value.array items).Faultless) (n : Decimal) :
    Allows Faultless (repeatItems items n) :=
  (allows_repetition items n).map fun _ hcopies => .array fun v hv =>
    faultless_of_mem_array h v (hcopies v hv)

theorem allows_multiply {left right : Value} (hl : left.Faultless) (hr : right.Faultless) :
    Allows Faultless (left.multiply right) := by
  unfold multiply
  split
  · exact .number _
  · exact allows_repeatText _ _
  · exact allows_repeatText _ _
  · exact allows_repeatItems hl _
  · exact allows_repeatItems hr _
  · exact Exception.faultless_wrongType

end Value

namespace Operator

variable {left right : List Value}

theorem faultless_outcome (op : Operator) {l r : Value} (hl : l.Faultless) (hr : r.Faultless) :
    (op.outcome l r).Faultless := by
  have hallows : Exception.Allows Value.Faultless (op.apply l r) := by
    cases op with
    | add => exact Value.allows_add hl hr
    | multiply => exact Value.allows_multiply hl hr
    | pair => exact .array (by simp [hl, hr])
  unfold outcome
  split
  · next v hv => exact hallows.of_ok hv
  · next e he => exact hallows.of_error he

theorem faultless_pairwise (op : Operator) (hl : ∀ v ∈ left, v.Faultless)
    (hr : ∀ v ∈ right, v.Faultless) :
    ∀ v ∈ op.pairwise left right, v.Faultless := by
  unfold pairwise
  split
  · exact hr
  · split
    · exact hl
    · rw [List.forall_mem_map]
      intro i _
      exact op.faultless_outcome (hl _ (List.get_mem _ _)) (hr _ (List.get_mem _ _))

end Operator

end QueryShell
