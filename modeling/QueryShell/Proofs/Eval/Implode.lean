import QueryShell.Proofs.Eval.Form
import QueryShell.Proofs.Eval.Pipe
import QueryShell.Proofs.Value.Whole

/-! Text from the code points of its characters. Every character has a code point, but not every
integer is one, and one value that is none takes the place of the whole text. -/

namespace QueryShell

namespace Value

/-- The character whose code point a value is. -/
def character? (v : Value) : Option Char :=
  v.whole?.bind fun k =>
    if h : 0 ≤ k ∧ k.toNat.isValidChar then some (Char.ofNatAux k.toNat h.2) else none

/-- What is raised for a value that is no code point. -/
def characterFault (v : Value) : Exception :=
  match v.whole? with
  | some _ => .named "unicode"
  | none => v.wholeFault

variable {v : Value} {k : Int}

theorem character?_of_not_whole (h : v.whole? = none) : v.character? = none := by
  rw [character?, h, Option.bind_none]

theorem character?_of_whole? (h : v.whole? = some k) : v.character? =
    if h : 0 ≤ k ∧ k.toNat.isValidChar then some (Char.ofNatAux k.toNat h.2) else none := by
  rw [character?, h, Option.bind_some]

theorem character?_eq_some_iff {c : Char} :
    v.character? = some c ↔ v.whole? = some (c.toNat : Int) := by
  constructor
  · intro hsome
    cases hwhole : v.whole? with
    | none => cases (character?_of_not_whole hwhole).symm.trans hsome
    | some k =>
      rw [character?_of_whole? hwhole] at hsome
      by_cases hvalid : 0 ≤ k ∧ k.toNat.isValidChar
      · rw [dif_pos hvalid] at hsome
        have hcode : c.toNat = k.toNat := by
          rw [← Option.some.inj hsome]
          rfl
        rw [hcode, Int.toNat_of_nonneg hvalid.1]
      · rw [dif_neg hvalid] at hsome
        cases hsome
  · intro hwhole
    have hvalid : 0 ≤ (c.toNat : Int) ∧ (c.toNat : Int).toNat.isValidChar :=
      ⟨Int.natCast_nonneg _, c.valid⟩
    rw [character?_of_whole? hwhole, dif_pos hvalid]
    rfl

/-- The integers that are no code points: those below zero, the surrogates, and those that are too
large. -/
theorem character?_eq_none_iff (h : v.whole? = some k) :
    v.character? = none ↔ k < 0 ∨ (0xd800 ≤ k ∧ k ≤ 0xdfff) ∨ 0x10ffff < k := by
  rw [character?_of_whole? h]
  by_cases hvalid : 0 ≤ k ∧ k.toNat.isValidChar
  · have hrange : ¬ (k < 0 ∨ (0xd800 ≤ k ∧ k ≤ 0xdfff) ∨ 0x10ffff < k) := by
      simp only [Nat.isValidChar] at hvalid
      omega
    rw [dif_pos hvalid]
    exact ⟨fun h => absurd h (Option.some_ne_none _), fun h => absurd h hrange⟩
  · have hrange : k < 0 ∨ (0xd800 ≤ k ∧ k ≤ 0xdfff) ∨ 0x10ffff < k := by
      simp only [Nat.isValidChar] at hvalid
      omega
    rw [dif_neg hvalid]
    exact ⟨fun _ => hrange, fun _ => rfl⟩

end Value

namespace Builtin

variable {v : Value}

theorem characterOf_of_code {n : Decimal} (hinteger : integerOf v = .ok n) {code : Nat}
    (hcode : n.toNat? 0x10ffff = some code) :
    characterOf v =
      if h : code.isValidChar then .ok (Char.ofNatAux code h) else .error .notUnicode := by
  rw [characterOf, hinteger]
  dsimp only [bind, Except.bind]
  rw [hcode]

theorem characterOf_of_no_code {n : Decimal} (hinteger : integerOf v = .ok n)
    (hcode : n.toNat? 0x10ffff = none) :
    characterOf v = .error .notUnicode := by
  rw [characterOf, hinteger]
  dsimp only [bind, Except.bind]
  rw [hcode]

theorem characterOf_of_whole? {k : Int} (h : v.whole? = some k) : characterOf v =
    if h : 0 ≤ k ∧ k.toNat.isValidChar then .ok (Char.ofNatAux k.toNat h.2)
    else .error .notUnicode := by
  obtain ⟨n, hinteger, hvalue⟩ := integerOf_of_whole? h
  by_cases hneg : k < 0
  · have hdigits : n.digits < 0 := by rwa [← Decimal.value_neg_iff, hvalue, Int.cast_lt_zero]
    have hnone : n.toNat? 0x10ffff = none := by rw [Decimal.toNat?, if_pos hdigits]
    rw [characterOf_of_no_code hinteger hnone, dif_neg (by omega)]
  · obtain ⟨code, rfl⟩ := Int.eq_ofNat_of_zero_le (Int.not_lt.mp hneg)
    have hfound : n.toNat? 0x10ffff = if code ≤ 0x10ffff then some code else none := by
      rw [Int.cast_natCast] at hvalue
      exact Decimal.toNat?_of_value hvalue 0x10ffff
    by_cases hlimit : code ≤ 0x10ffff
    · rw [if_pos hlimit] at hfound
      rw [characterOf_of_code hinteger hfound]
      by_cases hvalid : code.isValidChar
      · have hcode : 0 ≤ (code : Int) ∧ (code : Int).toNat.isValidChar :=
          ⟨Int.natCast_nonneg code, hvalid⟩
        rw [dif_pos hcode, dif_pos hvalid]
        rfl
      · have hcode : ¬ (0 ≤ (code : Int) ∧ (code : Int).toNat.isValidChar) := fun h => hvalid h.2
        rw [dif_neg hcode, dif_neg hvalid]
    · have hcode : ¬ (0 ≤ (code : Int) ∧ (code : Int).toNat.isValidChar) := by
        simp only [Nat.isValidChar, Int.toNat_natCast]
        omega
      rw [if_neg hlimit] at hfound
      rw [characterOf_of_no_code hinteger hfound, dif_neg hcode]

theorem characterOf_eq (v : Value) : characterOf v = match v.character? with
    | some c => .ok c
    | none => .error v.characterFault := by
  cases hwhole : v.whole? with
  | none =>
    rw [characterOf, integerOf_of_not_whole hwhole, Value.character?_of_not_whole hwhole,
      Value.characterFault, hwhole]
    rfl
  | some k =>
    have hfault : v.characterFault = .notUnicode := by
      rw [Value.characterFault, hwhole]
      rfl
    rw [characterOf_of_whole? hwhole, Value.character?_of_whole? hwhole, hfault]
    by_cases hvalid : 0 ≤ k ∧ k.toNat.isValidChar
    · rw [dif_pos hvalid, dif_pos hvalid]
    · rw [dif_neg hvalid, dif_neg hvalid]

/-- All characters, or the exception for the first value that is no code point. -/
theorem characters_eq (vs : List Value) : characters vs = match vs.find? (·.character?.isNone) with
    | some v => .error v.characterFault
    | none => .ok (vs.filterMap Value.character?) := by
  induction vs with
  | nil => rfl
  | cons v vs ih =>
    rw [characters, characterOf_eq]
    cases hcharacter : v.character? with
    | none =>
      have hfirst : (v :: vs).find? (·.character?.isNone) = some v :=
        List.find?_cons_of_pos (by simp [hcharacter])
      rw [hfirst]
      rfl
    | some c =>
      have hrest : (v :: vs).find? (·.character?.isNone) = vs.find? (·.character?.isNone) :=
        List.find?_cons_of_neg (by simp [hcharacter])
      have hfilter : (v :: vs).filterMap Value.character? = c :: vs.filterMap Value.character? :=
        List.filterMap_cons_some hcharacter
      rw [ih, hrest, hfilter]
      cases vs.find? (·.character?.isNone) <;> rfl

/-- The text that values are the code points of, or the exception for the first one that is no code
point. -/
def imploded (vs : List Value) : Value :=
  match vs.find? (·.character?.isNone) with
  | some v => v.characterFault.toValue
  | none => .string (String.ofList (vs.filterMap Value.character?))

theorem result_implode (input : Stream) :
    (implode [] input).result = .once (imploded input.values) := by
  rw [implode, characters_eq, imploded]
  cases input.values.find? (·.character?.isNone) <;> rfl

/-- The values are code points one by one, or the first that is none is found. -/
theorem characters_iff (vs : List Value) (cs : List Char) :
    (vs.find? (·.character?.isNone) = none ∧ vs.filterMap Value.character? = cs) ↔
      vs.map Value.whole? = cs.map fun c => some (c.toNat : Int) := by
  induction vs generalizing cs with
  | nil => cases cs <;> simp
  | cons v vs ih =>
    cases hcharacter : v.character? with
    | none =>
      have hnone : ∀ c : Char, v.whole? ≠ some (c.toNat : Int) := fun c h => by
        cases hcharacter.symm.trans (Value.character?_eq_some_iff.mpr h)
      cases cs <;> simp [hcharacter, hnone]
    | some c =>
      cases cs with
      | nil => simp [hcharacter]
      | cons d ds =>
        have hfirst : c = d ↔ v.whole? = some (d.toNat : Int) := by
          rw [← Value.character?_eq_some_iff, hcharacter, Option.some.injEq]
        simp [hcharacter, hfirst, ← ih ds, and_left_comm]

theorem imploded_eq_string_iff (vs : List Value) (text : String) :
    imploded vs = .string text ↔
    vs.map Value.whole? = text.toList.map fun c => some (c.toNat : Int) := by
  rw [← characters_iff, imploded]
  cases vs.find? (·.character?.isNone) with
  | some v => simp [Exception.toValue]
  | none =>
    have htext : String.ofList (vs.filterMap Value.character?) = text ↔
        vs.filterMap Value.character? = text.toList :=
      ⟨fun h => by rw [← h, String.toList_ofList], fun h => by rw [h, String.ofList_toList]⟩
    simpa using htext

end Builtin

namespace Filter

/-- Over an input without exceptions `implode` makes exactly one value. It is the text that the
values are the code points of, in whatever forms, as every text has them. If a value is no code
point, it is the exception for the first such value alone: `type` for what is no number, `integer`
for a number that is no integer, and `unicode` for an integer below zero, among the surrogates, or
above all code points, however large. -/
theorem eval_implode (runner : Runner) (config : Config) {input : Stream}
    (hvalues : Stream.raises input.values = false) {f : Filter}
    (hcalls : f.Calls "implode" input.namespaces) :
    let runtime : Runtime := ⟨.standard, runner, config⟩
    let output (v : Value) : Stream := { input with values := [v] }
    (∀ text : String, (f.eval runtime input).result = output (.string text) ↔
      input.values.map Value.whole? = text.toList.map fun c => some (c.toNat : Int)) ∧
    (f.eval runtime input).result = output (match input.values.find? (·.character?.isNone) with
      | some v => v.characterFault.toValue
      | none => .string (String.ofList (input.values.filterMap Value.character?))) ∧
    (∀ (v : Value) (c : Char), v.character? = some c ↔ v.whole? = some (c.toNat : Int)) ∧
    ∀ (v : Value) (k : Int), v.whole? = some k →
      (v.character? = none ↔ k < 0 ∨ (0xd800 ≤ k ∧ k ≤ 0xdfff) ∨ 0x10ffff < k) := by
  intro runtime output
  have hlookup : runtime.builtins.lookup "implode" 0 = .ok Builtin.implode := rfl
  have hmade : (Builtin.implode [] input).result = .ofValues [Builtin.imploded input.values] :=
    Builtin.result_implode input
  have hone :=
    Stream.throughException_of_terminal (Stream.terminal_singleton (Builtin.imploded input.values))
  have hresult : (f.eval runtime input).result = output (Builtin.imploded input.values) := by
    rw [eval_of_calls hlookup hcalls, result_bridge_of_raises_eq_false hvalues hmade, hone]
  refine ⟨fun text => ?_, hresult, fun v c => Value.character?_eq_some_iff,
    fun v k => Value.character?_eq_none_iff⟩
  rw [hresult, ← Builtin.imploded_eq_string_iff]
  simp [output]

/-- Forms of code points in and beyond the basic plane, and a surrogate in another input. -/
theorem eval_implode_of_forms :
    let runtime : Runtime := ⟨.standard, .system, .standard⟩
    let text : Stream := ⟨[.number ⟨720, 1⟩, .number ⟨128512, 0⟩], .empty⟩
    let other : Stream := ⟨[.number ⟨72, 0⟩, .number ⟨5529600, 2⟩, .null], .empty⟩
    (Stream.raises text.values = false ∧ Stream.raises other.values = false ∧
      (name "implode").Calls "implode" text.namespaces) ∧
      ((name "implode").eval runtime text).result = { text with values := [.string "H😀"] } ∧
      ((name "implode").eval runtime other).result =
        { other with values := [(Exception.named "unicode").toValue] } := by
  intro runtime text other
  have htext : Stream.raises text.values = false := rfl
  have hother : Stream.raises other.values = false := rfl
  have hcalls : (name "implode").Calls "implode" text.namespaces := .bare rfl
  refine ⟨⟨htext, hother, hcalls⟩, ?_, (eval_implode .system .standard hother hcalls).2.1.trans ?_⟩
  · have hcodes : text.values.map Value.whole? = "H😀".toList.map fun c => some (c.toNat : Int) := by
      decide +kernel
    exact ((eval_implode .system .standard htext hcalls).1 "H😀").mpr hcodes
  · have hfirst : (Value.number ⟨72, 0⟩).character?.isNone = false := by decide +kernel
    have hsecond : (Value.number ⟨5529600, 2⟩).character?.isNone = true := by decide +kernel
    have hwhole : (Value.number ⟨5529600, 2⟩).whole? = some 0xd800 := by decide +kernel
    simp [other, hfirst, hsecond, Value.characterFault, hwhole]

end Filter
end QueryShell
