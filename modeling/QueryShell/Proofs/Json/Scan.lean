import QueryShell.Json.Read
import QueryShell.Proofs.Decimal.Spelling
import QueryShell.Text.Quoted

/-! The words of a JSON text are read up to where they end: blanks, numbers in every spelling, and
quoted strings. -/

namespace QueryShell.Json

open Decimal (Spelling isExponentMark)

/-! ### Blanks -/

theorem skipBlanks_append {blanks : List Char} (h : ∀ c ∈ blanks, isBlank c = true)
    (rest : List Char) :
    skipBlanks (blanks ++ rest) = skipBlanks rest :=
  List.dropWhile_append_of_pos h

theorem skipBlanks_cons {c : Char} (h : isBlank c = false) (rest : List Char) :
    skipBlanks (c :: rest) = c :: rest :=
  List.dropWhile_cons_of_neg (by simp [h])

/-! ### Numbers -/

/-- What stands behind a number is no part of it. -/
structure EndsNumber (rest : List Char) : Prop where
  digit : ∀ c ∈ rest.head?, Numeral.isDigit c = false
  point : ∀ c ∈ rest.head?, c ≠ '.'
  mark : ∀ c ∈ rest.head?, isExponentMark c = false

theorem endsNumber_of_endsValue {c : Char} (h : endsValue c = true) (rest : List Char) :
    EndsNumber (c :: rest) := by
  have hc : Numeral.isDigit c = false ∧ c ≠ '.' ∧ isExponentMark c = false := by
    simp only [endsValue, isBlank, Bool.or_eq_true, decide_eq_true_eq, or_assoc] at h
    rcases h with rfl | rfl | rfl | rfl | rfl | rfl | rfl | rfl | rfl | rfl | rfl <;> decide
  obtain ⟨hdigit, hpoint, hmark⟩ := hc
  refine ⟨?_, ?_, ?_⟩ <;> rintro d ⟨⟩ <;> assumption

theorem scanDigits_append {digits rest : List Char} (hne : digits ≠ [])
    (hdigits : ∀ c ∈ digits, Numeral.isDigit c = true)
    (hrest : ∀ c ∈ rest.head?, Numeral.isDigit c = false) :
    scanDigits (digits ++ rest) = .ok (digits, rest) := by
  rw [scanDigits, spanDigits, Numeral.span_append hdigits hrest]
  obtain ⟨c, cs, rfl⟩ := List.exists_cons_of_ne_nil hne
  rfl

theorem scanWhole_append {s : Spelling} (h : s.WellFormed) {rest : List Char}
    (hrest : ∀ c ∈ rest.head?, Numeral.isDigit c = false) :
    scanWhole (s.whole ++ rest) = .ok (s.whole, rest) := by
  by_cases hzero : s.whole.head? = some '0'
  · rw [h.leading hzero]
    cases rest with
    | nil => rfl
    | cons c rest =>
      have hc : ¬ Numeral.isDigit c = true := by simp [hrest c rfl]
      exact if_neg hc
  · rw [← scanDigits_append h.whole_ne_nil h.whole hrest]
    obtain ⟨c, cs, hwhole⟩ := List.exists_cons_of_ne_nil h.whole_ne_nil
    rw [hwhole] at hzero ⊢
    rw [List.cons_append, scanWhole]
    exact fun _ heq => hzero (congrArg some (List.cons.inj heq).1)

theorem scanFraction_append {digits rest : List Char}
    (hdigits : ∀ c ∈ digits, Numeral.isDigit c = true)
    (hdigit : ∀ c ∈ rest.head?, Numeral.isDigit c = false) (hpoint : ∀ c ∈ rest.head?, c ≠ '.') :
    scanFraction (Spelling.fractionText digits ++ rest) =
      .ok (Spelling.fractionText digits, rest) := by
  cases digits with
  | nil =>
    rw [Spelling.fractionText, List.nil_append, scanFraction]
    rintro cs rfl
    exact hpoint '.' rfl rfl
  | cons c cs =>
    rw [Spelling.fractionText, List.cons_append, scanFraction,
      scanDigits_append (List.cons_ne_nil c cs) hdigits hdigit]
    · rfl
    · exact List.cons_ne_nil c cs

theorem scanExponent_mark {mark sign : Char} (hmark : isExponentMark mark = true)
    (hsign : sign = '+' ∨ sign = '-') {digits rest : List Char} (hne : digits ≠ [])
    (hdigits : ∀ c ∈ digits, Numeral.isDigit c = true)
    (hrest : ∀ c ∈ rest.head?, Numeral.isDigit c = false) :
    scanExponent (mark :: sign :: (digits ++ rest)) = .ok ('e' :: sign :: digits, rest) := by
  have hscan := scanDigits_append hne hdigits hrest
  rw [isExponentMark] at hmark
  rcases hsign with rfl | rfl
  · rw [scanExponent, if_pos hmark]
    simp only [hscan]
    rfl
  · rw [scanExponent, if_pos hmark]
    simp only [hscan]
    rfl

theorem scanExponent_append {mark : Char} (hmark : isExponentMark mark = true) (n : Int)
    {rest : List Char} (hdigit : ∀ c ∈ rest.head?, Numeral.isDigit c = false)
    (hrest : ∀ c ∈ rest.head?, isExponentMark c = false) :
    scanExponent (Spelling.exponentText mark n ++ rest) =
      .ok (Spelling.exponentText 'e' n, rest) := by
  have hne := Numeral.write_ne_nil n.natAbs
  have hdigits : ∀ c ∈ Numeral.write n.natAbs, Numeral.isDigit c = true :=
    fun _ => Numeral.isDigit_of_mem_write
  rw [Spelling.exponentText, Spelling.exponentText]
  split_ifs
  · cases rest with
    | nil => rfl
    | cons c rest =>
      have hc : ¬ (decide (c = 'e') || decide (c = 'E')) = true := by
        have hc := hrest c rfl
        rw [isExponentMark] at hc
        simp [hc]
      exact if_neg hc
  · exact scanExponent_mark hmark (.inr rfl) hne hdigits hdigit
  · exact scanExponent_mark rfl (.inl rfl) hne hdigits hdigit

theorem forall_head?_append {p : Char → Prop} {first rest : List Char}
    (hfirst : ∀ c ∈ first.head?, p c) (hrest : ∀ c ∈ rest.head?, p c) :
    ∀ c ∈ (first ++ rest).head?, p c := by
  cases first with
  | nil => exact hrest
  | cons c cs => exact hfirst

/-- A number is read whole, and its exponent gets one form. -/
theorem scanNumber_text {s : Spelling} (h : s.WellFormed) {mark : Char}
    (hmark : isExponentMark mark = true) {rest : List Char} (hrest : EndsNumber rest) :
    scanNumber (s.text mark ++ rest) = .ok (s.text 'e', rest) := by
  have hmarks : ∀ c, isExponentMark c = true → Numeral.isDigit c = false ∧ c ≠ '.' := fun c hc => by
    simp only [isExponentMark, Bool.or_eq_true, decide_eq_true_eq] at hc
    rcases hc with rfl | rfl <;> decide
  have hhead := Spelling.head?_exponentText hmark s.exponent
  have hdigit : ∀ c ∈ (Spelling.exponentText mark s.exponent ++ rest).head?, Numeral.isDigit c =
      false :=
    forall_head?_append (fun c hc => (hmarks c (hhead c hc)).1) hrest.digit
  have hpoint : ∀ c ∈ (Spelling.exponentText mark s.exponent ++ rest).head?, c ≠ '.' :=
    forall_head?_append (fun c hc => (hmarks c (hhead c hc)).2) hrest.point
  have hfraction : ∀ c ∈ (Spelling.fractionText s.fraction).head?, Numeral.isDigit c = false := by
    cases s.fraction with
    | nil => simp [Spelling.fractionText]
    | cons c cs => simp [Spelling.fractionText, Numeral.isDigit]
  have hunsigned : scanUnsigned (s.unsignedText mark ++ rest) = .ok (s.unsignedText 'e', rest) := by
    rw [scanUnsigned, Spelling.unsignedText, List.append_assoc, List.append_assoc,
      scanWhole_append h (forall_head?_append hfraction hdigit)]
    simp only [bind, Except.bind]
    rw [scanFraction_append h.fraction hdigit hpoint]
    simp only [scanExponent_append hmark s.exponent hrest.digit hrest.mark]
    rfl
  rw [Spelling.text, Spelling.text]
  cases s.negative with
  | true =>
    rw [Spelling.signed, if_pos rfl, List.cons_append, scanNumber, hunsigned]
    rfl
  | false =>
    rw [Spelling.signed, if_neg (by simp), scanNumber, hunsigned]
    · rfl
    · obtain ⟨c, cs, hwhole⟩ := List.exists_cons_of_ne_nil h.whole_ne_nil
      have hminus : c ≠ '-' := Numeral.ne_of_isDigit (h.whole c (hwhole ▸ List.mem_cons_self)) rfl
      rw [Spelling.unsignedText, hwhole]
      exact fun _ heq => hminus (List.cons.inj heq).1

/-! ### Strings -/

theorem hexValue?_hexDigit {d : Nat} (h : d < 16) : hexValue? (Text.hexDigit d) = some d := by
  revert d
  decide

theorem scanHex_hexFour {n : Nat} (h : n < 0x10000) (rest : List Char) :
    scanHex (Text.hexFour n ++ rest) = .ok (n, rest) := by
  have hdigit : ∀ m, hexValue? (Text.hexDigit (m % 16)) = some (m % 16) := fun m =>
    hexValue?_hexDigit (Nat.mod_lt m (by omega))
  have hvalue : 4096 * (n / 4096 % 16) + 256 * (n / 256 % 16) + 16 * (n / 16 % 16) + n % 16 =
      n := by omega
  simp only [Text.hexFour, List.cons_append, List.nil_append, scanHex, hexFour?, hdigit, bind,
    Option.bind, pure, hvalue]

theorem scanEscape_control {c : Char} (h : c.toNat ≤ 0x1f) (rest : List Char) :
    scanEscape ('u' :: (Text.hexFour c.toNat ++ rest)) = .ok (c, rest) := by
  have htrailing : isTrailingSurrogate c.toNat = false := by
    simp only [isTrailingSurrogate, Bool.and_eq_false_iff, decide_eq_false_iff_not]
    omega
  have hleading : isLeadingSurrogate c.toNat = false := by
    simp only [isLeadingSurrogate, Bool.and_eq_false_iff, decide_eq_false_iff_not]
    omega
  rw [scanEscape, scanUnicode, scanHex_hexFour (by omega)]
  simp only [bind, Except.bind, htrailing, hleading, Bool.false_eq_true, if_false, Char.ofNat_toNat]
  rfl

theorem scanStringWithin_of_scanEscape {steps : Nat} {c : Char} {cs rest left text : List Char}
    (hescape : scanEscape cs = .ok (c, rest)) (h : scanStringWithin steps rest = .ok (text, left)) :
    scanStringWithin (steps + 1) ('\\' :: cs) = .ok (c :: text, left) := by
  rw [scanStringWithin, hescape]
  simp only [bind, Except.bind, h]
  rfl

/-- Each character is read in one step, whether it stands for itself or is escaped. -/
theorem scanStringWithin_escaped {steps : Nat} {rest left text : List Char}
    (h : scanStringWithin steps rest = .ok (text, left)) (c : Char) :
    scanStringWithin (steps + 1) (Text.escaped c ++ rest) = .ok (c :: text, left) := by
  rw [Text.escaped]
  split_ifs with hbackspace htab hnewline hfeed hreturn hquote hbackslash hcontrol
  -- Seven characters have an escape of their own.
  iterate 7
    · subst_vars
      exact scanStringWithin_of_scanEscape rfl h
  · exact scanStringWithin_of_scanEscape (scanEscape_control hcontrol rest) h
  · rw [List.singleton_append, scanStringWithin, if_neg hcontrol, h]
    · rfl
    · exact hquote
    · exact hbackslash

theorem scanStringWithin_quoted {cs : List Char} {steps : Nat} (h : cs.length < steps)
    (rest : List Char) :
    scanStringWithin steps (cs.flatMap Text.escaped ++ '"' :: rest) = .ok (cs, rest) := by
  induction cs generalizing steps with
  | nil =>
    obtain ⟨steps, rfl⟩ := Nat.exists_eq_succ_of_ne_zero (Nat.ne_of_gt h)
    rfl
  | cons c cs ih =>
    obtain ⟨steps, rfl⟩ := Nat.exists_eq_succ_of_ne_zero (Nat.ne_of_gt (Nat.zero_lt_of_lt h))
    rw [List.flatMap_cons, List.append_assoc]
    exact scanStringWithin_escaped (ih (Nat.lt_of_succ_lt_succ h)) c

theorem length_le_flatMap {α β : Type} {f : α → List β} (h : ∀ x, 1 ≤ (f x).length) (xs : List α) :
    xs.length ≤ (xs.flatMap f).length := by
  induction xs with
  | nil => exact Nat.le_refl 0
  | cons x xs ih =>
    have hx := h x
    rw [List.flatMap_cons, List.length_append, List.length_cons]
    omega

theorem length_escaped (c : Char) : 1 ≤ (Text.escaped c).length := by
  rw [Text.escaped]
  split_ifs <;> exact Nat.le_add_left 1 _

theorem scanString_quoted (text : String) (rest : List Char) :
    scanString (text.toList.flatMap Text.escaped ++ '"' :: rest) = .ok (text, rest) := by
  have hlength := length_le_flatMap length_escaped text.toList
  rw [scanString, scanStringWithin_quoted (by rw [List.length_append]; omega)]
  exact congrArg (fun s => Except.ok (s, rest)) String.ofList_toList

end QueryShell.Json
