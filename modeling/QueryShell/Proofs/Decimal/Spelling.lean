import QueryShell.Decimal.Text
import QueryShell.Proofs.Decimal.Order

/-! How a number is written, part by part, and which number is read back from it. -/

namespace QueryShell.Decimal

/-- The parts of a written number: the digits before and behind the point, and the exponent, which
is left out if it is zero. -/
structure Spelling where
  negative : Bool
  whole : List Char
  fraction : List Char
  exponent : Int

namespace Spelling

def fractionText : List Char → List Char
  | [] => []
  | digits => '.' :: digits

/-- Only small numbers are written with the mark. -/
def exponentText (mark : Char) (n : Int) : List Char :=
  if n = 0 then []
  else if n < 0 then mark :: '-' :: Numeral.write n.natAbs
  else 'e' :: '+' :: Numeral.write n.natAbs

def unsignedText (mark : Char) (s : Spelling) : List Char :=
  s.whole ++ fractionText s.fraction ++ exponentText mark s.exponent

def signed (negative : Bool) (cs : List Char) : List Char := if negative then '-' :: cs else cs

def text (mark : Char) (s : Spelling) : List Char := signed s.negative (s.unsignedText mark)

/-- The number that is meant. -/
def decimal (s : Spelling) : Decimal :=
  let n : Int := Numeral.value (s.whole ++ s.fraction)
  ⟨if s.negative then -n else n, s.fraction.length - s.exponent⟩

/-- Zero stands in front of no other digit before the point. -/
structure WellFormed (s : Spelling) : Prop where
  whole : ∀ c ∈ s.whole, Numeral.isDigit c = true
  whole_ne_nil : s.whole ≠ []
  leading : s.whole.head? = some '0' → s.whole = ['0']
  fraction : ∀ c ∈ s.fraction, Numeral.isDigit c = true

end Spelling

/-- The form in which a number comes back: zero is read without places, and a number that is padded
with zeros as the whole number that it is. -/
def reread (d : Decimal) : Decimal :=
  if d.digits = 0 then ⟨0, 0⟩
  else if -trailingZeroLimit ≤ d.scale ∧ d.scale ≤ 0 then ⟨d.digitsAt 0, 0⟩
  else d

/-! ### Writing -/

theorem unsignedText_of_whole (mark : Char) (digits : List Char) {scale : Int}
    (h : -trailingZeroLimit ≤ scale ∧ scale ≤ 0) :
    unsignedText mark digits scale = digits ++ List.replicate (-scale).toNat '0' := by
  have hsmall : ¬ (leadingZeroLimit < scale - digits.length ∧ 0 < scale) := by omega
  rw [unsignedText, if_neg (by simpa using hsmall), if_neg (by omega), if_pos h.2]

namespace Spelling

/-- The spelling is that of the number, whatever mark is put before the exponent. -/
structure Of (s : Spelling) (d : Decimal) : Prop where
  wellFormed : s.WellFormed
  toTextWith : ∀ mark, d.toTextWith mark = s.text mark
  decimal : s.decimal = d.reread
  exponent : s.exponent.natAbs ≤ d.scale.natAbs

theorem toTextWith_eq {s : Spelling} {d : Decimal} (hd : d.digits ≠ 0)
    (hnegative : s.negative = decide (d.digits < 0)) {mark : Char}
    (h : Decimal.unsignedText mark (Numeral.write d.digits.natAbs) d.scale = s.unsignedText mark) :
    d.toTextWith mark = s.text mark := by
  rw [toTextWith, if_neg hd, h, text, hnegative, signed]
  simp only [decide_eq_true_eq]

theorem digits_decimal {s : Spelling} {d : Decimal} (hnegative : s.negative = decide (d.digits < 0))
    (zeros : Nat)
    (h : Numeral.value (s.whole ++ s.fraction) = d.digits.natAbs * Numeral.powerOfTen zeros) :
    s.decimal.digits = d.digits * Numeral.powerOfTen zeros := by
  rw [decimal, h, hnegative, Nat.cast_mul]
  by_cases hneg : d.digits < 0
  · have habs : (d.digits.natAbs : Int) = -d.digits := by omega
    simp only [hneg, decide_true, if_true, habs, Int.neg_mul, Int.neg_neg]
  · have habs : (d.digits.natAbs : Int) = d.digits := by omega
    simp only [hneg, decide_false, Bool.false_eq_true, if_false, habs]

theorem decimal_eq_self {s : Spelling} {d : Decimal}
    (hnegative : s.negative = decide (d.digits < 0))
    (hvalue : Numeral.value (s.whole ++ s.fraction) = d.digits.natAbs)
    (hscale : s.fraction.length - s.exponent = d.scale) :
    s.decimal = d := by
  have hdigits := digits_decimal hnegative 0 (by simpa [Numeral.powerOfTen_eq] using hvalue)
  have hone : d.digits * (Numeral.powerOfTen 0 : Nat) = d.digits := Int.mul_one d.digits
  rw [hone] at hdigits
  cases d
  exact congrArg₂ Decimal.mk hdigits hscale

theorem scientific_cons {mark c : Char} (cs : List Char) {exponent : Int} (h : exponent < 0) :
    scientific mark (c :: cs) exponent = c :: fractionText cs ++ exponentText mark exponent := by
  have hexponent : exponentText mark exponent = mark :: Numeral.writeInt exponent := by
    rw [exponentText, if_neg (by omega), if_pos h, Numeral.writeInt, if_pos h]
  cases cs <;> simp [scientific, fractionText, hexponent]

theorem exists_of_small {d : Decimal} (hd : d.digits ≠ 0)
    (h : leadingZeroLimit < d.scale - (Numeral.write d.digits.natAbs).length ∧ 0 < d.scale) :
    ∃ s : Spelling, s.Of d := by
  obtain ⟨c, cs, hwrite⟩ := List.exists_cons_of_ne_nil (Numeral.write_ne_nil d.digits.natAbs)
  have hdigits : ∀ c ∈ Numeral.write d.digits.natAbs, Numeral.isDigit c = true :=
    fun _ => Numeral.isDigit_of_mem_write
  have hleading := Numeral.head?_write_ne_zero (n := d.digits.natAbs) (by omega)
  have hvalue := Numeral.value_write d.digits.natAbs
  have hbranch : ∀ mark, Decimal.unsignedText mark (Numeral.write d.digits.natAbs) d.scale =
      scientific mark (Numeral.write d.digits.natAbs)
        ((Numeral.write d.digits.natAbs).length - 1 - d.scale) := by
    intro mark
    rw [Decimal.unsignedText, if_pos (by simpa using h)]
  rw [hwrite] at hdigits hleading hvalue h hbranch
  obtain ⟨hc, hcs⟩ := List.forall_mem_cons.mp hdigits
  have hexponent : ((c :: cs).length : Int) - 1 - d.scale = cs.length - d.scale := by simp
  rw [List.length_cons, leadingZeroLimit] at h
  have hnegative : (cs.length : Int) - d.scale < 0 := by omega
  refine ⟨⟨decide (d.digits < 0), [c], cs, cs.length - d.scale⟩, ?_, fun mark => ?_, ?_, ?_⟩
  · refine ⟨by simpa using hc, List.cons_ne_nil _ _, fun hzero => ?_, hcs⟩
    exact absurd hzero hleading
  · refine toTextWith_eq hd rfl ?_
    rw [hwrite, hbranch, hexponent, scientific_cons cs hnegative]
    rfl
  · have hreread : d.reread = d := by rw [reread, if_neg hd, if_neg (by omega)]
    rw [hreread]
    exact decimal_eq_self rfl hvalue (by simp)
  · show ((cs.length : Int) - d.scale).natAbs ≤ d.scale.natAbs
    omega

theorem wellFormed_of_digits {n : Nat} (h : 0 < n) (negative : Bool) (zeros : Nat)
    (exponent : Int) :
    WellFormed ⟨negative, Numeral.write n ++ List.replicate zeros '0', [], exponent⟩ := by
  have hshifted : 0 < n * Numeral.powerOfTen zeros := Nat.mul_pos h (Numeral.powerOfTen_pos zeros)
  rw [← Numeral.write_mul_powerOfTen h]
  exact {
    whole := fun _ => Numeral.isDigit_of_mem_write
    whole_ne_nil := Numeral.write_ne_nil _
    leading := fun hzero => absurd hzero (Numeral.head?_write_ne_zero hshifted)
    fraction := nofun }

theorem exists_of_large {d : Decimal} (hd : d.digits ≠ 0) (h : trailingZeroLimit < -d.scale) :
    ∃ s : Spelling, s.Of d := by
  rw [trailingZeroLimit] at h
  refine ⟨⟨decide (d.digits < 0), Numeral.write d.digits.natAbs, [], -d.scale⟩, ?_, fun mark => ?_,
    ?_, ?_⟩
  · simpa using wellFormed_of_digits (n := d.digits.natAbs) (by omega) (decide (d.digits < 0)) 0
      (-d.scale)
  · refine toTextWith_eq hd rfl ?_
    rw [Decimal.unsignedText, if_neg (by simp; omega), if_pos (by rw [trailingZeroLimit]; omega),
      Spelling.unsignedText, exponentText, if_neg (by simp; omega), if_neg (by simp; omega),
      Int.natAbs_neg]
    simp [fractionText]
  · have hreread : d.reread = d := by
      rw [reread, if_neg hd, if_neg (by rw [trailingZeroLimit]; omega)]
    rw [hreread]
    exact decimal_eq_self rfl (by simpa using Numeral.value_write d.digits.natAbs) (by simp)
  · simp

theorem exists_of_whole {d : Decimal} (hd : d.digits ≠ 0)
    (h : -trailingZeroLimit ≤ d.scale ∧ d.scale ≤ 0) :
    ∃ s : Spelling, s.Of d := by
  refine ⟨⟨decide (d.digits < 0), Numeral.write d.digits.natAbs ++
    List.replicate (-d.scale).toNat '0', [], 0⟩,
    wellFormed_of_digits (by omega) _ _ _, fun mark => ?_, ?_, by simp⟩
  · refine toTextWith_eq hd rfl ?_
    rw [unsignedText_of_whole _ _ h]
    simp [Spelling.unsignedText, fractionText, exponentText]
  · rw [reread, if_neg hd, if_pos h, digitsAt, Int.zero_sub]
    refine congrArg₂ Decimal.mk (digits_decimal rfl _ ?_) (by simp)
    rw [List.append_nil, ← Numeral.write_mul_powerOfTen (by omega), Numeral.value_write]

theorem wellFormed_withPoint {n : Nat} (h : 0 < n) (negative : Bool) (places : Nat)
    {padded : List Char}
    (hpadded : padded = List.replicate (places + 1 - (Numeral.write n).length) '0' ++
      Numeral.write n) :
    WellFormed ⟨negative, padded.take (padded.length - places),
      padded.drop (padded.length - places), 0⟩ := by
  have hdigits : ∀ c ∈ padded, Numeral.isDigit c = true := by
    intro c hc
    rw [hpadded, List.mem_append] at hc
    rcases hc with hc | hc
    · rw [List.eq_of_mem_replicate hc]
      rfl
    · exact Numeral.isDigit_of_mem_write hc
  have hlength : padded.length =
      places + 1 - (Numeral.write n).length + (Numeral.write n).length := by
    rw [hpadded, List.length_append, List.length_replicate]
  have hwhole : (padded.take (padded.length - places)).length = padded.length - places := by
    rw [List.length_take]
    omega
  refine ⟨fun c hc => hdigits c (List.mem_of_mem_take hc), ?_, fun hzero => ?_,
    fun c hc => hdigits c (List.mem_of_mem_drop hc)⟩
  · have hpos : 0 < (padded.take (padded.length - places)).length := by omega
    exact List.length_pos_iff.mp hpos
  -- With padding a single zero stands before the point, and without it the first digit of the
  -- number.
  · by_cases hpadding : (Numeral.write n).length ≤ places
    · have hone : (padded.take (padded.length - places)).length = 1 := by omega
      obtain ⟨c, hc⟩ := List.length_eq_one_iff.mp hone
      simp only [hc] at hzero ⊢
      simpa using hzero
    · have hsame : padded = Numeral.write n := by
        have hnone : places + 1 - (Numeral.write n).length = 0 := by omega
        rw [hpadded, hnone, List.replicate_zero, List.nil_append]
      rw [List.head?_take, if_neg (by omega), hsame] at hzero
      exact absurd hzero (Numeral.head?_write_ne_zero h)

theorem exists_of_fractional {d : Decimal} (hd : d.digits ≠ 0)
    (h : ¬ (leadingZeroLimit < d.scale - (Numeral.write d.digits.natAbs).length ∧ 0 < d.scale))
    (hpos : 0 < d.scale) :
    ∃ s : Spelling, s.Of d := by
  obtain ⟨padded, hpadded⟩ : ∃ padded, padded =
    List.replicate (d.scale.toNat + 1 - (Numeral.write d.digits.natAbs).length) '0' ++
      Numeral.write d.digits.natAbs :=
    ⟨_, rfl⟩
  have hlength : padded.length = d.scale.toNat + 1 - (Numeral.write d.digits.natAbs).length +
      (Numeral.write d.digits.natAbs).length := by
    rw [hpadded, List.length_append, List.length_replicate]
  have hfraction : (padded.drop (padded.length - d.scale.toNat)).length = d.scale.toNat := by
    rw [List.length_drop]
    omega
  refine ⟨_, wellFormed_withPoint (by omega) (decide (d.digits < 0)) d.scale.toNat hpadded,
    fun mark => ?_, ?_, by simp⟩
  · refine toTextWith_eq hd rfl ?_
    rw [Decimal.unsignedText, if_neg (by simpa using h), if_neg (by rw [trailingZeroLimit]; omega),
      if_neg (by omega),
      withPoint, ← hpadded]
    have hpoint : ∀ cs : List Char, 0 < cs.length → fractionText cs = '.' :: cs := by
      rintro (_ | ⟨c, cs⟩) hcs
      · cases hcs
      · rfl
    simp only [Spelling.unsignedText,
      hpoint _ (by omega : 0 < (padded.drop (padded.length - d.scale.toNat)).length), exponentText,
      if_true, List.append_nil]
  · have hreread : d.reread = d := by rw [reread, if_neg hd, if_neg (by omega)]
    rw [hreread]
    refine decimal_eq_self rfl ?_ ?_
    · rw [List.take_append_drop, hpadded, Numeral.value_append, Numeral.value_replicate_zero,
        Numeral.value_write]
      simp
    · simp only [hfraction]
      omega

/-- Every number has a spelling. -/
theorem exists_of (d : Decimal) : ∃ s : Spelling, s.Of d := by
  by_cases hd : d.digits = 0
  · have hwellFormed : WellFormed ⟨false, ['0'], [], 0⟩ :=
      ⟨by simp [Numeral.isDigit], by simp, fun _ => rfl, nofun⟩
    refine ⟨_, hwellFormed, fun mark => ?_, ?_, by simp⟩
    · rw [toTextWith, if_pos hd]
      rfl
    · rw [reread, if_pos hd]
      rfl
  · by_cases hsmall : leadingZeroLimit < d.scale - (Numeral.write d.digits.natAbs).length ∧
      0 < d.scale
    · exact exists_of_small hd hsmall
    · by_cases hlarge : trailingZeroLimit < -d.scale
      · exact exists_of_large hd hlarge
      · by_cases hwhole : d.scale ≤ 0
        · exact exists_of_whole hd ⟨by omega, hwhole⟩
        · exact exists_of_fractional hd hsmall (by omega)

end Spelling

/-! ### Reading -/

theorem readBounded_append {limit : Nat} {beyond : TextError} {m n : Nat} {first : List Char}
    (second : List Char) (h : readBounded limit beyond m first = .ok n) :
    readBounded limit beyond m (first ++ second) = readBounded limit beyond n second := by
  induction first generalizing m with
  | nil =>
    cases h
    rfl
  | cons c cs ih =>
    rw [readBounded] at h
    rw [List.cons_append, readBounded]
    split at h
    · cases h
    · next hdigit =>
      rw [if_neg hdigit]
      simp only at h ⊢
      split at h
      · cases h
      · next hlimit =>
        rw [if_neg hlimit]
        exact ih h

theorem readBounded_write {limit n : Nat} (h : n ≤ limit) (beyond : TextError) :
    readBounded limit beyond 0 (Numeral.write n) = .ok n := by
  have hstep : ∀ m d : Nat, d < 10 → 10 * m + d ≤ limit →
      readBounded limit beyond m [Numeral.digitChar d] = .ok (10 * m + d) := by
    intro m d hd hle
    rw [readBounded, if_neg (by simp [Numeral.isDigit_digitChar hd]),
      Numeral.digitValue_digitChar hd]
    simp only [if_neg (Nat.not_lt.mpr hle), readBounded]
  induction n using Numeral.induction with
  | digit n hn =>
    rw [Numeral.write_of_lt hn]
    simpa using hstep 0 n hn (by omega)
  | more n hn ih =>
    have hdigits : 10 * (n / 10) + n % 10 = n := by omega
    rw [Numeral.write_of_le hn, readBounded_append _ (ih (by omega)),
      hstep _ _ (Nat.mod_lt n (by omega)) (by omega), hdigits]

theorem readDigits_of_digits {cs : List Char} (hne : cs ≠ [])
    (h : ∀ c ∈ cs, Numeral.isDigit c = true) :
    readDigits cs = .ok (Numeral.value cs) := by
  obtain ⟨c, cs, rfl⟩ := List.exists_cons_of_ne_nil hne
  have hc : c ≠ '_' := Numeral.ne_of_isDigit (h c List.mem_cons_self) rfl
  have hall : (c :: cs).all isDigitOrGap = true :=
    List.all_eq_true.mpr fun d hd => by rw [isDigitOrGap, h d hd, Bool.true_or]
  have hfilter : (c :: cs).filter Numeral.isDigit = c :: cs := List.filter_eq_self.mpr h
  rw [readDigits, if_pos hall, hfilter]
  · exact hne
  · exact fun _ heq => hc (List.cons.inj heq).1

theorem readUnsigned_of_digits {cs : List Char} (hne : cs ≠ [])
    (h : ∀ c ∈ cs, Numeral.isDigit c = true) :
    readUnsigned cs = .ok (Numeral.value cs) := by
  rw [← readDigits_of_digits hne h]
  obtain ⟨c, cs, rfl⟩ := List.exists_cons_of_ne_nil hne
  have hc : c ≠ '+' := Numeral.ne_of_isDigit (h c List.mem_cons_self) rfl
  unfold readUnsigned
  split
  · next heq => exact absurd (List.cons.inj heq).1 hc
  · next heq => exact absurd (List.cons.inj heq).1 hc
  · rfl

theorem readSigned_signed {cs : List Char} (hne : cs ≠ []) (h : ∀ c ∈ cs, Numeral.isDigit c = true)
    (negative : Bool) :
    readSigned (Spelling.signed negative cs) =
      .ok (if negative then -(Numeral.value cs : Int) else Numeral.value cs) := by
  have hread := readUnsigned_of_digits hne h
  obtain ⟨c, cs, rfl⟩ := List.exists_cons_of_ne_nil hne
  have hplus : c ≠ '+' := Numeral.ne_of_isDigit (h c List.mem_cons_self) rfl
  have hminus : c ≠ '-' := Numeral.ne_of_isDigit (h c List.mem_cons_self) rfl
  cases negative with
  | true =>
    rw [Spelling.signed, if_pos rfl, readSigned, hread]
    · rfl
    · simpa using hplus
  | false =>
    rw [Spelling.signed, if_neg (by simp), readSigned, hread]
    · rfl
    · exact fun _ heq => absurd (List.cons.inj heq).1 hminus
    · exact fun _ heq => hminus (List.cons.inj heq).1

theorem dropPoint_signed {whole fraction : List Char}
    (hwhole : ∀ c ∈ whole, Numeral.isDigit c = true)
    (hfraction : ∀ c ∈ fraction, Numeral.isDigit c = true) (negative : Bool) :
    dropPoint (Spelling.signed negative (whole ++ Spelling.fractionText fraction)) =
      (Spelling.signed negative (whole ++ fraction), fraction.length) := by
  have hpoint : ∀ cs : List Char, Spelling.signed negative (whole ++ cs) =
      Spelling.signed negative whole ++ cs := by
    cases negative <;> exact fun _ => rfl
  have hsigned : ∀ c ∈ Spelling.signed negative whole, decide (c ≠ '.') = true := by
    have hdigits : ∀ c ∈ whole, decide (c ≠ '.') = true := fun c hc =>
      decide_eq_true (Numeral.ne_of_isDigit (hwhole c hc) rfl)
    cases negative with
    | true => exact List.forall_mem_cons.mpr ⟨rfl, hdigits⟩
    | false => exact hdigits
  rw [hpoint, hpoint, dropPoint]
  cases fraction with
  | nil =>
    rw [Spelling.fractionText, Numeral.span_append hsigned (by simp)]
    rfl
  | cons c cs =>
    have hfilter : (c :: cs).filter (fun d => decide (d ≠ '_')) = c :: cs :=
      List.filter_eq_self.mpr fun d hd =>
        decide_eq_true (Numeral.ne_of_isDigit (hfraction d hd) rfl)
    rw [Spelling.fractionText, Numeral.span_append hsigned (by simp)]
    simp only [hfilter]
    · nofun

theorem exponentText_cases {n : Int} (h : n.natAbs < exponentBound) :
    (n = 0 ∧ Spelling.exponentText 'e' n = []) ∨
      ∃ cs, Spelling.exponentText 'e' n = 'e' :: cs ∧ readExponent cs = .ok n := by
  have hdigits := Numeral.write_ne_nil n.natAbs
  by_cases hzero : n = 0
  · exact .inl ⟨hzero, if_pos hzero⟩
  · rw [Spelling.exponentText, if_neg hzero]
    right
    by_cases hneg : n < 0
    · refine ⟨_, if_pos hneg, ?_⟩
      have hvalue : -Int.ofNat n.natAbs = n := by
        rw [Int.ofNat_eq_natCast]
        omega
      rw [readExponent, readBounded_write (by omega)]
      · exact congrArg Except.ok hvalue
      · exact hdigits
    · refine ⟨_, if_neg hneg, ?_⟩
      have hvalue : Int.ofNat n.natAbs = n := by
        rw [Int.ofNat_eq_natCast]
        omega
      rw [readExponent, readBounded_write (by omega)]
      · exact congrArg Except.ok hvalue
      · exact hdigits

namespace Spelling

theorem signed_append (negative : Bool) (cs rest : List Char) :
    signed negative (cs ++ rest) = signed negative cs ++ rest := by
  cases negative <;> rfl

theorem head?_exponentText {mark : Char} (hmark : isExponentMark mark = true) (n : Int) :
    ∀ c ∈ (exponentText mark n).head?, isExponentMark c = true := by
  intro c hc
  rw [exponentText] at hc
  split at hc
  · cases hc
  · split at hc
    · cases hc
      exact hmark
    · cases hc
      rfl

theorem isExponentMark_of_mem_base {s : Spelling} (h : s.WellFormed) :
    ∀ c ∈ signed s.negative (s.whole ++ fractionText s.fraction), isExponentMark c = false := by
  have hdigit : ∀ c, Numeral.isDigit c = true → isExponentMark c = false := fun c hc => by
    simp [isExponentMark, Numeral.ne_of_isDigit hc (rfl : Numeral.isDigit 'e' = false),
      Numeral.ne_of_isDigit hc (rfl : Numeral.isDigit 'E' = false)]
  have hfraction : ∀ c ∈ fractionText s.fraction, isExponentMark c = false := by
    cases hdigits : s.fraction with
    | nil => nofun
    | cons c cs =>
      exact List.forall_mem_cons.mpr ⟨rfl, fun d hd => hdigit d (h.fraction d (hdigits ▸ hd))⟩
  have hunsigned : ∀ c ∈ s.whole ++ fractionText s.fraction, isExponentMark c = false := fun c hc =>
    (List.mem_append.mp hc).elim (fun hc => hdigit c (h.whole c hc)) (hfraction c)
  cases s.negative with
  | true => exact List.forall_mem_cons.mpr ⟨rfl, hunsigned⟩
  | false => exact hunsigned

theorem signed_ne_nil (negative : Bool) {cs : List Char} (h : cs ≠ []) :
    signed negative cs ≠ [] := by
  cases negative with
  | true => exact List.cons_ne_nil _ _
  | false => exact h

theorem ofText_text {s : Spelling} (h : s.WellFormed)
    (hexponent : s.exponent.natAbs < exponentBound)
    (hscale : -scaleBound ≤ s.decimal.scale ∧ s.decimal.scale < scaleBound) :
    ofText (s.text 'e') = .ok s.decimal := by
  have hdigits : ∀ c ∈ s.whole ++ s.fraction, Numeral.isDigit c = true := fun c hc =>
    (List.mem_append.mp hc).elim (h.whole c) (h.fraction c)
  have hne : s.whole ++ s.fraction ≠ [] := List.append_ne_nil_of_left_ne_nil h.whole_ne_nil _
  have hspan : (s.text 'e').span (fun c => !isExponentMark c) =
      (signed s.negative (s.whole ++ fractionText s.fraction), exponentText 'e' s.exponent) := by
    rw [text, unsignedText, signed_append]
    refine Numeral.span_append (fun c hc => ?_) fun c hc => ?_
    · rw [isExponentMark_of_mem_base h c hc]
      rfl
    · rw [head?_exponentText rfl _ c hc]
      rfl
  have hbase : (signed s.negative (s.whole ++ fractionText s.fraction)).isEmpty = false :=
    List.isEmpty_eq_false_iff.mpr
      (signed_ne_nil _ (List.append_ne_nil_of_left_ne_nil h.whole_ne_nil _))
  have hrange : ¬ (Int.ofNat s.fraction.length - s.exponent < -scaleBound ∨
      scaleBound ≤ Int.ofNat s.fraction.length - s.exponent) := by
    have hfields : s.decimal.scale = Int.ofNat s.fraction.length - s.exponent := rfl
    omega
  rw [ofText, hspan]
  rcases exponentText_cases hexponent with ⟨hzero, hnone⟩ | ⟨cs, hsome, hread⟩
  · rw [hzero] at hrange
    simp only [hnone, bind, Except.bind, pure, Except.pure, hbase,
      dropPoint_signed h.whole h.fraction, readSigned_signed hne hdigits]
    rw [if_neg (by simp), if_neg (by simpa using hrange), decimal, hzero]
    rfl
  · simp only [hsome, hread, bind, Except.bind, pure, Except.pure, hbase,
      dropPoint_signed h.whole h.fraction, readSigned_signed hne hdigits]
    rw [if_neg (by simp), if_neg (by simpa using hrange)]
    rfl

end Spelling

/-! ### The number that is read back -/

theorem scale_reread {d : Decimal} (h : -scaleBound ≤ d.scale ∧ d.scale < scaleBound) :
    -scaleBound ≤ d.reread.scale ∧ d.reread.scale < scaleBound := by
  have hzero : -scaleBound ≤ 0 ∧ 0 < scaleBound := by decide
  rw [reread]
  split_ifs
  · exact hzero
  · exact hzero
  · exact h

/-- A number whose scale can be stored is read back from its text, in the form that the text has. -/
theorem ofText_toTextWith {d : Decimal} (h : -scaleBound ≤ d.scale ∧ d.scale < scaleBound) :
    ofText (d.toTextWith 'e') = .ok d.reread := by
  obtain ⟨s, hs⟩ := Spelling.exists_of d
  have hexponent := hs.exponent
  have hscale : -scaleBound ≤ s.decimal.scale ∧ s.decimal.scale < scaleBound :=
    hs.decimal ▸ scale_reread h
  have hbound : s.exponent.natAbs < exponentBound := by
    rw [scaleBound] at h
    rw [exponentBound]
    omega
  rw [hs.toTextWith, Spelling.ofText_text hs.wellFormed hbound hscale, hs.decimal]

theorem cmp_reread (d : Decimal) : d.reread.cmp d = .eq := by
  have haligned : ∀ (e : Decimal) (s : Int), e.scale ≤ s → d.scale ≤ s →
      e.digitsAt s = d.digitsAt s →
      e.cmp d = .eq := fun e s hes hds heq => by
    rw [cmp_eq_compare hes hds, heq]
    exact Int.compare_eq_eq.mpr rfl
  rw [reread]
  split_ifs with hzero hwhole
  · refine haligned _ (max 0 d.scale) (le_max_left _ _) (le_max_right _ _) ?_
    simp [digitsAt, hzero]
  · refine haligned _ 0 (Int.le_refl 0) hwhole.2 ?_
    exact Int.mul_one _
  · exact Std.ReflCmp.compare_self

theorem toTextWith_reread (mark : Char) (d : Decimal) :
    d.reread.toTextWith mark = d.toTextWith mark := by
  rw [reread]
  split_ifs with hzero hwhole
  · rw [toTextWith, toTextWith, if_pos hzero, if_pos rfl]
  · have hpos : 0 < (Numeral.powerOfTen (0 - d.scale).toNat : Int) := by
      exact_mod_cast Numeral.powerOfTen_pos _
    have hdigits : d.digitsAt 0 ≠ 0 := by
      rw [digitsAt]
      exact mul_ne_zero hzero (by omega)
    have hsign : d.digitsAt 0 < 0 ↔ d.digits < 0 := by
      rw [← Int.sign_eq_neg_one_iff_neg, sign_digitsAt, Int.sign_eq_neg_one_iff_neg]
    have hunsigned : unsignedText mark (Numeral.write (d.digitsAt 0).natAbs) 0 =
        unsignedText mark (Numeral.write d.digits.natAbs) d.scale := by
      have hself : -trailingZeroLimit ≤ 0 ∧ (0 : Int) ≤ 0 := by decide
      rw [unsignedText_of_whole _ _ hself, unsignedText_of_whole _ _ hwhole, natAbs_digitsAt,
        Numeral.write_mul_powerOfTen (by omega), Int.zero_sub]
      exact List.append_nil _
    simp only [toTextWith, if_neg hzero, if_neg hdigits, hsign, hunsigned]
  · rfl

end QueryShell.Decimal
