import QueryShell.Proofs.Toml.Text
import QueryShell.Toml.Read

/-! Values in a document of settings: texts in every style that can hold them, numerals and truth
values are read back wherever a gap starts behind them. -/

namespace QueryShell.Toml

/-- The first character of what may stand behind a value on its line, or of the end of the line. -/
def startsGap (c : Char) : Bool := isBlank c || c = '#' || c = '\n' || c = '\r'

variable {c d : Char} {cs ds rest : List Char} {n : Nat}

theorem isDigit_of_startsGap (h : startsGap c = true) : Numeral.isDigit c = false := by
  simp only [startsGap, isBlank, Bool.or_eq_true, decide_eq_true_eq, or_assoc] at h
  rcases h with rfl | rfl | rfl | rfl | rfl <;> rfl

/-! ### Numerals -/

theorem wellSpaced_of_forall (hne : ds ≠ []) (h : ∀ d ∈ ds, Numeral.isDigit d = true) :
    wellSpaced Numeral.isDigit ds = true := by
  induction ds with
  | nil => exact absurd rfl hne
  | cons d ds ih =>
    obtain ⟨hd, hds⟩ := List.forall_mem_cons.mp h
    cases ds with
    | nil => exact hd
    | cons e es =>
      rw [wellSpaced, hd, ih (List.cons_ne_nil e es) hds]
      · rfl
      · exact List.cons_ne_nil e es
      · rintro _ ⟨⟩
        cases hds '_' List.mem_cons_self

theorem readDigits_write (n : Nat) (hc : startsGap c = true) :
    readDigits Numeral.isDigit (Numeral.write n ++ c :: rest) =
      some (Numeral.write n, c :: rest) := by
  have hspan : (Numeral.write n ++ c :: rest).span (fun c => Numeral.isDigit c || c = '_') =
      (Numeral.write n, c :: rest) := by
    refine Numeral.span_append (fun d hd => ?_) ?_
    · rw [Numeral.isDigit_of_mem_write hd, Bool.true_or]
    · rintro _ ⟨⟩
      simp [isDigit_of_startsGap hc, ne_of_class (d := '_') hc rfl]
  have hfilter : (Numeral.write n).filter (· ≠ '_') = Numeral.write n :=
    List.filter_eq_self.mpr fun d hd => by
      simpa using Numeral.ne_of_isDigit (Numeral.isDigit_of_mem_write hd) rfl
  rw [readDigits, hspan]
  dsimp only
  rw [if_pos (wellSpaced_of_forall (Numeral.write_ne_nil n) fun d hd =>
    Numeral.isDigit_of_mem_write hd), hfilter]

theorem readWhole_write (n : Nat) (hc : startsGap c = true) :
    readWhole (Numeral.write n ++ c :: rest) = some (Numeral.write n, c :: rest) := by
  have hleading : ¬ (decide ((Numeral.write n).head? = some '0') &&
      decide ((Numeral.write n).length ≠ 1)) = true := by
    rw [Bool.and_eq_true, decide_eq_true_eq, decide_eq_true_eq]
    rintro ⟨hzero, hlength⟩
    by_cases hn : n = 0
    · exact hlength (by rw [hn, Numeral.write_of_lt (by omega), List.length_singleton])
    · exact Numeral.head?_write_ne_zero (Nat.pos_of_ne_zero hn) hzero
  rw [readWhole, readDigits_write n hc]
  simp only [bind, Option.bind, hleading]
  rfl

/-- Digits with a gap behind them hold no mark. -/
theorem readMark_of_readField {count low high : Nat} {mark : Char} {k : Nat} {left : List Char}
    (hds : ∀ d ∈ ds, Numeral.isDigit d = true) (hc : startsGap c = true)
    (hmark : Numeral.isDigit mark = false) (hgap : startsGap mark = false)
    (h : readField count low high (ds ++ c :: rest) = some (k, left)) :
    readMark mark left = none := by
  rw [readField] at h
  split at h
  · next hfield =>
    obtain ⟨-, rfl⟩ := Prod.mk.inj (Option.some.inj h)
    simp only [Bool.and_eq_true, decide_eq_true_eq, List.all_eq_true] at hfield
    obtain ⟨⟨⟨-, hall⟩, -⟩, -⟩ := hfield
    -- A longer field would take in the gap, which is no digit.
    have hcount : count ≤ ds.length := by
      by_contra hlong
      have hmem : c ∈ (ds ++ c :: rest).take count := by
        obtain ⟨more, hmore⟩ := Nat.exists_eq_add_of_lt (Nat.not_le.mp hlong)
        rw [hmore, Nat.add_assoc, List.take_length_add_append, List.take_succ_cons]
        exact List.mem_append_right ds List.mem_cons_self
      cases (isDigit_of_startsGap hc).symm.trans (hall c hmem)
    rw [List.drop_append_of_le_length hcount]
    cases hleft : ds.drop count with
    | nil => exact if_neg (ne_of_class hc hgap)
    | cons d left =>
      have hd : d ∈ ds := List.mem_of_mem_drop (hleft ▸ List.mem_cons_self)
      exact if_neg (Numeral.ne_of_isDigit (hds d hd) hmark)
  · cases h

theorem readMoment_write (n : Nat) (hc : startsGap c = true) :
    readMoment (Numeral.write n ++ c :: rest) = none := by
  have hdigits : ∀ d ∈ Numeral.write n, Numeral.isDigit d = true :=
    fun d hd => Numeral.isDigit_of_mem_write hd
  have hdate : readDate (Numeral.write n ++ c :: rest) = none := by
    rw [readDate]
    cases hfield : readField 4 0 9999 (Numeral.write n ++ c :: rest) with
    | none => rfl
    | some found =>
      have hmark : readMark '-' found.2 = none := readMark_of_readField hdigits hc rfl rfl hfield
      simp only [bind, Option.bind, hmark]
  have htime : readTime (Numeral.write n ++ c :: rest) = none := by
    rw [readTime]
    cases hfield : readField 2 0 23 (Numeral.write n ++ c :: rest) with
    | none => rfl
    | some found =>
      have hmark : readMark ':' found.2 = none := readMark_of_readField hdigits hc rfl rfl hfield
      simp only [bind, Option.bind, hmark]
  rw [readMoment, hdate, htime]
  rfl

theorem readSign_write (n : Nat) (rest : List Char) :
    readSign (Numeral.write n ++ rest) = (false, Numeral.write n ++ rest) := by
  obtain ⟨d, ds, hwrite⟩ := List.exists_cons_of_ne_nil (Numeral.write_ne_nil n)
  have hd : Numeral.isDigit d = true := Numeral.isDigit_of_mem_write (hwrite ▸ List.mem_cons_self)
  rw [hwrite, List.cons_append, readSign]
  · exact fun _ h => Numeral.ne_of_isDigit hd rfl (List.cons.inj h).1
  · exact fun _ h => Numeral.ne_of_isDigit hd rfl (List.cons.inj h).1

theorem readFloat_write (n : Nat) (hc : startsGap c = true) :
    readFloat (Numeral.write n ++ c :: rest) = none := by
  obtain ⟨d, ds, hwrite⟩ := List.exists_cons_of_ne_nil (Numeral.write_ne_nil n)
  have hd : Numeral.isDigit d = true := Numeral.isDigit_of_mem_write (hwrite ▸ List.mem_cons_self)
  have hname : ∀ e name, Numeral.isDigit e = false →
      readName (e :: name) (Numeral.write n ++ c :: rest) = none := by
    intro e name he
    have hne : (e == d) = false := by simpa using (Numeral.ne_of_isDigit hd he).symm
    rw [readName, hwrite, List.cons_append, List.isPrefixOf, hne]
    rfl
  have hpoint : (c = '.' || c = 'e' || c = 'E') = false := by
    simp [ne_of_class (d := '.') hc rfl, ne_of_class (d := 'e') hc rfl,
      ne_of_class (d := 'E') hc rfl]
  rw [readFloat, readSign_write]
  simp only [hname 'i' _ rfl, hname 'n' _ rfl, readWhole_write n hc, Option.or_none, bind,
    Option.bind, List.head?_cons, Option.any_some, hpoint]
  rfl

/-- A numeral in base ten starts with no mark of another base. -/
theorem ne_radix (n : Nat) (hc : startsGap c = true) {mark : Char}
    (hmark : Numeral.isDigit mark = false) (hgap : startsGap mark = false) (tail : List Char) :
    Numeral.write n ++ c :: rest ≠ '0' :: mark :: tail := by
  obtain ⟨d, ds, hwrite⟩ := List.exists_cons_of_ne_nil (Numeral.write_ne_nil n)
  rw [hwrite]
  intro h
  have htail := (List.cons.inj h).2
  cases ds with
  | nil => exact ne_of_class hc hgap (List.cons.inj htail).1
  | cons e es =>
    have he : Numeral.isDigit e = true :=
      Numeral.isDigit_of_mem_write (hwrite ▸ List.mem_cons_of_mem d List.mem_cons_self)
    exact Numeral.ne_of_isDigit he hmark (List.cons.inj htail).1

theorem readInteger_write (h : (n : Int) < integerBound) (hc : startsGap c = true) :
    readInteger (Numeral.write n ++ c :: rest) = some (.integer n, c :: rest) := by
  have hbounds : (decide (-integerBound ≤ (n : Int)) && decide ((n : Int) < integerBound)) =
      true := by
    rw [Bool.and_eq_true, decide_eq_true_eq, decide_eq_true_eq]
    rw [integerBound] at h ⊢
    omega
  rw [readInteger]
  · simp only [readSign_write, readWhole_write n hc, bind, Option.bind, Bool.false_eq_true,
      if_false, Numeral.value_write, hbounds, if_true]
    rfl
  · exact ne_radix n hc rfl rfl
  · exact ne_radix n hc rfl rfl
  · exact ne_radix n hc rfl rfl

theorem readNumber_write (h : (n : Int) < integerBound) (hc : startsGap c = true) :
    readNumber (Numeral.write n ++ c :: rest) = some (.integer n, c :: rest) := by
  rw [readNumber, readMoment_write n hc, readFloat_write n hc, readInteger_write h hc]
  rfl

/-! ### Values -/

/-- Some notations of a value: texts in every style that can hold them, truth values, and natural
numbers in base ten. -/
inductive Written : List Char → Node → Prop where
  | text (cs : List Char) (style : Style) (h : style.Fits cs) :
    Written (styled cs style) (.text (String.ofList cs))
  | boolean (flag : Bool) : Written (if flag then "true" else "false").toList (.boolean flag)
  | integer (n : Nat) (h : (n : Int) < integerBound) : Written (Numeral.write n) (.integer n)

variable {value : List Char} {node : Node}

theorem Written.starts (h : Written value node) : ∃ d ds, value = d :: ds ∧ isBlank d = false := by
  cases h with
  | text cs style _ => cases style <;> exact ⟨_, _, rfl, rfl⟩
  | boolean flag => cases flag <;> exact ⟨_, _, rfl, rfl⟩
  | integer n _ =>
    obtain ⟨d, ds, hwrite⟩ := List.exists_cons_of_ne_nil (Numeral.write_ne_nil n)
    have hd : Numeral.isDigit d = true := Numeral.isDigit_of_mem_write (hwrite ▸ List.mem_cons_self)
    have hspace := Numeral.ne_of_isDigit (d := ' ') hd rfl
    have htab := Numeral.ne_of_isDigit (d := '\t') hd rfl
    exact ⟨d, ds, hwrite, by simp [isBlank, hspace, htab]⟩

theorem valueWithin_styled (room : Nat) {style : Style} (h : style.Fits cs)
    (hc : startsGap c = true) :
    valueWithin room (styled cs style ++ c :: rest) =
      some (.text (String.ofList cs), c :: rest) := by
  have hrest : ∀ d ∈ (c :: rest).head?, d ≠ '"' ∧ d ≠ '\'' := by
    rintro _ ⟨⟩
    exact ⟨ne_of_class hc rfl, ne_of_class hc rfl⟩
  have hread := readString_styled h hrest
  have hquote : ∃ d ds, styled cs style ++ c :: rest = d :: ds ∧ (d = '"' || d = '\'') = true := by
    cases style <;> exact ⟨_, _, rfl, rfl⟩
  obtain ⟨d, ds, hstyled, hd⟩ := hquote
  rw [hstyled] at hread ⊢
  rw [valueWithin.eq_def]
  dsimp only
  rw [if_pos hd, hread]
  rfl

theorem valueWithin_write (room : Nat) (h : (n : Int) < integerBound) (hc : startsGap c = true) :
    valueWithin room (Numeral.write n ++ c :: rest) = some (.integer n, c :: rest) := by
  have hread : readNumber (Numeral.write n ++ c :: rest) = some (.integer n, c :: rest) :=
    readNumber_write h hc
  obtain ⟨d, ds, hwrite⟩ := List.exists_cons_of_ne_nil (Numeral.write_ne_nil n)
  have hd : Numeral.isDigit d = true := Numeral.isDigit_of_mem_write (hwrite ▸ List.mem_cons_self)
  have hne : ∀ e, Numeral.isDigit e = false → d ≠ e := fun e he => Numeral.ne_of_isDigit hd he
  rw [hwrite, List.cons_append] at hread ⊢
  rw [valueWithin.eq_def]
  dsimp only
  rw [if_neg (by simp [hne '"' rfl, hne '\'' rfl]), if_neg (hne '[' rfl), if_neg (hne '\x7b' rfl),
    if_neg (hne 't' rfl), if_neg (hne 'f' rfl), hread]

theorem valueWithin_written (h : Written value node) (hc : startsGap c = true) (room : Nat) :
    valueWithin room (value ++ c :: rest) = some (node, c :: rest) := by
  cases h with
  | text cs style h => exact valueWithin_styled room h hc
  | boolean flag =>
    rw [valueWithin.eq_def]
    cases flag <;> rfl
  | integer n h => exact valueWithin_write room h hc

end QueryShell.Toml
