import Mathlib.Data.List.TakeWhile
import Mathlib.Tactic.SplitIfs
import QueryShell.Proofs.Decimal.Numeral
import QueryShell.Toml.Scan
import QueryShell.Toml.Write

/-! Texts in a document of settings. A text is read back from each style that can hold it, and the
style that is chosen for a text can hold it. -/

namespace QueryShell.Toml

theorem ne_of_class {p : Char → Bool} {c d : Char} (hc : p c = true) (hd : p d = false) :
    c ≠ d := by
  rintro rfl
  rw [hc] at hd
  cases hd

/-! ### Escapes -/

/-- A written form that starts with a backslash, which does not end a line, and stands for one
character. -/
def Escapes (written : List Char) (c : Char) : Prop :=
  ∃ mark code, written = '\\' :: mark :: code ∧ isBlank mark = false ∧ mark ≠ '\n' ∧ mark ≠ '\r' ∧
    ∀ rest, readEscape (mark :: (code ++ rest)) = some (c, rest)

theorem hexValue?_upperHexDigit {d : Nat} (h : d < 16) :
    Json.hexValue? (upperHexDigit d) = some d := by
  revert d
  decide

theorem readHex_control {c : Char} (h : isControl c = true) (rest : List Char) :
    readHex 4 ('0' :: '0' :: upperHexDigit (c.toNat / 16) :: upperHexDigit (c.toNat % 16) :: rest) =
      some (c, rest) := by
  have hsmall : c.toNat ≤ 0x7f := by
    simp only [isControl, Bool.or_eq_true, decide_eq_true_eq] at h
    omega
  have hzero : Json.hexValue? '0' = some 0 := rfl
  have hhigh := hexValue?_upperHexDigit (show c.toNat / 16 < 16 by omega)
  have hlow := hexValue?_upperHexDigit (Nat.mod_lt c.toNat (show 0 < 16 by omega))
  have hvalue : 16 * (16 * (16 * (16 * 0 + 0) + 0) + c.toNat / 16) + c.toNat % 16 = c.toNat := by
    omega
  have hcharacter : character? c.toNat = some c := dif_pos c.valid
  have hlength :
      ¬ ('0' :: '0' :: upperHexDigit (c.toNat / 16) :: upperHexDigit (c.toNat % 16) ::
        rest).length < 4 := by
    simp only [List.length_cons]
    omega
  rw [readHex, if_neg hlength]
  simp only [List.take_succ_cons, List.take_zero, List.drop_succ_cons, List.drop_zero, hexNumber?,
    hzero, hhigh, hlow, bind, Option.bind, hvalue, hcharacter]
  rfl

/-- A character apart from the quote is written as it is, as the end of a line, or as an escape. -/
theorem escaped_cases (severalLines : Bool) (c : Char) :
    (escaped severalLines c = [c] ∧ isPlain c = true ∧ c ≠ '\\') ∨
      (escaped severalLines c = [c] ∧ severalLines = true ∧ c = '\n') ∨
      Escapes (escaped severalLines c) c := by
  rw [escaped]
  split_ifs with hbackspace htab hnewline hlines hfeed hreturn hbackslash hcontrol
  · exact .inr (.inr ⟨'b', [], rfl, rfl, by decide, by decide, fun rest => by rw [hbackspace]; rfl⟩)
  · exact .inr (.inr ⟨'t', [], rfl, rfl, by decide, by decide, fun rest => by rw [htab]; rfl⟩)
  · exact .inr (.inl ⟨by rw [hnewline], hlines, hnewline⟩)
  · exact .inr (.inr ⟨'n', [], rfl, rfl, by decide, by decide, fun rest => by rw [hnewline]; rfl⟩)
  · exact .inr (.inr ⟨'f', [], rfl, rfl, by decide, by decide, fun rest => by rw [hfeed]; rfl⟩)
  · exact .inr (.inr ⟨'r', [], rfl, rfl, by decide, by decide, fun rest => by rw [hreturn]; rfl⟩)
  · exact .inr
      (.inr ⟨'\\', [], rfl, rfl, by decide, by decide, fun rest => by rw [hbackslash]; rfl⟩)
  · exact .inr (.inr ⟨'u', _, rfl, rfl, by decide, by decide, readHex_control hcontrol⟩)
  · refine .inl ⟨rfl, ?_, hbackslash⟩
    simp only [isControl, Bool.or_eq_true, decide_eq_true_eq] at hcontrol
    simp only [isPlain, Bool.or_eq_true, Bool.and_eq_true, decide_eq_true_eq]
    omega

theorem escaped_eq_self_or (severalLines : Bool) (c : Char) :
    escaped severalLines c = [c] ∨ ∃ mark code, escaped severalLines c = '\\' :: mark :: code := by
  rcases escaped_cases severalLines c with ⟨hself, -⟩ | ⟨hself, -⟩ | ⟨mark, code, hescape, -⟩
  · exact .inl hself
  · exact .inl hself
  · exact .inr ⟨mark, code, hescape⟩

theorem escapes_quote : Escapes ['\\', '"'] '"' :=
  ⟨'"', [], rfl, rfl, by decide, by decide, fun _ => rfl⟩

variable {severalLines : Bool} {room quotes : Nat} {c : Char} {cs : List Char}

theorem body_quote (h : quotes < room) :
    body severalLines room quotes ('"' :: cs) = '"' :: body severalLines room (quotes + 1) cs := by
  rw [body, if_pos rfl, if_pos h]

theorem body_quote_of_le (h : room ≤ quotes) :
    body severalLines room quotes ('"' :: cs) = ['\\', '"'] ++ body severalLines room 0 cs := by
  rw [body, if_pos rfl, if_neg (by omega)]
  rfl

theorem body_of_ne (h : c ≠ '"') :
    body severalLines room quotes (c :: cs) = escaped severalLines c ++
      body severalLines room 0 cs := by
  rw [body, if_neg h]

theorem length_le_body (severalLines : Bool) (room quotes : Nat) (cs : List Char) :
    cs.length ≤ (body severalLines room quotes cs).length := by
  induction cs generalizing quotes with
  | nil => exact Nat.le_refl 0
  | cons c cs ih =>
    have hescaped : 1 ≤ (escaped severalLines c).length := by
      rcases escaped_eq_self_or severalLines c with h | ⟨mark, code, h⟩ <;> rw [h] <;> simp
    have hraw := ih (quotes + 1)
    have hfresh := ih 0
    rw [body]
    split_ifs <;> simp only [List.length_cons, List.length_append] <;> omega

/-! ### One line -/

variable {steps : Nat} {rest text left written : List Char}

theorem readBasicWithin_of_escapes (hwritten : Escapes written c)
    (h : readBasicWithin steps rest = some (text, left)) :
    readBasicWithin (steps + 1) (written ++ rest) = some (c :: text, left) := by
  obtain ⟨mark, code, rfl, -, -, -, hread⟩ := hwritten
  rw [List.cons_append, List.cons_append, readBasicWithin, hread]
  simp only [bind, Option.bind, h]
  rfl

theorem readBasicWithin_plain (hplain : isPlain c = true) (hquote : c ≠ '"') (hbackslash : c ≠ '\\')
    (h : readBasicWithin steps rest = some (text, left)) :
    readBasicWithin (steps + 1) (c :: rest) = some (c :: text, left) := by
  rw [readBasicWithin]
  · simp only [hplain, if_true, bind, Option.bind, h]
    rfl
  · exact hquote
  · exact hbackslash

theorem readBasicWithin_body (h : cs.length < steps) (rest : List Char) :
    readBasicWithin steps (body false 0 0 cs ++ '"' :: rest) = some (cs, rest) := by
  induction cs generalizing steps with
  | nil =>
    obtain ⟨steps, rfl⟩ := Nat.exists_eq_succ_of_ne_zero (Nat.ne_of_gt h)
    rfl
  | cons c cs ih =>
    obtain ⟨steps, rfl⟩ := Nat.exists_eq_succ_of_ne_zero (Nat.ne_of_gt (Nat.zero_lt_of_lt h))
    have hread := ih (Nat.lt_of_succ_lt_succ h)
    by_cases hquote : c = '"'
    · rw [hquote, body_quote_of_le (Nat.le_refl 0), List.append_assoc]
      exact readBasicWithin_of_escapes escapes_quote hread
    · rw [body_of_ne hquote, List.append_assoc]
      rcases escaped_cases false c with ⟨hself, hplain, hbackslash⟩ | ⟨-, hlines, -⟩ | hescapes
      · rw [hself]
        exact readBasicWithin_plain hplain hquote hbackslash hread
      · cases hlines
      · exact readBasicWithin_of_escapes hescapes hread

theorem readBasic_body (cs rest : List Char) :
    readBasic (body false 0 0 cs ++ '"' :: rest) = some (String.ofList cs, rest) := by
  have hlength := length_le_body false 0 0 cs
  rw [readBasic, readBasicWithin_body (by rw [List.length_append]; omega)]
  rfl

theorem readLiteral_append (h : ∀ c ∈ cs, isPlain c = true ∧ c ≠ '\'') (rest : List Char) :
    readLiteral (cs ++ '\'' :: rest) = some (String.ofList cs, rest) := by
  have hspan : (cs ++ '\'' :: rest).span (fun c => isPlain c && c ≠ '\'') = (cs, '\'' :: rest) :=
    Numeral.span_append (fun c hc => by simpa using h c hc) (by rintro _ ⟨⟩; rfl)
  rw [readLiteral, hspan]
  rfl

/-! ### Several lines -/

variable {quote d : Char} {count : Nat}

/-- Up to two quotes in front of the end belong to the text. -/
theorem closing?_replicate (hcount : count ≤ 2) (hrest : ∀ c ∈ rest.head?, c ≠ quote) :
    closing? quote (List.replicate count quote ++ (List.replicate 3 quote ++ rest)) =
      some (List.replicate count quote, rest) := by
  have hextra : rest.takeWhile (· = quote) = [] := by
    cases rest with
    | nil => rfl
    | cons c rest => exact List.takeWhile_cons_of_neg (by simpa using hrest c rfl)
  have hsplit : List.replicate count quote ++ (List.replicate 3 quote ++ rest) =
      quote :: quote :: quote :: (List.replicate count quote ++ rest) := by
    rw [← List.append_assoc, ← List.replicate_add, Nat.add_comm, List.replicate_add,
      List.append_assoc]
    rfl
  have hall : ∀ c ∈ List.replicate count quote, decide (c = quote) = true := by
    simp +contextual [List.mem_replicate]
  have htake : (List.replicate count quote).take 2 = List.replicate count quote :=
    List.take_of_length_le (by simpa using hcount)
  rw [hsplit, closing?]
  simp only [decide_true, Bool.and_self, if_true, List.takeWhile_append_of_pos hall, hextra,
    List.append_nil, htake, List.drop_left]

theorem closing?_of_ne (hcount : count ≤ 2) (hd : d ≠ quote) (rest : List Char) :
    closing? quote (List.replicate count quote ++ d :: rest) = none := by
  have hfew : count = 0 ∨ count = 1 ∨ count = 2 := by omega
  rcases hfew with rfl | rfl | rfl <;> rcases rest with _ | ⟨e, _ | ⟨f, rest⟩⟩
    <;> simp [closing?, List.replicate, hd]

/-- Written text comes to its end here, with nothing but quotes left, or it does not end here. -/
theorem closing?_cases (hwritten : (written.takeWhile (· = quote)).length ≤ 2)
    (hrest : ∀ c ∈ rest.head?, c ≠ quote) :
    (∃ count, written = List.replicate count quote ∧
        closing? quote (written ++ (List.replicate 3 quote ++ rest)) = some (written, rest)) ∨
      written ≠ [] ∧ closing? quote (written ++ (List.replicate 3 quote ++ rest)) = none := by
  have htake : written.takeWhile (· = quote) =
      List.replicate (written.takeWhile (· = quote)).length quote :=
    List.eq_replicate_iff.mpr ⟨rfl, fun c hc => by simpa using List.mem_takeWhile_imp hc⟩
  have hsplit : written.takeWhile (· = quote) ++ written.dropWhile (· = quote) = written :=
    List.takeWhile_append_dropWhile
  generalize (written.takeWhile (· = quote)).length = count at hwritten htake
  rw [htake] at hsplit
  cases hdrop : written.dropWhile (· = quote) with
  | nil =>
    rw [hdrop, List.append_nil] at hsplit
    refine .inl ⟨count, hsplit.symm, ?_⟩
    rw [← hsplit]
    exact closing?_replicate hwritten hrest
  | cons d tail =>
    have hne : written.dropWhile (· = quote) ≠ [] := by rw [hdrop]; exact List.cons_ne_nil d tail
    have hd : d ≠ quote := by simpa [hdrop] using List.head_dropWhile_not (· = quote) hne
    rw [hdrop] at hsplit
    refine .inr ⟨?_, ?_⟩
    · rintro rfl
      exact hne rfl
    · rw [← hsplit, List.append_assoc]
      exact closing?_of_ne hwritten hd _

theorem newline?_of_ne (hnewline : c ≠ '\n') (hreturn : c ≠ '\r') (rest : List Char) :
    newline? (c :: rest) = none := by
  rw [newline?]
  · exact fun _ h => hnewline (List.cons.inj h).1
  · exact fun _ h => hreturn (List.cons.inj h).1

theorem readLinesWithin_of_closing? {found : List Char × List Char}
    (h : closing? quote (c :: cs) = some found) :
    readLinesWithin quote (steps + 1) (c :: cs) = some found := by
  rw [readLinesWithin, h]
  rfl

theorem readLinesWithin_newline (hclosing : closing? quote ('\n' :: rest) = none)
    (h : readLinesWithin quote steps rest = some (text, left)) :
    readLinesWithin quote (steps + 1) ('\n' :: rest) = some ('\n' :: text, left) := by
  rw [readLinesWithin, hclosing]
  simp only [newline?, bind, Option.bind, h]
  rfl

theorem readLinesWithin_plain (hclosing : closing? quote (c :: rest) = none)
    (hplain : isPlain c = true) (hbackslash : c = '\\' → quote ≠ '"')
    (h : readLinesWithin quote steps rest = some (text, left)) :
    readLinesWithin quote (steps + 1) (c :: rest) = some (c :: text, left) := by
  have hnewline := newline?_of_ne (ne_of_class hplain rfl) (ne_of_class hplain rfl) rest
  have hescape : ¬ (decide (c = '\\') && decide (quote = '"')) = true := by simpa using hbackslash
  rw [readLinesWithin, hclosing, hnewline]
  simp only [hescape, hplain, bind, Option.bind, h]
  rfl

theorem readLinesWithin_of_escapes (hclosing : closing? '"' (written ++ rest) = none)
    (hwritten : Escapes written c) (h : readLinesWithin '"' steps rest = some (text, left)) :
    readLinesWithin '"' (steps + 1) (written ++ rest) = some (c :: text, left) := by
  obtain ⟨mark, code, rfl, hblank, hnewline, hreturn, hread⟩ := hwritten
  have hfolded : foldedLine? (mark :: (code ++ rest)) = none := by
    have hstart : skipBlanks (mark :: (code ++ rest)) = mark :: (code ++ rest) :=
      List.dropWhile_cons_of_neg (by simp [hblank])
    rw [foldedLine?, hstart, newline?_of_ne hnewline hreturn, Option.map_none]
  rw [List.cons_append, List.cons_append] at hclosing ⊢
  rw [readLinesWithin, hclosing]
  simp only [newline?, hfolded, hread, bind, Option.bind, h]
  rfl

theorem takeWhile_body (hquotes : quotes ≤ 2) (cs : List Char) :
    quotes + ((body true 2 quotes cs).takeWhile (· = '"')).length ≤ 2 := by
  induction cs generalizing quotes with
  | nil => exact hquotes
  | cons c cs ih =>
    by_cases hquote : c = '"'
    · subst hquote
      by_cases hraw : quotes < 2
      · have hmore := ih (show quotes + 1 ≤ 2 by omega)
        rw [body_quote hraw, List.takeWhile_cons_of_pos rfl, List.length_cons]
        omega
      · rw [body_quote_of_le (by omega)]
        exact hquotes
    · rw [body_of_ne hquote]
      rcases escaped_eq_self_or true c with hself | ⟨mark, code, hescape⟩
      · rw [hself, List.singleton_append, List.takeWhile_cons_of_neg (by simpa using hquote)]
        exact hquotes
      · rw [hescape]
        exact hquotes

theorem eq_of_body_eq_replicate (h : body true 2 quotes cs = List.replicate count '"') :
    cs = List.replicate count '"' := by
  induction cs generalizing quotes count with
  | nil => exact h
  | cons c cs ih =>
    have hall : ∀ d ∈ body true 2 quotes (c :: cs), d = '"' := by
      rw [h]
      exact fun d hd => List.eq_of_mem_replicate hd
    by_cases hquote : c = '"'
    · subst hquote
      by_cases hraw : quotes < 2
      · rw [body_quote hraw] at h
        cases count with
        | zero => cases h
        | succ count => rw [List.replicate_succ, ih (List.cons.inj h).2]
      · rw [body_quote_of_le (by omega)] at hall
        cases hall '\\' List.mem_cons_self
    · rw [body_of_ne hquote] at hall
      rcases escaped_eq_self_or true c with hself | ⟨mark, code, hescape⟩
      · rw [hself] at hall
        exact absurd (hall c List.mem_cons_self) hquote
      · rw [hescape] at hall
        cases hall '\\' List.mem_cons_self

theorem readLinesWithin_body (h : cs.length < steps) (hquotes : quotes ≤ 2)
    (hrest : ∀ c ∈ rest.head?, c ≠ '"') :
    readLinesWithin '"' steps (body true 2 quotes cs ++ (List.replicate 3 '"' ++ rest)) =
      some (cs, rest) := by
  induction cs generalizing steps quotes with
  | nil =>
    obtain ⟨steps, rfl⟩ := Nat.exists_eq_succ_of_ne_zero (Nat.ne_of_gt h)
    exact readLinesWithin_of_closing? (closing?_replicate (Nat.zero_le 2) hrest)
  | cons c cs ih =>
    obtain ⟨steps, rfl⟩ := Nat.exists_eq_succ_of_ne_zero (Nat.ne_of_gt (Nat.zero_lt_of_lt h))
    have hrun : ((body true 2 quotes (c :: cs)).takeWhile (· = '"')).length ≤ 2 := by
      have htake := takeWhile_body hquotes (c :: cs)
      omega
    rcases closing?_cases hrun hrest with ⟨count, hwritten, hclosing⟩ | ⟨-, hclosing⟩
    · -- The last quotes of the text stand right in front of the closing ones, none of them escaped.
      have hself : body true 2 quotes (c :: cs) = c :: cs :=
        hwritten.trans (eq_of_body_eq_replicate hwritten).symm
      rw [hself] at hclosing ⊢
      exact readLinesWithin_of_closing? hclosing
    · have hread : ∀ quotes ≤ 2, readLinesWithin '"' steps
          (body true 2 quotes cs ++ (List.replicate 3 '"' ++ rest)) = some (cs, rest) :=
        fun _ hquotes => ih (Nat.lt_of_succ_lt_succ h) hquotes
      by_cases hquote : c = '"'
      · subst hquote
        by_cases hraw : quotes < 2
        · rw [body_quote hraw] at hclosing ⊢
          exact readLinesWithin_plain hclosing rfl (by decide) (hread (quotes + 1) (by omega))
        · rw [body_quote_of_le (by omega), List.append_assoc] at hclosing ⊢
          exact readLinesWithin_of_escapes hclosing escapes_quote (hread 0 (by omega))
      · rw [body_of_ne hquote, List.append_assoc] at hclosing ⊢
        rcases escaped_cases true c with ⟨hself, hplain, hbackslash⟩ | ⟨hself, -, rfl⟩ | hescapes
        · rw [hself] at hclosing ⊢
          exact readLinesWithin_plain hclosing hplain (fun h => absurd h hbackslash)
            (hread 0 (by omega))
        · rw [hself] at hclosing ⊢
          exact readLinesWithin_newline hclosing (hread 0 (by omega))
        · exact readLinesWithin_of_escapes hclosing hescapes (hread 0 (by omega))

theorem isPlain_of_needsEscape (h : needsEscape c = false) : c = '\n' ∨ isPlain c = true := by
  simp only [needsEscape, isControl, Bool.and_eq_false_iff, Bool.or_eq_false_iff,
    decide_eq_false_iff_not, not_not] at h
  simp only [isPlain, Bool.or_eq_true, Bool.and_eq_true, decide_eq_true_eq]
  rcases h with (⟨hlow, hdelete⟩ | htab) | hnewline
  · exact .inr (.inr ⟨by omega, hdelete⟩)
  · exact .inr (.inl htab)
  · exact .inl hnewline

theorem takeWhile_le_longestRun (c : Char) (cs : List Char) :
    (cs.takeWhile (· = c)).length ≤ longestRun c cs := by
  cases cs with
  | nil => exact Nat.le_refl 0
  | cons d ds => exact Nat.le_max_left _ _

theorem readLinesWithin_literal (h : cs.length < steps) (hplain : ∀ c ∈ cs, needsEscape c = false)
    (hrun : longestRun '\'' cs ≤ 2) (hrest : ∀ c ∈ rest.head?, c ≠ '\'') :
    readLinesWithin '\'' steps (cs ++ (List.replicate 3 '\'' ++ rest)) = some (cs, rest) := by
  induction cs generalizing steps with
  | nil =>
    obtain ⟨steps, rfl⟩ := Nat.exists_eq_succ_of_ne_zero (Nat.ne_of_gt h)
    exact readLinesWithin_of_closing? (closing?_replicate (Nat.zero_le 2) hrest)
  | cons c cs ih =>
    obtain ⟨steps, rfl⟩ := Nat.exists_eq_succ_of_ne_zero (Nat.ne_of_gt (Nat.zero_lt_of_lt h))
    have hfirst := (takeWhile_le_longestRun '\'' (c :: cs)).trans hrun
    rcases closing?_cases hfirst hrest with ⟨-, -, hclosing⟩ | ⟨-, hclosing⟩
    · exact readLinesWithin_of_closing? hclosing
    · have hread := ih (Nat.lt_of_succ_lt_succ h) (fun d hd => hplain d (List.mem_cons_of_mem c hd))
        ((Nat.le_max_right _ _).trans hrun)
      rcases isPlain_of_needsEscape (hplain c List.mem_cons_self) with rfl | hself
      · exact readLinesWithin_newline hclosing hread
      · exact readLinesWithin_plain hclosing hself (fun _ => by decide) hread

/-- The end of line that opens a text of several lines is left out, and nothing else is. -/
theorem newline?_opening {tail : List Char} (h : '\n' ∉ cs → newline? tail = none) :
    (newline? (styled.opening cs ++ tail)).getD (styled.opening cs ++ tail) = tail := by
  by_cases hlines : '\n' ∈ cs
  · have hopening : styled.opening cs = ['\n'] := if_pos (List.contains_iff_mem.mpr hlines)
    rw [hopening]
    rfl
  · have hopening : styled.opening cs = [] := if_neg (mt List.contains_iff_mem.mp hlines)
    rw [hopening, List.nil_append, h hlines, Option.getD_none]

theorem newline?_body (hlines : '\n' ∉ cs) (tail : List Char) :
    newline? (body true 2 0 cs ++ (List.replicate 3 '"' ++ tail)) = none := by
  cases cs with
  | nil => rfl
  | cons c cs =>
    by_cases hquote : c = '"'
    · rw [hquote, body_quote (by decide)]
      rfl
    · rw [body_of_ne hquote, List.append_assoc]
      rcases escaped_cases true c with ⟨hself, hplain, -⟩ | ⟨-, -, rfl⟩ | ⟨mark, code, hescape, -⟩
      · rw [hself]
        exact newline?_of_ne (ne_of_class hplain rfl) (ne_of_class hplain rfl) _
      · exact absurd List.mem_cons_self hlines
      · rw [hescape]
        rfl

theorem newline?_literal (hlines : '\n' ∉ cs) (hplain : ∀ c ∈ cs, needsEscape c = false)
    (tail : List Char) :
    newline? (cs ++ (List.replicate 3 '\'' ++ tail)) = none := by
  cases cs with
  | nil => rfl
  | cons c cs =>
    rcases isPlain_of_needsEscape (hplain c List.mem_cons_self) with rfl | hself
    · exact absurd List.mem_cons_self hlines
    · exact newline?_of_ne (ne_of_class hself rfl) (ne_of_class hself rfl) _

theorem readLines_body (cs : List Char) (hrest : ∀ c ∈ rest.head?, c ≠ '"') :
    readLines '"' (styled.opening cs ++ (body true 2 0 cs ++ (List.replicate 3 '"' ++ rest))) =
      some (String.ofList cs, rest) := by
  have hlength := length_le_body true 2 0 cs
  rw [readLines, newline?_opening fun hlines => newline?_body hlines rest]
  dsimp only
  rw [readLinesWithin_body (by rw [List.length_append]; omega) (Nat.zero_le 2) hrest]
  rfl

theorem readLines_literal (hplain : ∀ c ∈ cs, needsEscape c = false) (hrun : longestRun '\'' cs ≤ 2)
    (hrest : ∀ c ∈ rest.head?, c ≠ '\'') :
    readLines '\'' (styled.opening cs ++ (cs ++ (List.replicate 3 '\'' ++ rest))) =
      some (String.ofList cs, rest) := by
  rw [readLines, newline?_opening fun hlines => newline?_literal hlines hplain rest]
  dsimp only
  rw [readLinesWithin_literal (by rw [List.length_append]; omega) hplain hrun hrest]
  rfl

/-! ### Styles -/

/-- The texts that a style can hold. -/
def Style.Fits : Style → List Char → Prop
  | .basic, _ => True
  | .literal, cs => ∀ c ∈ cs, isPlain c = true ∧ c ≠ '\''
  | .basicLines, _ => True
  | .literalLines, cs => (∀ c ∈ cs, needsEscape c = false) ∧ longestRun '\'' cs ≤ 2

theorem not_mem_of_longestRun (h : longestRun c cs = 0) : c ∉ cs := by
  induction cs with
  | nil => exact List.not_mem_nil
  | cons d ds ih =>
    obtain ⟨hfirst, hrest⟩ := Nat.max_eq_zero_iff.mp h
    rintro (_ | ⟨_, hmem⟩)
    · simp at hfirst
    · exact ih hrest hmem

theorem Style.fits_ofText (cs : List Char) : (Style.ofText cs).Fits cs := by
  have hplain : ¬ cs.any needsEscape = true → ∀ c ∈ cs, needsEscape c = false := by simp
  rw [Style.ofText]
  split_ifs with hescape hlines hbasic hliteral hquotes hruns hlines
  · trivial
  · trivial
  · trivial
  · simp only [Bool.and_eq_true, Bool.not_eq_true', decide_eq_true_eq] at hliteral
    obtain ⟨hline, hrun⟩ := hliteral
    refine fun c hc => ⟨?_, ?_⟩
    · refine (isPlain_of_needsEscape (hplain hescape c hc)).resolve_left ?_
      rintro rfl
      rw [List.contains_iff_mem.mpr hc] at hline
      cases hline
    · rintro rfl
      exact not_mem_of_longestRun hrun hc
  · trivial
  · exact ⟨hplain hescape, hruns⟩
  · trivial
  · trivial

/-- A text in one pair of quotes does not start with three of them. -/
theorem ne_quotes_body (cs : List Char) (hrest : ∀ c ∈ rest.head?, c ≠ '"') (tail : List Char) :
    body false 0 0 cs ++ '"' :: rest ≠ '"' :: '"' :: tail := by
  intro h
  cases cs with
  | nil =>
    have hhead : rest = '"' :: tail := (List.cons.inj h).2
    exact hrest '"' (by rw [hhead]; rfl) rfl
  | cons c cs =>
    by_cases hquote : c = '"'
    · rw [hquote, body_quote_of_le (Nat.le_refl 0)] at h
      cases h
    · rw [body_of_ne hquote, List.append_assoc] at h
      rcases escaped_eq_self_or false c with hself | ⟨mark, code, hescape⟩
      · rw [hself] at h
        exact hquote (List.cons.inj h).1
      · rw [hescape] at h
        cases h

theorem ne_quotes_literal (hcs : ∀ c ∈ cs, c ≠ '\'') (hrest : ∀ c ∈ rest.head?, c ≠ '\'')
    (tail : List Char) :
    cs ++ '\'' :: rest ≠ '\'' :: '\'' :: tail := by
  intro h
  cases cs with
  | nil =>
    have hhead : rest = '\'' :: tail := (List.cons.inj h).2
    exact hrest '\'' (by rw [hhead]; rfl) rfl
  | cons c cs => exact hcs c List.mem_cons_self (List.cons.inj h).1

/-- Whatever style holds a text, the text is read back from it. -/
theorem readString_styled {style : Style} (h : style.Fits cs)
    (hrest : ∀ c ∈ rest.head?, c ≠ '"' ∧ c ≠ '\'') :
    readString (styled cs style ++ rest) = some (String.ofList cs, rest) := by
  have hdouble : ∀ c ∈ rest.head?, c ≠ '"' := fun c hc => (hrest c hc).1
  have hsingle : ∀ c ∈ rest.head?, c ≠ '\'' := fun c hc => (hrest c hc).2
  cases style with
  | basic =>
    have hwritten : styled cs .basic ++ rest = '"' :: (body false 0 0 cs ++ '"' :: rest) := by
      simp [styled]
    rw [hwritten, readString]
    · exact readBasic_body cs rest
    · exact ne_quotes_body cs hdouble
  | literal =>
    have hwritten : styled cs .literal ++ rest = '\'' :: (cs ++ '\'' :: rest) := by simp [styled]
    rw [hwritten, readString]
    · exact readLiteral_append h rest
    · exact ne_quotes_literal (fun c hc => (h c hc).2) hsingle
  | basicLines =>
    have hwritten : styled cs .basicLines ++ rest =
        '"' :: '"' :: '"' ::
          (styled.opening cs ++ (body true 2 0 cs ++ (List.replicate 3 '"' ++ rest))) := by
      simp [styled, List.replicate]
    rw [hwritten, readString]
    exact readLines_body cs hdouble
  | literalLines =>
    have hwritten : styled cs .literalLines ++ rest =
        '\'' :: '\'' :: '\'' :: (styled.opening cs ++ (cs ++ (List.replicate 3 '\'' ++ rest))) := by
      simp [styled, List.replicate]
    rw [hwritten, readString]
    exact readLines_literal h.1 h.2 hsingle

end QueryShell.Toml
