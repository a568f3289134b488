import Mathlib.Data.List.DropRight
import QueryShell.Proofs.Toml.Value

/-! Documents of settings, line by line. Blanks, empty lines and comments make no difference to the
statements that are read. -/

namespace QueryShell.Toml

variable {c : Char} {cs rest : List Char}

/-! ### Ends of lines -/

/-- What may stand behind a statement on its line, with the end of the line. -/
inductive LineEnd : List Char → Prop where
  | newline : LineEnd ['\n']
  | return : LineEnd ['\r', '\n']
  | comment (text : List Char) (newline : List Char) (htext : ∀ c ∈ text, isPlain c = true)
      (hnewline : newline = ['\n'] ∨ newline = ['\r', '\n']) : LineEnd ('#' :: (text ++ newline))
  | blank (c : Char) (cs : List Char) (hc : isBlank c = true) (h : LineEnd cs) : LineEnd (c :: cs)

theorem skipBlanks_of_isBlank (hc : isBlank c = true) (cs : List Char) :
    skipBlanks (c :: cs) = skipBlanks cs :=
  List.dropWhile_cons_of_pos hc

theorem skipBlanks_of_not_isBlank (hc : isBlank c = false) (cs : List Char) :
    skipBlanks (c :: cs) = c :: cs :=
  List.dropWhile_cons_of_neg (by simp [hc])

theorem skipBlanks_append (h : ∀ c ∈ cs, isBlank c = true) (rest : List Char) :
    skipBlanks (cs ++ rest) = skipBlanks rest :=
  List.dropWhile_append_of_pos h

theorem isBlank_iff : isBlank c = true ↔ c = ' ' ∨ c = '\t' := by simp [isBlank]

theorem LineEnd.starts {e : List Char} (h : LineEnd e) :
    ∃ c cs, e = c :: cs ∧ startsGap c = true := by
  cases h with
  | newline => exact ⟨_, _, rfl, rfl⟩
  | «return» => exact ⟨_, _, rfl, rfl⟩
  | comment text newline htext hnewline => exact ⟨_, _, rfl, rfl⟩
  | blank c cs hc h => exact ⟨c, cs, rfl, by simp [startsGap, hc]⟩

theorem dropWhile_isPlain {text newline : List Char} (htext : ∀ c ∈ text, isPlain c = true)
    (hnewline : newline = ['\n'] ∨ newline = ['\r', '\n']) (rest : List Char) :
    (text ++ (newline ++ rest)).dropWhile isPlain = newline ++ rest := by
  rw [List.dropWhile_append_of_pos htext]
  rcases hnewline with rfl | rfl <;> rfl

theorem endOfLine_append {e : List Char} (h : LineEnd e) (rest : List Char) :
    endOfLine (e ++ rest) = some rest := by
  induction h with
  | newline => rfl
  | «return» => rfl
  | comment text newline htext hnewline =>
    have hleft := dropWhile_isPlain htext hnewline rest
    rw [List.cons_append, List.append_assoc, endOfLine, skipBlanks_of_not_isBlank rfl]
    simp only [hleft]
    rcases hnewline with rfl | rfl <;> rfl
  | blank c cs hc h ih =>
    rw [List.cons_append, endOfLine, skipBlanks_of_isBlank hc]
    exact ih

theorem endOfLine_skipBlanks (cs : List Char) : endOfLine (skipBlanks cs) = endOfLine cs := by
  have hagain : skipBlanks (skipBlanks cs) = skipBlanks cs := List.dropWhile_idempotent isBlank cs
  rw [endOfLine, endOfLine, hagain]

theorem skipGaps_of_isBlank (hc : isBlank c = true) (cs : List Char) :
    skipGaps false (c :: cs) = skipGaps false cs := by
  rcases isBlank_iff.mp hc with rfl | rfl <;> rfl

theorem skipGaps_comment {text newline : List Char} (htext : ∀ c ∈ text, isPlain c = true)
    (hnewline : newline = ['\n'] ∨ newline = ['\r', '\n']) (rest : List Char) :
    skipGaps true (text ++ (newline ++ rest)) = skipGaps false rest := by
  induction text with
  | nil => rcases hnewline with rfl | rfl <;> rfl
  | cons c text ih =>
    obtain ⟨hc, htext⟩ := List.forall_mem_cons.mp htext
    rw [List.cons_append, skipGaps]
    · rw [if_neg (ne_of_class hc rfl), if_pos rfl, if_pos hc, ih htext]
    · exact fun _ h => absurd h (ne_of_class hc rfl)

theorem skipGaps_append {e : List Char} (h : LineEnd e) (rest : List Char) :
    skipGaps false (e ++ rest) = skipGaps false rest := by
  induction h with
  | newline => rfl
  | «return» => rfl
  | comment text newline htext hnewline =>
    rw [List.cons_append, List.append_assoc, ← skipGaps_comment htext hnewline rest]
    rfl
  | blank c cs hc h ih => rw [List.cons_append, skipGaps_of_isBlank hc, ih]

/-! ### Keys -/

/-- A key that is written without quotes. -/
def Bare (name : List Char) : Prop := name ≠ [] ∧ ∀ c ∈ name, isBare c = true

instance (name : List Char) : Decidable (Bare name) :=
  @instDecidableAnd _ _ _ (List.decidableBAll (fun c => isBare c = true) name)

variable {name : List Char}

theorem skipGaps_of_isBare (hc : isBare c = true) (cs : List Char) :
    skipGaps false (c :: cs) = c :: cs := by
  have hblank : isBlank c = false := by
    simp [isBlank, ne_of_class hc (d := ' ') rfl, ne_of_class hc (d := '\t') rfl]
  rw [skipGaps]
  · rw [if_neg (ne_of_class hc rfl), if_neg Bool.false_ne_true, hblank, if_neg Bool.false_ne_true,
      if_neg (ne_of_class hc rfl)]
  · exact fun _ h => absurd h (ne_of_class hc rfl)

theorem readKey_bare (hname : Bare name) (hbare : ∀ c ∈ rest.head?, isBare c = false)
    (hdot : ∀ c ∈ (skipBlanks rest).head?, c ≠ '.') :
    readKey (name ++ rest) = some (⟨[], String.ofList name⟩, skipBlanks rest) := by
  obtain ⟨hne, hall⟩ := hname
  obtain ⟨c, name, rfl⟩ := List.exists_cons_of_ne_nil hne
  have hc : isBare c = true := hall c List.mem_cons_self
  have hblank : isBlank c = false := by
    simp [isBlank, ne_of_class hc (d := ' ') rfl, ne_of_class hc (d := '\t') rfl]
  have hsimple : readSimpleKey (c :: name ++ rest) = some (String.ofList (c :: name), rest) := by
    have hspan : (c :: name ++ rest).span isBare = (c :: name, rest) :=
      Numeral.span_append hall hbare
    rw [List.cons_append] at hspan ⊢
    rw [readSimpleKey]
    · rw [hspan]
    · exact fun _ h => ne_of_class hc rfl (List.cons.inj h).1
    · exact fun _ h => ne_of_class hc rfl (List.cons.inj h).1
  have hkeys : readKeysWithin ((c :: name ++ rest).length + 1) (c :: name ++ rest) =
      some ([String.ofList (c :: name)], skipBlanks rest) := by
    have hstart : skipBlanks (c :: name ++ rest) = c :: name ++ rest :=
      skipBlanks_of_not_isBlank hblank _
    rw [readKeysWithin, hstart, hsimple]
    simp only [bind, Option.bind]
    split
    · next heq => exact absurd rfl (hdot '.' (by rw [heq]; rfl))
    · rfl
  rw [readKey, hkeys]
  rfl

/-! ### Statements -/

/-- A document that is written line by line, and the statements that it makes. There may be blanks
in front of a statement, beside the mark of an entry and behind each statement, comments at the ends
of lines, and lines without a statement. -/
inductive Document : List Char → List Statement → Prop where
  | done : Document [] []
  | blank (c : Char) (rest : List Char) (ss : List Statement) (hc : isBlank c = true)
    (h : Document rest ss) :
      Document (c :: rest) ss
  | line (e rest : List Char) (ss : List Statement) (hend : LineEnd e) (h : Document rest ss) :
    Document (e ++ rest) ss
  | header (name e rest : List Char) (ss : List Statement) (hname : Bare name) (hend : LineEnd e)
    (h : Document rest ss) :
      Document ('[' :: (name ++ ']' :: (e ++ rest))) (.header ⟨[], String.ofList name⟩ :: ss)
  | entry (name before after value e rest : List Char) (node : Node) (ss : List Statement)
    (hname : Bare name)
      (hbefore : ∀ c ∈ before, isBlank c = true) (hafter : ∀ c ∈ after, isBlank c = true)
      (hvalue : Written value node)
      (hend : LineEnd e) (h : Document rest ss) :
      Document (name ++ (before ++ '=' :: (after ++ (value ++ (e ++ rest)))))
        (.entry ⟨[], String.ofList name⟩ node :: ss)

theorem readStatement_header (hname : Bare name) (rest : List Char) :
    readStatement ('[' :: (name ++ ']' :: rest)) =
      some (.header ⟨[], String.ofList name⟩, rest) := by
  have hkey : readKey (name ++ ']' :: rest) = some (⟨[], String.ofList name⟩, ']' :: rest) :=
    readKey_bare hname (by rintro _ ⟨⟩; rfl) (by rintro _ ⟨⟩; decide)
  obtain ⟨hne, hall⟩ := hname
  obtain ⟨c, name, rfl⟩ := List.exists_cons_of_ne_nil hne
  have hc : isBare c = true := hall c List.mem_cons_self
  rw [readStatement, List.cons_append, readHeader]
  · rw [← List.cons_append, hkey]
    rfl
  · exact fun _ h => absurd (List.cons.inj h).1 (ne_of_class hc rfl)

theorem readStatement_entry {before after value e : List Char} {node : Node} (hname : Bare name)
    (hbefore : ∀ c ∈ before, isBlank c = true) (hafter : ∀ c ∈ after, isBlank c = true)
    (hvalue : Written value node) (hend : LineEnd e) (rest : List Char) :
    readStatement (name ++ (before ++ '=' :: (after ++ (value ++ (e ++ rest))))) =
      some (.entry ⟨[], String.ofList name⟩ node, skipBlanks (e ++ rest)) := by
  obtain ⟨d, ds, hfirst, hd⟩ := hvalue.starts
  obtain ⟨g, gs, hgap, hg⟩ := hend.starts
  have hmark : skipBlanks (before ++ '=' :: (after ++ (value ++ (e ++ rest)))) =
      '=' :: (after ++ (value ++ (e ++ rest))) := by
    rw [skipBlanks_append hbefore, skipBlanks_of_not_isBlank rfl]
  have hkey : readKey (name ++ (before ++ '=' :: (after ++ (value ++ (e ++ rest))))) =
      some (⟨[], String.ofList name⟩, '=' :: (after ++ (value ++ (e ++ rest)))) := by
    have hbare : ∀ c ∈ (before ++ '=' :: (after ++ (value ++ (e ++ rest)))).head?,
        isBare c = false := by
      cases before with
      | nil =>
        rintro _ ⟨⟩
        rfl
      | cons b before =>
        rintro _ ⟨⟩
        rcases isBlank_iff.mp (hbefore b List.mem_cons_self) with rfl | rfl <;> rfl
    have hdot : ∀ c ∈ (skipBlanks (before ++ '=' :: (after ++ (value ++ (e ++ rest))))).head?,
        c ≠ '.' := by
      rw [hmark]
      rintro _ ⟨⟩
      decide
    rw [readKey_bare hname hbare hdot, hmark]
  have hitem : valueWithin (depthLimit - 1) (skipBlanks (after ++ (value ++ (e ++ rest)))) =
      some (node, e ++ rest) := by
    have hstart : skipBlanks (value ++ (e ++ rest)) = value ++ (e ++ rest) := by
      rw [hfirst]
      exact skipBlanks_of_not_isBlank hd _
    rw [skipBlanks_append hafter, hstart, hgap]
    exact valueWithin_written hvalue hg _
  have hentry : readEntry (valueWithin (depthLimit - 1))
      (name ++ (before ++ '=' :: (after ++ (value ++ (e ++ rest))))) =
        some ((⟨[], String.ofList name⟩, node), skipBlanks (e ++ rest)) := by
    rw [readEntry, hkey]
    simp only [bind, Option.bind, skipBlanks_of_not_isBlank (c := '=') rfl, readMark, if_true,
      hitem]
    rfl
  obtain ⟨c, name, rfl⟩ := List.exists_cons_of_ne_nil hname.1
  have hc : isBare c = true := hname.2 c List.mem_cons_self
  rw [List.cons_append] at hentry ⊢
  rw [readStatement, hentry]
  · rfl
  · exact fun _ h => absurd (List.cons.inj h).1 (ne_of_class hc rfl)

theorem statementsWithin_congr {steps : Nat} {other : List Char}
    (h : skipGaps false cs = skipGaps false other) :
    statementsWithin steps cs = statementsWithin steps other := by
  cases steps with
  | zero => rfl
  | succ steps => rw [statementsWithin, statementsWithin, h]

theorem statementsWithin_of_readStatement {steps : Nat} {statement : Statement} {left : List Char}
    {ss : List Statement} (hstart : skipGaps false (c :: cs) = c :: cs)
    (hread : readStatement (c :: cs) = some (statement, left)) (hend : endOfLine left = some rest)
    (h : statementsWithin steps rest = some ss) :
    statementsWithin (steps + 1) (c :: cs) = some (statement :: ss) := by
  rw [statementsWithin, hstart]
  simp only [hread, bind, Option.bind, hend, h]
  rfl

/-- A document is read as its statements. Every statement takes up some of it, so it has as many
steps as it needs. -/
theorem Document.statementsWithin_eq {ss : List Statement} (h : Document cs ss) {steps : Nat}
    (hsteps : cs.length < steps) :
    statementsWithin steps cs = some ss := by
  induction h generalizing steps with
  | done =>
    obtain ⟨steps, rfl⟩ := Nat.exists_eq_succ_of_ne_zero (Nat.ne_of_gt hsteps)
    rfl
  | blank c rest ss hc _ ih =>
    rw [statementsWithin_congr (skipGaps_of_isBlank hc rest)]
    exact ih (by simp only [List.length_cons] at hsteps; omega)
  | line e rest ss hend _ ih =>
    rw [statementsWithin_congr (skipGaps_append hend rest)]
    exact ih (by simp only [List.length_append] at hsteps; omega)
  | header name e rest ss hname hend _ ih =>
    obtain ⟨steps, rfl⟩ := Nat.exists_eq_succ_of_ne_zero (Nat.ne_of_gt (Nat.zero_lt_of_lt hsteps))
    have hrest : rest.length < steps := by
      simp only [List.length_cons, List.length_append] at hsteps
      omega
    exact statementsWithin_of_readStatement rfl (readStatement_header hname _)
      (endOfLine_append hend rest) (ih hrest)
  | entry name before after value e rest node ss hname hbefore hafter hvalue hend _ ih =>
    obtain ⟨steps, rfl⟩ := Nat.exists_eq_succ_of_ne_zero (Nat.ne_of_gt (Nat.zero_lt_of_lt hsteps))
    have hrest : rest.length < steps := by
      simp only [List.length_cons, List.length_append] at hsteps
      omega
    have hread := readStatement_entry hname hbefore hafter hvalue hend rest
    have hleft : endOfLine (skipBlanks (e ++ rest)) = some rest := by
      rw [endOfLine_skipBlanks, endOfLine_append hend]
    obtain ⟨c, name, rfl⟩ := List.exists_cons_of_ne_nil hname.1
    have hc : isBare c = true := hname.2 c List.mem_cons_self
    exact statementsWithin_of_readStatement (skipGaps_of_isBare hc _) hread hleft (ih hrest)

theorem Document.head?_ne_mark {ss : List Statement} (h : Document cs ss) :
    ∀ c ∈ cs.head?, c ≠ '\ufeff' := by
  cases h with
  | done => exact nofun
  | blank c rest ss hc _ =>
    rintro _ ⟨⟩
    rcases isBlank_iff.mp hc with rfl | rfl <;> decide
  | line e rest ss hend _ =>
    obtain ⟨g, gs, rfl, hg⟩ := hend.starts
    rintro _ ⟨⟩
    exact ne_of_class hg rfl
  | header name e rest ss hname hend _ =>
    rintro _ ⟨⟩
    decide
  | entry name before after value e rest node ss hname hbefore hafter hvalue hend _ =>
    obtain ⟨c, name, rfl⟩ := List.exists_cons_of_ne_nil hname.1
    rintro _ ⟨⟩
    exact ne_of_class (hname.2 c List.mem_cons_self) rfl

/-- What a document makes is what its statements make one after the other. -/
theorem Document.read_eq {ss : List Statement} (h : Document cs ss) :
    read cs = (Draft.empty.addAll ss).map Draft.root := by
  have hstatements := h.statementsWithin_eq (Nat.lt_succ_self cs.length)
  rw [read]
  · rw [hstatements]
    exact Option.map_eq_bind.symm
  · rintro rest rfl
    exact h.head?_ne_mark '\ufeff' rfl rfl

end QueryShell.Toml
