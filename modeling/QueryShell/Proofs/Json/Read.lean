import QueryShell.Proofs.Dictionary
import QueryShell.Proofs.Json.Scan

/-! Texts that the reader takes for a certain value, put together from the texts of the value's
parts. A printer may set blanks as it likes. -/

namespace QueryShell.Json

open Decimal (Spelling isExponentMark)

/-- A text that is no blank and no end of a list. -/
def Starts (cs : List Char) : Prop := ∃ c rest, cs = c :: rest ∧ isBlank c = false ∧ c ≠ ']'

/-- The text is read as the value, with so much room for nesting, wherever a value may end behind
it. -/
structure Reads (room : Nat) (cs : List Char) (j : Json) : Prop where
  starts : Starts cs
  read : ∀ c rest, endsValue c = true → readWithin room (cs ++ c :: rest) = .ok (j, c :: rest)

theorem readWithin_append {blanks : List Char} (h : ∀ c ∈ blanks, isBlank c = true) (room : Nat)
    (cs : List Char) :
    readWithin room (blanks ++ cs) = readWithin room cs := by
  rw [readWithin, readWithin, skipBlanks_append h]

theorem Starts.append {cs : List Char} (h : Starts cs) (rest : List Char) :
    Starts (cs ++ rest) := by
  obtain ⟨c, cs, rfl, hblank, hend⟩ := h
  exact ⟨c, cs ++ rest, rfl, hblank, hend⟩

theorem Starts.skipBlanks_eq {cs : List Char} (h : Starts cs) : skipBlanks cs = cs := by
  obtain ⟨c, cs, rfl, hblank, _⟩ := h
  exact skipBlanks_cons hblank cs

/-! ### Words -/

theorem reads_null (room : Nat) : Reads room ['n', 'u', 'l', 'l'] .null where
  starts := ⟨'n', _, rfl, rfl, by decide⟩
  read c rest _ := by
    rw [readWithin]
    rfl

theorem reads_true (room : Nat) : Reads room ['t', 'r', 'u', 'e'] (.boolean true) where
  starts := ⟨'t', _, rfl, rfl, by decide⟩
  read c rest _ := by
    rw [readWithin]
    rfl

theorem reads_false (room : Nat) : Reads room ['f', 'a', 'l', 's', 'e'] (.boolean false) where
  starts := ⟨'f', _, rfl, rfl, by decide⟩
  read c rest _ := by
    rw [readWithin]
    rfl

theorem reads_string (room : Nat) (text : String) :
    Reads room (Text.quoted text.toList) (.string text) where
  starts := ⟨'"', _, rfl, rfl, by decide⟩
  read c rest _ := by
    have hscan := scanString_quoted text (c :: rest)
    rw [readWithin, Text.quoted, List.append_assoc, List.cons_append, skipBlanks_cons rfl]
    simp only [List.singleton_append, hscan]
    rfl

theorem head_text {s : Spelling} (h : s.WellFormed) (mark : Char) :
    ∃ c cs, s.text mark = c :: cs ∧ (c = '-' || Numeral.isDigit c) = true := by
  rw [Spelling.text]
  cases s.negative with
  | true => exact ⟨'-', _, rfl, rfl⟩
  | false =>
    obtain ⟨c, cs, hwhole⟩ := List.exists_cons_of_ne_nil h.whole_ne_nil
    rw [Spelling.signed, if_neg (by simp), Spelling.unsignedText, hwhole]
    refine ⟨c, _, rfl, ?_⟩
    rw [h.whole c (hwhole ▸ List.mem_cons_self), Bool.or_true]

theorem ne_of_head {c d : Char} (hc : (c = '-' || Numeral.isDigit c) = true)
    (hd : (d = '-' || Numeral.isDigit d) = false) :
    c ≠ d := by
  rintro rfl
  rw [hc] at hd
  cases hd

theorem isBlank_of_head {c : Char} (h : (c = '-' || Numeral.isDigit c) = true) :
    isBlank c = false := by
  have hspace : c ≠ ' ' := ne_of_head h rfl
  have hnewline : c ≠ '\n' := ne_of_head h rfl
  have htab : c ≠ '\t' := ne_of_head h rfl
  have hreturn : c ≠ '\r' := ne_of_head h rfl
  simp [isBlank, hspace, hnewline, htab, hreturn]

theorem reads_number (room : Nat) {s : Spelling} (h : s.WellFormed) {mark : Char}
    (hmark : isExponentMark mark = true) :
    Reads room (s.text mark) (.number (s.text 'e')) := by
  obtain ⟨c, cs, htext, hhead⟩ := head_text h mark
  have hne : ∀ d : Char, (d = '-' || Numeral.isDigit d) = false → c ≠ d := fun _ => ne_of_head hhead
  have hblank := isBlank_of_head hhead
  refine ⟨⟨c, cs, htext, hblank, hne ']' rfl⟩, fun d rest hd => ?_⟩
  have hscan := scanNumber_text h hmark (endsNumber_of_endsValue hd rest)
  rw [htext, List.cons_append] at hscan ⊢
  rw [readWithin, skipBlanks_cons hblank]
  split
  case h_8 heq =>
    obtain ⟨rfl, rfl⟩ := List.cons.inj heq
    rw [if_pos hhead, hscan]
    rfl
  case h_1 heq => cases heq
  all_goals
    next heq => exact absurd (List.cons.inj heq).1 (hne _ rfl)

theorem readNumber_text {s : Spelling} (h : s.WellFormed) {mark : Char}
    (hmark : isExponentMark mark = true) :
    readNumber (s.text mark) = .ok (s.text 'e') := by
  obtain ⟨c, cs, htext, hhead⟩ := head_text h mark
  have hscan : scanNumber (s.text mark ++ []) = .ok (s.text 'e', []) :=
    scanNumber_text h hmark ⟨nofun, nofun, nofun⟩
  rw [List.append_nil, htext] at hscan
  rw [readNumber, htext, skipBlanks_cons (isBlank_of_head hhead)]
  simp only [hhead, if_true, hscan]
  rfl

/-! ### Lists -/

theorem nextItem_first {blanks start : List Char} (hblanks : ∀ c ∈ blanks, isBlank c = true)
    (h : Starts start) :
    nextItem true (blanks ++ start) = .ok (some start) := by
  rw [nextItem, skipBlanks_append hblanks, h.skipBlanks_eq]
  obtain ⟨c, cs, rfl, _, hend⟩ := h
  split
  · next heq => cases heq
  · next heq => exact absurd (List.cons.inj heq).1 hend
  · next heq => rw [if_pos rfl, heq]

theorem nextItem_comma {blanks start : List Char} (hblanks : ∀ c ∈ blanks, isBlank c = true)
    (h : Starts start) :
    nextItem false (',' :: (blanks ++ start)) = .ok (some start) := by
  rw [nextItem, skipBlanks_cons rfl]
  split
  · next heq => cases heq
  · next heq => exact absurd (List.cons.inj heq).1 (by decide)
  · next heq =>
    obtain ⟨rfl, rfl⟩ := List.cons.inj heq
    rw [if_neg (by simp), if_neg (by simp), skipBlanks_append hblanks, h.skipBlanks_eq]
    obtain ⟨c, cs, rfl, _, hend⟩ := h
    split
    · next heq => cases heq
    · next heq => exact absurd (List.cons.inj heq).1 hend
    · rfl

theorem nextItem_close {blanks : List Char} (hblanks : ∀ c ∈ blanks, isBlank c = true)
    (isFirst : Bool) (rest : List Char) : nextItem isFirst (blanks ++ ']' :: rest) = .ok none := by
  rw [nextItem, skipBlanks_append hblanks, skipBlanks_cons rfl]
  rfl

theorem itemsWithin_of_none {α : Type} {item : Reader α} {isFirst : Bool} {cs : List Char}
    (hnext : nextItem isFirst cs = .ok none) (steps : Nat) :
    itemsWithin item (steps + 1) isFirst cs = .ok ([], (skipBlanks cs).tail) := by
  rw [itemsWithin, hnext]
  rfl

theorem itemsWithin_of_some {α : Type} {item : Reader α} {isFirst : Bool}
    {cs start left rest : List Char} {steps : Nat} {x : α} {xs : List α}
    (hnext : nextItem isFirst cs = .ok (some start)) (hitem : item start = .ok (x, left))
    (hitems : itemsWithin item steps false left = .ok (xs, rest)) :
    itemsWithin item (steps + 1) isFirst cs = .ok (x :: xs, rest) := by
  rw [itemsWithin, hnext]
  simp only [bind, Except.bind, hitem, hitems]
  rfl

/-- What stands behind an item of a list, up to the end of the list. -/
structure ReadsItems (room : Nat) (cs : List Char) (js : List Json) : Prop where
  ends : ∃ c rest, cs = c :: rest ∧ endsValue c = true
  length : js.length < cs.length
  read : ∀ steps rest, js.length < steps →
    itemsWithin (readWithin room) steps false (cs ++ rest) = .ok (js, rest)

theorem readsItems_nil {blanks : List Char} (h : ∀ c ∈ blanks, isBlank c = true) (room : Nat) :
    ReadsItems room (blanks ++ [']']) [] where
  ends := by
    cases blanks with
    | nil => exact ⟨']', [], rfl, rfl⟩
    | cons c cs =>
      refine ⟨c, _, rfl, ?_⟩
      rw [endsValue, h c List.mem_cons_self]
      rfl
  length := by simp
  read steps rest hsteps := by
    obtain ⟨steps, rfl⟩ := Nat.exists_eq_succ_of_ne_zero (Nat.ne_of_gt hsteps)
    rw [List.append_assoc, List.singleton_append, itemsWithin_of_none (nextItem_close h false rest),
      skipBlanks_append h, skipBlanks_cons rfl]
    rfl

theorem itemsWithin_of_nextItem {room steps : Nat} {isFirst : Bool}
    {before cs tail rest : List Char} {j : Json} {js : List Json}
    (hnext : nextItem isFirst before = .ok (some (cs ++ (tail ++ rest)))) (h : Reads room cs j)
    (htail : ReadsItems room tail js) (hsteps : js.length < steps) :
    itemsWithin (readWithin room) (steps + 1) isFirst before = .ok (j :: js, rest) := by
  have hitems := htail.read steps rest hsteps
  -- The tail begins with a character that ends the item.
  obtain ⟨c, tail, rfl, hc⟩ := htail.ends
  exact itemsWithin_of_some hnext (h.read c (tail ++ rest) hc) hitems

theorem readsItems_cons {blanks cs tail : List Char} (hblanks : ∀ c ∈ blanks, isBlank c = true)
    {room : Nat} {j : Json} {js : List Json} (h : Reads room cs j)
    (htail : ReadsItems room tail js) :
    ReadsItems room (',' :: (blanks ++ (cs ++ tail))) (j :: js) where
  ends := ⟨',', _, rfl, rfl⟩
  length := by
    have hlength := htail.length
    simp only [List.length_cons, List.length_append]
    omega
  read steps rest hsteps := by
    obtain ⟨steps, rfl⟩ := Nat.exists_eq_succ_of_ne_zero (Nat.ne_of_gt (Nat.zero_lt_of_lt hsteps))
    rw [List.cons_append, List.append_assoc, List.append_assoc]
    exact itemsWithin_of_nextItem (nextItem_comma hblanks (h.starts.append _)) h htail
      (Nat.lt_of_succ_lt_succ hsteps)

theorem reads_array_nil (room : Nat) : Reads (room + 1) ['[', ']'] (.array []) where
  starts := ⟨'[', _, rfl, rfl, by decide⟩
  read c rest _ := by
    rw [readWithin]
    rfl

theorem reads_array_cons {blanks cs tail : List Char} (hblanks : ∀ c ∈ blanks, isBlank c = true)
    {room : Nat} {j : Json} {js : List Json} (h : Reads room cs j)
    (htail : ReadsItems room tail js) :
    Reads (room + 1) ('[' :: (blanks ++ (cs ++ tail))) (.array (j :: js)) where
  starts := ⟨'[', _, rfl, rfl, by decide⟩
  read c rest _ := by
    have hsteps : js.length < (blanks ++ (cs ++ (tail ++ c :: rest))).length := by
      have hlength := htail.length
      simp only [List.length_append]
      omega
    have hitems : items (readWithin room) (blanks ++ (cs ++ (tail ++ c :: rest))) =
        .ok (j :: js, c :: rest) :=
      itemsWithin_of_nextItem (nextItem_first hblanks (h.starts.append _)) h htail hsteps
    rw [List.cons_append, List.append_assoc, List.append_assoc, readWithin, skipBlanks_cons rfl]
    simp only [hitems]
    rfl

/-! ### Objects -/

theorem nextKey_first {blanks : List Char} (hblanks : ∀ c ∈ blanks, isBlank c = true)
    (start : List Char) :
    nextKey true (blanks ++ '"' :: start) = .ok (some start) := by
  rw [nextKey, skipBlanks_append hblanks, skipBlanks_cons rfl]
  rfl

theorem nextKey_comma {blanks : List Char} (hblanks : ∀ c ∈ blanks, isBlank c = true)
    (start : List Char) :
    nextKey false (',' :: (blanks ++ '"' :: start)) = .ok (some start) := by
  rw [nextKey, skipBlanks_cons rfl]
  split
  · next heq => cases heq
  · next heq => exact absurd (List.cons.inj heq).1 (by decide)
  · next heq =>
    obtain ⟨rfl, rfl⟩ := List.cons.inj heq
    rw [if_neg (by simp), if_neg (by simp), skipBlanks_append hblanks, skipBlanks_cons rfl]
    rfl

theorem nextKey_close {blanks : List Char} (hblanks : ∀ c ∈ blanks, isBlank c = true)
    (isFirst : Bool) (rest : List Char) :
    nextKey isFirst (blanks ++ '\x7d' :: rest) = .ok none := by
  rw [nextKey, skipBlanks_append hblanks, skipBlanks_cons rfl]
  rfl

theorem scanColon_cons (rest : List Char) : scanColon (':' :: rest) = .ok rest := rfl

/-- What stands behind an entry of an object, up to the end of the object. -/
structure ReadsEntries (room : Nat) (cs : List Char) (es : List (String × Json)) : Prop where
  ends : ∃ c rest, cs = c :: rest ∧ endsValue c = true
  length : es.length < cs.length
  read : ∀ steps rest, es.length < steps →
    entriesWithin (readWithin room) steps false (cs ++ rest) = .ok (es, rest)

theorem readsEntries_nil {blanks : List Char} (h : ∀ c ∈ blanks, isBlank c = true) (room : Nat) :
    ReadsEntries room (blanks ++ ['\x7d']) [] where
  ends := by
    cases blanks with
    | nil => exact ⟨'\x7d', [], rfl, rfl⟩
    | cons c cs =>
      refine ⟨c, _, rfl, ?_⟩
      rw [endsValue, h c List.mem_cons_self]
      rfl
  length := by simp
  read steps rest hsteps := by
    obtain ⟨steps, rfl⟩ := Nat.exists_eq_succ_of_ne_zero (Nat.ne_of_gt hsteps)
    rw [List.append_assoc, List.singleton_append, entriesWithin, nextKey_close h,
      skipBlanks_append h, skipBlanks_cons rfl]
    rfl

/-- An entry with so many blanks behind its colon, and what follows it. -/
def entryText (key : String) (gap cs tail : List Char) : List Char :=
  Text.quoted key.toList ++ ':' :: (gap ++ (cs ++ tail))

theorem entryText_append (key : String) (gap cs tail rest : List Char) :
    entryText key gap cs tail ++ rest =
      '"' ::
        (key.toList.flatMap Text.escaped ++ '"' :: ':' :: (gap ++ (cs ++ (tail ++ rest)))) := by
  simp [entryText, Text.quoted]

theorem entriesWithin_of_nextKey {room steps : Nat} {isFirst : Bool}
    {before gap cs tail rest : List Char} {key : String} {j : Json} {es : List (String × Json)}
    (hgap : ∀ c ∈ gap, isBlank c = true)
    (hnext : nextKey isFirst before =
      .ok (some (key.toList.flatMap Text.escaped ++ '"' :: ':' :: (gap ++ (cs ++ (tail ++ rest))))))
    (h : Reads room cs j) (htail : ReadsEntries room tail es) (hsteps : es.length < steps) :
    entriesWithin (readWithin room) (steps + 1) isFirst before = .ok ((key, j) :: es, rest) := by
  have hentries := htail.read steps rest hsteps
  obtain ⟨c, tail, rfl, hc⟩ := htail.ends
  have hread := h.read c (tail ++ rest) hc
  rw [List.cons_append] at hnext hentries
  rw [entriesWithin, hnext]
  simp only [bind, Except.bind, scanString_quoted, scanColon_cons]
  rw [readWithin_append hgap, hread]
  simp only [hentries]
  rfl

theorem readsEntries_cons {blanks gap cs tail : List Char}
    (hblanks : ∀ c ∈ blanks, isBlank c = true) (hgap : ∀ c ∈ gap, isBlank c = true) {room : Nat}
    {j : Json} {es : List (String × Json)} (key : String) (h : Reads room cs j)
    (htail : ReadsEntries room tail es) :
    ReadsEntries room (',' :: (blanks ++ entryText key gap cs tail)) ((key, j) :: es) where
  ends := ⟨',', _, rfl, rfl⟩
  length := by
    have hlength := htail.length
    simp only [List.length_cons, List.length_append, entryText]
    omega
  read steps rest hsteps := by
    obtain ⟨steps, rfl⟩ := Nat.exists_eq_succ_of_ne_zero (Nat.ne_of_gt (Nat.zero_lt_of_lt hsteps))
    rw [List.cons_append, List.append_assoc, entryText_append]
    exact entriesWithin_of_nextKey hgap (nextKey_comma hblanks _) h htail
      (Nat.lt_of_succ_lt_succ hsteps)

theorem reads_object_nil (room : Nat) : Reads (room + 1) ['\x7b', '\x7d'] (.object []) where
  starts := ⟨'\x7b', _, rfl, rfl, by decide⟩
  read c rest _ := by
    rw [readWithin]
    rfl

theorem reads_object_cons {blanks gap cs tail : List Char}
    (hblanks : ∀ c ∈ blanks, isBlank c = true) (hgap : ∀ c ∈ gap, isBlank c = true) {room : Nat}
    {key : String} {j : Json} {es : List (String × Json)}
    (hsorted : Dictionary.Sorted ((key, j) :: es)) (h : Reads room cs j)
    (htail : ReadsEntries room tail es) :
    Reads (room + 1) ('\x7b' :: (blanks ++ entryText key gap cs tail))
      (.object ((key, j) :: es)) where
  starts := ⟨'\x7b', _, rfl, rfl, by decide⟩
  read c rest _ := by
    have hsteps : es.length < (blanks ++ (entryText key gap cs tail ++ c :: rest)).length := by
      have hlength := htail.length
      simp only [List.length_append, List.length_cons, entryText]
      omega
    have hentries : entries (readWithin room) (blanks ++ (entryText key gap cs tail ++ c :: rest)) =
        .ok ((key, j) :: es, c :: rest) := by
      rw [entries]
      refine entriesWithin_of_nextKey hgap ?_ h htail hsteps
      rw [entryText_append]
      exact nextKey_first hblanks _
    rw [List.cons_append, List.append_assoc, readWithin, skipBlanks_cons rfl]
    simp only [hentries]
    exact congrArg (fun es => Except.ok (object es, c :: rest))
      (Dictionary.ofEntries_of_sorted hsorted)

/-! ### Streams -/

theorem nextOfStream_append {blanks : List Char} (h : ∀ c ∈ blanks, isBlank c = true)
    (cs : List Char) :
    nextOfStream (blanks ++ cs) = nextOfStream cs := by
  rw [nextOfStream, nextOfStream, skipBlanks_append h]

theorem nextOfStream_of_reads {cs : List Char} {j : Json} (h : Reads nestingLimit cs j) {c : Char}
    (hc : endsValue c = true) (rest : List Char) :
    nextOfStream (cs ++ c :: rest) = .ok (some (j, c :: rest)) := by
  have hread := h.read c rest hc
  rw [nextOfStream, (h.starts.append _).skipBlanks_eq]
  obtain ⟨d, cs, rfl, _, _⟩ := h.starts
  rw [List.cons_append] at hread ⊢
  simp only [read, hread, bind, Except.bind, hc, Bool.or_true, if_true]
  rfl

end QueryShell.Json
