import Mathlib.Tactic.SplitIfs
import QueryShell.Text.Utf8

/-! Every text is read back from its bytes. -/

namespace QueryShell.Text

theorem exists_byte {n : Nat} (h : n < 256) : ∃ b : UInt8, UInt8.ofNat n = b ∧ b.toNat = n :=
  ⟨_, rfl, UInt8.toNat_ofNat_of_lt' h⟩

theorem isTailByte_iff {b : UInt8} : isTailByte b = true ↔ 0x80 ≤ b.toNat ∧ b.toNat ≤ 0xbf := by
  simp [isTailByte, UInt8.le_iff_toNat_le]

theorem isSecondByte_iff {first second : UInt8} : isSecondByte first second = true ↔
    0x80 ≤ second.toNat ∧ second.toNat ≤ 0xbf ∧ (first.toNat = 0xe0 → 0xa0 ≤ second.toNat) ∧
      (first.toNat = 0xed → second.toNat ≤ 0x9f) ∧ (first.toNat = 0xf0 → 0x90 ≤ second.toNat) ∧
      (first.toNat = 0xf4 → second.toNat ≤ 0x8f) := by
  have heq : ∀ n : UInt8, first = n ↔ first.toNat = n.toNat := fun n => UInt8.toNat_inj.symm
  simp only [isSecondByte, isTailByte, heq, UInt8.le_iff_toNat_le, UInt8.reduceToNat]
  split_ifs <;>
    · simp only [Bool.and_eq_true, decide_eq_true_eq]
      omega

variable {index : Nat} {rest : List UInt8}

theorem ofUtf8From_one {a : UInt8} (ha : a.toNat < 0x80) :
    ofUtf8From index (a :: rest) = (Char.ofNat a.toNat :: ·) <$> ofUtf8From (index + 1) rest := by
  rw [ofUtf8From.eq_def]
  exact if_pos (UInt8.lt_iff_toNat_lt.mpr ha)

theorem leads {a : UInt8} (hlow : 0xc2 ≤ a.toNat) (hhigh : a.toNat ≤ 0xf4) :
    ¬ a < 0x80 ∧ ¬ (decide (a < 0xc2) || decide (0xf4 < a)) = true := by
  simp only [Bool.or_eq_true, decide_eq_true_eq, UInt8.lt_iff_toNat_lt, UInt8.reduceToNat]
  omega

theorem ofUtf8From_two {a b : UInt8} (hlow : 0xc2 ≤ a.toNat) (hhigh : a.toNat < 0xe0)
    (hb : isSecondByte a b = true) :
    ofUtf8From index (a :: b :: rest) =
      (Char.ofNat ((a.toNat - 0xc0) * 64 + tailBits b) :: ·) <$> ofUtf8From (index + 2) rest := by
  obtain ⟨hmore, hrange⟩ := leads hlow (by omega)
  have hfirst : a < 0xe0 := UInt8.lt_iff_toNat_lt.mpr hhigh
  rw [ofUtf8From.eq_def]
  simp only [hmore, hrange, hb, hfirst, Bool.not_true, Bool.false_eq_true, if_false, if_true]

theorem ofUtf8From_three {a b c : UInt8} (hlow : 0xe0 ≤ a.toNat) (hhigh : a.toNat < 0xf0)
    (hb : isSecondByte a b = true) (hc : isTailByte c = true) :
    ofUtf8From index (a :: b :: c :: rest) =
      (Char.ofNat ((a.toNat - 0xe0) * 4096 + tailBits b * 64 + tailBits c) :: ·) <$>
        ofUtf8From (index + 3) rest := by
  obtain ⟨hmore, hrange⟩ := leads (by omega) (by omega : a.toNat ≤ 0xf4)
  have hfirst : ¬ a < 0xe0 := UInt8.not_lt.mpr (UInt8.le_iff_toNat_le.mpr hlow)
  have hthird : a < 0xf0 := UInt8.lt_iff_toNat_lt.mpr hhigh
  rw [ofUtf8From.eq_def]
  simp only [hmore, hrange, hb, hc, hfirst, hthird, Bool.not_true, Bool.false_eq_true, if_false,
    if_true]

theorem ofUtf8From_four {a b c d : UInt8} (hlow : 0xf0 ≤ a.toNat) (hhigh : a.toNat ≤ 0xf4)
    (hb : isSecondByte a b = true) (hc : isTailByte c = true) (hd : isTailByte d = true) :
    ofUtf8From index (a :: b :: c :: d :: rest) =
      (Char.ofNat
        ((a.toNat - 0xf0) * 262144 + tailBits b * 4096 + tailBits c * 64 + tailBits d) :: ·)
        <$> ofUtf8From (index + 4) rest := by
  obtain ⟨hmore, hrange⟩ := leads (by omega) hhigh
  have hthird : ¬ a < 0xf0 := UInt8.not_lt.mpr (UInt8.le_iff_toNat_le.mpr hlow)
  have hfirst : ¬ a < 0xe0 := fun hlt => hthird (UInt8.lt_trans hlt (by decide))
  rw [ofUtf8From.eq_def]
  simp only [hmore, hrange, hb, hc, hd, hfirst, hthird, Bool.not_true, Bool.false_eq_true, if_false]

/-- Surrogates are no characters. -/
theorem toNat_cases (c : Char) : c.toNat < 0xd800 ∨ 0xdfff < c.toNat ∧ c.toNat < 0x110000 := c.valid

theorem ofUtf8From_utf8Char (c : Char) :
    ∃ next, ofUtf8From index (utf8Char c ++ rest) = (c :: ·) <$> ofUtf8From next rest := by
  have hcases := toNat_cases c
  have hofNat : ∀ n, n = c.toNat → Char.ofNat n = c := fun n h => h ▸ Char.ofNat_toNat c
  rw [utf8Char]
  generalize c.toNat = n at hcases hofNat
  split_ifs with hone htwo hthree
  · obtain ⟨a, ha, hna⟩ := exists_byte (by omega : n < 256)
    refine ⟨index + 1, ?_⟩
    rw [ha, List.singleton_append, ofUtf8From_one (by omega), hofNat _ (by omega)]
  · obtain ⟨a, ha, hna⟩ := exists_byte (by omega : 0xc0 + n / 64 < 256)
    obtain ⟨b, hb, hnb⟩ := exists_byte (by omega : 0x80 + n % 64 < 256)
    have hvalue : (a.toNat - 0xc0) * 64 + tailBits b = n := by
      unfold tailBits
      omega
    refine ⟨index + 2, ?_⟩
    rw [ha, hb, List.cons_append, List.singleton_append,
      ofUtf8From_two (by omega) (by omega) (isSecondByte_iff.mpr (by omega)), hofNat _ hvalue]
  · obtain ⟨a, ha, hna⟩ := exists_byte (by omega : 0xe0 + n / 4096 < 256)
    obtain ⟨b, hb, hnb⟩ := exists_byte (by omega : 0x80 + n / 64 % 64 < 256)
    obtain ⟨c, hc, hnc⟩ := exists_byte (by omega : 0x80 + n % 64 < 256)
    have hvalue : (a.toNat - 0xe0) * 4096 + tailBits b * 64 + tailBits c = n := by
      unfold tailBits
      omega
    refine ⟨index + 3, ?_⟩
    rw [ha, hb, hc, List.cons_append, List.cons_append, List.singleton_append,
      ofUtf8From_three (by omega) (by omega) (isSecondByte_iff.mpr (by omega))
        (isTailByte_iff.mpr (by omega)),
      hofNat _ hvalue]
  · obtain ⟨a, ha, hna⟩ := exists_byte (by omega : 0xf0 + n / 262144 < 256)
    obtain ⟨b, hb, hnb⟩ := exists_byte (by omega : 0x80 + n / 4096 % 64 < 256)
    obtain ⟨c, hc, hnc⟩ := exists_byte (by omega : 0x80 + n / 64 % 64 < 256)
    obtain ⟨d, hd, hnd⟩ := exists_byte (by omega : 0x80 + n % 64 < 256)
    have hvalue : (a.toNat - 0xf0) * 262144 + tailBits b * 4096 + tailBits c * 64 + tailBits d =
        n := by
      unfold tailBits
      omega
    refine ⟨index + 4, ?_⟩
    rw [ha, hb, hc, hd, List.cons_append, List.cons_append, List.cons_append, List.singleton_append,
      ofUtf8From_four (by omega) (by omega) (isSecondByte_iff.mpr (by omega))
        (isTailByte_iff.mpr (by omega)) (isTailByte_iff.mpr (by omega)), hofNat _ hvalue]

theorem ofUtf8From_toUtf8 (cs : List Char) : ofUtf8From index (toUtf8 cs) = .ok cs := by
  induction cs generalizing index with
  | nil => rfl
  | cons c cs ih =>
    obtain ⟨next, hread⟩ : ∃ next, ofUtf8From index (utf8Char c ++ toUtf8 cs) = _ :=
      ofUtf8From_utf8Char c
    rw [toUtf8, List.flatMap_cons]
    exact hread.trans (congrArg _ ih)

theorem ofUtf8_toUtf8 (cs : List Char) : ofUtf8 (toUtf8 cs) = .ok cs := ofUtf8From_toUtf8 cs

end QueryShell.Text
