import DepsManifest.Proofs.Text.Digits
import DepsManifest.Timestamp
import Mathlib.Data.List.TakeWhile
/-! # Time stamps are read back

A time stamp is read back from its text (`Timestamp.ofText?_text`). The text is the date, a `T`, the
time, a fraction of the second if there is one, and the offset.

  * Date, time and offset are numbers of a fixed width, so each ends where the reader stops counting
    and no separator has to be looked for (`readDigits?_paddedDecimal`). The widths are enough
    because the fields of a time stamp are bounded by their type.
  * The fraction is the exception: zeros at its end are not written. What the reader multiplies its
    digits by makes up for as many zeros as there were (`nanoseconds?_eq`), and the fraction ends
    where the offset begins, which no digit does (`readFraction?_fractionText`).
  * The offset is `Z` or a sign with hours and minutes. It is the end of the text, so nothing is
    said of what comes after it.

Putting the fields together cannot fail, as they come from a time stamp (`ofParts?_eq`).
-/
namespace DepsManifest.Timestamp

open Text

/-! ## Numbers of a fixed width -/

section Fixed

variable {w n : Nat} {rest : List Char}

theorem readDigits?_paddedDecimal (hw : 0 < w) (h : n < 10 ^ w) :
    readDigits? w (paddedDecimal w n ++ rest) = some (n, rest) := by
  have hlength := length_paddedDecimal hw h
  rw [readDigits?, List.take_left' hlength, List.drop_left' hlength, if_pos hlength,
    readDecimal?_paddedDecimal]
  rfl

theorem readAfter?_paddedDecimal {mark : Char} (hw : 0 < w) (h : n < 10 ^ w) :
    readAfter? mark w (mark :: (paddedDecimal w n ++ rest)) = some (n, rest) := by
  rw [readAfter?, if_pos rfl, readDigits?_paddedDecimal hw h]

end Fixed

/-! ## The fraction -/

theorem exists_paddedDecimal_eq (n : Nat) : ∃ digits k,
    ((paddedDecimal 9 n).reverse.dropWhile (· = '0')).reverse = digits ∧
    paddedDecimal 9 n = digits ++ List.replicate k '0' := by
  have hzero : ∀ c ∈ (paddedDecimal 9 n).reverse.takeWhile (· = '0'), c = '0' := by
    intro c hc
    simpa using List.mem_takeWhile_imp hc
  refine ⟨_, ((paddedDecimal 9 n).reverse.takeWhile (· = '0')).length, rfl, ?_⟩
  rw [← List.reverse_replicate, ← List.eq_replicate_of_mem hzero, ← List.reverse_append,
    List.takeWhile_append_dropWhile, List.reverse_reverse]

/-- The reader makes up for the zeros that a fraction is written without. -/
theorem nanoseconds?_eq {digits : List Char} {n k : Nat} (hn : n ≠ 0) (hlt : n < 1000000000)
    (h : paddedDecimal 9 n = digits ++ List.replicate k '0') : nanoseconds? digits = some n := by
  have hvalue : Nat.ofDigitChars 10 digits 0 * 10 ^ k = n := by
    rw [← ofDigitChars_append_zeros, ← h, ofDigitChars_paddedDecimal]
  have hlength : digits.length + k = 9 := by
    rw [← length_paddedDecimal (w := 9) (by decide) hlt, h, List.length_append,
      List.length_replicate]
  have hne : digits ≠ [] := by
    rintro rfl
    rw [Nat.ofDigitChars_nil, Nat.zero_mul] at hvalue
    exact hn hvalue.symm
  have hdigits : ∀ c ∈ digits, c.isDigit = true := by
    intro c hc
    refine isDigit_of_mem_paddedDecimal (w := 9) (n := n) ?_
    rw [h]
    exact List.mem_append_left _ hc
  rw [nanoseconds?, List.take_of_length_le (by omega), readDecimal?_eq hne hdigits,
    show 9 - digits.length = k by omega]
  exact congrArg some hvalue

/-- A fraction is read back before anything that neither continues its digits nor begins one. -/
theorem readFraction?_fractionText {n : Nat} {rest : List Char} (hlt : n < 1000000000)
    (hrest : ∀ c ∈ rest.head?, c.isDigit = false ∧ c ≠ '.') :
    readFraction? (fractionText n ++ rest) = some (n, rest) := by
  by_cases hn : n = 0
  · subst hn
    rw [fractionText, if_pos rfl, List.nil_append, readFraction?]
    rintro cs rfl
    exact (hrest '.' rfl).2 rfl
  · obtain ⟨digits, k, hdigits, heq⟩ := exists_paddedDecimal_eq n
    have hall : ∀ c ∈ digits, c.isDigit = true := by
      intro c hc
      refine isDigit_of_mem_paddedDecimal (w := 9) (n := n) ?_
      rw [heq]
      exact List.mem_append_left _ hc
    have hspan := span_append_eq hall fun c hc => (hrest c hc).1
    rw [List.span_eq_takeWhile_dropWhile, Prod.mk.injEq] at hspan
    rw [fractionText, if_neg hn, hdigits, List.cons_append, readFraction?, hspan.1, hspan.2,
      nanoseconds?_eq hn hlt heq]
    rfl

/-! ## The offset -/

theorem head?_offsetText (offset : Int) :
    ∀ c ∈ (offsetText offset).head?, c.isDigit = false ∧ c ≠ '.' := by
  rw [offsetText]
  split
  · rintro _ ⟨⟩
    decide
  · split
    · rintro _ ⟨⟩
      decide
    · rintro _ ⟨⟩
      decide

theorem readOffset?_offsetText {offset : Int} (h : offset.natAbs < 24 * 60) :
    readOffset? (offsetText offset) = some offset := by
  have hhours : offset.natAbs / 60 < 10 ^ 2 := by omega
  have hminutes : offset.natAbs % 60 < 10 ^ 2 := by omega
  have hsum : offset.natAbs / 60 * 60 + offset.natAbs % 60 = offset.natAbs := by omega
  have hwithin : ¬(offset.natAbs / 60 > 23 ∨ offset.natAbs % 60 > 59 ∨
      ¬([] : List Char).isEmpty = true) := by
    simp only [List.isEmpty_nil, not_true_eq_false, or_false]
    omega
  have hread : ∀ sign : Char, readOffset? (sign :: (paddedDecimal 2 (offset.natAbs / 60) ++
      ':' :: paddedDecimal 2 (offset.natAbs % 60))) =
        if sign = '+' then some (offset.natAbs : Int)
        else if sign = '-' then some (-(offset.natAbs : Int)) else none := by
    intro sign
    have hminute : readAfter? ':' 2 (':' :: (paddedDecimal 2 (offset.natAbs % 60) ++ [])) =
        some (offset.natAbs % 60, []) := readAfter?_paddedDecimal (by decide) hminutes
    rw [List.append_nil] at hminute
    have hmore : paddedDecimal 2 (offset.natAbs / 60) ++
        ':' :: paddedDecimal 2 (offset.natAbs % 60) ≠ [] :=
      List.append_ne_nil_of_left_ne_nil (paddedDecimal_ne_nil _ _) _
    unfold readOffset?
    split
    · rename_i heq
      exact absurd (List.cons.inj heq).2 hmore
    · rename_i heq
      exact absurd (List.cons.inj heq).2 hmore
    · rename_i heq
      cases heq
      simp only [readDigits?_paddedDecimal (w := 2) (by decide) hhours, hminute, hsum,
        Option.bind_eq_bind, Option.bind_some, if_neg hwithin]
      rfl
    · rename_i heq
      cases heq
  rw [offsetText]
  split
  · rename_i hzero
    rw [hzero]
    rfl
  · rw [List.cons_append, hread]
    split
    · rename_i hneg
      rw [if_neg (by decide), if_pos rfl]
      exact congrArg some (by omega)
    · rename_i hpos
      rw [if_pos rfl]
      exact congrArg some (by omega)

/-! ## The whole -/

theorem ofParts?_eq (t : Timestamp) :
    ofParts? t.year t.month t.day t.hour t.minute t.second t.nanosecond t.offset = some t :=
  dif_pos ⟨⟨t.year_lt, t.month_mem, t.day_mem⟩,
    ⟨t.hour_lt, t.minute_lt, t.second_lt, t.nanosecond_lt⟩, t.offset_lt⟩

theorem daysInMonth_le (year month : Nat) : Calendar.daysInMonth year month ≤ 31 := by
  unfold Calendar.daysInMonth
  split
  · split <;> decide
  · split <;> decide

theorem ofChars?_chars (t : Timestamp) : ofChars? t.chars = some t := by
  have hyear : t.year < 10 ^ 4 := t.year_lt
  have hmonth : t.month < 10 ^ 2 := Nat.lt_of_le_of_lt t.month_mem.2 (by decide)
  have hday : t.day < 10 ^ 2 :=
    Nat.lt_of_le_of_lt (Nat.le_trans t.day_mem.2 (daysInMonth_le _ _)) (by decide)
  have hhour : t.hour < 10 ^ 2 := Nat.lt_trans t.hour_lt (by decide)
  have hminute : t.minute < 10 ^ 2 := Nat.lt_trans t.minute_lt (by decide)
  have hsecond : t.second < 10 ^ 2 := Nat.lt_trans t.second_lt (by decide)
  have hno : t.second ≠ 60 := Nat.ne_of_lt t.second_lt
  simp only [chars, ofChars?, List.append_assoc, List.cons_append,
    readDigits?_paddedDecimal (w := 4) (by decide) hyear,
    readAfter?_paddedDecimal (w := 2) (by decide) hmonth,
    readAfter?_paddedDecimal (w := 2) (by decide) hday,
    readDigits?_paddedDecimal (w := 2) (by decide) hhour,
    readAfter?_paddedDecimal (w := 2) (by decide) hminute,
    readAfter?_paddedDecimal (w := 2) (by decide) hsecond,
    readFraction?_fractionText t.nanosecond_lt (head?_offsetText t.offset),
    readOffset?_offsetText t.offset_lt, Option.bind_eq_bind, Option.bind_some, List.head?_cons,
    List.tail_cons]
  rw [if_neg (by decide), if_neg hno, ofParts?_eq]

theorem ofText?_text (t : Timestamp) : ofText? t.text = some t := by
  rw [ofText?, text, String.toList_ofList, ofChars?_chars]

end DepsManifest.Timestamp
