import DepsManifest.Json.Printer
import DepsManifest.Json.Reader
import DepsManifest.Proofs.Text.Digits
/-! # Strings and numbers are read back

A string between its quotes is read back whatever follows it (`readString?_flatMap`). Each character
is printed in one of three ways: as it is, as an escape of one letter, or by its number in four
hexadecimal digits. Whichever it is, the reader takes it for that character and goes on
(`readString?_stringChar`), so the induction is over the characters. A quote is printed as an
escape, so the first one that is not after a backslash closes the string.

A whole number is read back if it has 64 bits, signed or unsigned (`Number.readBack_integer`), and
if what follows cannot belong to it: no digit, no point and no exponent (`EndsNumber`). The bounds
are those of the format: a number beyond them is read as a binary floating-point number, which may
be another one.

`Number.ReadBack` is what a reader of values asks of any number: that its text begins as one does,
and that it is read back before whatever can follow. Numbers of other kinds can be added without a
change to the proofs about arrays and objects.
-/
namespace DepsManifest.Json

/-! ## Strings -/

/-- A reader of a string goes on after a character that it has read. -/
def readAfter (c : Char) (tail : List Char) : Option (List Char × List Char) := do
  let (cs, rest) ← readString? tail
  return (c :: cs, rest)

theorem readString?_letter {e c : Char} (h : escapeLetter? e = some c) (hu : e ≠ 'u')
    (tail : List Char) : readString? ('\\' :: e :: tail) = readAfter c tail := by
  rw [readString?]
  · rw [h]
    rfl
  · rintro _ _ _ _ _ rfl
    exact absurd rfl hu

theorem fourDigits?_digitChar {n : Nat} (h : n < 0x20) :
    fourDigits? '0' '0' (Nat.digitChar (n / 16)) (Nat.digitChar (n % 16)) = some n := by
  have hzero : Text.digitValue? 16 '0' = some 0 := rfl
  simp only [fourDigits?, hzero, Text.digitValue?_digitChar (n / 16) (by omega),
    Text.digitValue?_digitChar (n % 16) (by omega)]
  exact congrArg some (by omega)

theorem readString?_control {c : Char} (h : c.toNat < 0x20) (tail : List Char) :
    readString? ('\\' :: 'u' :: '0' :: '0' :: Nat.digitChar (c.toNat / 16) ::
      Nat.digitChar (c.toNat % 16) :: tail) = readAfter c tail := by
  have hlow : isLowHalf c.toNat = false := by
    simp only [isLowHalf, Bool.and_eq_false_iff, decide_eq_false_iff_not]
    omega
  have hhigh : isHighHalf c.toNat = false := by
    simp only [isHighHalf, Bool.and_eq_false_iff, decide_eq_false_iff_not]
    omega
  rw [readString?, fourDigits?_digitChar h]
  simp only [Option.bind_eq_bind, Option.bind_some, hlow, hhigh, Char.ofNat_toNat]
  rfl

theorem readString?_plain {c : Char} (hquote : c ≠ '"') (hslash : c ≠ '\\')
    (hcontrol : ¬ c.toNat < 0x20) (tail : List Char) :
    readString? (c :: tail) = readAfter c tail := by
  rw [readString?]
  · rw [if_neg (by simp [hslash, hcontrol])]
    rfl
  · rintro rfl
    exact absurd rfl hquote
  · rintro _ _ _ _ _ rfl
    exact absurd rfl hslash
  · rintro _ _ rfl
    exact absurd rfl hslash

/-- Each character is read as what was printed. -/
theorem readString?_stringChar (c : Char) (tail : List Char) :
    readString? (stringChar c ++ tail) = readAfter c tail := by
  unfold stringChar
  -- The characters with a letter of their own.
  iterate 7
    split
    case isTrue h =>
      subst h
      exact readString?_letter rfl (by decide) tail
  split
  case isTrue h => exact readString?_control h tail
  case isFalse hquote hslash _ _ _ _ _ hcontrol =>
    exact readString?_plain hquote hslash hcontrol tail

theorem readString?_flatMap (cs rest : List Char) :
    readString? (cs.flatMap stringChar ++ '"' :: rest) = some (cs, rest) := by
  induction cs with
  | nil => rfl
  | cons c cs ih =>
      rw [List.flatMap_cons, List.append_assoc, readString?_stringChar, readAfter, ih]
      rfl

theorem stringText_eq (s : String) (rest : List Char) :
    ∃ tail, stringText s ++ rest = '"' :: tail ∧ readString? tail = some (s.toList, rest) := by
  refine ⟨s.toList.flatMap stringChar ++ '"' :: rest, ?_, readString?_flatMap s.toList rest⟩
  simp [stringText]

/-! ## Numbers -/

/-- What can follow a number. -/
def EndsNumber (rest : List Char) : Prop :=
  ∀ c ∈ rest.head?, c.isDigit = false ∧ c ≠ '.' ∧ c ≠ 'e' ∧ c ≠ 'E'

theorem le_ofDigitChars (cs : List Char) (read : Nat) : read ≤ Nat.ofDigitChars 10 cs read := by
  induction cs generalizing read with
  | nil => exact Nat.le_refl read
  | cons c cs ih =>
      rw [Nat.ofDigitChars_cons]
      exact Nat.le_trans (by omega) (ih _)

theorem fittingDigits_eq {cs : List Char} {read : Nat}
    (h : Nat.ofDigitChars 10 cs read ≤ wordLimit) :
    fittingDigits read cs = (Nat.ofDigitChars 10 cs read, []) := by
  induction cs generalizing read with
  | nil => rfl
  | cons c cs ih =>
      rw [Nat.ofDigitChars_cons, Nat.mul_comm] at h ⊢
      have hnext := Nat.le_trans (le_ofDigitChars cs _) h
      rw [fittingDigits, if_neg (Nat.not_lt.mpr hnext)]
      exact ih h

theorem fittingDigits_decimal {n : Nat} (h : n ≤ wordLimit) :
    fittingDigits 0 (Text.decimal n) = (n, []) := by
  have hvalue : Nat.ofDigitChars 10 (Text.decimal n) 0 = n := Nat.ofDigitChars_ten_toDigits
  rw [fittingDigits_eq (by rwa [hvalue]), hvalue]

/-- The characters that a number begins with. -/
def LeadsNumber (c : Char) : Prop := c = '-' ∨ c.isDigit = true

theorem LeadsNumber.ne {c d : Char} (h : LeadsNumber c) (hminus : d ≠ '-')
    (hdigit : d.isDigit = false) : c ≠ d := by
  rintro rfl
  rcases h with rfl | h
  · exact hminus rfl
  · rw [hdigit] at h
    cases h

/-- A number that can be read back: its text begins as a number does, and whatever can follow a
number is left over. -/
structure Number.ReadBack (n : Number) : Prop where
  lead : ∃ c cs, n.text = c :: cs ∧ LeadsNumber c
  read : ∀ rest, EndsNumber rest → readNumber? (n.text ++ rest) = some (n, rest)

theorem readUnsigned?_decimal (negative : Bool) {n : Nat} (h : n ≤ wordLimit) {rest : List Char}
    (hrest : EndsNumber rest) :
    readUnsigned? negative (Text.decimal n ++ rest) = some (signed negative n, rest) := by
  have hspan : spanDigits (Text.decimal n ++ rest) = (Text.decimal n, rest) :=
    Text.span_append_eq (fun _ => Text.isDigit_of_mem_decimal) fun c hc => (hrest c hc).1
  simp only [readUnsigned?, hspan]
  split
  · rename_i heq
    obtain ⟨d, ds, hdecimal, -⟩ := Text.exists_decimal_eq_cons n
    rw [hdecimal] at heq
    cases heq
  · rename_i heq
    have hzero : n = 0 := Text.eq_zero_of_decimal_eq_cons heq
    subst hzero
    cases heq
  · split
    · exact absurd rfl (hrest _ rfl).2.1
    · exact absurd rfl (hrest _ rfl).2.2.1
    · exact absurd rfl (hrest _ rfl).2.2.2
    · rw [fittingDigits_decimal h]
      rfl

/-- A whole number of 64 bits is read back. -/
theorem Number.readBack_integer {i : Int} (hmin : -9223372036854775808 ≤ i)
    (hmax : i ≤ 18446744073709551615) : ReadBack (.integer i) := by
  obtain ⟨d, ds, hdecimal, hd⟩ := Text.exists_decimal_eq_cons i.natAbs
  have hword : i.natAbs ≤ wordLimit := by
    have hlimit : wordLimit = 18446744073709551615 := rfl
    omega
  by_cases hi : i < 0
  · have htext : Number.text (.integer i) = '-' :: Text.decimal i.natAbs := if_pos hi
    have hsigned : signed true i.natAbs = .integer i := by
      rw [signed, if_neg (by decide), if_neg (by omega), if_pos (by omega)]
      exact congrArg Number.integer (by omega)
    refine ⟨⟨'-', _, htext, .inl rfl⟩, fun rest hrest => ?_⟩
    rw [htext, List.cons_append, readNumber?, readUnsigned?_decimal true hword hrest, hsigned]
  · have htext : Number.text (.integer i) = Text.decimal i.natAbs := if_neg hi
    have hsigned : signed false i.natAbs = .integer i := by
      rw [signed, if_pos (by decide)]
      exact congrArg Number.integer (by omega)
    refine ⟨⟨d, ds, htext.trans hdecimal, .inr hd⟩, fun rest hrest => ?_⟩
    rw [htext, readNumber?, readUnsigned?_decimal false hword hrest, hsigned]
    rintro cs hcs
    rw [hdecimal] at hcs
    cases hcs
    cases hd

end DepsManifest.Json
