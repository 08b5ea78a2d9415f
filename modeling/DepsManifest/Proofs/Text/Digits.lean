import DepsManifest.Text.Basic
import Mathlib.Algebra.Group.Nat.Defs
import Mathlib.Data.List.TakeDrop
/-! # Digits

A run of characters of a class is taken off the beginning of a text whole if what follows is not of
the class (`takeWhile_append_eq`). So a number can be told from what follows it, as long as no digit
does: equal texts that begin with the decimal form of a number begin with the same number
(`signedDecimal_append_inj`).

The decimal form of a number has a digit at least, and no zero at its beginning unless it is the
number zero (`eq_zero_of_decimal_eq_cons`). With zeros put before it to a fixed width it is read
back as the same number (`readDecimal?_paddedDecimal`), and it has that width if the number is not
too large (`length_paddedDecimal`). Zeros after digits multiply what the digits spell
(`ofDigitChars_append_zeros`), which is what a fraction needs that is written without them.
-/
namespace DepsManifest.Text

/-- What holds of each character of a given text is checked on these alone, not on all characters.
-/
theorem forall_of_all {p : Char → Prop} [DecidablePred p] {cs : List Char}
    (h : cs.all (fun c => decide (p c)) = true) : ∀ c ∈ cs, p c :=
  fun c hc => of_decide_eq_true (List.all_eq_true.mp h c hc)

/-! ## Runs of characters -/

theorem takeWhile_append_eq {p : Char → Bool} {cs rest : List Char} (hcs : ∀ c ∈ cs, p c = true)
    (hrest : ∀ c ∈ rest.head?, p c = false) : (cs ++ rest).takeWhile p = cs := by
  rw [List.takeWhile_append_of_pos hcs]
  cases rest with
  | nil => rw [List.takeWhile_nil, List.append_nil]
  | cons c rest =>
      rw [List.takeWhile_cons_of_neg (by rw [hrest c rfl]; decide), List.append_nil]

theorem span_append_eq {p : Char → Bool} {cs rest : List Char} (hcs : ∀ c ∈ cs, p c = true)
    (hrest : ∀ c ∈ rest.head?, p c = false) : (cs ++ rest).span p = (cs, rest) := by
  have htaken : (cs ++ rest).takeWhile p = cs := takeWhile_append_eq hcs hrest
  have hsplit := List.takeWhile_append_dropWhile (p := p) (l := cs ++ rest)
  rw [htaken] at hsplit
  rw [List.span_eq_takeWhile_dropWhile, htaken, List.append_cancel_left hsplit]

/-! ## Numbers -/

theorem digitValue?_digitChar : ∀ n < 16, digitValue? 16 (Nat.digitChar n) = some n := by
  decide

theorem isDigit_of_mem_decimal {n : Nat} {c : Char} (h : c ∈ decimal n) : c.isDigit = true :=
  Nat.isDigit_of_mem_toDigits (b := 10) (by decide) (by decide) h

theorem decimal_append_inj {m n : Nat} {r r' : List Char}
    (hr : ∀ c ∈ r.head?, c.isDigit = false) (hr' : ∀ c ∈ r'.head?, c.isDigit = false)
    (h : decimal m ++ r = decimal n ++ r') : m = n ∧ r = r' := by
  have hsame : decimal m = decimal n := by
    rw [← takeWhile_append_eq (fun _ => isDigit_of_mem_decimal) hr, h,
      takeWhile_append_eq (fun _ => isDigit_of_mem_decimal) hr']
  refine ⟨?_, ?_⟩
  · have hvalue : Nat.ofDigitChars 10 (decimal m) 0 = Nat.ofDigitChars 10 (decimal n) 0 := by
      rw [hsame]
    rwa [decimal, decimal, Nat.ofDigitChars_ten_toDigits, Nat.ofDigitChars_ten_toDigits] at hvalue
  · rw [hsame] at h
    exact List.append_cancel_left h

theorem exists_decimal_eq_cons (n : Nat) :
    ∃ c cs, decimal n = c :: cs ∧ c.isDigit = true := by
  cases h : decimal n with
  | nil => exact absurd h Nat.toDigits_ne_nil
  | cons c cs =>
      refine ⟨c, cs, rfl, isDigit_of_mem_decimal (n := n) ?_⟩
      rw [h]
      exact List.mem_cons_self

theorem eq_zero_of_decimal_eq_cons {n : Nat} {cs : List Char} (h : decimal n = '0' :: cs) :
    n = 0 := by
  induction n using Nat.strongRecOn generalizing cs with
  | ind n ih =>
      rcases Nat.lt_or_ge n 10 with hn | hn
      · have hdigit : ∀ k < 10, Nat.digitChar k = '0' → k = 0 := by decide
        rw [decimal, Nat.toDigits_of_lt_base hn] at h
        exact hdigit n hn (List.cons.inj h).1
      · obtain ⟨c, ds, htens, -⟩ := exists_decimal_eq_cons (n / 10)
        have happend : decimal n = decimal (n / 10) ++ [(n % 10).digitChar] :=
          Nat.toDigits_of_base_le (by decide) hn
        rw [happend, htens] at h
        cases h
        have hzero : n / 10 = 0 := ih (n / 10) (Nat.div_lt_self (by omega) (by decide)) htens
        omega

theorem signedDecimal_append_inj {i j : Int} {r r' : List Char}
    (hr : ∀ c ∈ r.head?, c.isDigit = false) (hr' : ∀ c ∈ r'.head?, c.isDigit = false)
    (h : signedDecimal i ++ r = signedDecimal j ++ r') : i = j ∧ r = r' := by
  have hsign : ∀ (n : Nat) (cs s : List Char), '-' :: cs ≠ decimal n ++ s := by
    intro n cs s heq
    obtain ⟨c, ds, hn, hc⟩ := exists_decimal_eq_cons n
    rw [hn] at heq
    cases heq
    cases hc
  unfold signedDecimal at h
  by_cases hi : i < 0
  · by_cases hj : j < 0
    · simp only [hi, hj, if_true, List.cons_append, List.cons.injEq, true_and] at h
      obtain ⟨habs, hrest⟩ := decimal_append_inj hr hr' h
      exact ⟨by omega, hrest⟩
    · simp only [hi, hj, if_true, if_false, List.cons_append] at h
      exact absurd h (hsign _ _ _)
  · by_cases hj : j < 0
    · simp only [hi, hj, if_true, if_false, List.cons_append] at h
      exact absurd h.symm (hsign _ _ _)
    · simp only [hi, hj, if_false] at h
      obtain ⟨habs, hrest⟩ := decimal_append_inj hr hr' h
      exact ⟨by omega, hrest⟩

/-! ## Numbers filled up with zeros -/

theorem digitValue?_of_isDigit {c : Char} (h : c.isDigit = true) :
    digitValue? 10 c = some (c.toNat - '0'.toNat) := by
  have hrange : '0' ≤ c ∧ c ≤ '9' := by
    simpa [Char.isDigit, Char.le_def] using h
  have hvalue : c.toNat - '0'.toNat < 10 := by
    have hupper : c.toNat ≤ '9'.toNat := hrange.2
    have hnine : '9'.toNat = '0'.toNat + 9 := by decide
    omega
  simpa [digitValue?, hrange] using hvalue

theorem isDigit_of_digitValue? {c : Char} {value : Nat} (h : digitValue? 10 c = some value) :
    c.isDigit = true := by
  unfold digitValue? at h
  obtain ⟨hvalue, hlt⟩ := Option.filter_eq_some_iff.mp h
  have hlt : value < 10 := of_decide_eq_true hlt
  split at hvalue
  · rename_i hrange
    simpa [Char.isDigit, Char.le_def] using hrange
  · -- the letters stand for ten and more
    split at hvalue
    · cases hvalue
      omega
    · split at hvalue
      · cases hvalue
        omega
      · cases hvalue

theorem readDecimal?_eq {cs : List Char} (hne : cs ≠ []) (h : ∀ c ∈ cs, c.isDigit = true) :
    readDecimal? cs = some (Nat.ofDigitChars 10 cs 0) := by
  have hfold : ∀ (cs : List Char) (read : Nat), (∀ c ∈ cs, c.isDigit = true) →
      cs.foldl (fun total c => do
        let n ← total
        let d ← digitValue? 10 c
        return n * 10 + d) (some read) = some (Nat.ofDigitChars 10 cs read) := by
    intro cs
    induction cs with
    | nil => exact fun _ _ => rfl
    | cons c cs ih =>
        intro read h
        obtain ⟨hc, hcs⟩ := List.forall_mem_cons.mp h
        rw [List.foldl_cons, Nat.ofDigitChars_cons, Nat.mul_comm 10 read, ← ih _ hcs,
          digitValue?_of_isDigit hc]
        rfl
  cases cs with
  | nil => exact absurd rfl hne
  | cons c cs => exact hfold (c :: cs) 0 h

theorem isDigit_of_mem_paddedDecimal {w n : Nat} {c : Char} (h : c ∈ paddedDecimal w n) :
    c.isDigit = true := by
  rcases List.mem_append.mp h with h | h
  · rw [(List.mem_replicate.mp h).2]
    rfl
  · exact isDigit_of_mem_decimal h

theorem length_paddedDecimal {w n : Nat} (hw : 0 < w) (h : n < 10 ^ w) :
    (paddedDecimal w n).length = w := by
  have hfits : (decimal n).length ≤ w := (Nat.length_toDigits_le_iff (by decide) hw).mpr h
  rw [paddedDecimal, List.length_append, List.length_replicate]
  omega

/-- Zeros after digits multiply what the digits spell. -/
theorem ofDigitChars_append_zeros (cs : List Char) (k read : Nat) :
    Nat.ofDigitChars 10 (cs ++ List.replicate k '0') read =
      Nat.ofDigitChars 10 cs read * 10 ^ k := by
  rw [Nat.ofDigitChars_append]
  generalize Nat.ofDigitChars 10 cs read = n
  induction k generalizing n with
  | zero => rw [List.replicate_zero, Nat.ofDigitChars_nil, Nat.pow_zero, Nat.mul_one]
  | succ k ih =>
      rw [List.replicate_succ, Nat.ofDigitChars_cons, ih, Nat.pow_succ]
      simp only [Nat.sub_self, Nat.add_zero]
      rw [Nat.mul_comm 10 n, Nat.mul_assoc, Nat.mul_comm 10]

theorem ofDigitChars_paddedDecimal (w n : Nat) :
    Nat.ofDigitChars 10 (paddedDecimal w n) 0 = n := by
  have hzeros := ofDigitChars_append_zeros [] (w - (decimal n).length) 0
  rw [List.nil_append, Nat.ofDigitChars_nil, Nat.zero_mul] at hzeros
  rw [paddedDecimal, Nat.ofDigitChars_append, hzeros]
  exact Nat.ofDigitChars_ten_toDigits

theorem paddedDecimal_ne_nil (w n : Nat) : paddedDecimal w n ≠ [] :=
  List.append_ne_nil_of_right_ne_nil _ Nat.toDigits_ne_nil

theorem readDecimal?_paddedDecimal (w n : Nat) : readDecimal? (paddedDecimal w n) = some n := by
  rw [readDecimal?_eq (paddedDecimal_ne_nil w n) fun _ => isDigit_of_mem_paddedDecimal,
    ofDigitChars_paddedDecimal]

theorem readDecimal?_decimal (n : Nat) : readDecimal? (decimal n) = some n := by
  simpa [paddedDecimal] using readDecimal?_paddedDecimal 0 n

end DepsManifest.Text
