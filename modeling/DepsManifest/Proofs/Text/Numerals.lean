import DepsManifest.Proofs.Text.Digits
import Mathlib.Data.List.DropRight
/-! # Numerals of a base

A signed number is written in the digits of a base, a minus sign before them if it is negative
(`signedNumeral`), and can be read back, in every base up to sixteen (`readSigned?_signedNumeral`).
Two things may be done to a numeral without changing what is read:

  * zeros may be put between the sign and the digits (`readSigned?_zeros`), but not before the sign;
  * spaces may be put before it or after it, and are taken off again (`trimmed_spaces_append`,
    `trimmed_append_spaces`), as a numeral has none in it.

The readers here are definitions of their own. They serve to say that a numeral is still the one of
the number it was written for.
-/
namespace DepsManifest.Text

/-! ## Digits -/

/-- The number that digits in a base spell. -/
def valueIn (base : Nat) (digits : List Char) : Nat :=
  digits.foldl (fun n c => n * base + (digitValue? base c).getD 0) 0

/-- The number that a text spells in a base; nothing if it is empty or has another character than
digits. -/
def readNumeral? (base : Nat) (cs : List Char) : Option Nat :=
  if cs ≠ [] ∧ cs.all (fun c => (digitValue? base c).isSome) then some (valueIn base cs) else none

variable {base : Nat}

theorem digitValue?_digitChar_of_lt (hbase : base ≤ 16) {n : Nat} (hn : n < base) :
    digitValue? base (Nat.digitChar n) = some n := by
  have hsixteen : digitValue? 16 (Nat.digitChar n) = some n := digitValue?_digitChar n (by omega)
  rw [digitValue?, Option.filter_eq_some_iff] at hsixteen ⊢
  exact ⟨hsixteen.1, decide_eq_true hn⟩

theorem valueIn_toDigits (hone : 1 < base) (hbase : base ≤ 16) (n : Nat) :
    valueIn base (Nat.toDigits base n) = n := by
  induction n using Nat.strongRecOn with
  | ind n ih =>
      rcases Nat.lt_or_ge n base with hn | hn
      · rw [Nat.toDigits_of_lt_base hn]
        simp [valueIn, digitValue?_digitChar_of_lt hbase hn]
      · have hless : n / base < n := Nat.div_lt_self (by omega) hone
        have hlast : n % base < base := Nat.mod_lt n (by omega)
        rw [Nat.toDigits_of_base_le hone hn, valueIn, List.foldl_append, ← valueIn, ih _ hless]
        simp [digitValue?_digitChar_of_lt hbase hlast, Nat.div_add_mod']

theorem valueIn_zeros (hbase : 0 < base) (k : Nat) (digits : List Char) :
    valueIn base (List.replicate k '0' ++ digits) = valueIn base digits := by
  induction k with
  | zero => rfl
  | succ k ih =>
      have hzero : digitValue? base '0' = some 0 := by simp [digitValue?, hbase]
      rw [valueIn, List.replicate_succ, List.cons_append, List.foldl_cons, hzero, Option.getD_some,
        Nat.zero_mul]
      exact ih

theorem readNumeral?_zeros (hbase : 0 < base) {digits : List Char} (h : digits ≠ []) (k : Nat) :
    readNumeral? base (List.replicate k '0' ++ digits) = readNumeral? base digits := by
  have hzero : (digitValue? base '0').isSome = true := by simp [digitValue?, hbase]
  have hall : (List.replicate k '0' ++ digits).all (fun c => (digitValue? base c).isSome) =
      digits.all fun c => (digitValue? base c).isSome := by
    rw [List.all_append, List.all_eq_true.mpr, Bool.true_and]
    intro c hc
    rwa [(List.mem_replicate.mp hc).2]
  have hne : List.replicate k '0' ++ digits ≠ [] := List.append_ne_nil_of_right_ne_nil _ h
  simp only [readNumeral?, hall, valueIn_zeros hbase, h, hne, ne_eq, not_false_eq_true]

theorem exists_of_mem_toDigits (hone : 1 < base) {n : Nat} {c : Char}
    (h : c ∈ Nat.toDigits base n) : ∃ k < base, c = Nat.digitChar k := by
  induction n using Nat.strongRecOn with
  | ind n ih =>
      rcases Nat.lt_or_ge n base with hn | hn
      · rw [Nat.toDigits_of_lt_base hn, List.mem_singleton] at h
        exact ⟨n, hn, h⟩
      · rw [Nat.toDigits_of_base_le hone hn, List.mem_append, List.mem_singleton] at h
        rcases h with h | h
        · exact ih (n / base) (Nat.div_lt_self (by omega) hone) h
        · exact ⟨n % base, Nat.mod_lt n (by omega), h⟩

theorem not_mem_toDigits (hone : 1 < base) (hbase : base ≤ 16) {c : Char}
    (hc : ∀ k < 16, c ≠ Nat.digitChar k) (n : Nat) : c ∉ Nat.toDigits base n := by
  intro hmem
  obtain ⟨k, hk, heq⟩ := exists_of_mem_toDigits hone hmem
  exact hc k (by omega) heq

/-! ## Signs -/

/-- A signed number in the digits of a base. -/
def signedNumeral (base : Nat) (i : Int) : List Char :=
  if i < 0 then '-' :: Nat.toDigits base i.natAbs else Nat.toDigits base i.natAbs

/-- The number that digits of a base spell after a minus sign, or without one. -/
def readSigned? (base : Nat) : List Char → Option Int
  | '-' :: digits => (readNumeral? base digits).map fun n : Nat => -(n : Int)
  | digits => (readNumeral? base digits).map fun n : Nat => (n : Int)

theorem readSigned?_of_not_mem {digits : List Char} (h : '-' ∉ digits) :
    readSigned? base digits = (readNumeral? base digits).map fun n : Nat => (n : Int) := by
  rw [readSigned?]
  rintro _ rfl
  exact h List.mem_cons_self

theorem space_not_mem_signedNumeral (hone : 1 < base) (hbase : base ≤ 16) (i : Int) :
    ' ' ∉ signedNumeral base i := by
  have hdigits : ' ' ∉ Nat.toDigits base i.natAbs := not_mem_toDigits hone hbase (by decide) _
  rw [signedNumeral]
  split
  · exact List.not_mem_cons_of_ne_of_not_mem (by decide) hdigits
  · exact hdigits

theorem readSigned?_signedNumeral (hone : 1 < base) (hbase : base ≤ 16) (i : Int) :
    readSigned? base (signedNumeral base i) = some i := by
  have hread : readNumeral? base (Nat.toDigits base i.natAbs) = some i.natAbs := by
    rw [readNumeral?, if_pos, valueIn_toDigits hone hbase]
    refine ⟨Nat.toDigits_ne_nil, List.all_eq_true.mpr fun c hc => ?_⟩
    obtain ⟨k, hk, rfl⟩ := exists_of_mem_toDigits hone hc
    rw [digitValue?_digitChar_of_lt hbase hk]
    rfl
  rw [signedNumeral]
  split
  · rw [readSigned?, hread, Option.map_some, Option.some.injEq]
    omega
  · rw [readSigned?_of_not_mem (not_mem_toDigits hone hbase (by decide) _), hread, Option.map_some,
      Option.some.injEq]
    omega

/-- Zeros between the sign and the digits do not change what is read. -/
theorem readSigned?_zeros (hbase : 0 < base) {sign digits : List Char} {i : Int}
    (hsign : sign = [] ∨ sign = ['-']) (hdigits : '-' ∉ digits)
    (hread : readSigned? base (sign ++ digits) = some i) (k : Nat) :
    readSigned? base (sign ++ (List.replicate k '0' ++ digits)) = some i := by
  have hne : digits ≠ [] := by
    rintro rfl
    rcases hsign with rfl | rfl
    · cases hread
    · cases hread
  have hzeros : '-' ∉ List.replicate k '0' ++ digits := by
    rw [List.mem_append, List.mem_replicate]
    rintro (⟨-, h⟩ | h)
    · cases h
    · exact hdigits h
  rcases hsign with rfl | rfl
  · rw [List.nil_append, readSigned?_of_not_mem hdigits] at hread
    rw [List.nil_append, readSigned?_of_not_mem hzeros, readNumeral?_zeros hbase hne, hread]
  · rw [List.singleton_append, readSigned?] at hread ⊢
    rw [readNumeral?_zeros hbase hne, hread]

/-! ## Spaces -/

/-- A text without the spaces at its ends. -/
def trimmed (cs : List Char) : List Char := (cs.dropWhile (· == ' ')).rdropWhile (· == ' ')

theorem dropWhile_spaces_append {cs : List Char} (h : ' ' ∉ cs) (k : Nat) :
    (List.replicate k ' ' ++ cs).dropWhile (· == ' ') = cs := by
  rw [List.dropWhile_append_of_pos]
  · cases cs with
    | nil => rfl
    | cons c cs =>
        exact List.dropWhile_cons_of_neg (by simpa using Ne.symm (List.ne_of_not_mem_cons h))
  · intro c hc
    rw [(List.mem_replicate.mp hc).2]
    rfl

theorem rdropWhile_append_spaces {cs : List Char} (h : ' ' ∉ cs) (k : Nat) :
    (cs ++ List.replicate k ' ').rdropWhile (· == ' ') = cs := by
  have hreverse : ' ' ∉ cs.reverse := fun hmem => h (List.mem_reverse.mp hmem)
  rw [List.rdropWhile, List.reverse_append, List.reverse_replicate,
    dropWhile_spaces_append hreverse, List.reverse_reverse]

theorem trimmed_spaces_append {cs : List Char} (h : ' ' ∉ cs) (k : Nat) :
    trimmed (List.replicate k ' ' ++ cs) = cs := by
  rw [trimmed, dropWhile_spaces_append h]
  simpa using rdropWhile_append_spaces h 0

theorem trimmed_of_not_mem {cs : List Char} (h : ' ' ∉ cs) : trimmed cs = cs :=
  trimmed_spaces_append h 0

theorem trimmed_append_spaces {cs : List Char} (h : ' ' ∉ cs) (k : Nat) :
    trimmed (cs ++ List.replicate k ' ') = cs := by
  cases cs with
  | nil => simpa using trimmed_spaces_append h k
  | cons c cs =>
      have hc : ¬ (c == ' ') = true := by simpa using Ne.symm (List.ne_of_not_mem_cons h)
      have hkept : ((c :: cs) ++ List.replicate k ' ').dropWhile (· == ' ') =
          (c :: cs) ++ List.replicate k ' ' := List.dropWhile_cons_of_neg hc
      rw [trimmed, hkept, rdropWhile_append_spaces h]

end DepsManifest.Text
