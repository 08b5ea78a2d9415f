import DepsManifest.Proofs.Text.Numerals
import DepsManifest.Text.Quoted
/-! # Quotations end where they end

A quoted text can be taken off the beginning of a text, whatever follows it (`quotedBy_append_inj`).
So two texts with one quotation are the same text, and the beginning and the rest can be told apart,
whatever quotes, backslashes and brackets the text holds.

An escape says itself how far it goes and which character it stands for (`firstCharacter?_escaped`).
A character that is written by its number has its digits in braces, and every other escape has one
character after the backslash. The closing quote is the only one without a backslash
(`escaped_append_ne`), so the induction over the quoted text ends where it does.
-/
namespace DepsManifest.Text

/-! ## Hexadecimal numbers -/

/-- The number that hexadecimal digits spell. -/
def hexadecimalValue (cs : List Char) : Nat :=
  cs.foldl (fun n c => n * 16 + (digitValue? 16 c).getD 0) 0

theorem exists_of_mem_hexadecimal {n : Nat} {c : Char} (h : c ∈ hexadecimal n) :
    ∃ k < 16, c = Nat.digitChar k :=
  exists_of_mem_toDigits (by decide) h

theorem hexadecimalValue_hexadecimal (n : Nat) : hexadecimalValue (hexadecimal n) = n :=
  valueIn_toDigits (by decide) (Nat.le_refl 16) n

/-! ## Escapes -/

/-- The character that the beginning of a quotation stands for, and what follows it. -/
def firstCharacter? : List Char → Option (Char × List Char)
  | '\\' :: '0' :: rest => some ('\x00', rest)
  | '\\' :: 't' :: rest => some ('\t', rest)
  | '\\' :: 'r' :: rest => some ('\r', rest)
  | '\\' :: 'n' :: rest => some ('\n', rest)
  | '\\' :: 'u' :: _ :: rest =>
    let digits := rest.takeWhile (· ≠ '\x7d')
    some (Char.ofNat (hexadecimalValue digits), rest.drop (digits.length + 1))
  | '\\' :: c :: rest => some (c, rest)
  | c :: rest => some (c, rest)
  | [] => none

theorem firstCharacter?_plain {c : Char} (hc : c ≠ '\\') (rest : List Char) :
    firstCharacter? (c :: rest) = some (c, rest) := by
  rw [firstCharacter?]
  all_goals simp [hc]

theorem firstCharacter?_number (n : Nat) (rest : List Char) :
    firstCharacter? ('\\' :: 'u' :: '{' :: (hexadecimal n ++ '\x7d' :: rest)) =
      some (Char.ofNat n, rest) := by
  have hdigits : ∀ c ∈ hexadecimal n, decide (c ≠ '\x7d') = true := by
    have hdigit : ∀ k < 16, decide (Nat.digitChar k ≠ '\x7d') = true := by decide
    intro c hc
    obtain ⟨k, hk, rfl⟩ := exists_of_mem_hexadecimal hc
    exact hdigit k hk
  have htaken : (hexadecimal n ++ '\x7d' :: rest).takeWhile (· ≠ '\x7d') = hexadecimal n := by
    refine takeWhile_append_eq hdigits ?_
    rintro _ ⟨⟩
    rfl
  rw [firstCharacter?]
  rw [htaken, hexadecimalValue_hexadecimal, List.drop_length_add_append]
  rfl

/-- What a character is written as is read back as the character, whatever follows. -/
theorem firstCharacter?_escaped (c : Char) (rest : List Char) :
    firstCharacter? (escaped '"' c ++ rest) = some (c, rest) := by
  unfold escaped
  split
  case isTrue h =>
    rw [h]
    rfl
  split
  case isTrue h =>
    rw [h]
    rfl
  split
  case isTrue h =>
    rw [h]
    rfl
  split
  case isTrue h =>
    rw [h]
    rfl
  split
  case isTrue h =>
    rcases h with rfl | rfl
    · rfl
    · rfl
  case isFalse hplain =>
    split
    · have hnumber := firstCharacter?_number c.toNat rest
      rw [Char.ofNat_toNat] at hnumber
      simpa using hnumber
    · exact firstCharacter?_plain (fun h => hplain (.inl h)) rest

theorem escaped_append_ne (c : Char) (rest rest' : List Char) :
    escaped '"' c ++ rest ≠ '"' :: rest' := by
  unfold escaped
  iterate 4
    split
    · exact nofun
  split
  · rintro ⟨⟩
  rename_i hplain
  split
  · exact nofun
  · intro h
    exact hplain (.inr (List.cons.inj h).1)

/-! ## Quotations -/

theorem flatMap_escaped_append_inj {s t r r' : List Char}
    (h : s.flatMap (escaped '"') ++ '"' :: r = t.flatMap (escaped '"') ++ '"' :: r') :
    s = t ∧ r = r' := by
  induction s generalizing t with
  | nil =>
      cases t with
      | nil => exact ⟨rfl, (List.cons.inj h).2⟩
      | cons d t =>
          rw [List.flatMap_cons, List.append_assoc] at h
          exact absurd h.symm (escaped_append_ne d _ r)
  | cons c s ih =>
      cases t with
      | nil =>
          rw [List.flatMap_cons, List.append_assoc] at h
          exact absurd h (escaped_append_ne c _ r')
      | cons d t =>
          rw [List.flatMap_cons, List.flatMap_cons, List.append_assoc, List.append_assoc] at h
          have hread := congrArg firstCharacter? h
          rw [firstCharacter?_escaped, firstCharacter?_escaped, Option.some.injEq,
            Prod.mk.injEq] at hread
          obtain ⟨rfl, hrest⟩ := hread
          obtain ⟨rfl, hr⟩ := ih hrest
          exact ⟨rfl, hr⟩

/-- A quotation can be taken off the beginning of a text. -/
theorem quotedBy_append_inj {s t r r' : List Char}
    (h : quotedBy '"' s ++ r = quotedBy '"' t ++ r') : s = t ∧ r = r' := by
  simp only [quotedBy, List.cons_append, List.append_assoc, List.nil_append, List.cons.injEq,
    true_and] at h
  exact flatMap_escaped_append_inj h

end DepsManifest.Text
