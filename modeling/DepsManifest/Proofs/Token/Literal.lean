import DepsManifest.Proofs.Token.Bodies
import DepsManifest.Token.Lexeme
import DepsManifest.Value.Literal
/-! # Printed strings are read back

A string between quotes, as `Value.literalString` prints it, is one literal for the reader, and its
text is the string (`Lexeme.at?_literalString`). It is so whatever follows, unless that is a quote:
an empty string before a quote would open a literal with three of them.

Printing takes one character at a time, in one of three forms (`PrintedChar`): the character itself,
an escape by a letter, or an escape by its code. Each is a unit that means the character
(`PrintedChar.means`). So what is known of bodies that are made of units holds of a printed string:

  * the body ends at the closing quote (`body?_flatMap_literalChar`);
  * it means the string (`means_flatMap_literalChar`);
  * the delimiter is the one quote (`opening?_quote`).

A printed string has no line breaks in it, so it stays on its line.
-/
namespace DepsManifest

open Value (literalChar literalString quoteFor)

/-! ## Printed characters -/

/-- The forms that a character of a string has between quotes: itself, an escape by a letter, or an
escape by its code. -/
inductive PrintedChar (quote c : Char) : List Char → Prop
  | plain : c ≠ '\\' → c ≠ '\n' → c ≠ quote → PrintedChar quote c [c]
  | letter {d : Char} : d ≠ '\n' → d ≠ '\r' → Literal.letterEscape? d = some c →
      PrintedChar quote c ['\\', d]
  | code : c.toNat < 256 → PrintedChar quote c
      ['\\', 'x', Nat.digitChar (c.toNat / 16), Nat.digitChar (c.toNat % 16)]

theorem isQuote_quoteFor (s : List Char) : Literal.isQuote (quoteFor s) = true := by
  unfold quoteFor
  split <;> rfl

theorem printedChar_literalChar {q : Char} (hq : Literal.isQuote q = true) (c : Char) :
    PrintedChar q c (literalChar q c) := by
  unfold literalChar
  split
  case isTrue h =>
    subst h
    exact .letter (by decide) (by decide) rfl
  split
  case isTrue h =>
    subst h
    exact .letter (by decide) (by decide) rfl
  split
  case isTrue h =>
    subst h
    exact .letter (by decide) (by decide) rfl
  split
  case isTrue h =>
    subst h
    exact .letter (by decide) (by decide) rfl
  split
  case isTrue h =>
    subst h
    rcases eq_quotes_of_isQuote hq with rfl | rfl
    · exact .letter (by decide) (by decide) rfl
    · exact .letter (by decide) (by decide) rfl
  split
  case isTrue h => exact .code (by omega)
  case isFalse hslash hnewline _ _ hquote _ => exact .plain hslash hnewline hquote

theorem digitChar_ne {n : Nat} (h : n < 16) {d : Char} (hd : Text.digitValue? 16 d = none) :
    Nat.digitChar n ≠ d := by
  intro heq
  rw [← heq, Text.digitValue?_digitChar n h] at hd
  cases hd

theorem PrintedChar.newline_not_mem {q c : Char} {piece : List Char} (h : PrintedChar q c piece) :
    '\n' ∉ piece := by
  cases h with
  | plain _ hnewline _ => simpa using hnewline.symm
  | letter hnewline _ _ => simpa using hnewline.symm
  | code hc =>
      have hhigh : Nat.digitChar (c.toNat / 16) ≠ '\n' := digitChar_ne (by omega) rfl
      have hlow : Nat.digitChar (c.toNat % 16) ≠ '\n' := digitChar_ne (by omega) rfl
      simp [hhigh.symm, hlow.symm]

theorem newline_not_mem_literalString (s : List Char) : '\n' ∉ literalString s := by
  have hq := isQuote_quoteFor s
  have hquote : '\n' ≠ quoteFor s := by
    intro h
    rw [← h] at hq
    cases hq
  have hbody : '\n' ∉ s.flatMap (literalChar (quoteFor s)) := by
    intro hmem
    obtain ⟨c, -, hc⟩ := List.mem_flatMap.mp hmem
    exact (printedChar_literalChar hq c).newline_not_mem hc
  simp [literalString, hquote, hbody]

/-! ## The meaning of a printed string -/

theorem mem_escapedLetters {c d : Char} (h : Literal.letterEscape? d = some c) :
    (d, c) ∈ Literal.escapedLetters := by
  unfold Literal.letterEscape? at h
  split_ifs at h <;> subst d <;> cases h <;> decide

/-- A printed character is a unit that means the character. -/
theorem PrintedChar.means {q c : Char} {piece body text : List Char} (h : PrintedChar q c piece)
    (hbody : Literal.Means ⟨q, false⟩ body text) :
    Literal.Means ⟨q, false⟩ (piece ++ body) (c :: text) := by
  cases h with
  | plain hslash hnewline hquote => exact .plain hslash hquote (fun _ => hnewline) hbody
  | letter _ _ hmeaning => exact .letter (mem_escapedLetters hmeaning) hbody
  | code hc =>
      have hhigh := Text.digitValue?_digitChar (c.toNat / 16) (by omega)
      have hlow := Text.digitValue?_digitChar (c.toNat % 16) (by omega)
      have hdigits : ∀ d ∈ [Nat.digitChar (c.toNat / 16), Nat.digitChar (c.toNat % 16)],
          (Text.digitValue? 16 d).isSome = true := by
        simp [hhigh, hlow]
      have hvalue : Text.valueIn 16 [Nat.digitChar (c.toNat / 16), Nat.digitChar (c.toNat % 16)] =
          c.toNat := by
        simp only [Text.valueIn, List.foldl_cons, List.foldl_nil, hhigh, hlow, Option.getD_some]
        omega
      have hvalid : (Text.valueIn 16 [Nat.digitChar (c.toNat / 16),
          Nat.digitChar (c.toNat % 16)]).isValidChar := by
        rw [hvalue]
        exact c.valid
      have hcode := Literal.Means.code (List.mem_cons_self : ('x', 2) ∈ Literal.codeMarkers) hdigits
        hvalid hbody
      rwa [hvalue, Char.ofNat_toNat] at hcode

theorem means_flatMap_literalChar {q : Char} (hq : Literal.isQuote q = true) (s : List Char) :
    Literal.Means ⟨q, false⟩ (s.flatMap (literalChar q)) s := by
  induction s with
  | nil => exact .nil
  | cons c s ih =>
      rw [List.flatMap_cons]
      exact (printedChar_literalChar hq c).means ih

theorem body?_flatMap_literalChar {q : Char} (hq : Literal.isQuote q = true) (s cs : List Char) :
    (⟨q, false⟩ : Delimiter).body? (s.flatMap (literalChar q) ++ q :: cs) =
      some (s.flatMap (literalChar q)) := by
  have hends : (q :: cs).head? ≠ some '\n' := by
    intro hhead
    rw [Option.some.inj hhead] at hq
    cases hq
  have hclosed : (⟨q, false⟩ : Delimiter).body? (q :: cs) = some [] := Delimiter.body?_chars hq cs
  rw [(means_flatMap_literalChar hq s).body?_append hq hends, hclosed]
  exact congrArg some (List.append_nil _)

theorem opening?_quote {q : Char} (hq : Literal.isQuote q = true) (s : List Char)
    {rest : List Char} (hrest : ∀ c ∈ rest.head?, Literal.isQuote c = false) :
    Literal.opening? (q :: (s.flatMap (literalChar q) ++ q :: rest)) =
      some ([], ⟨q, false⟩, s.flatMap (literalChar q) ++ q :: rest) := by
  have hsingle : Literal.delimiter q (s.flatMap (literalChar q) ++ q :: rest) = ⟨q, false⟩ := by
    refine (means_flatMap_literalChar hq s).delimiter_eq hq fun _ hquotes => ?_
    obtain ⟨more, hmore⟩ := (List.cons_prefix_cons.mp hquotes).2
    rw [← hmore] at hrest
    exact Bool.false_ne_true ((hrest q rfl).symm.trans hq)
  have hunmarked : ∀ c ∈ ([] : List Char), Literal.isMark c = true := nofun
  have hopening := Literal.opening?_append_cons (by decide) hunmarked hq
    (s.flatMap (literalChar q) ++ q :: rest)
  rwa [hsingle] at hopening

/-- A printed string is one literal with the string as its text, unless a quote follows it. -/
theorem at?_literalString (s : List Char) {rest : List Char}
    (hrest : ∀ c ∈ rest.head?, Literal.isQuote c = false) :
    Lexeme.at? (quoteFor s) (s.flatMap (literalChar (quoteFor s)) ++ quoteFor s :: rest) =
      .ok ⟨.literal .text (String.ofList s), literalString s⟩ := by
  have hq := isQuote_quoteFor s
  simp only [Lexeme.at?, opening?_quote hq s hrest, Lexeme.literalAt,
    body?_flatMap_literalChar hq, Literal.decode, Literal.isRaw, Literal.hasMark, List.any_nil,
    Bool.false_eq_true, if_false, (means_flatMap_literalChar hq s).unescape_eq, ok_bind]
  rfl

end DepsManifest
