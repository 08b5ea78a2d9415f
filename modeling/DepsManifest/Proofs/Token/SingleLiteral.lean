import DepsManifest.Proofs.Token.Lines
/-! # Texts of one literal

A text that is one literal has that literal as its only token, and `Token.ofText_literal` says what
it means, for all marks and delimiters and for every body that is made of units:

  * without a raw mark it is what the units of the body mean, one after the other;
  * with a raw mark it is the body itself, backslashes included;
  * an escape that stands for no character is a fault, whatever comes after it; or the literal has
    no end, and then that is the fault.

The marks and the delimiter open the literal (`Literal.Means.opens`), the body is closed by the
delimiter, and nothing is left of the text. The condition on marks is that of the lexer, which takes
two of them at most. More would begin a name.
-/
namespace DepsManifest

open Text

namespace Literal

variable {d : Delimiter} {body text : List Char}

/-- Marks and a delimiter open a literal whose body is made of units. -/
theorem Means.opens (h : Means d body text) {marks cs : List Char} (hfew : marks.length ≤ 2)
    (hmarked : ∀ c ∈ marks, isMark c = true) (hquote : isQuote d.quote = true)
    (hcs : d.triple = false → ¬[d.quote, d.quote] <+: cs) : Opens marks d (body ++ cs) :=
  ⟨hfew, hmarked, hquote, (h.delimiter_eq hquote hcs).symm⟩

theorem isRaw_eq_true_iff {marks : List Char} : isRaw marks = true ↔ 'r' ∈ marks ∨ 'R' ∈ marks := by
  rw [isRaw, hasMark, List.any_eq_true]
  constructor
  · rintro ⟨c, hc, hraw⟩
    rw [Bool.or_eq_true, beq_iff_eq, beq_iff_eq] at hraw
    rcases hraw with rfl | rfl
    · exact .inl hc
    · exact .inr hc
  · rintro (hc | hc)
    · exact ⟨_, hc, rfl⟩
    · exact ⟨_, hc, rfl⟩

theorem decode_of_raw {marks : List Char} (h : isRaw marks = true) (body : List Char) :
    decode marks body = .ok body :=
  if_pos h

theorem decode_of_not_raw {marks : List Char} (h : isRaw marks = false) (body : List Char) :
    decode marks body = unescape body :=
  if_neg (Bool.eq_false_iff.mp h)

end Literal

namespace Lexeme

theorem at?_of_opens {marks after : List Char} {d : Delimiter} (h : Literal.Opens marks d after) :
    ∃ c cs, marks ++ (d.chars ++ after) = c :: cs ∧ at? c cs = literalAt marks d after := by
  obtain ⟨more, hmore⟩ := d.chars_eq_cons
  cases htext : marks ++ (d.chars ++ after) with
  | nil =>
      rw [hmore] at htext
      cases (List.append_eq_nil_iff.mp htext).2
  | cons c cs =>
      exact ⟨c, cs, rfl, at?_of_opening? (Literal.opening?_eq_some_iff.mpr ⟨h, htext.symm⟩)⟩

end Lexeme

namespace Token

variable {marks body text : List Char} {d : Delimiter}

def ofLiteral (marks : List Char) (d : Delimiter) (body text : List Char) : List Token :=
  let line := 1 + (marks ++ d.chars ++ body ++ d.chars).count '\n'
  [⟨.literal (Literal.kind marks) (String.ofList text), 1, 0⟩, ⟨.newline, line, 0⟩,
  ⟨.endOfText, line, 0⟩]

/-- A literal that is all of a text. -/
theorem ofChars_literal (hopens : Literal.Opens marks d (body ++ d.chars))
    (hbody : d.body? (body ++ d.chars) = some body)
    (hdecode : Literal.decode marks body = .ok text) :
    ofChars (marks ++ d.chars ++ body ++ d.chars) = .ok (ofLiteral marks d body text) := by
  obtain ⟨c, cs, htext, hat⟩ := Lexeme.at?_of_opens hopens
  rw [Lexeme.literalAt_eq_ok.mpr ⟨body, text, hbody, hdecode, rfl⟩] at hat
  have hchars : marks ++ d.chars ++ body ++ d.chars = c :: cs := by
    rw [← htext]
    simp only [List.append_assoc]
  rw [← List.append_nil cs] at hat
  have hall := Lexeme.all_append_of_at? hchars hat
  dsimp only at hall
  rw [List.append_nil] at hall
  rw [ofChars, hall]
  have hline := Position.line_after_eq .start (marks ++ d.chars ++ body ++ d.chars)
  refine layOut_cons_eq_ok.mpr ⟨_, _, rfl, _, rfl, ?_⟩
  rw [hline]
  rfl

theorem ofChars_literal_error {after : List Char} {fault : SyntaxFault}
    (hopens : Literal.Opens marks d after) (h : Lexeme.literalAt marks d after = .error fault) :
    ofChars (marks ++ (d.chars ++ after)) = .error ⟨1, fault⟩ := by
  obtain ⟨c, cs, htext, hat⟩ := Lexeme.at?_of_opens hopens
  rw [h] at hat
  rw [htext, ofChars, Lexeme.all_of_at?_error hat]
  rfl

theorem ofChars_means (hfew : marks.length ≤ 2) (hmarked : ∀ c ∈ marks, Literal.isMark c = true)
    (hquote : Literal.isQuote d.quote = true) (h : Literal.Means d body text) {value : List Char}
    (hdecode : Literal.decode marks body = .ok value) :
    ofChars (marks ++ d.chars ++ body ++ d.chars) = .ok (ofLiteral marks d body value) := by
  have hopens : Literal.Opens marks d (body ++ d.chars) := by
    refine h.opens hfew hmarked hquote fun hsingle hquotes => ?_
    rw [Delimiter.chars, if_neg (Bool.eq_false_iff.mp hsingle)] at hquotes
    exact Nat.not_succ_le_self 1 hquotes.length_le
  have hbody : d.body? (body ++ d.chars) = some body := by
    obtain ⟨more, hmore⟩ := d.chars_eq_cons
    have hends : d.chars.head? ≠ some '\n' := by
      rw [hmore]
      exact fun heq => Delimiter.quote_ne hquote rfl (Option.some.inj heq)
    have hclosed := Delimiter.body?_chars hquote []
    rw [List.append_nil] at hclosed
    rw [h.body?_append hquote hends, hclosed]
    exact congrArg some (List.append_nil body)
  exact ofChars_literal hopens hbody hdecode

theorem ofChars_badEscape (hfew : marks.length ≤ 2) (hmarked : ∀ c ∈ marks, Literal.isMark c = true)
    (hquote : Literal.isQuote d.quote = true) (h : Literal.Means d body text)
    (hplain : Literal.isRaw marks = false) {cs : List Char} {fault : SyntaxFault}
    (hbad : Literal.BadEscape cs fault) : ofChars (marks ++ d.chars ++ body ++ cs) =
      .error ⟨1, if (d.body? cs).isSome then fault else .unterminatedLiteral⟩ := by
  obtain ⟨later, rfl⟩ := hbad.exists_eq_cons
  have hopens : Literal.Opens marks d (body ++ '\\' :: later) :=
    h.opens hfew hmarked hquote fun _ hquotes =>
      Delimiter.quote_ne hquote rfl (List.cons_prefix_cons.mp hquotes).1
  have hends : ('\\' :: later).head? ≠ some '\n' := nofun
  rw [List.append_assoc, List.append_assoc]
  refine ofChars_literal_error hopens ?_
  rw [Lexeme.literalAt, h.body?_append hquote hends]
  cases hmore : d.body? ('\\' :: later) with
  | none => rfl
  | some more =>
      have hfault := h.unescape_of_bad (hbad.of_body? hquote hmore)
      show (Literal.decode marks (body ++ more) >>= _) = _
      rw [Literal.decode_of_not_raw hplain, hfault]
      rfl

/-- A text that is one literal has that literal as its only token. Without a raw mark the literal
means what the units of its body mean, and an escape that stands for no character is a fault, or the
literal has no end. With a raw mark the literal means its body. -/
theorem ofText_literal (hfew : marks.length ≤ 2) (hmarked : ∀ c ∈ marks, Literal.isMark c = true)
    (hquote : Literal.isQuote d.quote = true) (h : Literal.Means d body text) :
    ('r' ∉ marks ∧ 'R' ∉ marks →
      ofText (String.ofList (marks ++ d.chars ++ body ++ d.chars)) =
        .ok (ofLiteral marks d body text) ∧
      ∀ cs fault, Literal.BadEscape cs fault →
        ofText (String.ofList (marks ++ d.chars ++ body ++ cs)) =
          .error ⟨1, if (d.body? cs).isSome then fault else .unterminatedLiteral⟩) ∧
    ('r' ∈ marks ∨ 'R' ∈ marks →
      ofText (String.ofList (marks ++ d.chars ++ body ++ d.chars)) =
        .ok (ofLiteral marks d body body)) := by
  simp only [ofText, String.toList_ofList]
  refine ⟨fun hplain => ?_, fun hraw => ?_⟩
  · have hnot : Literal.isRaw marks = false := by
      rw [Bool.eq_false_iff, Ne, Literal.isRaw_eq_true_iff, not_or]
      exact hplain
    have hdecode := (Literal.decode_of_not_raw hnot body).trans h.unescape_eq
    exact ⟨ofChars_means hfew hmarked hquote h hdecode,
      fun cs fault hbad => ofChars_badEscape hfew hmarked hquote h hnot hbad⟩
  · have hall := Literal.isRaw_eq_true_iff.mpr hraw
    exact ofChars_means hfew hmarked hquote h (Literal.decode_of_raw hall body)

theorem ofText_literal_units :
    ofText "u\"\"\"é\\t\\7\\x41\\\r\n\\q\n\"\"\"" = .ok [⟨.literal .text "é\t\x07A\\q\n", 1, 0⟩,
      ⟨.newline, 3, 0⟩, ⟨.endOfText, 3, 0⟩] ∧
    ofText "u\"\"\"é\\t\\7\\x41\\\r\n\\q\n\\ud800\"\"\"" =
      .error ⟨1, .invalidCodePoint 'u' 0xd800⟩ := by
  have hmarked : ∀ c ∈ ['u'], Literal.isMark c = true := forall_of_all (by decide)
  have hoctal : ∀ c ∈ ['7'], (digitValue? 8 c).isSome = true := forall_of_all (by decide)
  have hcode : ∀ c ∈ ['4', '1'], (digitValue? 16 c).isSome = true := forall_of_all (by decide)
  have hinvalid : ∀ c ∈ ['d', '8', '0', '0'], (digitValue? 16 c).isSome = true :=
    forall_of_all (by decide)
  have hend : Literal.Means ⟨'"', true⟩ ['\\', 'q', '\n'] ['\\', 'q', '\n'] :=
    .other (by decide) (by decide) rfl (by decide) (.plain (by decide) (by decide) nofun .nil)
  have hends : ∀ c ∈ ('\\' :: 'x' :: (['4', '1'] ++ ['\\', '\r', '\n', '\\', 'q', '\n'])).head?,
      digitValue? 8 c = none := by
    rintro _ ⟨⟩
    rfl
  have hcodes : Literal.Means ⟨'"', true⟩
      ('\\' :: (['7'] ++ '\\' :: 'x' :: (['4', '1'] ++ ['\\', '\r', '\n', '\\', 'q', '\n'])))
      ['\x07', 'A', '\\', 'q', '\n'] :=
    .octal (by decide) (by decide) hoctal (fun _ => hends)
      (.code (by decide) hcode (by decide) (.returnAndLineFeed hend))
  have hmeans : Literal.Means ⟨'"', true⟩ ('é' :: '\\' :: 't' :: _) ('é' :: '\t' :: _) :=
    .plain (by decide) (by decide) nofun (.letter (by decide) hcodes)
  obtain ⟨htokens, hfaults⟩ := (ofText_literal (by decide) hmarked rfl hmeans).1 (by decide)
  have hbad : Literal.BadEscape ('\\' :: 'u' :: (['d', '8', '0', '0'] ++ ['"', '"', '"']))
      (.invalidCodePoint 'u' (valueIn 16 ['d', '8', '0', '0'])) :=
    .noCharacter (by decide) hinvalid (by decide)
  have hfault := hfaults _ _ hbad
  refine ⟨Eq.trans ?_ (htokens.trans ?_), Eq.trans ?_ (hfault.trans ?_)⟩
  · exact congrArg ofText (by decide +kernel)
  · exact congrArg Except.ok (by decide +kernel)
  · exact congrArg ofText (by decide +kernel)
  · exact congrArg Except.error (by decide +kernel)

end Token

end DepsManifest
