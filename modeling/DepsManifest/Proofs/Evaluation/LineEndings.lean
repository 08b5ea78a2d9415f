import DepsManifest.Proofs.Evaluation.Concatenation
import DepsManifest.Proofs.Token.LineEndings
/-! # Manifests whose lines end with a carriage return

A manifest may come with either kind of line ends: a line feed alone, or a carriage return before
it. It is read as the same statements, at the same lines (`Module.ofText_crlf`), so it defines the
same (`Module.executeText_crlf`). Two hypotheses bound this:

  * the text has no carriage returns of its own. A carriage return that stands alone is not the end
    of a line, and another one before a line feed would be doubled;
  * no literal keeps a line break (`Lexeme.keepsBreak`), that is, none between three quotes or
    without escapes has one in it. A backslash before the line break is no such case, as it takes
    the whole break away.

The second one cannot be left out: a literal that keeps a line break keeps its carriage return with
it, and then the values differ (`Module.executeText_crlf_tripleQuoted`). That the tokens are the
same is proved for the lexer; that nothing but tokens counts makes it a statement about modules.
-/
namespace DepsManifest

open Text

namespace Module

theorem ofText_crlf {text : String} {m : Module} (hreturn : '\r' ∉ text.toList)
    (hkept : ∀ l ∈ (Lexeme.all text.toList).1, l.keepsBreak = false) (h : ofText text = .ok m) :
    ofText (.ofList (crlf text.toList)) = .ok m := by
  obtain ⟨ts, hts, hbody⟩ := ofText_eq_ok_iff.mp h
  obtain ⟨line, ts', hts', hahead⟩ := Token.ofChars_crlf hreturn hkept hts
  have hdeep := Parse.Grammar.alike_grammar id (Nat.succ_le_succ hahead.length_le)
  have hlines :=
    Parse.statements_ahead hdeep rfl hahead hbody (.inr fun _ => rfl) (Nat.lt_succ_self _)
  rw [List.map_congr_left fun t _ => t.moved_id, List.map_id', List.append_nil] at hlines
  refine ofText_eq_ok_iff.mpr ⟨ts', ?_, hlines⟩
  rw [Token.ofText, String.toList_ofList]
  exact hts'

/-- A manifest without carriage returns, none of whose literals keeps a line break, defines the same
when each of its lines ends with a carriage return and a line feed. -/
theorem executeText_crlf {fs : Functions} {text : String} {scope : Scope}
    (hreturn : '\r' ∉ text.toList)
    (hkept : ∀ l ∈ (Lexeme.all text.toList).1, l.keepsBreak = false)
    (h : executeText fs text = .ok scope) :
    executeText fs (.ofList (crlf text.toList)) = .ok scope := by
  obtain ⟨m, hm, hexecute⟩ := executeText_eq_ok_iff.mp h
  exact executeText_eq_ok_iff.mpr ⟨m, ofText_crlf hreturn hkept hm, hexecute⟩

/-- A comment, a literal that a backslash continues on the next line, and a list over two lines. -/
theorem executeText_crlf_continued :
    executeText .strOnly (.ofList (crlf "# c\nx = ['a\\\nb', # d\n'c']\n".toList)) =
      .ok ⟨⟨[("x", ⟨.list [.str "ab", .str "c"], some 2⟩)], by decide⟩⟩ := by
  refine executeText_crlf (by decide) (by decide +kernel) ?_
  have htokens : Token.ofText "# c\nx = ['a\\\nb', # d\n'c']\n" = .ok [⟨.name "x", 2, 0⟩,
      ⟨.op .assign, 2, 2⟩, ⟨.op .leftBracket, 2, 4⟩, ⟨.literal .text "ab", 2, 5⟩,
      ⟨.op .comma, 3, 2⟩,
      ⟨.literal .text "c", 4, 0⟩, ⟨.op .rightBracket, 4, 3⟩, ⟨.newline, 4, 4⟩,
      ⟨.endOfText, 5, 0⟩] := by
    decide +kernel
  rw [executeText, ofText, htokens]
  rfl

/-- A literal between three quotes keeps its line breaks, with the carriage returns before them. -/
theorem executeText_crlf_tripleQuoted :
    '\r' ∉ "x = '''a\nb'''\n".toList ∧
      executeText .strOnly "x = '''a\nb'''\n" =
        .ok ⟨⟨[("x", ⟨.str "a\nb", some 1⟩)], by decide⟩⟩ ∧
      executeText .strOnly (.ofList (crlf "x = '''a\nb'''\n".toList)) =
        .ok ⟨⟨[("x", ⟨.str "a\r\nb", some 1⟩)], by decide⟩⟩ := by
  have htokens : Token.ofText "x = '''a\nb'''\n" = .ok [⟨.name "x", 1, 0⟩, ⟨.op .assign, 1, 2⟩,
      ⟨.literal .text "a\nb", 1, 4⟩, ⟨.newline, 2, 4⟩, ⟨.endOfText, 3, 0⟩] := by decide +kernel
  have hcrlf : Token.ofText (.ofList (crlf "x = '''a\nb'''\n".toList)) = .ok [⟨.name "x", 1, 0⟩,
      ⟨.op .assign, 1, 2⟩, ⟨.literal .text "a\r\nb", 1, 4⟩, ⟨.newline, 2, 4⟩,
      ⟨.endOfText, 3, 0⟩] := by decide +kernel
  refine ⟨by decide, ?_, ?_⟩
  · rw [executeText, ofText, htokens]
    rfl
  · rw [executeText, ofText, hcrlf]
    rfl

end Module

end DepsManifest
