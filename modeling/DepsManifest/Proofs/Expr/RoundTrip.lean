import DepsManifest.Proofs.Expr.Operators
/-! # Written expressions are read back

The text of a writable expression denotes the expression, with all of its nodes on the first line
(`Expr.ofText_text`). The text has no more parentheses than the levels of its operators ask for, so
this says that the reader groups as the writer does: at every level, on both sides.

The proof puts two halves together:

  * **lexemes** — what is written is a phrase (`Writable.phrase`), a list of lexemes none of which
    runs into the next. So the lexer cuts the text where it was put together, and the tokens are
    those of the expression, all on one line;
  * **grammar** — what is written is readable (`Writable.readable`), each of its parts in its
    position. This is one case for each form, and the lemma of the form is the whole of the case.

What is between the two is the end of the text: a line break and the end, or the end alone, and the
grammar goes on with neither (`Readable.ofTokens`).
-/
namespace DepsManifest

open Parse Token Lexeme

namespace Expr

/-- Every expression that is written is read as it is written. -/
theorem Writable.readable {e : Expr} (h : Writable e) (line : Nat) : Readable line e := by
  induction h with
  | str l text => exact readable_str l text
  | name l hn => exact readable_name l hn
  | tuple l _ ih => exact readable_tuple l ih
  | list l _ ih => exact readable_list l ih
  | dict l _ _ ih₁ ih₂ => exact readable_dict l ih₁ ih₂
  | call l _ harguments ih₁ ih₂ =>
      exact readable_call l ih₁ ih₂ fun e he => (harguments e he).phrase.assign_not_mem
  | binary l op _ _ ih₁ ih₂ =>
      by_cases hop : op = .power
      · subst hop
        exact readable_power l ih₁ ih₂
      · exact readable_binary l hop ih₁ ih₂
  | boolean l op _ _ _ ih₁ ih₂ ih₃ =>
      exact readable_boolean l op ih₁ (List.forall_mem_cons.mpr ⟨ih₂, ih₃⟩)
  | unary l op _ ih =>
      by_cases hop : op = .not
      · subst hop
        exact readable_not l ih
      · exact readable_sign l hop ih
  | compare l _ _ _ ih₁ ih₂ ih₃ =>
      exact readable_compare l ih₁ (List.forall_mem_cons.mpr ⟨ih₂, ih₃⟩)
  | conditional l _ _ _ ih₁ ih₂ ih₃ => exact readable_conditional l ih₁ ih₂ ih₃

theorem Readable.ofTokens {e : Expr} {line : Nat} (h : Readable line e) {ts tail : List Token}
    (hts : Spell line ts (kinds e.written))
    (htail : tail = [⟨.newline, line, 0⟩, ⟨.endOfText, line, 0⟩] ∨ tail = [⟨.endOfText, line, 0⟩]) :
    Expr.ofTokens (ts ++ tail) = .ok (e.onLine line) := by
  have hend : Stops 0 tail ∧ atOp .comma tail = false ∧
      (current (skipNewlines tail)).kind = .endOfText := by
    rcases htail with rfl | rfl
    · exact ⟨nofun, rfl, rfl⟩
    · exact ⟨nofun, rfl, rfl⟩
  obtain ⟨hstops, hcomma, heot⟩ := hend
  have hread : (grammarFor (ts ++ tail)).test (ts ++ tail) = .ok (e.onLine line, tail) :=
    h.test hts (by simp) hstops
  have hlist : (grammarFor (ts ++ tail)).testList false (ts ++ tail) =
      .ok (e.onLine line, tail) := Grammar.testList_single hread hcomma
  simp only [Expr.ofTokens, hlist, ok_bind, heot, if_true]
  rfl

/-- A phrase that is read as an expression is a text that denotes it. -/
theorem Readable.ofText {e : Expr} (h : Readable 1 e) (hphrase : Phrase e.written) :
    Expr.ofText e.text = .ok (e.onLine 1) := by
  obtain ⟨ts, tail, hts, htail, htokens⟩ := ofText_of_phrase hphrase
  rw [Expr.ofText, text, htokens, ok_bind]
  exact h.ofTokens hts htail

/-- The text of a writable expression denotes that expression, with its nodes on the first line. -/
theorem ofText_text {e : Expr} (h : Writable e) : Expr.ofText e.text = .ok (e.onLine 1) :=
  (h.readable 1).ofText h.phrase

/-- A chain in a chain, signs on both sides of a power, and a tuple of one item. -/
theorem ofText_text_chain :
    Expr.ofText "(a or b) or (-c) ** -d not in (\"it's\",)" =
      .ok (.boolean 1 .or [.boolean 1 .or [.name 1 "a", .name 1 "b"],
        .compare 1
          (.binary 1 .power (.unary 1 .minus (.name 1 "c")) (.unary 1 .minus (.name 1 "d")))
          [(.notMember, .tuple 1 [.str 1 "it's"])]]) := by
  have hname : ∀ n ∈ ["a", "b", "c", "d"], isWord n = true ∧ n ∉ keywords := by decide
  have hwritable : ∀ n ∈ ["a", "b", "c", "d"], Writable (.name 1 n) := fun n hn =>
    .name 1 ⟨(hname n hn).1, (hname n hn).2⟩
  let chain : Expr := .boolean 1 .or [.name 1 "a", .name 1 "b"]
  have hchain : Writable chain :=
    .boolean 1 .or (hwritable "a" (by decide)) (hwritable "b" (by decide)) nofun
  let power : Expr :=
    .binary 1 .power (.unary 1 .minus (.name 1 "c")) (.unary 1 .minus (.name 1 "d"))
  have hpower : Writable power :=
    .binary 1 .power (.unary 1 .minus (hwritable "c" (by decide)))
      (.unary 1 .minus (hwritable "d" (by decide)))
  let tuple : Expr := .tuple 1 [.str 1 "it's"]
  have htuple : Writable tuple := .tuple 1 (List.forall_mem_singleton.mpr (.str 1 "it's"))
  have hcompare : Writable (.compare 1 power [(.notMember, tuple)]) :=
    .compare 1 hpower htuple nofun
  have hboolean : Writable (.boolean 1 .or [chain, .compare 1 power [(.notMember, tuple)]]) :=
    .boolean 1 .or hchain hcompare nofun
  have hread := ofText_text hboolean
  have htext : (Expr.boolean 1 .or [chain, .compare 1 power [(.notMember, tuple)]]).text =
      "(a or b) or (-c) ** -d not in (\"it's\",)" := rfl
  rw [htext] at hread
  exact hread

end Expr

end DepsManifest
