import DepsManifest.Proofs.Evaluation.Module
import DepsManifest.Proofs.Expr.Displays
import DepsManifest.Proofs.Expr.Enclosed
/-! # An expression assigned to a name

There are two ways to evaluate a text: on its own, and as the right side of an assignment in a
manifest. For a text that is an expression they come to the same (`Module.executeText_assignment`).
The module `name = (text)` binds the name to the value of the text, on the first line; or it fails
with the fault of the text, at the line of the fault and with its message. Entries of dict displays
are exposed exactly if the name is that of the variables.

## The way of the proof

  * **reading** — the text is an expression to the end of its tokens. In parentheses its tokens are
    read without the breaks of its logical lines, and what comes of it is the same expression in
    parentheses (`Expr.InParentheses`): a bare tuple becomes one with parentheses, and nothing else
    changes. The rest is to read the one statement around it, token by token;
  * **evaluating** — an expression in parentheses has the same value, or the same fault
    (`Expr.InParentheses.value_eq`).

The closing parenthesis stands on a line of its own, so that a comment at the end of the text does
not take it in.
-/
namespace DepsManifest

open Parse Token

/-! ## Reading an assignment -/

namespace Parse

section

variable {g : Grammar} {ts us rest : List Token} {line column : Nat} {target value : Expr}

theorem simpleStatement_assign (hkeyword : simpleKeyword? (current ts).kind = none)
    (htarget : g.testList true ts = .ok (target, ⟨.op .assign, line, column⟩ :: us))
    (hvalue : g.testList true us = .ok (value, rest)) (hend : (current rest).kind = .newline)
    (hlength : rest.length ≤ us.length) :
    simpleStatement g ts = .ok (.assign (current ts).line [target] value, rest) := by
  have hfirst : afterOp .assign (g.testList true) (⟨.op .assign, line, column⟩ :: us) =
      .ok (some (value, rest)) := by
    simp only [afterOp, skipOp?_cons, hvalue]
    rfl
  have hdone : afterOp .assign (g.testList true) rest = .ok none := by
    simp only [afterOp, skipOp?_eq_none (show (current rest).kind ≠ .op .assign by simp [hend])]
  have hmany := many_more hfirst (Nat.lt_succ_of_le hlength) (many_done hdone)
  simp only [simpleStatement, hkeyword, htarget, ok_bind, statementAfter, hmany]
  rfl

theorem statementLine_single {s : Statement} (hkeyword : compoundKeyword? (current ts).kind = none)
    (hs : simpleStatement g ts = .ok (s, rest)) (hend : (current rest).kind = .newline) :
    statementLine g ts = .ok ([s], rest) := by
  have hsemicolon : skipOp? .semicolon rest = none := skipOp?_eq_none (by rw [hend]; exact nofun)
  have hline : atLineEnd rest = true := by rw [atLineEnd, hend]; rfl
  simp only [statementLine, hkeyword, lineStatements, hs, ok_bind, hsemicolon]
  show (if atLineEnd rest = true then _ else _) = _
  rw [if_pos hline]
  rfl

theorem statements_single {body : List Statement} {kind : TokenKind} (hnewline : kind ≠ .newline)
    (hend : kind ≠ .endOfText)
    (hline : statementLine g (⟨kind, line, column⟩ :: ts) = .ok (body, rest))
    (hrest : (current (skipNewlines rest)).kind = .endOfText) (n : Nat) :
    statements g (n + 2) (⟨kind, line, column⟩ :: ts) = .ok body := by
  have hdone : statements g (n + 1) rest = .ok [] := by
    rw [statements]
    exact if_pos hrest
  rw [statements, skipNewlines_cons _ _ _ hnewline]
  simp only [current_cons, hend, if_false, hline, ok_bind, hdone]
  show Except.ok (body ++ []) = _
  rw [List.append_nil]

end

end Parse

namespace IsIdentifier

variable {n : String} (h : IsIdentifier n)

include h

theorem compoundKeyword?_eq : compoundKeyword? (.name n) = none := by
  have hnot : compoundKeywords.contains n = false := h.contains_eq_false (by decide)
  simp only [compoundKeyword?, hnot, Bool.false_eq_true, if_false]

theorem simpleKeyword?_eq : simpleKeyword? (.name n) = none := by
  have hnot : simpleKeywords.contains n = false := h.contains_eq_false (by decide)
  simp only [simpleKeyword?, hnot, Bool.false_eq_true, if_false]

end IsIdentifier

theorem Module.ofTokens_assignment {n : String} (hn : IsIdentifier n) {a b c line : Nat}
    {ts : List Token} {e : Expr} (he : (grammar (ts.length + 3)).parenthesized 1 ts =
      .ok (e, [⟨.newline, line, 0⟩, ⟨.endOfText, line, 0⟩])) (hlength : 2 ≤ ts.length) :
    Module.ofTokens (⟨.name n, 1, a⟩ :: ⟨.op .assign, 1, b⟩ :: ⟨.op .leftParen, 1, c⟩ :: ts) =
      .ok ⟨[.assign 1 [.name 1 n] e]⟩ := by
  let g : Grammar := grammar (ts.length + 3 + 1)
  let value : List Token := ⟨.op .leftParen, 1, c⟩ :: ts
  let all : List Token := ⟨.name n, 1, a⟩ :: ⟨.op .assign, 1, b⟩ :: value
  have hname : g.testOrStar all = .ok (.name 1 n, ⟨.op .assign, 1, b⟩ :: value) :=
    Grammar.testOrStar_of_atom (Expr.startLevel?_name hn) (Expr.atom_name _ hn 1 a _)
      fun l hl => by cases hl
  have hgroup : g.testOrStar value = .ok (e, [⟨.newline, line, 0⟩, ⟨.endOfText, line, 0⟩]) :=
    Grammar.testOrStar_of_atom rfl he fun l hl => by cases hl
  have htarget : g.testList true all = .ok (.name 1 n, ⟨.op .assign, 1, b⟩ :: value) :=
    Grammar.testList_single hname rfl
  have hvalue : g.testList true value = .ok (e, [⟨.newline, line, 0⟩, ⟨.endOfText, line, 0⟩]) :=
    Grammar.testList_single hgroup rfl
  have hstatement : simpleStatement g all = .ok (.assign 1 [.name 1 n] e, _) :=
    simpleStatement_assign hn.simpleKeyword?_eq htarget hvalue rfl (Nat.le_succ_of_le hlength)
  have hline : statementLine g all = .ok ([.assign 1 [.name 1 n] e], _) :=
    statementLine_single hn.compoundKeyword?_eq hstatement rfl
  have hstatements : statements g (ts.length + 2 + 2) all = .ok [.assign 1 [.name 1 n] e] :=
    statements_single (show TokenKind.name n ≠ .newline from nofun)
      (show TokenKind.name n ≠ .endOfText from nofun) hline rfl _
  exact bind_eq_ok.mpr ⟨_, hstatements, rfl⟩

theorem Expr.InParentheses.value_eq {e e' : Expr} (h : e.InParentheses e') (fs : Functions)
    (exposeVars : Bool) : e'.value fs exposeVars = e.value fs exposeVars := by
  cases h with
  | same => rfl
  | tuple line line' items => rfl

namespace Module

/-- A text that is an expression, in parentheses and assigned to a name. -/
theorem ofText_assignment {s : String} {e : Expr} (he : Expr.ofText s = .ok e) {n : String}
    (hn : IsIdentifier n) : ∃ e', e.InParentheses e' ∧
      ofText (n ++ " = (" ++ s ++ "\n)") = .ok ⟨[.assign 1 [.name 1 n] e']⟩ := by
  obtain ⟨ts, hts, -⟩ := bind_eq_ok.mp he
  obtain ⟨before, ts', line, hbefore, htext, henclosed⟩ := Token.ofText_assignment hn.word hts
  obtain ⟨e', hread, hsame⟩ := Expr.parenthesized_of_ofText he hts henclosed rfl (Nat.le_succ 2)
    (show ts'.length < ts'.length + 3 by omega) 1
  have hlength : 2 ≤ ts'.length := Nat.le_of_succ_le henclosed.more_length_le
  obtain ⟨a, us, rfl, hus⟩ := hbefore.eq_cons
  obtain ⟨b, vs, rfl, hvs⟩ := hus.eq_cons
  obtain ⟨c, ws, rfl, hws⟩ := hvs.eq_cons
  obtain rfl := hws.eq_nil
  refine ⟨e', hsame, ?_⟩
  rw [ofText, htext]
  exact ofTokens_assignment hn hread hlength

/-- For a text that is an expression, to assign it in parentheses to a name that is no keyword is to
evaluate it: the module binds the name to the value of the text, on the first line, or fails with
the fault of the text, at the line of the fault and with its message. -/
theorem executeText_assignment {s : String} {e : Expr} (he : Expr.ofText s = .ok e) {n : String}
    (hn : IsIdentifier n) (fs : Functions) :
    (∀ v, Expr.valueOfText fs (n == varsName) s = .ok v →
      executeText fs (n ++ " = (" ++ s ++ "\n)") = .ok ⟨NameMap.empty.insert n ⟨v, some 1⟩⟩) ∧
    ∀ fault, Expr.valueOfText fs (n == varsName) s = .error fault →
      executeText fs (n ++ " = (" ++ s ++ "\n)") = .error ⟨fault.line, .evaluation fault.cause⟩ ∧
        ∀ file, inFile file fault.line (ExecutionFault.evaluation fault.cause).message =
          inFile file fault.line fault.cause.message := by
  obtain ⟨e', hsame, hmodule⟩ := ofText_assignment he hn
  have hvalue : Expr.valueOfText fs (n == varsName) s = e'.value fs (n == varsName) := by
    rw [Expr.valueOfText, he, hsame.value_eq]
  have hexecute : executeText fs (n ++ " = (" ++ s ++ "\n)") =
      executeFrom fs .empty [.assign 1 [.name 1 n] e'] := by
    rw [executeText, hmodule]
    rfl
  rw [hvalue, hexecute]
  refine ⟨fun v hv => ?_, fun fault hfault => ⟨?_, fun _ => rfl⟩⟩
  · simp only [executeFrom, Statement.execute, Statement.assignment, hv]
    rfl
  · simp only [executeFrom, Statement.execute, Statement.assignment, hfault]
    rfl

/-- A bare tuple on the second line, with a dict whose entries are shown, and a name without a
value. -/
theorem executeText_assignment_vars :
    executeText .strOnly ("vars" ++ " = (" ++ "\n\x7b'a': 'x', 'b': a\x7d, 'y' # z" ++ "\n)") =
      .ok ⟨NameMap.empty.insert "vars" ⟨.tuple [.dict [(.str "a", .str "x"), (.str "b", .str "x")],
        .str "y"], some 1⟩⟩ ∧
    executeText .strOnly ("vars" ++ " = (" ++ "\nb" ++ "\n)") =
      .error ⟨2, .evaluation (.unknownName "b" ["False", "None", "True"])⟩ := by
  have hvars : IsIdentifier "vars" := ⟨by decide, by decide⟩
  have htokens : Token.ofText "\n\x7b'a': 'x', 'b': a\x7d, 'y' # z" = .ok
      [⟨.op .leftBrace, 2, 0⟩, ⟨.literal .text "a", 2, 1⟩, ⟨.op .colon, 2, 4⟩,
        ⟨.literal .text "x", 2, 6⟩, ⟨.op .comma, 2, 9⟩, ⟨.literal .text "b", 2, 11⟩,
        ⟨.op .colon, 2, 14⟩, ⟨.name "a", 2, 16⟩, ⟨.op .rightBrace, 2, 17⟩, ⟨.op .comma, 2, 18⟩,
        ⟨.literal .text "y", 2, 20⟩, ⟨.newline, 2, 0⟩, ⟨.endOfText, 2, 0⟩] := by decide +kernel
  have hpair : Expr.ofText "\n\x7b'a': 'x', 'b': a\x7d, 'y' # z" = .ok (.tuple 2
      [.dict 2 [.entry (.str 2 "a") (.str 2 "x"), .entry (.str 2 "b") (.name 2 "a")],
        .str 2 "y"]) := by
    rw [Expr.ofText, htokens]
    rfl
  have hname : Expr.ofText "\nb" = .ok (.name 2 "b") := by
    have htokens : Token.ofText "\nb" =
        .ok [⟨.name "b", 2, 0⟩, ⟨.newline, 2, 0⟩, ⟨.endOfText, 2, 0⟩] := by decide +kernel
    rw [Expr.ofText, htokens]
    rfl
  refine ⟨(executeText_assignment hpair hvars .strOnly).1 _ ?_,
    ((executeText_assignment hname hvars .strOnly).2 ⟨2, .unknownName "b" _⟩ ?_).1⟩
  · rw [Expr.valueOfText, hpair]
    rfl
  · rw [Expr.valueOfText, hname]
    rfl

end Module

end DepsManifest
