import DepsManifest.Proofs.Expr.Following
import DepsManifest.Proofs.Expr.Levels
import DepsManifest.Proofs.Token.Enclosed
/-! # Expressions in parentheses

An expression that is a text of its own is the same expression in parentheses
(`Grammar.Alike.parenthesized_of_testList`, and for texts `parenthesized_of_ofText`), although other
productions read it there:

  * a bare list of expressions ends where no expression can begin, and in parentheses it ends at the
    closing one (`Alike.afterCommas_closing`). If nothing is left of the line where the one list
    ends, the other ends there too;
  * in parentheses an item may be starred, and in a bare list it may not. Both read the same items,
    as no item of a bare list begins with a star (`Alike.testOrStar_of_test`).

All that changes is the line of a bare tuple, which becomes that of the opening parenthesis
(`Expr.InParentheses`).

What the parentheses do to the tokens is no matter of the grammar: the breaks between lines go away
inside of brackets. An expression to the end of a text has a single logical line, so none of them
stood within it (`line_of_ofTokens`).
-/
namespace DepsManifest

open Token

/-- An expression and what it is in parentheses: a bare tuple has another line there. -/
inductive Expr.InParentheses : Expr → Expr → Prop
  | same (e : Expr) : InParentheses e e
  | tuple (line line' : Nat) (items : List Expr) :
      InParentheses (.tuple line items) (.tuple line' items)

theorem Token.OnLine.eq_later {lines : Nat → Nat} {later later' ts' : List Token}
    (h : OnLine lines later later' later ts') : ts' = later' := by
  rcases h.cases_current with ⟨hne, -⟩ | ⟨-, -, heq⟩
  · exact absurd h.closes.newline hne
  · exact heq

namespace Parse

/-! ## Lists -/

section

variable {lines : Nat → Nat} {α β : Type} {φ : α → β} {item : Parse α} {item' : Parse β}
  {stop : List Token → Bool} {later later' ts ts' : List Token} {items : List α}

theorem Alike.afterCommasUpTo_closing (h : Alike lines φ item item')
    (hstop : ∀ us, stop us = false → startsExpression (current us).kind = true)
    (hparen : atOp .rightParen later' = true) {n m : Nat} (hle : n ≤ m)
    (hts : OnLine lines later later' ts ts')
    (hread : Parse.afterCommasUpTo stop item n ts = .ok (items, later)) :
    Parse.afterCommasUpTo (atOp .rightParen) item' m ts' = .ok (items.map φ, later') := by
  induction n generalizing m ts ts' items with
  | zero => cases hread
  | succ n ih =>
      obtain ⟨m, rfl⟩ : ∃ k, m = k + 1 := ⟨m - 1, by omega⟩
      rw [Parse.afterCommasUpTo] at hread ⊢
      rcases hts.skipOp? .comma (by decide) with ⟨h1, h2⟩ | ⟨us, us', h1, h2, -, hus⟩
      · rw [h1] at hread
        rw [h2]
        cases hread
        rw [hts.eq_later]
        rfl
      · rw [h1] at hread
        rw [h2]
        dsimp only at hread ⊢
        split at hread
        · cases hread
          rw [hus.eq_later, if_pos hparen]
          rfl
        · rename_i hgoesOn
          have hstarts := hstop us (Bool.eq_false_iff.mpr hgoesOn)
          have hkind : (current us).kind ≠ .newline := by
            intro heq
            rw [heq] at hstarts
            cases hstarts
          have hopen : atOp .rightParen us' = false := by
            rw [atOp, hus.kind_current rfl hkind, beq_eq_false_iff_ne]
            intro heq
            rw [heq] at hstarts
            cases hstarts
          obtain ⟨⟨first, vs⟩, hfirst, hmore⟩ := bind_eq_ok.mp hread
          obtain ⟨⟨rest, ws⟩, hrest, hresult⟩ := bind_eq_ok.mp hmore
          cases hresult
          obtain ⟨⟨first', vs'⟩, hfirst', hvalue, hvs⟩ := h hus _ hfirst
          cases hvalue
          rw [hopen, if_neg Bool.false_ne_true, hfirst', ok_bind,
            ih (Nat.le_of_succ_le_succ hle) hvs hrest]
          rfl

/-- Items that are read to the end of a line are read to a parenthesis that closes there. -/
theorem Alike.afterCommas_closing (h : Alike lines φ item item')
    (hstop : ∀ us, stop us = false → startsExpression (current us).kind = true)
    (hparen : atOp .rightParen later' = true) (hts : OnLine lines later later' ts ts')
    (hread : Parse.afterCommas stop item ts = .ok (items, later)) :
    Parse.afterCommas (atOp .rightParen) item' ts' = .ok (items.map φ, later') :=
  h.afterCommasUpTo_closing hstop hparen (Nat.succ_le_succ hts.length_le) hts hread

end

namespace Grammar

/-! ## Parentheses around an expression -/

section

variable {g g' : Grammar}

theorem Alike.testOrStar_of_test {lines : Nat → Nat} (h : g.Alike lines g') :
    Parse.Alike lines (Expr.moved lines) g.test g'.testOrStar := by
  intro later later' ts ts' hts
  rcases hts.skipOp? .star (by decide) with ⟨-, h2⟩ | ⟨us, us', h1, -⟩
  · unfold Grammar.testOrStar
    rw [h2]
    exact h.test hts
  · refine refines_of_fails (h.starts_test.ne_ok ?_) _
    unfold skipOp? at h1
    split at h1
    · rename_i hstar
      rw [OnLine.kind_of_atOp hstar]
      rfl
    · cases h1

/-- An expression that has a line to itself is read in parentheses that close where the line ended.
-/
theorem Alike.parenthesized_of_testList (h : g.Alike id g') {later later' ts ts' : List Token}
    (hts : OnLine id later later' ts ts') (hparen : atOp .rightParen later' = true) {e : Expr}
    (hread : g.testList false ts = .ok (e, later)) (line : Nat) :
    ∃ e', g'.parenthesized line ts' = .ok (e', later'.tail) ∧ e.InParentheses e' := by
  obtain ⟨⟨first, us⟩, hfirst, hafter⟩ := bind_eq_ok.mp hread
  have hstarts := h.starts_test ts _ hfirst
  have hne : ∀ kind, startsTest kind = false → (current ts).kind ≠ kind := by
    rintro _ hkind rfl
    rw [hkind] at hstarts
    cases hstarts
  have hopen : (current ts').kind ≠ .op .rightParen := by
    rw [hts.kind_current rfl (hne _ rfl)]
    exact hne _ rfl
  obtain ⟨⟨first', us'⟩, hfirst', hvalue, hus⟩ := h.testOrStar_of_test hts _ hfirst
  obtain rfl : first' = first := hvalue.trans first.moved_id
  dsimp only at hafter
  split at hafter
  · rename_i hcomma
    obtain ⟨⟨rest, vs⟩, hrest, hresult⟩ := bind_eq_ok.mp hafter
    cases hresult
    have hitems := h.testOrStar_of_test.afterCommas_closing
      (fun vs hvs => by simpa using hvs) hparen hus hrest
    rw [List.map_congr_left fun e _ => e.moved_id, List.map_id'] at hitems
    have hkind := hus.kind_current (OnLine.kind_of_atOp hcomma) nofun
    have hseq : g'.sequenceRest first' .rightParen us' = .ok (first' :: rest, later'.tail) := by
      have hclose : expectOp .rightParen later' = .ok later'.tail := if_pos hparen
      simp only [Grammar.sequenceRest, hitems, ok_bind, hclose]
      rfl
    have hfor : atKeyword "for" us' = false := by
      rw [atKeyword, hkind]
      rfl
    have hclose : (current us').kind ≠ .op .rightParen := by
      rw [hkind]
      decide
    exact ⟨_, parenthesized_tuple hopen hfirst' hfor hclose hseq, .tuple _ line _⟩
  · cases hafter
    obtain rfl := hus.eq_later
    exact ⟨_, parenthesized_group hopen hfirst' hparen, .same _⟩

end

end Grammar

end Parse

/-! ## Texts -/

theorem Parse.skipNewlines_cons {kind : TokenKind} (line column : Nat) (ts : List Token)
    (h : kind ≠ .newline) :
    skipNewlines (⟨kind, line, column⟩ :: ts) = ⟨kind, line, column⟩ :: ts :=
  List.dropWhile_cons_of_neg (by simpa using h)

namespace Expr

open Parse

theorem line_of_ofTokens {ts us : List Token} {line column : Nat} {e : Expr}
    (hts : Ahead id [⟨.endOfText, line, column⟩] ts us) (h : Expr.ofTokens ts = .ok e) :
    ∃ nl eot later', eot.kind = .endOfText ∧ OnLine id [nl, eot] later' ts us ∧
      (grammarFor ts).testList false ts = .ok (e, [nl, eot]) := by
  obtain ⟨⟨e', rest⟩, hlist, hend⟩ := bind_eq_ok.mp h
  dsimp only at hend
  split at hend
  swap
  · cases hend
  rename_i hendOfText
  cases hend
  cases hts with
  | ending =>
      have hstarts := Grammar.starts_testList (Grammar.starts_test _) false _ _ hlist
      cases hstarts
  | @line kind nl nl' later later' ts us l c hnewline hend hnl hline hlater =>
      have hwhole : OnLine id (nl :: later) (nl' :: later') (⟨kind, l, c⟩ :: ts)
          (⟨kind, l, c⟩ :: us) :=
        .token l c c hnewline hend hline
      obtain ⟨⟨e', rest'⟩, -, hread⟩ :=
        (Grammar.alike_grammar id (Nat.le_refl _)).testList false hwhole _ hlist
      have hrest : OnLine id (nl :: later) (nl' :: later') rest rest' := hread.rest
      cases hrest with
      | token _ _ _ hne hend =>
          rw [skipNewlines_cons _ _ _ hne] at hendOfText
          exact absurd hendOfText hend
      | lineEnd hcloses =>
          have hskip : skipNewlines (nl :: later) = skipNewlines later :=
            List.dropWhile_cons_of_pos (beq_iff_eq.mpr hcloses.newline)
          rw [hskip] at hendOfText
          cases hlater with
          | ending => exact ⟨nl, _, _, rfl, hwhole, hlist⟩
          | line _ _ hne hend =>
              rw [skipNewlines_cons _ _ _ hne] at hendOfText
              exact absurd hendOfText hend

/-- The expression that a text denotes is read from the tokens of the text in parentheses. -/
theorem parenthesized_of_ofText {text : String} {e : Expr} (he : Expr.ofText text = .ok e)
    {ts ts' more : List Token} (hts : Token.ofText text = .ok ts) (h : Enclosed more ts ts')
    (hparen : atOp .rightParen more = true) (hmore : 2 ≤ more.length) {n : Nat}
    (hn : ts'.length < n) (line : Nat) :
    ∃ e', (grammar n).parenthesized line ts' = .ok (e', more.tail) ∧ e.InParentheses e' := by
  obtain ⟨us, hus, hread⟩ := bind_eq_ok.mp he
  obtain rfl : us = ts := Except.ok.inj (hus.symm.trans hts)
  obtain ⟨last, hahead⟩ := ofChars_ahead hts
  obtain ⟨nl, eot, later', heot, hline, hlist⟩ := line_of_ofTokens hahead hread
  have honLine : OnLine id [nl, eot] more us ts' :=
    h.onLine hline heot ⟨hline.closes.newline, .inr (OnLine.kind_of_atOp hparen), hmore⟩
  have hle : us.length + 1 ≤ n := Nat.lt_of_le_of_lt honLine.length_le hn
  exact (Grammar.alike_grammar id hle).parenthesized_of_testList honLine hparen hlist line

end Expr

end DepsManifest
