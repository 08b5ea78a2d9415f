import DepsManifest.Expr.Parser
import DepsManifest.Proofs.Expr.Moved
import DepsManifest.Proofs.Expr.Starting
import DepsManifest.Proofs.Token.Following
/-! # Expressions are read within a line

Every production of the grammar reads within a logical line, if the readers of nested expressions do
(`Grammar.Alike`). Two lists of tokens that agree on a line (`OnLine`) and go on differently after
it are read alike up to the end of the line: the same result, its lines moved, and again lists that
agree on what is left of the line. So

  * a grammar that is deep enough for one text reads the same on a line of it when other lines
    follow, and when the line stands further down;
  * a deeper grammar reads whatever a shallower one does (`Grammar.alike_grammar`, by induction over
    the depth).

## How a production is shown to be alike

There is one lemma for each production, with its steps in the order of the production. A step is one
of two: a case on a token that comes next in both lists or in neither, or a reader that is alike by
its own lemma. Loops have lemmas of their own for any reader that they repeat (`alike_binaryChain`,
`alike_joined`, `alike_itemOrTuple`).

Where the line ends the two lists differ, and there a production must not look further. It does not,
for one of two reasons. A production that needs a token of its own fails at the end of a line
(`FailsAtLineEnd`), and one that may end there takes no token of the rest, as with a comparison
(`comparison?_of_lineEnd`). A closing parenthesis counts as an end too, so that the same lemmas
serve for a line in parentheses.
-/
namespace DepsManifest

namespace Parse

open Token DepsManifest.Expr

theorem StartsWith.failsAtLineEnd {α : Type} {p : Parse α} (h : StartsExpression p) :
    FailsAtLineEnd p :=
  fun ts hend r => h.ne_ok (by rw [hend]; rfl) r

section

variable {lines : Nat → Nat} {item item' : Parse Expr}

theorem alike_itemOrTuple (h : Alike lines (moved lines) item item') (line : Nat)
    {stop stop' : List Token → Bool} (hstop : StopsAlike lines item stop stop') :
    Alike lines (moved lines) (itemOrTuple line stop item)
      (itemOrTuple (lines line) stop' item') := by
  intro later later' ts ts' hts
  unfold itemOrTuple
  refine (h hts).read fun first us us' hus => ?_
  dsimp only
  rw [hus.atOp_eq .comma (by decide)]
  split
  · refine (h.afterCommas hstop hus).read fun rest vs vs' hvs => ?_
    exact readAlike (by simp) hvs
  · exact readAlike rfl hus

end

namespace Grammar

theorem failsAtLineEnd_sequenceRest (g : Grammar) (first : Expr) (close : Op) :
    FailsAtLineEnd (g.sequenceRest first close) := by
  intro ts hend r hr
  have hcomma : skipOp? .comma ts = none := skipOp?_eq_none (by rw [hend]; exact nofun)
  have hclose : atOp close ts = false := by rw [atOp, hend]; rfl
  rw [sequenceRest, afterCommas, afterCommasUpTo, hcomma] at hr
  dsimp only at hr
  rw [ok_bind, expectOp, hclose] at hr
  cases hr

/-- Two grammars whose readers read alike within a line. -/
structure Alike (lines : Nat → Nat) (g g' : Grammar) : Prop where
  test : Parse.Alike lines (moved lines) g.test g'.test
  disjunction : Parse.Alike lines (moved lines) g.disjunction g'.disjunction
  negation : Parse.Alike lines (moved lines) g.negation g'.negation
  operand : Parse.Alike lines (moved lines) g.operand g'.operand
  signed : Parse.Alike lines (moved lines) g.signed g'.signed
  starts_test : StartsTest g.test
  starts_operand : StartsTest g.operand

namespace Alike

variable {lines : Nat → Nat} {g g' : Grammar} (h : g.Alike lines g')

include h

theorem testOrStar : Parse.Alike lines (moved lines) g.testOrStar g'.testOrStar := by
  intro later later' ts ts' hts
  unfold Grammar.testOrStar
  rcases hts.skipOp? .star (by decide) with ⟨h1, h2⟩ | ⟨us, us', h1, h2, hline, hus⟩
  · rw [h1, h2]
    exact h.test hts
  · rw [h1, h2]
    refine (h.operand hus).read fun value vs vs' hvs => ?_
    exact readAlike (by rw [hline]; rfl) hvs

theorem target : Parse.Alike lines (moved lines) g.target g'.target := by
  intro later later' ts ts' hts
  unfold Grammar.target
  rcases hts.skipOp? .star (by decide) with ⟨h1, h2⟩ | ⟨us, us', h1, h2, hline, hus⟩
  · rw [h1, h2]
    exact h.operand hts
  · rw [h1, h2]
    refine (h.operand hus).read fun value vs vs' hvs => ?_
    exact readAlike (by rw [hline]; rfl) hvs

theorem testList (allowStar : Bool) :
    Parse.Alike lines (moved lines) (g.testList allowStar) (g'.testList allowStar) := by
  refine (starts_testList h.starts_test allowStar).failsAtLineEnd.alike ?_
  intro later later' ts ts' hts hline
  unfold Grammar.testList
  rw [hline]
  have hstop : ∀ ⦃later later' us us'⦄, OnLine lines later later' us us' →
      startsExpression (current us').kind = startsExpression (current us).kind :=
    fun _ _ us us' hus => hus.apply_kind rfl
  refine alike_itemOrTuple ?_ _ (fun _ _ us us' hus => .inl ?_) hts
  · cases allowStar with
    | true => exact h.testOrStar
    | false => exact h.test
  · rw [hstop hus]

theorem clause : Parse.Alike lines (Clause.moved lines) g.clause g'.clause := by
  refine (starts_clause h.starts_operand).failsAtLineEnd.alike ?_
  intro later later' ts ts' hts hline
  unfold Grammar.clause
  rw [hline]
  have htargets := alike_itemOrTuple h.target (current ts).line fun _ _ us us' hus =>
    .inl (hus.atKeyword_eq "in")
  refine (htargets hts).read fun targets us us' hus => ?_
  refine (hus.expectKeyword "in").bind fun vs vs' hvs => ?_
  refine (h.disjunction hvs).read fun iterable ws ws' hws => ?_
  refine ((h.disjunction.afterKeyword "if").many hws).read fun conditions xs xs' hxs => ?_
  exact readAlike rfl hxs

theorem comprehension (kind : ComprehensionKind) (element : Expr) (value : Option Expr)
    (line : Nat) : Parse.Alike lines (moved lines) (g.comprehension kind element value line)
      (g'.comprehension kind (element.moved lines) (value.map (moved lines)) (lines line)) := by
  intro later later' ts ts' hts
  unfold Grammar.comprehension
  refine ((h.clause.afterKeyword "for").many hts).read fun clauses us us' hus => ?_
  exact readAlike (by simp) hus

theorem sequenceRest (first : Expr) (close : Op) :
    Parse.Alike lines (List.map (moved lines)) (g.sequenceRest first close)
      (g'.sequenceRest (first.moved lines) close) := by
  intro later later' ts ts' hts
  unfold Grammar.sequenceRest
  have hfails := (starts_testOrStar h.starts_test).failsAtLineEnd
  have hitems := h.testOrStar.afterCommas (hfails.stopsAlike close)
  refine (hitems hts).read fun rest us us' hus => ?_
  refine (hus.expectOp close).bind fun vs vs' hvs => ?_
  exact readAlike rfl hvs

theorem parenthesized (line : Nat) :
    Parse.Alike lines (moved lines) (g.parenthesized line) (g'.parenthesized (lines line)) := by
  intro later later' ts ts' hts
  unfold Grammar.parenthesized
  rcases hts.skipRightParen? with ⟨h1, hend⟩ | ⟨h1, h2⟩ | ⟨us, us', h1, h2, hus⟩
  · rw [h1]
    exact refines_bind_of_fails ((starts_testOrStar h.starts_test).failsAtLineEnd ts hend) _ _
  · rw [h1, h2]
    refine (h.testOrStar hts).read fun first us us' hus => ?_
    dsimp only
    rw [hus.atKeyword_eq]
    split
    · refine (h.comprehension .generator first none line hus).read fun e vs vs' hvs => ?_
      refine (hvs.expectOp .rightParen).bind fun ws ws' hws => ?_
      exact readAlike rfl hws
    · rcases hus.skipRightParen? with ⟨h3, hend⟩ | ⟨h3, h4⟩ | ⟨vs, vs', h3, h4, hvs⟩
      · rw [h3]
        exact refines_bind_of_fails (g.failsAtLineEnd_sequenceRest first .rightParen us hend) _ _
      · rw [h3, h4]
        refine (h.sequenceRest first .rightParen hus).read fun items vs vs' hvs => ?_
        exact readAlike (by simp) hvs
      · rw [h3, h4]
        exact readAlike rfl hvs
  · rw [h1, h2]
    exact readAlike (by simp) hus

theorem bracketed (line : Nat) :
    Parse.Alike lines (moved lines) (g.bracketed line) (g'.bracketed (lines line)) := by
  intro later later' ts ts' hts
  unfold Grammar.bracketed
  rcases hts.skipOp? .rightBracket (by decide) with ⟨h1, h2⟩ | ⟨us, us', h1, h2, -, hus⟩
  · rw [h1, h2]
    refine (h.testOrStar hts).read fun first us us' hus => ?_
    dsimp only
    rw [hus.atKeyword_eq]
    split
    · refine (h.comprehension .list first none line hus).read fun e vs vs' hvs => ?_
      refine (hvs.expectOp .rightBracket).bind fun ws ws' hws => ?_
      exact readAlike rfl hws
    · refine (h.sequenceRest first .rightBracket hus).read fun items vs vs' hvs => ?_
      exact readAlike (by simp) hvs
  · rw [h1, h2]
    exact readAlike (by simp) hus

theorem dictItem : Parse.Alike lines (DictItem.moved lines) g.dictItem g'.dictItem := by
  intro later later' ts ts' hts
  unfold Grammar.dictItem
  rcases hts.skipOp? .doubleStar (by decide) with ⟨h1, h2⟩ | ⟨us, us', h1, h2, -, hus⟩
  · rw [h1, h2]
    refine (h.test hts).read fun key us us' hus => ?_
    refine (hus.expectOp .colon).bind fun vs vs' hvs => ?_
    refine (h.test hvs).read fun value ws ws' hws => ?_
    exact readAlike rfl hws
  · rw [h1, h2]
    refine (h.operand hus).read fun value vs vs' hvs => ?_
    exact readAlike rfl hvs

theorem dictRest (line : Nat) (first : DictItem) : Parse.Alike lines (moved lines)
    (g.dictRest line first) (g'.dictRest (lines line) (first.moved lines)) := by
  intro later later' ts ts' hts
  unfold Grammar.dictRest
  have hitems := h.dictItem.afterCommas (stopsAlike_atOp g.dictItem .rightBrace (by decide))
  refine (hitems hts).read fun rest us us' hus => ?_
  refine (hus.expectOp .rightBrace).bind fun vs vs' hvs => ?_
  exact readAlike (by simp) hvs

theorem dictAfterKey (line : Nat) (key : Expr) : Parse.Alike lines (moved lines)
    (g.dictAfterKey line key) (g'.dictAfterKey (lines line) (key.moved lines)) := by
  intro later later' ts ts' hts
  unfold Grammar.dictAfterKey
  refine (h.test hts).read fun value us us' hus => ?_
  dsimp only
  rw [hus.atKeyword_eq]
  split
  · refine (h.comprehension .dict key (some value) line hus).read fun e vs vs' hvs => ?_
    refine (hvs.expectOp .rightBrace).bind fun ws ws' hws => ?_
    exact readAlike rfl hws
  · exact h.dictRest line (.entry key value) hus

theorem braced (line : Nat) :
    Parse.Alike lines (moved lines) (g.braced line) (g'.braced (lines line)) := by
  intro later later' ts ts' hts
  unfold Grammar.braced
  rcases hts.skipOp? .rightBrace (by decide) with ⟨h1, h2⟩ | ⟨us, us', h1, h2, -, hus⟩
  · rw [h1, h2]
    dsimp only
    rcases hts.skipOp? .doubleStar (by decide) with ⟨h3, h4⟩ | ⟨us, us', h3, h4, -, hus⟩
    · rw [h3, h4]
      refine (h.testOrStar hts).read fun first us us' hus => ?_
      dsimp only
      rcases hus.skipOp? .colon (by decide) with ⟨h5, h6⟩ | ⟨vs, vs', h5, h6, -, hvs⟩
      · rw [h5, h6]
        dsimp only
        rw [hus.atKeyword_eq]
        split
        · refine (h.comprehension .set first none line hus).read fun e vs vs' hvs => ?_
          refine (hvs.expectOp .rightBrace).bind fun ws ws' hws => ?_
          exact readAlike rfl hws
        · refine (h.sequenceRest first .rightBrace hus).read fun items vs vs' hvs => ?_
          exact readAlike (by simp) hvs
      · rw [h5, h6]
        exact h.dictAfterKey line first hvs
    · rw [h3, h4]
      refine (h.operand hus).read fun value vs vs' hvs => ?_
      exact h.dictRest line (.unpack value) hvs
  · rw [h1, h2]
    exact readAlike (by simp) hus

end Alike

/-! ## Atoms and what follows them -/

theorem literals_onLine {lines : Nat → Nat} {later later' ts ts' : List Token}
    (hts : OnLine lines later later' ts ts') : (literals ts').1 = (literals ts).1 ∧
      OnLine lines later later' (literals ts).2 (literals ts').2 := by
  induction hts with
  | lineEnd hclose =>
      have hkind := fun kind text => hclose.kind_ne (.literal kind text) nofun nofun
      rw [literals_of_not_literal fun kind text => (hkind kind text).1,
        literals_of_not_literal fun kind text => (hkind kind text).2]
      exact ⟨rfl, .lineEnd hclose⟩
  | @token kind ts ts' line column column' hnewline hend h ih =>
      cases kind with
      | literal kind text => exact ⟨congrArg ((kind, text) :: ·) ih.1, ih.2⟩
      | _ => exact ⟨rfl, .token line column column' hnewline hend h⟩

theorem atKeywordArgument_onLine {lines : Nat → Nat} {later later' ts ts' : List Token}
    (hts : OnLine lines later later' ts ts') :
    atKeywordArgument ts = false ∧ atKeywordArgument ts' = false ∨
      ∃ n line column column' us us', OnLine lines later later' us us' ∧ atOp .assign us = true ∧
        atKeywordArgument ts = true ∧ atKeywordArgument ts' = true ∧
        ts = ⟨.name n, line, column⟩ :: us ∧ ts' = ⟨.name n, lines line, column'⟩ :: us' := by
  cases hts with
  | lineEnd hclose =>
      have hkind := fun n => hclose.kind_ne (.name n) nofun nofun
      exact .inl ⟨atKeywordArgument_of_not_name fun n => (hkind n).1,
        atKeywordArgument_of_not_name fun n => (hkind n).2⟩
  | @token kind us us' line column column' hnewline hend hus =>
      cases kind with
      | name n =>
          have hassign : ∀ (l c : Nat) (us : List Token),
              atKeywordArgument (⟨.name n, l, c⟩ :: us) = atOp .assign us := by
            intro l c us
            rcases us with _ | ⟨⟨kind, l', c'⟩, us⟩
            · rfl
            · by_cases hkind : kind = .op .assign
              · subst hkind
                rfl
              · rw [atKeywordArgument, atOp, current_cons, beq_false_of_ne hkind]
                rintro _ _ _ _ _ _ heq
                cases heq
                exact hkind rfl
          rw [hassign, hassign, hus.atOp_eq .assign (by decide)]
          cases hop : atOp .assign us with
          | false => exact .inl ⟨rfl, rfl⟩
          | true => exact .inr ⟨n, line, column, column', us, us', hus, hop, rfl, rfl, rfl, rfl⟩
      | _ => exact .inl ⟨rfl, rfl⟩

theorem joinLiterals_refines {lines : Nat → Nat} (line : Nat)
    (parts : List (LiteralKind × String)) :
    Refines (fun e e' => e' = moved lines e) (joinLiterals line parts)
      (joinLiterals (lines line) parts) := by
  unfold joinLiterals
  dsimp only
  split
  · split
    · exact refines_ok rfl
    · exact refines_error _ _
  · split
    · exact refines_ok rfl
    · exact refines_ok rfl

namespace Alike

variable {lines : Nat → Nat} {g g' : Grammar} (h : g.Alike lines g')

include h

theorem atom : Parse.Alike lines (moved lines) g.atom g'.atom := by
  intro later later' ts ts' hts
  rcases hts.cases_current with ⟨-, hkind', hline, -⟩ | ⟨hend, -⟩
  swap
  · exact refines_of_fails (g.starts_atom.startsExpression.failsAtLineEnd ts hend) _
  unfold Grammar.atom
  dsimp only
  rw [hkind']
  split
  · rename_i n hkind
    split
    · exact refines_error _ _
    · exact readAlike (by rw [hline]; rfl) (hts.tail hkind nofun)
  · rename_i text hkind
    exact readAlike (by rw [hline]; rfl) (hts.tail hkind nofun)
  · obtain ⟨hparts, hrest⟩ := literals_onLine hts
    rw [hparts, hline]
    refine (joinLiterals_refines _ _).bind fun e e' he => ?_
    exact readAlike he hrest
  · rename_i hkind
    rw [hline]
    exact h.parenthesized _ (hts.tail hkind nofun)
  · rename_i hkind
    rw [hline]
    exact h.bracketed _ (hts.tail hkind nofun)
  · rename_i hkind
    rw [hline]
    exact h.braced _ (hts.tail hkind nofun)
  · rename_i hkind
    exact readAlike (by rw [hline]; rfl) (hts.tail hkind nofun)
  · exact refines_error _ _

theorem argument : Parse.Alike lines (Argument.moved lines) g.argument g'.argument := by
  intro later later' ts ts' hts
  unfold Grammar.argument
  rcases hts.skipOp? .star (by decide) with ⟨h1, h2⟩ | ⟨us, us', h1, h2, -, hus⟩
  · rw [h1, h2]
    dsimp only
    rcases hts.skipOp? .doubleStar (by decide) with ⟨h3, h4⟩ | ⟨us, us', h3, h4, -, hus⟩
    · rw [h3, h4]
      dsimp only
      rcases atKeywordArgument_onLine hts with ⟨h5, h6⟩ |
          ⟨n, line, column, column', us, us', hus, hassign, h5, h6, rfl, rfl⟩
      · rw [h5, h6]
        refine (h.test hts).read fun value us us' hus => ?_
        dsimp only
        rw [hus.atKeyword_eq]
        split
        · rw [line_moved]
          refine (h.comprehension .generator value none value.line hus).read fun e vs vs' hvs => ?_
          exact readAlike rfl hvs
        · exact readAlike rfl hus
      · rw [h5, h6, if_pos rfl, if_pos rfl]
        unfold name
        dsimp only [current_cons]
        split
        · exact refines_error _ _
        · refine (h.test (hus.tail_of_atOp hassign)).read fun value vs vs' hvs => ?_
          exact readAlike rfl hvs
    · rw [h3, h4]
      refine (h.test hus).read fun value vs vs' hvs => ?_
      exact readAlike rfl hvs
  · rw [h1, h2]
    refine (h.test hus).read fun value vs vs' hvs => ?_
    exact readAlike rfl hvs

theorem failsAtLineEnd_argument : FailsAtLineEnd g.argument := by
  intro ts hend r hr
  have hname : atKeywordArgument ts = false :=
    atKeywordArgument_of_not_name fun n hkind => by cases hkind.symm.trans hend
  rw [Grammar.argument, skipOp?_eq_none (by rw [hend]; exact nofun),
    skipOp?_eq_none (by rw [hend]; exact nofun), hname] at hr
  obtain ⟨value, hvalue, -⟩ := bind_eq_ok.mp hr
  exact h.starts_test.startsExpression.failsAtLineEnd ts hend value hvalue

theorem arguments :
    Parse.Alike lines (List.map (Argument.moved lines)) g.arguments g'.arguments := by
  intro later later' ts ts' hts
  unfold Grammar.arguments
  rcases hts.skipRightParen? with ⟨h1, hend⟩ | ⟨h1, h2⟩ | ⟨us, us', h1, h2, hus⟩
  · rw [h1]
    exact refines_bind_of_fails (h.failsAtLineEnd_argument ts hend) _ _
  · rw [h1, h2]
    refine (h.argument hts).read fun first us us' hus => ?_
    have hrest := h.argument.afterCommas (h.failsAtLineEnd_argument.stopsAlike .rightParen)
    refine (hrest hus).read fun rest vs vs' hvs => ?_
    refine (hvs.expectOp .rightParen).bind fun ws ws' hws => ?_
    exact readAlike rfl hws
  · rw [h1, h2]
    exact readAlike rfl hus

theorem slicePart : Parse.Alike lines (Option.map (moved lines)) g.slicePart g'.slicePart := by
  intro later later' ts ts' hts
  unfold Grammar.slicePart atSliceEnd
  rw [hts.atOp_eq .colon (by decide), hts.atOp_eq .rightBracket (by decide),
    hts.atOp_eq .comma (by decide)]
  split
  · exact readAlike rfl hts
  · refine (h.test hts).read fun e us us' hus => ?_
    exact readAlike rfl hus

theorem sliceFrom (line : Nat) (lower : Option Expr) : Parse.Alike lines (moved lines)
    (g.sliceFrom line lower) (g'.sliceFrom (lines line) (lower.map (moved lines))) := by
  intro later later' ts ts' hts
  unfold Grammar.sliceFrom
  refine (hts.expectOp .colon).bind fun us us' hus => ?_
  refine (h.slicePart hus).read fun upper vs vs' hvs => ?_
  dsimp only
  rcases hvs.skipOp? .colon (by decide) with ⟨h1, h2⟩ | ⟨ws, ws', h1, h2, -, hws⟩
  · rw [h1, h2]
    exact readAlike (by simp) hvs
  · rw [h1, h2]
    refine (h.slicePart hws).read fun step xs xs' hxs => ?_
    exact readAlike (by simp) hxs

theorem failsAtLineEnd_subscriptItem : FailsAtLineEnd g.subscriptItem := by
  intro ts hend r hr
  have hcolon : atOp .colon ts = false := by rw [atOp, hend]; rfl
  rw [Grammar.subscriptItem, hcolon] at hr
  obtain ⟨lower, hlower, -⟩ := bind_eq_ok.mp hr
  exact h.starts_test.startsExpression.failsAtLineEnd ts hend lower hlower

theorem subscriptItem : Parse.Alike lines (moved lines) g.subscriptItem g'.subscriptItem := by
  refine h.failsAtLineEnd_subscriptItem.alike ?_
  intro later later' ts ts' hts hline
  unfold Grammar.subscriptItem
  rw [hts.atOp_eq .colon (by decide), hline]
  split
  · exact h.sliceFrom (current ts).line none hts
  · refine (h.test hts).read fun lower us us' hus => ?_
    dsimp only
    rw [hus.atOp_eq .colon (by decide)]
    split
    · exact h.sliceFrom (current ts).line (some lower) hus
    · exact readAlike rfl hus

theorem trailer : AlikeIf lines (Trailer.moved lines) g.trailer g'.trailer := by
  intro later later' ts ts' hts
  rcases hts.cases_current with ⟨-, hkind', hline, -⟩ | ⟨hend, rfl, rfl⟩
  swap
  · have hnone : ∀ us, ((current us).kind = .newline ∨ (current us).kind = .op .rightParen) →
        g.trailer us = .ok none ∧ g'.trailer us = .ok none := by
      intro us hus
      unfold Grammar.trailer
      rcases hus with hus | hus
      · rw [hus]
        exact ⟨rfl, rfl⟩
      · rw [hus]
        exact ⟨rfl, rfl⟩
    rw [(hnone _ (.inl hend)).1, (hnone _ hts.closes.kind).2]
    exact refines_ok .none
  unfold Grammar.trailer
  rw [hkind', hline]
  split
  · rename_i hkind
    refine (h.arguments (hts.tail hkind nofun)).read fun arguments us us' hus => ?_
    exact refines_ok (.some ⟨rfl, hus⟩)
  · rename_i hkind
    have hindex := alike_itemOrTuple h.subscriptItem (current ts).line
      (stopsAlike_atOp g.subscriptItem .rightBracket (by decide))
    refine (hindex (hts.tail hkind nofun)).read fun index us us' hus => ?_
    refine (hus.expectOp .rightBracket).bind fun vs vs' hvs => ?_
    exact refines_ok (.some ⟨rfl, hvs⟩)
  · rename_i hkind
    refine (alike_name (hts.tail hkind nofun)).read fun n us us' hus => ?_
    exact refines_ok (.some ⟨rfl, hus⟩)
  · exact refines_ok .none

theorem primary : Parse.Alike lines (moved lines) g.primary g'.primary := by
  intro later later' ts ts' hts
  unfold Grammar.primary
  refine (h.atom hts).read fun first us us' hus => ?_
  refine (h.trailer.many hus).read fun trailers vs vs' hvs => ?_
  refine readAlike ?_ hvs
  rw [List.foldl_map]
  exact List.foldl_hom (moved lines) fun e trailer => (moved_applyTrailer lines e trailer).symm

end Alike

/-! ## Operators -/

theorem comparison?_of_lineEnd {ts : List Token}
    (h : (current ts).kind = .newline ∨ (current ts).kind = .op .rightParen) :
    comparison? ts = none := by
  unfold comparison?
  rcases h with h | h
  · rw [h]
  · rw [h]

/-- The comparison that comes next is the same, and takes the same tokens. -/
theorem comparison?_onLine {lines : Nat → Nat} {later later' ts ts' : List Token}
    (hts : OnLine lines later later' ts ts') :
    comparison? ts = none ∧ comparison? ts' = none ∨
      ∃ op us us', comparison? ts = some (op, us) ∧ comparison? ts' = some (op, us') ∧
        OnLine lines later later' us us' := by
  rcases hts.cases_current with ⟨-, hkind', -⟩ | ⟨hend, rfl, rfl⟩
  swap
  · exact .inl ⟨comparison?_of_lineEnd (.inl hend), comparison?_of_lineEnd hts.closes.kind⟩
  unfold comparison?
  rw [hkind']
  split
  · rename_i hkind
    exact .inr ⟨_, _, _, rfl, rfl, hts.tail hkind nofun⟩
  · rename_i hkind
    exact .inr ⟨_, _, _, rfl, rfl, hts.tail hkind nofun⟩
  · rename_i hkind
    exact .inr ⟨_, _, _, rfl, rfl, hts.tail hkind nofun⟩
  · rename_i hkind
    exact .inr ⟨_, _, _, rfl, rfl, hts.tail hkind nofun⟩
  · rename_i hkind
    exact .inr ⟨_, _, _, rfl, rfl, hts.tail hkind nofun⟩
  · rename_i hkind
    exact .inr ⟨_, _, _, rfl, rfl, hts.tail hkind nofun⟩
  · rename_i keyword hkind
    have hus := hts.tail hkind nofun
    unfold keywordComparison?
    split
    · exact .inr ⟨_, _, _, rfl, rfl, hus⟩
    · split
      · rcases hus.skipKeyword? "in" with ⟨h1, h2⟩ | ⟨vs, vs', h1, h2, -, hvs⟩
        · rw [h1, h2]
          exact .inl ⟨rfl, rfl⟩
        · rw [h1, h2]
          exact .inr ⟨_, _, _, rfl, rfl, hvs⟩
      · split
        · rcases hus.skipKeyword? "not" with ⟨h1, h2⟩ | ⟨vs, vs', h1, h2, -, hvs⟩
          · rw [h1, h2]
            exact .inr ⟨_, _, _, rfl, rfl, hus⟩
          · rw [h1, h2]
            exact .inr ⟨_, _, _, rfl, rfl, hvs⟩
        · exact .inl ⟨rfl, rfl⟩
  · exact .inl ⟨rfl, rfl⟩

section

variable {lines : Nat → Nat} {operand operand' : Parse Expr}
  (h : Parse.Alike lines (moved lines) operand operand')

include h

theorem alike_operatorAndOperand {table : List (Op × BinaryOp)}
    (htable : table.lookup .rightParen = none) :
    AlikeIf lines (fun r : BinaryOp × Expr => (r.1, r.2.moved lines))
      (operatorAndOperand table operand) (operatorAndOperand table operand') := by
  intro later later' ts ts' hts
  unfold operatorAndOperand
  rw [hts.apply_kind (f := operator? table) htable]
  cases hop : operator? table (current ts).kind with
  | none => exact refines_ok .none
  | some op =>
      have htail : OnLine lines later later' ts.tail ts'.tail := by
        refine hts.tail rfl fun hkind => ?_
        rw [hkind] at hop
        cases hop
      refine (h htail).read fun right us us' hus => ?_
      exact refines_ok (.some ⟨rfl, hus⟩)

theorem alike_binaryChain {tables : List (List (Op × BinaryOp))}
    (htables : ∀ table ∈ tables, table.lookup .rightParen = none) :
    Parse.Alike lines (moved lines) (binaryChain operand tables) (binaryChain operand' tables) := by
  induction tables with
  | nil => exact h
  | cons table tighter ih =>
      obtain ⟨htable, htighter⟩ := List.forall_mem_cons.mp htables
      have ih := ih htighter
      intro later later' ts ts' hts
      unfold binaryChain
      refine (ih hts).read fun first us us' hus => ?_
      refine ((alike_operatorAndOperand ih htable).many hus).read fun rest vs vs' hvs => ?_
      refine readAlike ?_ hvs
      rw [List.foldl_map]
      refine List.foldl_hom (moved lines) fun left r => ?_
      obtain ⟨op, right⟩ := r
      dsimp only
      rw [line_moved]
      rfl

theorem alike_joined (op : BoolOp) :
    Parse.Alike lines (moved lines) (joined op operand) (joined op operand') := by
  intro later later' ts ts' hts
  unfold joined
  refine (h hts).read fun first us us' hus => ?_
  refine ((h.afterKeyword op.keyword).many hus).read fun rest vs vs' hvs => ?_
  dsimp only
  rw [List.isEmpty_map]
  split
  · exact readAlike rfl hvs
  · exact readAlike (by simp) hvs

end

namespace Alike

variable {lines : Nat → Nat} {g g' : Grammar} (h : g.Alike lines g')

include h

theorem power : Parse.Alike lines (moved lines) g.power g'.power := by
  intro later later' ts ts' hts
  unfold Grammar.power
  refine (h.primary hts).read fun base us us' hus => ?_
  dsimp only
  rcases hus.skipOp? .doubleStar (by decide) with ⟨h1, h2⟩ | ⟨vs, vs', h1, h2, -, hvs⟩
  · rw [h1, h2]
    exact readAlike rfl hus
  · rw [h1, h2]
    refine (h.signed hvs).read fun exponent ws ws' hws => ?_
    exact readAlike (by rw [line_moved]; rfl) hws

theorem signedOperand : Parse.Alike lines (moved lines) g.signedOperand g'.signedOperand := by
  intro later later' ts ts' hts
  unfold Grammar.signedOperand
  rw [hts.apply_kind (f := sign?) rfl]
  cases hsign : sign? (current ts).kind with
  | none => exact h.power hts
  | some op =>
      have hne : (current ts).kind ≠ .newline := by
        intro hkind
        rw [hkind] at hsign
        cases hsign
      rw [hts.line_current rfl hne]
      refine (h.signed (hts.tail rfl hne)).read fun operand us us' hus => ?_
      exact readAlike rfl hus

theorem comparand : Parse.Alike lines (moved lines) g.comparand g'.comparand :=
  alike_binaryChain h.signedOperand (by decide)

theorem comparisonAndOperand :
    AlikeIf lines (fun r : Comparison × Expr => (r.1, r.2.moved lines))
      g.comparisonAndOperand g'.comparisonAndOperand := by
  intro later later' ts ts' hts
  unfold Grammar.comparisonAndOperand
  rcases comparison?_onLine hts with ⟨h1, h2⟩ | ⟨op, us, us', h1, h2, hus⟩
  · rw [h1, h2]
    exact refines_ok .none
  · rw [h1, h2]
    refine (h.comparand hus).read fun right vs vs' hvs => ?_
    exact refines_ok (.some ⟨rfl, hvs⟩)

theorem comparison : Parse.Alike lines (moved lines) g.comparison g'.comparison := by
  intro later later' ts ts' hts
  unfold Grammar.comparison
  refine (h.comparand hts).read fun left us us' hus => ?_
  refine (h.comparisonAndOperand.many hus).read fun comparisons vs vs' hvs => ?_
  dsimp only
  rw [List.isEmpty_map]
  split
  · exact readAlike rfl hvs
  · exact readAlike (by simp) hvs

theorem negatedComparison :
    Parse.Alike lines (moved lines) g.negatedComparison g'.negatedComparison := by
  intro later later' ts ts' hts
  unfold Grammar.negatedComparison
  rcases hts.skipKeyword? "not" with ⟨h1, h2⟩ | ⟨us, us', h1, h2, hline, hus⟩
  · rw [h1, h2]
    exact h.comparison hts
  · rw [h1, h2]
    refine (h.negation hus).read fun operand vs vs' hvs => ?_
    exact readAlike (by rw [hline]; rfl) hvs

theorem conditions : Parse.Alike lines (moved lines) g.conditions g'.conditions :=
  alike_joined (alike_joined h.negatedComparison .and) .or

/-! ## Whole expressions -/

theorem parameter : Parse.Alike lines id g.parameter g'.parameter := by
  intro later later' ts ts' hts
  unfold Grammar.parameter
  have hskip : OnLine lines later later'
      ((skipOp? .star ts <|> skipOp? .doubleStar ts).getD ts)
      ((skipOp? .star ts' <|> skipOp? .doubleStar ts').getD ts') := by
    rcases hts.skipOp? .star (by decide) with ⟨h1, h2⟩ | ⟨us, us', h1, h2, -, hus⟩
    · rw [h1, h2]
      rcases hts.skipOp? .doubleStar (by decide) with ⟨h3, h4⟩ | ⟨us, us', h3, h4, -, hus⟩
      · rw [h3, h4]
        exact hts
      · rw [h3, h4]
        exact hus
    · rw [h1, h2]
      exact hus
  refine (alike_name hskip).read fun n us us' hus => ?_
  dsimp only
  rcases hus.skipOp? .assign (by decide) with ⟨h1, h2⟩ | ⟨vs, vs', h1, h2, -, hvs⟩
  · rw [h1, h2]
    exact readAlike rfl hus
  · rw [h1, h2]
    refine (h.test hvs).read fun value ws ws' hws => ?_
    exact readAlike rfl hws

theorem parameters : Parse.Alike lines id g.parameters g'.parameters := by
  intro later later' ts ts' hts
  unfold Grammar.parameters
  rw [hts.atOp_eq .colon (by decide)]
  split
  · exact readAlike rfl hts
  · refine (h.parameter hts).read fun first us us' hus => ?_
    have hrest := h.parameter.afterCommas (stopsAlike_atOp g.parameter .colon (by decide))
    refine (hrest hus).read fun rest vs vs' hvs => ?_
    exact readAlike (by rw [List.map_id]; rfl) hvs

theorem lambda (line : Nat) :
    Parse.Alike lines (moved lines) (g.lambda line) (g'.lambda (lines line)) := by
  intro later later' ts ts' hts
  unfold Grammar.lambda
  refine (h.parameters hts).read fun parameters us us' hus => ?_
  refine (hus.expectOp .colon).bind fun vs vs' hvs => ?_
  refine (h.test hvs).read fun body ws ws' hws => ?_
  exact readAlike rfl hws

theorem conditionalRest (body : Expr) : Parse.Alike lines (moved lines) (g.conditionalRest body)
    (g'.conditionalRest (body.moved lines)) := by
  intro later later' ts ts' hts
  unfold Grammar.conditionalRest
  refine (h.conditions hts).read fun test us us' hus => ?_
  refine (hus.expectKeyword "else").bind fun vs vs' hvs => ?_
  refine (h.test hvs).read fun otherwise ws ws' hws => ?_
  exact readAlike (by rw [line_moved]; rfl) hws

theorem expression : Parse.Alike lines (moved lines) g.expression g'.expression := by
  intro later later' ts ts' hts
  unfold Grammar.expression
  rcases hts.skipKeyword? "lambda" with ⟨h1, h2⟩ | ⟨us, us', h1, h2, hline, hus⟩
  · rw [h1, h2]
    refine (h.conditions hts).read fun body us us' hus => ?_
    dsimp only
    rcases hus.skipKeyword? "if" with ⟨h3, h4⟩ | ⟨vs, vs', h3, h4, -, hvs⟩
    · rw [h3, h4]
      dsimp only
      rcases hus.skipOp? .walrus (by decide) with ⟨h5, h6⟩ | ⟨vs, vs', h5, h6, -, hvs⟩
      · rw [h5, h6]
        exact readAlike rfl hus
      · rw [h5, h6]
        refine (h.test hvs).read fun value ws ws' hws => ?_
        exact readAlike (by rw [line_moved]; rfl) hws
    · rw [h3, h4]
      exact h.conditionalRest body hvs
  · rw [h1, h2]
    dsimp only
    rw [hline]
    exact h.lambda (current ts).line hus

theorem deeper : g.deeper.Alike lines g'.deeper :=
  ⟨h.expression, h.conditions, h.negatedComparison, h.comparand, h.signedOperand,
    g.starts_expression, starts_binaryChain g.starts_signedOperand levels⟩

end Alike

/-- A deeper grammar reads whatever a shallower one does. -/
theorem alike_grammar (lines : Nat → Nat) {n m : Nat} (hle : n ≤ m) :
    (grammar n).Alike lines (grammar m) := by
  induction n generalizing m with
  | zero =>
      have hnone : ∀ p : Parse Expr, Parse.Alike lines (moved lines) (fault .tooDeep) p := by
        intro p later later' ts ts' hts
        exact refines_error _ _
      exact ⟨hnone _, hnone _, hnone _, hnone _, hnone _, starts_test 0, starts_operand 0⟩
  | succ n ih =>
      obtain ⟨m, rfl⟩ : ∃ k, m = k + 1 := ⟨m - 1, by omega⟩
      exact (ih (Nat.le_of_succ_le_succ hle)).deeper

end Grammar

end Parse

end DepsManifest
