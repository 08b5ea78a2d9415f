import DepsManifest.Expr.Parser
import DepsManifest.Proofs.Except
/-! # What an expression begins with

Whatever is read as an expression begins with a token that can begin one, in the sense in which a
list of expressions looks for the end of the list (`Parse.startsExpression`); with a star it can
begin only where a list allows one. Two consequences are what this is for:

  * a keyword that goes on with a block is no such token, so a statement that begins with one is not
    read as an expression;
  * the end of a line is no such token either, so a production that reads an expression first fails
    there.

For a level of operators the statement holds because the level begins with its first operand
(`StartsWith.of_bind`); the levels with operators before an operand add a sign, `not`, `lambda` and
a star. So the lemmas go up the ladder of levels, from atoms (`starts_atom`) to lists of expressions
(`starts_testList`), and then by induction to grammars of every depth.

`StartsWith` is stated for any set of kinds of tokens: a list in which items may be starred begins
with one more of them.
-/
namespace DepsManifest.Parse

/-- What a reader reads begins with a token of some kinds. -/
def StartsWith {α : Type} (kinds : TokenKind → Bool) (p : Parse α) : Prop :=
  ∀ ts r, p ts = .ok r → kinds (current ts).kind = true

/-- What a reader reads begins with a token that can begin an expression. -/
abbrev StartsExpression {α : Type} (p : Parse α) : Prop := StartsWith startsExpression p

/-- Whether a kind of token can begin an expression other than a starred one. -/
def startsTest (kind : TokenKind) : Bool := startsExpression kind && kind != .op .star

/-- What a reader reads begins with a token that can begin an expression other than a starred one.
-/
abbrev StartsTest {α : Type} (p : Parse α) : Prop := StartsWith startsTest p

theorem StartsTest.startsExpression {α : Type} {p : Parse α} (h : StartsTest p) :
    StartsExpression p :=
  fun ts r hr => (Bool.and_eq_true_iff.mp (h ts r hr)).1

/-- A reader fails before a token of another kind. -/
theorem StartsWith.ne_ok {α : Type} {kinds : TokenKind → Bool} {p : Parse α}
    (h : StartsWith kinds p) {ts : List Token} (hkind : kinds (current ts).kind = false)
    (r : α × List Token) :
    p ts ≠ .ok r := by
  intro hr
  rw [h ts r hr] at hkind
  cases hkind

section

variable {α β : Type} {p : Parse α} {kinds : TokenKind → Bool}

/-- A reader that goes on after another one begins as that does. -/
theorem StartsWith.of_bind (h : StartsWith kinds p) {ts : List Token}
    {k : α × List Token → Except (Located SyntaxFault) β} {r : β} (hr : (p ts >>= k) = .ok r) :
    kinds (current ts).kind = true := by
  obtain ⟨first, hfirst, -⟩ := bind_eq_ok.mp hr
  exact h ts first hfirst

theorem startsWith_of_skipOp? {op : Op} {ts us : List Token} (h : skipOp? op ts = some us)
    (hop : kinds (.op op) = true) : kinds (current ts).kind = true := by
  unfold skipOp? at h
  split at h
  · rename_i hat
    rw [atOp, beq_iff_eq] at hat
    rw [hat]
    exact hop
  · cases h

theorem startsWith_of_skipKeyword? {keyword : String} {ts us : List Token}
    (h : skipKeyword? keyword ts = some us) (hkeyword : kinds (.name keyword) = true) :
    kinds (current ts).kind = true := by
  unfold skipKeyword? at h
  split at h
  · rename_i hat
    rw [atKeyword, beq_iff_eq] at hat
    rw [hat]
    exact hkeyword
  · cases h

end

namespace Grammar

/-! ## Operands -/

theorem literals_of_not_literal {ts : List Token}
    (h : ∀ kind text, (current ts).kind ≠ .literal kind text) : literals ts = ([], ts) := by
  cases ts with
  | nil => rfl
  | cons t ts =>
      rw [literals]
      split
      · rename_i kind text hkind
        exact absurd hkind (h kind text)
      · rfl

theorem atKeywordArgument_of_not_name {ts : List Token} (h : ∀ n, (current ts).kind ≠ .name n) :
    atKeywordArgument ts = false := by
  unfold atKeywordArgument
  split
  · exact absurd rfl (h _)
  · rfl

section

variable (g : Grammar)

theorem starts_atom : StartsTest g.atom := by
  intro ts r hr
  unfold atom at hr
  dsimp only at hr
  split at hr
  · rename_i n hkind
    split at hr
    · cases hr
    · rename_i hkeyword
      rw [Bool.not_eq_true] at hkeyword
      rw [hkind, startsTest, startsExpression, hkeyword]
      rfl
  · rename_i hkind
    rw [hkind]
    rfl
  · rename_i hkind
    rw [hkind]
    rfl
  · rename_i hkind
    rw [hkind]
    rfl
  · rename_i hkind
    rw [hkind]
    rfl
  · rename_i hkind
    rw [hkind]
    rfl
  · rename_i hkind
    rw [hkind]
    rfl
  · cases hr

theorem starts_primary : StartsTest g.primary := by
  intro ts r hr
  exact g.starts_atom.of_bind hr

theorem starts_power : StartsTest g.power := by
  intro ts r hr
  exact g.starts_primary.of_bind hr

theorem starts_signedOperand : StartsTest g.signedOperand := by
  intro ts r hr
  unfold signedOperand at hr
  split at hr
  · rename_i op hsign
    unfold sign? at hsign
    split at hsign
    · rename_i hkind
      rw [hkind]
      rfl
    · rename_i hkind
      rw [hkind]
      rfl
    · rename_i hkind
      rw [hkind]
      rfl
    · cases hsign
  · exact g.starts_power ts r hr

end

/-! ## Operators -/

section

variable {operand : Parse Expr} (h : StartsTest operand)

include h

theorem starts_binaryChain (tables : List (List (Op × BinaryOp))) :
    StartsTest (binaryChain operand tables) := by
  induction tables with
  | nil => exact h
  | cons table tighter ih =>
      intro ts r hr
      unfold binaryChain at hr
      exact ih.of_bind hr

theorem starts_joined (op : BoolOp) : StartsTest (joined op operand) := by
  intro ts r hr
  exact h.of_bind hr

end

section

variable (g : Grammar)

theorem starts_comparison : StartsTest g.comparison := by
  intro ts r hr
  exact (starts_binaryChain g.starts_signedOperand levels).of_bind hr

theorem starts_negatedComparison : StartsTest g.negatedComparison := by
  intro ts r hr
  unfold negatedComparison at hr
  split at hr
  · rename_i rest hskip
    exact startsWith_of_skipKeyword? hskip rfl
  · exact g.starts_comparison ts r hr

theorem starts_conditions : StartsTest g.conditions :=
  starts_joined (starts_joined g.starts_negatedComparison .and) .or

theorem starts_expression : StartsTest g.expression := by
  intro ts r hr
  unfold expression at hr
  split at hr
  · rename_i rest hskip
    exact startsWith_of_skipKeyword? hskip rfl
  · exact g.starts_conditions.of_bind hr

end

/-! ## Lists of expressions -/

theorem starts_itemOrTuple {kinds : TokenKind → Bool} {item : Parse Expr}
    (h : StartsWith kinds item) (line : Nat) (stop : List Token → Bool) :
    StartsWith kinds (itemOrTuple line stop item) :=
  fun _ _ hr => h.of_bind hr

theorem starts_target {g : Grammar} (h : StartsTest g.operand) : StartsExpression g.target := by
  intro ts r hr
  unfold target at hr
  split at hr
  · rename_i rest hskip
    exact startsWith_of_skipOp? hskip rfl
  · exact h.startsExpression ts r hr

theorem starts_clause {g : Grammar} (h : StartsTest g.operand) : StartsExpression g.clause :=
  fun _ _ hr => (starts_itemOrTuple (starts_target h) _ _).of_bind hr

theorem starts_test (n : Nat) : StartsTest (grammar n).test := by
  cases n with
  | zero =>
      intro ts r hr
      cases hr
  | succ n => exact (grammar n).starts_expression

theorem starts_operand (n : Nat) : StartsTest (grammar n).operand := by
  cases n with
  | zero =>
      intro ts r hr
      cases hr
  | succ n => exact starts_binaryChain (grammar n).starts_signedOperand levels

section

variable {g : Grammar} (h : StartsTest g.test)

include h

theorem starts_testOrStar : StartsExpression g.testOrStar := by
  intro ts r hr
  unfold testOrStar at hr
  split at hr
  · rename_i rest hskip
    exact startsWith_of_skipOp? hskip rfl
  · exact h.startsExpression ts r hr

theorem starts_testList (allowStar : Bool) : StartsExpression (g.testList allowStar) := by
  have hitem : StartsExpression (if allowStar = true then g.testOrStar else g.test) := by
    split
    · exact starts_testOrStar h
    · exact h.startsExpression
  exact fun _ _ hr => hitem.of_bind hr

end

end Grammar

end DepsManifest.Parse
