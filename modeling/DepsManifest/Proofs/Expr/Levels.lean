import DepsManifest.Expr.Parser
import DepsManifest.Proofs.Token.Parse
/-! # Levels of the grammar

The productions of the grammar are a ladder. What is read at one of its levels (`Grammar.reader`) is
what is read at the next level, and then whatever of its own the level adds (`Grammar.finish`):

     0  conditional     4  comparison     11  signs
     1  or              5  |    8  <<     12  **
     2  and             6  ^    9  +      13  calls
     3  not             7  &   10  *      14  atoms

The numbers are those of the printed form too, which puts parentheses where an operand has a lower
level than its place asks for.

## Two tables of tokens

  * A token that an expression begins with has the level of what can begin so (`startLevel?`). Above
    it no level is skipped: each is the next one with what it adds (`Grammar.reader_eq`).
  * A token after an expression has the level that goes on with it (`followLevel?`). Every other
    level adds nothing (`Grammar.finish_eq`).

So whether an expression ends before some tokens is a question about one token (`Stops`), and a
reader at a loose level can be climbed down to the level of the expression in one step
(`reader_climb`). No proof about an expression has to pass through the levels that it does not use.

A loop takes one round after the other. `binaryRest_more` and `primaryRest_more` are what one round
does; they are all that a proof about a chain needs of its loop.
-/
namespace DepsManifest

namespace Parse

/-! ## Tokens at the ends of an expression -/

/-- The level at which an expression goes on with an operator, if it can. -/
def opLevel? : Op → Option Nat
  | .walrus => some 0
  | .less | .greater | .lessEqual | .greaterEqual | .equal | .notEqual => some 4
  | .bar => some 5
  | .caret => some 6
  | .ampersand => some 7
  | .shiftLeft | .shiftRight => some 8
  | .plus | .minus => some 9
  | .star | .slash | .doubleSlash | .percent | .atSign => some 10
  | .doubleStar => some 12
  | .leftParen | .leftBracket | .dot => some 13
  | _ => none

/-- The level at which an expression goes on with a token, if it can. -/
def followLevel? : TokenKind → Option Nat
  | .name n =>
    if n = "if" then some 0
    else if n = "or" then some 1
    else if n = "and" then some 2
    else if n = "in" ∨ n = "not" ∨ n = "is" then some 4
    else none
  | .literal _ _ => some 15
  | .op o => opLevel? o
  | _ => none

/-- An expression of a level ends before some tokens. -/
def Stops (level : Nat) (ts : List Token) : Prop :=
  ∀ l, followLevel? (current ts).kind = some l → l < level

/-- The level of the expressions that a token begins, if it begins any. -/
def startLevel? : TokenKind → Option Nat
  | .name n =>
    if n = "not" then some 3
    else if keywords.contains n then none
    else some 14
  | .literal _ _ => some 14
  | .op .minus | .op .plus | .op .tilde => some 11
  | .op .leftParen | .op .leftBracket | .op .leftBrace => some 14
  | _ => none

theorem followLevel?_ne_signs {kind : TokenKind} {l : Nat} (h : followLevel? kind = some l) :
    l ≠ 11 := by
  rintro rfl
  cases kind with
  | name n =>
      simp only [followLevel?] at h
      split at h
      · cases h
      split at h
      · cases h
      split at h
      · cases h
      split at h <;> cases h
  | op o => cases o <;> cases h
  | _ => cases h

theorem Stops.mono {ℓ m : Nat} (hle : ℓ ≤ m) {ts : List Token} (h : Stops ℓ ts) : Stops m ts :=
  fun l hl => Nat.lt_of_lt_of_le (h l hl) hle

theorem Stops.ne {ℓ : Nat} {ts : List Token} (h : Stops ℓ ts) {m : Nat} (hle : ℓ ≤ m) :
    followLevel? (current ts).kind ≠ some m :=
  fun heq => absurd (h m heq) (by omega)

namespace Grammar

variable (g : Grammar)

/-! ## What a level adds -/

/-- What follows conditions: the rest of a conditional expression, or of a named one. -/
def conditionRest (body : Expr) : Parse Expr := fun ts =>
  match skipKeyword? "if" ts with
  | some ts => g.conditionalRest body ts
  | none =>
    match skipOp? .walrus ts with
    | some ts => do
      let (value, ts) ← g.test ts
      return (.named body.line body value, ts)
    | none => .ok (body, ts)

/-- What follows the first operand of `or` or `and`. -/
def joinedRest (op : BoolOp) (operand : Parse Expr) (first : Expr) : Parse Expr := fun ts => do
  let (rest, ts) ← many (afterKeyword op.keyword operand) ts
  if rest.isEmpty then return (first, ts)
  else return (.boolean first.line op (first :: rest), ts)

/-- What follows the first operand of a comparison. -/
def comparisonRest (left : Expr) : Parse Expr := fun ts => do
  let (comparisons, ts) ← many g.comparisonAndOperand ts
  if comparisons.isEmpty then return (left, ts)
  else return (.compare left.line left comparisons, ts)

/-- What follows the first operand of binary operators. -/
def binaryRest (table : List (Op × BinaryOp)) (operand : Parse Expr) (first : Expr) :
    Parse Expr := fun ts => do
  let (rest, ts) ← many (operatorAndOperand table operand) ts
  return (rest.foldl (fun left (op, right) => .binary left.line op left right) first, ts)

/-- What follows the base of a power. -/
def powerRest (base : Expr) : Parse Expr := fun ts =>
  match skipOp? .doubleStar ts with
  | some ts => do
    let (exponent, ts) ← g.signed ts
    return (.binary base.line .power base exponent, ts)
  | none => .ok (base, ts)

/-- What follows an atom. -/
def primaryRest (first : Expr) : Parse Expr := fun ts => do
  let (trailers, ts) ← many g.trailer ts
  return (trailers.foldl applyTrailer first, ts)

/-- What is read at a level. -/
def reader : Nat → Parse Expr
  | 0 => g.expression
  | 1 => g.conditions
  | 2 => joined .and g.negatedComparison
  | 3 => g.negatedComparison
  | 4 => g.comparison
  | 12 => g.power
  | 13 => g.primary
  | _ + 14 => g.atom
  | level => binaryChain g.signedOperand (levels.drop (level - 5))

/-- What a level adds to what is read at the next. -/
def finish : Nat → Expr → Parse Expr
  | 0 => g.conditionRest
  | 1 => joinedRest .or (g.reader 2)
  | 2 => joinedRest .and (g.reader 3)
  | 4 => g.comparisonRest
  | 5 => binaryRest [(.bar, .bitOr)] (g.reader 6)
  | 6 => binaryRest [(.caret, .bitXor)] (g.reader 7)
  | 7 => binaryRest [(.ampersand, .bitAnd)] (g.reader 8)
  | 8 => binaryRest [(.shiftLeft, .shiftLeft), (.shiftRight, .shiftRight)] (g.reader 9)
  | 9 => binaryRest [(.plus, .add), (.minus, .subtract)] (g.reader 10)
  | 10 =>
    binaryRest [(.star, .multiply), (.slash, .divide), (.doubleSlash, .floorDivide),
      (.percent, .modulo), (.atSign, .matrixMultiply)] (g.reader 11)
  | 12 => g.powerRest
  | 13 => g.primaryRest
  | _ => fun e ts => .ok (e, ts)

variable {g}

theorem startLevel?_le {kind : TokenKind} {start : Nat} (h : startLevel? kind = some start) :
    start ≤ 14 := by
  unfold startLevel? at h
  split at h
  · split at h
    · cases h
      decide
    · split at h <;> cases h
      decide
  all_goals cases h
  all_goals decide

/-- Below the level of what an expression begins with, a level is the next one with what it adds. -/
theorem reader_eq {ts : List Token} {level start : Nat}
    (hstart : startLevel? (current ts).kind = some start) (hlt : level < start) :
    g.reader level ts = g.reader (level + 1) ts >>= fun (e, rest) => g.finish level e rest := by
  match level with
  | 0 =>
      have hlambda : (current ts).kind ≠ .name "lambda" := by
        intro h
        rw [h] at hstart
        cases hstart
      simp only [reader, expression, skipKeyword?_eq_none hlambda]
      rfl
  | 3 =>
      have hnot : (current ts).kind ≠ .name "not" := by
        intro h
        rw [h] at hstart
        cases hstart
        omega
      simp only [reader, negatedComparison, skipKeyword?_eq_none hnot]
      exact (bind_pure _).symm
  | 11 =>
      have hsign : sign? (current ts).kind = none := by
        cases hkind : (current ts).kind with
        | op o =>
            rw [hkind] at hstart
            cases o <;> first | rfl | (cases hstart; omega)
        | _ => rfl
      show g.signedOperand ts = _
      simp only [signedOperand, hsign]
      exact (bind_pure _).symm
  | level + 14 =>
      have := startLevel?_le hstart
      omega
  | 1 | 2 | 4 | 5 | 6 | 7 | 8 | 9 | 10 | 12 | 13 => rfl

theorem comparison?_eq_none {ts : List Token} (h : followLevel? (current ts).kind ≠ some 4) :
    comparison? ts = none := by
  cases hkind : (current ts).kind with
  | name n =>
      have hin : n ≠ "in" := by
        rintro rfl
        exact h (by rw [hkind]; rfl)
      have hnot : n ≠ "not" := by
        rintro rfl
        exact h (by rw [hkind]; rfl)
      have his : n ≠ "is" := by
        rintro rfl
        exact h (by rw [hkind]; rfl)
      simp only [comparison?, hkind, keywordComparison?, hin, hnot, his, if_false]
  | op o =>
      rw [hkind] at h
      cases o <;> first | exact absurd rfl h | simp only [comparison?, hkind]
  | _ => simp only [comparison?, hkind]

theorem joinedRest_eq {op : BoolOp} {operand : Parse Expr} (e : Expr) {ts : List Token}
    (h : (current ts).kind ≠ .name op.keyword) : joinedRest op operand e ts = .ok (e, ts) := by
  have hnext : afterKeyword op.keyword operand ts = .ok none := by
    simp only [afterKeyword, skipKeyword?_eq_none h]
  simp only [joinedRest, many_done hnext, ok_bind]
  rfl

theorem binaryRest_eq {table : List (Op × BinaryOp)} {operand : Parse Expr} (e : Expr)
    {ts : List Token} (h : ∀ o, (current ts).kind = .op o → table.lookup o = none) :
    binaryRest table operand e ts = .ok (e, ts) := by
  have hnext : operatorAndOperand table operand ts = .ok none := by
    have hop : operator? table (current ts).kind = none := by
      cases hkind : (current ts).kind with
      | op o => exact h o hkind
      | _ => rfl
    simp only [operatorAndOperand, hop]
  simp only [binaryRest, many_done hnext, ok_bind]
  rfl

/-- A token that goes on with an expression at another level, or at none, adds nothing. -/
theorem finish_eq (e : Expr) {ts : List Token} {level : Nat}
    (h : followLevel? (current ts).kind ≠ some level) : g.finish level e ts = .ok (e, ts) := by
  match level with
  | 0 =>
      have hif : (current ts).kind ≠ .name "if" := fun hkind => h (by rw [hkind]; rfl)
      have hwalrus : (current ts).kind ≠ .op .walrus := fun hkind => h (by rw [hkind]; rfl)
      simp only [finish, conditionRest, skipKeyword?_eq_none hif, skipOp?_eq_none hwalrus]
  | 1 => exact joinedRest_eq e fun hkind => h (by rw [hkind]; rfl)
  | 2 => exact joinedRest_eq e fun hkind => h (by rw [hkind]; rfl)
  | 4 =>
      have hnext : g.comparisonAndOperand ts = .ok none := by
        simp only [comparisonAndOperand, comparison?_eq_none h]
      simp only [finish, comparisonRest, many_done hnext, ok_bind]
      rfl
  | 5 | 6 | 7 | 8 | 9 | 10 =>
      refine binaryRest_eq e fun o hkind => ?_
      rw [hkind] at h
      cases o <;> first | rfl | exact absurd rfl h
  | 12 =>
      have hpower : (current ts).kind ≠ .op .doubleStar := fun hkind => h (by rw [hkind]; rfl)
      simp only [finish, powerRest, skipOp?_eq_none hpower]
  | 13 =>
      have hnext : g.trailer ts = .ok none := by
        unfold trailer
        split
        case h_1 hkind => exact absurd (by rw [hkind]; rfl) h
        case h_2 hkind => exact absurd (by rw [hkind]; rfl) h
        case h_3 hkind => exact absurd (by rw [hkind]; rfl) h
        case h_4 => rfl
      simp only [finish, primaryRest, many_done hnext, ok_bind]
      rfl
  | 3 | 11 | level + 14 => rfl

/-- What is read at a level and goes on is read at a looser level and goes on, unless the tokens
after it go on at a level between. -/
theorem reader_climb {us rest : List Token} {e : Expr} {start level distance : Nat}
    (hstart : startLevel? (current us).kind = some start) (hle : level + distance ≤ start)
    (hstops : Stops (level + 1) rest)
    (h : ∀ r, g.finish (level + distance) e rest = .ok r →
      g.reader (level + distance) us = .ok r) :
    ∀ r, g.finish level e rest = .ok r → g.reader level us = .ok r := by
  induction distance with
  | zero => exact h
  | succ distance ih =>
      have hread : g.reader (level + distance + 1) us = .ok (e, rest) :=
        h (e, rest) (finish_eq e (hstops.ne (by omega)))
      refine ih (by omega) fun r hr => ?_
      rw [reader_eq hstart (by omega), hread]
      exact hr

theorem test_of_atom {n : Nat} {us rest : List Token} {e : Expr}
    (hstart : startLevel? (current us).kind = some 14) (hatom : (grammar n).atom us = .ok (e, rest))
    (hstops : Stops 0 rest) : (grammar (n + 1)).test us = .ok (e, rest) := by
  have hread : ∀ r, (grammar n).finish 14 e rest = .ok r → (grammar n).reader 14 us = .ok r := by
    intro r hr
    cases hr
    exact hatom
  exact reader_climb hstart (show 0 + 14 ≤ 14 from Nat.le_refl 14)
    (hstops.mono (Nat.zero_le 1)) hread
    _ (finish_eq e (hstops.ne (Nat.le_refl 0)))

theorem testOrStar_of_atom {n : Nat} {us rest : List Token} {e : Expr}
    (hstart : startLevel? (current us).kind = some 14) (hatom : (grammar n).atom us = .ok (e, rest))
    (hstops : Stops 0 rest) : (grammar (n + 1)).testOrStar us = .ok (e, rest) := by
  have hstar : (current us).kind ≠ .op .star := by
    intro hkind
    rw [hkind] at hstart
    cases hstart
  rw [testOrStar, skipOp?_eq_none hstar]
  exact test_of_atom hstart hatom hstops

theorem testList_single {allowStar : Bool} {us rest : List Token} {e : Expr}
    (h : (if allowStar = true then g.testOrStar else g.test) us = .ok (e, rest))
    (hcomma : atOp .comma rest = false) : g.testList allowStar us = .ok (e, rest) := by
  simp only [testList, itemOrTuple, h, ok_bind, hcomma, Bool.false_eq_true, if_false]
  rfl

/-! ## What stands in parentheses -/

theorem parenthesized_group {line : Nat} {e : Expr} {us vs : List Token}
    (hopen : (current us).kind ≠ .op .rightParen) (he : g.testOrStar us = .ok (e, vs))
    (hclose : atOp .rightParen vs = true) : g.parenthesized line us = .ok (e, vs.tail) := by
  have hkind : (current vs).kind = .op .rightParen := by rwa [atOp, beq_iff_eq] at hclose
  have hfor : atKeyword "for" vs = false := by rw [atKeyword, hkind]; rfl
  have hskip : skipOp? .rightParen vs = some vs.tail := if_pos hclose
  simp only [parenthesized, skipOp?_eq_none hopen, he, ok_bind, hfor, hskip, Bool.false_eq_true,
    if_false]
  rfl

theorem parenthesized_tuple {line : Nat} {first : Expr} {items : List Expr}
    {us vs rest : List Token} (hopen : (current us).kind ≠ .op .rightParen)
    (hfirst : g.testOrStar us = .ok (first, vs)) (hfor : atKeyword "for" vs = false)
    (hclose : (current vs).kind ≠ .op .rightParen)
    (hitems : g.sequenceRest first .rightParen vs = .ok (items, rest)) :
    g.parenthesized line us = .ok (.tuple line items, rest) := by
  simp only [parenthesized, skipOp?_eq_none hopen, hfirst, ok_bind, hfor, Bool.false_eq_true,
    if_false, skipOp?_eq_none hclose, hitems]
  rfl

/-! ## Rounds of the loops -/

theorem binaryRest_more {table : List (Op × BinaryOp)} {operand : Parse Expr} {left right : Expr}
    {op : BinaryOp} {us vs : List Token} {r : Expr × List Token}
    (h : operatorAndOperand table operand us = .ok (some ((op, right), vs)))
    (hlt : vs.length < us.length)
    (hmore : binaryRest table operand (.binary left.line op left right) vs = .ok r) :
    binaryRest table operand left us = .ok r := by
  obtain ⟨more, hmany, hr⟩ := bind_eq_ok.mp hmore
  exact bind_eq_ok.mpr ⟨((op, right) :: more.1, more.2), many_more h hlt hmany, hr⟩

theorem primaryRest_more {first : Expr} {trailer : Trailer} {us vs : List Token}
    {r : Expr × List Token} (h : g.trailer us = .ok (some (trailer, vs)))
    (hlt : vs.length < us.length) (hmore : g.primaryRest (applyTrailer first trailer) vs = .ok r) :
    g.primaryRest first us = .ok r := by
  obtain ⟨more, hmany, hr⟩ := bind_eq_ok.mp hmore
  exact bind_eq_ok.mpr ⟨(trailer :: more.1, more.2), many_more h hlt hmany, hr⟩

end Grammar

end Parse

end DepsManifest
