import DepsManifest.Expr.Basic
import DepsManifest.Token.Parse
/-! # Reading displays and comprehensions

A `Grammar` holds the readers of nested expressions, and each production is a function of a grammar
that reads whatever is nested through it. Here are the productions that need nothing else: lists of
expressions, and what stands in parentheses, brackets and braces.

What an opening bracket begins is decided by what follows it. After the first item a `for` makes a
comprehension; in parentheses a closing one makes the item itself and a comma a tuple; in braces a
colon makes a dict and its absence a set. So every reader here goes forward only, and a choice once
made is not taken back. A comma may stand after the last item, but not alone.
-/
namespace DepsManifest

namespace Parse

/-- One item, or with a comma after it the tuple of several. -/
def itemOrTuple (line : Nat) (stop : List Token → Bool) (item : Parse Expr) : Parse Expr :=
  fun ts => do
    let (first, ts) ← item ts
    if atOp .comma ts then
      let (rest, ts) ← afterCommas stop item ts
      return (.tuple line (first :: rest), ts)
    else return (first, ts)

/-! ## Nested expressions -/

/-- Readers of nested expressions, by level. -/
structure Grammar where
  test : Parse Expr
  disjunction : Parse Expr
  negation : Parse Expr
  operand : Parse Expr
  signed : Parse Expr

namespace Grammar

variable (g : Grammar)

/-- An expression, or a starred operand. -/
def testOrStar : Parse Expr := fun ts =>
  match skipOp? .star ts with
  | some rest => do
    let (value, rest) ← g.operand rest
    return (.starred (current ts).line value, rest)
  | none => g.test ts

/-- A target of a comprehension, or a starred one. -/
def target : Parse Expr := fun ts =>
  match skipOp? .star ts with
  | some rest => do
    let (value, rest) ← g.operand rest
    return (.starred (current ts).line value, rest)
  | none => g.operand ts

/-- Expressions with commas between them; without a comma the one expression alone. -/
def testList (allowStar : Bool) : Parse Expr := fun ts =>
  itemOrTuple (current ts).line (fun ts => !startsExpression (current ts).kind)
    (if allowStar then g.testOrStar else g.test) ts

/-! ### Comprehensions -/

def clause : Parse Clause := fun ts => do
  let (targets, ts) ← itemOrTuple (current ts).line (atKeyword "in") g.target ts
  let ts ← expectKeyword "in" ts
  let (iterable, ts) ← g.disjunction ts
  let (conditions, ts) ← many (afterKeyword "if" g.disjunction) ts
  return (.mk targets iterable conditions, ts)

/-- The clauses of a comprehension whose element has been read. -/
def comprehension (kind : ComprehensionKind) (element : Expr) (value : Option Expr) (line : Nat) :
    Parse Expr := fun ts => do
  let (clauses, ts) ← many (afterKeyword "for" g.clause) ts
  return (.comprehension line kind element value clauses, ts)

/-! ### Displays -/

/-- The rest of a display after its first item, with its closing bracket. -/
def sequenceRest (first : Expr) (close : Op) : Parse (List Expr) := fun ts => do
  let (rest, ts) ← afterCommas (atOp close) g.testOrStar ts
  let ts ← expectOp close ts
  return (first :: rest, ts)

/-- What stands in parentheses, after the opening one. -/
def parenthesized (line : Nat) : Parse Expr := fun ts =>
  match skipOp? .rightParen ts with
  | some ts => .ok (.tuple line [], ts)
  | none => do
    let (first, ts) ← g.testOrStar ts
    if atKeyword "for" ts then
      let (e, ts) ← g.comprehension .generator first none line ts
      let ts ← expectOp .rightParen ts
      return (e, ts)
    else
      match skipOp? .rightParen ts with
      | some ts => return (first, ts)
      | none =>
        let (items, ts) ← g.sequenceRest first .rightParen ts
        return (.tuple line items, ts)

/-- What stands in brackets, after the opening one. -/
def bracketed (line : Nat) : Parse Expr := fun ts =>
  match skipOp? .rightBracket ts with
  | some ts => .ok (.list line [], ts)
  | none => do
    let (first, ts) ← g.testOrStar ts
    if atKeyword "for" ts then
      let (e, ts) ← g.comprehension .list first none line ts
      let ts ← expectOp .rightBracket ts
      return (e, ts)
    else
      let (items, ts) ← g.sequenceRest first .rightBracket ts
      return (.list line items, ts)

def dictItem : Parse DictItem := fun ts =>
  match skipOp? .doubleStar ts with
  | some ts => do
    let (value, ts) ← g.operand ts
    return (.unpack value, ts)
  | none => do
    let (key, ts) ← g.test ts
    let ts ← expectOp .colon ts
    let (value, ts) ← g.test ts
    return (.entry key value, ts)

/-- The rest of a dict display after its first item, with its closing brace. -/
def dictRest (line : Nat) (first : DictItem) : Parse Expr := fun ts => do
  let (rest, ts) ← afterCommas (atOp .rightBrace) g.dictItem ts
  let ts ← expectOp .rightBrace ts
  return (.dict line (first :: rest), ts)

/-- The rest of a dict or a dict comprehension after the first colon. -/
def dictAfterKey (line : Nat) (key : Expr) : Parse Expr := fun ts => do
  let (value, ts) ← g.test ts
  if atKeyword "for" ts then
    let (e, ts) ← g.comprehension .dict key (some value) line ts
    let ts ← expectOp .rightBrace ts
    return (e, ts)
  else g.dictRest line (.entry key value) ts

/-- What stands in braces, after the opening one. -/
def braced (line : Nat) : Parse Expr := fun ts =>
  match skipOp? .rightBrace ts with
  | some ts => .ok (.dict line [], ts)
  | none =>
    match skipOp? .doubleStar ts with
    | some ts => do
      let (value, ts) ← g.operand ts
      g.dictRest line (.unpack value) ts
    | none => do
      let (first, ts) ← g.testOrStar ts
      match skipOp? .colon ts with
      | some ts => g.dictAfterKey line first ts
      | none =>
        if atKeyword "for" ts then
          let (e, ts) ← g.comprehension .set first none line ts
          let ts ← expectOp .rightBrace ts
          return (e, ts)
        else
          let (items, ts) ← g.sequenceRest first .rightBrace ts
          return (.set line items, ts)

end Grammar

end Parse

end DepsManifest
