import DepsManifest.Expr.Display
/-! # Reading atoms and what follows them

A primary expression is an atom with calls, subscripts and attributes after it. A node made by one
of these stands on the line of the atom.

An atom is a name that is no keyword, a number, string literals, a display, or an ellipsis. Literals
next to each other are one node, on the line of the first; bytes join only with bytes, and the node
is formatted if one of the literals is. Numbers are read as texts, because nothing evaluates them.

The arguments of a call can stand in any order. They are sorted by kind afterwards; of several
starred ones the last is kept. A generator as an argument needs no parentheses of its own.
-/
namespace DepsManifest

namespace Parse

namespace Grammar

variable (g : Grammar)

/-! ## Atoms -/

/-- The string literals that come next, and the tokens after them. -/
def literals : List Token → List (LiteralKind × String) × List Token
  | [] => ([], [])
  | t :: ts =>
    match t.kind with
    | .literal kind text =>
      let (more, rest) := literals ts
      ((kind, text) :: more, rest)
    | _ => ([], t :: ts)

/-- Adjacent string literals as one node. Bytes join only with bytes. -/
def joinLiterals (line : Nat) (parts : List (LiteralKind × String)) :
    Except (Located SyntaxFault) Expr :=
  let kinds := parts.map (·.1)
  let text := String.join (parts.map (·.2))
  if kinds.contains .bytes then
    if kinds.all (· == .bytes) then .ok (.bytes line text) else .error ⟨line, .mixedLiterals⟩
  else if kinds.contains .formatted then .ok (.formatted line text)
  else .ok (.str line text)

def atom : Parse Expr := fun ts =>
  let t := current ts
  match t.kind with
  | .name n => if keywords.contains n then unexpected ts else .ok (.name t.line n, ts.tail)
  | .number text => .ok (.number t.line text, ts.tail)
  | .literal _ _ => do
    let (parts, rest) := literals ts
    return (← joinLiterals t.line parts, rest)
  | .op .leftParen => g.parenthesized t.line ts.tail
  | .op .leftBracket => g.bracketed t.line ts.tail
  | .op .leftBrace => g.braced t.line ts.tail
  | .op .ellipsis => .ok (.ellipsis t.line, ts.tail)
  | _ => unexpected ts

/-! ## What follows an atom -/

/-- An argument of a call. -/
inductive Argument where
  | positional (value : Expr)
  | keyword (name : String) (value : Expr)
  | sequence (value : Expr)
  | mapping (value : Expr)

/-- What can follow an atom. -/
inductive Trailer where
  | call (arguments : List Argument)
  | subscript (index : Expr)
  | field (name : String)

/-- The positional arguments among the arguments of a call. -/
def positionals (arguments : List Argument) : List Expr :=
  arguments.filterMap fun
    | .positional value => some value
    | _ => none

/-- The arguments passed by name among the arguments of a call. -/
def namedArguments (arguments : List Argument) : List Keyword :=
  arguments.filterMap fun
    | .keyword name value => some (.mk name value)
    | _ => none

/-- The last starred argument of a call. -/
def lastSequence? (arguments : List Argument) : Option Expr :=
  (arguments.filterMap fun
    | .sequence value => some value
    | _ => none).getLast?

/-- The last doubly starred argument of a call. -/
def lastMapping? (arguments : List Argument) : Option Expr :=
  (arguments.filterMap fun
    | .mapping value => some value
    | _ => none).getLast?

/-- A node with a trailer after it. -/
def applyTrailer (e : Expr) : Trailer → Expr
  | .call arguments =>
    .call e.line e (positionals arguments) (namedArguments arguments) (lastSequence? arguments)
      (lastMapping? arguments)
  | .subscript index => .subscript e.line e index
  | .field name => .field e.line e name

/-- Whether a name and a single equals sign come next. -/
def atKeywordArgument : List Token → Bool
  | ⟨.name _, _, _⟩ :: ⟨.op .assign, _, _⟩ :: _ => true
  | _ => false

def argument : Parse Argument := fun ts =>
  match skipOp? .star ts with
  | some ts => do
    let (value, ts) ← g.test ts
    return (.sequence value, ts)
  | none =>
    match skipOp? .doubleStar ts with
    | some ts => do
      let (value, ts) ← g.test ts
      return (.mapping value, ts)
    | none =>
      if atKeywordArgument ts then do
        let (n, ts) ← name ts
        let (value, ts) ← g.test ts.tail
        return (.keyword n value, ts)
      else do
        let (value, ts) ← g.test ts
        if atKeyword "for" ts then
          let (e, ts) ← g.comprehension .generator value none value.line ts
          return (.positional e, ts)
        else return (.positional value, ts)

/-- The arguments of a call, after its opening parenthesis. -/
def arguments : Parse (List Argument) := fun ts =>
  match skipOp? .rightParen ts with
  | some ts => .ok ([], ts)
  | none => do
    let (first, ts) ← g.argument ts
    let (rest, ts) ← afterCommas (atOp .rightParen) g.argument ts
    let ts ← expectOp .rightParen ts
    return (first :: rest, ts)

/-- Whether a part of a slice ends here. -/
def atSliceEnd (ts : List Token) : Bool :=
  atOp .colon ts || atOp .rightBracket ts || atOp .comma ts

/-- A part of a slice, which may be missing. -/
def slicePart : Parse (Option Expr) := fun ts =>
  if atSliceEnd ts then .ok (none, ts)
  else do
    let (e, ts) ← g.test ts
    return (some e, ts)

/-- A slice after its lower bound. -/
def sliceFrom (line : Nat) (lower : Option Expr) : Parse Expr := fun ts => do
  let ts ← expectOp .colon ts
  let (upper, ts) ← g.slicePart ts
  match skipOp? .colon ts with
  | some ts =>
    let (step, ts) ← g.slicePart ts
    return (.slice line lower upper step, ts)
  | none => return (.slice line lower upper none, ts)

/-- An index or a slice. -/
def subscriptItem : Parse Expr := fun ts =>
  if atOp .colon ts then g.sliceFrom (current ts).line none ts
  else do
    let (lower, rest) ← g.test ts
    if atOp .colon rest then g.sliceFrom (current ts).line (some lower) rest
    else return (lower, rest)

/-- What follows an atom, if anything does. -/
def trailer : ParseIf Trailer := fun ts =>
  match (current ts).kind with
  | .op .leftParen => do
    let (arguments, rest) ← g.arguments ts.tail
    return some (.call arguments, rest)
  | .op .leftBracket => do
    let (index, rest) ←
      itemOrTuple (current ts).line (atOp .rightBracket) g.subscriptItem ts.tail
    let rest ← expectOp .rightBracket rest
    return some (.subscript index, rest)
  | .op .dot => do
    let (n, rest) ← name ts.tail
    return some (.field n, rest)
  | _ => .ok none

/-- An atom with what follows it. -/
def primary : Parse Expr := fun ts => do
  let (first, ts) ← g.atom ts
  let (trailers, ts) ← many g.trailer ts
  return (trailers.foldl applyTrailer first, ts)

end Grammar

end Parse

end DepsManifest
