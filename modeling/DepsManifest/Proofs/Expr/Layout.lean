import DepsManifest.Expr.Parser
import DepsManifest.Proofs.Expr.Position
/-! # The text of a node

Which tokens are the text of a node, and on which line does the node stand? The answer is a
description of the written language that is independent of the functions that read it:

  * `Expr.Layout` says what the text of each kind of node is made of: tokens, and the texts of its
    operands (`TextPart`). There is one constructor for each way to write a node;
  * `Fits` says which tokens are made of given parts. An operand may stand in parentheses, which are
    no part of its node;
  * `HasText` puts the two together for one node.

## The line of a node

Every node stands on the line that `Expr.lineIn` gives: on the line of its first token, unless it
begins with an operand. Then it stands on the line of that operand, wherever the operand's
parentheses begin. So a node can stand on a later line than its text begins on, but never on one
that its text has not reached. A tuple and a slice stand on the line of their first token all the
same.

## Texts without brackets

A tuple or a generator without brackets (`Expr.BareLayout`) is an operand in few places and never in
parentheses: those would be its own. The tuple of several indices is the one node that stands on the
line of a token outside its text: on that of the bracket before it.

Whatever is said of all texts, of their names or of their leaves, is said of the layouts and follows
for every text by an induction over `Fits`.
-/
namespace DepsManifest

/-- A part of the text of a node: a token, an operand, an operand that may do without brackets of
its own, or an index with its brackets. -/
inductive TextPart where
  | token (kind : TokenKind)
  | operand (e : Expr)
  | loose (e : Expr)
  | index (e : Expr)

namespace TextPart

/-- The node that a part is the text of. -/
def node? : TextPart → Option Expr
  | token _ => none
  | operand e | loose e | index e => some e

def op (o : Op) : TextPart := .token (.op o)

def keyword (word : String) : TextPart := .token (.name word)

/-- Items with commas between them, and possibly one after the last. -/
def listed (items : List (List TextPart)) (trailing : Bool) : List TextPart :=
  match items with
  | [] => []
  | first :: rest =>
    first ++ (rest.flatMap (op .comma :: ·) ++ if trailing then [op .comma] else [])

/-- Expressions with commas between them. -/
def operands (items : List Expr) (trailing : Bool) : List TextPart :=
  listed (items.map fun e => [.operand e]) trailing

def enclosed (opening : Op) (inner : List TextPart) (closing : Op) : List TextPart :=
  op opening :: (inner ++ [op closing])

end TextPart

open TextPart

/-! ## What texts are made of -/

def BinaryOp.token : BinaryOp → Op
  | add => .plus | subtract => .minus | multiply => .star | matrixMultiply => .atSign
  | divide => .slash | floorDivide => .doubleSlash | modulo => .percent | power => .doubleStar
  | shiftLeft => .shiftLeft | shiftRight => .shiftRight | bitOr => .bar | bitXor => .caret
  | bitAnd => .ampersand

def UnaryOp.token : UnaryOp → TokenKind
  | not => .name "not"
  | minus => .op .minus
  | plus => .op .plus
  | invert => .op .tilde

def Comparison.tokens : Comparison → List TokenKind
  | equal => [.op .equal] | notEqual => [.op .notEqual] | less => [.op .less]
  | lessEqual => [.op .lessEqual] | greater => [.op .greater] | greaterEqual => [.op .greaterEqual]
  | same => [.name "is"] | notSame => [.name "is", .name "not"]
  | member => [.name "in"] | notMember => [.name "not", .name "in"]

/-- The brackets around a comprehension. -/
def ComprehensionKind.brackets : ComprehensionKind → Op × Op
  | list => (.leftBracket, .rightBracket)
  | set => (.leftBrace, .rightBrace)
  | dict => (.leftBrace, .rightBrace)
  | generator => (.leftParen, .rightParen)

def DictItem.parts : DictItem → List TextPart
  | .entry key value => [.operand key, op .colon, .operand value]
  | .unpack value => [op .doubleStar, .operand value]

def Clause.parts : Clause → List TextPart
  | .mk target iterable conditions =>
    [keyword "for", .loose target, keyword "in", .operand iterable]
      ++ conditions.flatMap fun e => [keyword "if", .operand e]

/-- What stands in the brackets of a comprehension. -/
def Expr.comprehensionParts (element : Expr) (value : Option Expr) (clauses : List Clause) :
    List TextPart :=
  .operand element :: ((value.toList.flatMap fun e => [op .colon, .operand e])
    ++ clauses.flatMap Clause.parts)

/-- An argument of a call. -/
def Parse.Grammar.Argument.parts : Parse.Grammar.Argument → List TextPart
  | .positional value => [.loose value]
  | .keyword name value => [.token (.name name), op .assign, .operand value]
  | .sequence value => [op .star, .operand value]
  | .mapping value => [op .doubleStar, .operand value]

/-- A parameter of a lambda expression as it is written. -/
structure Parameter where
  star : Option Op
  name : String
  default : Option Expr

def Parameter.parts (p : Parameter) : List TextPart :=
  p.star.toList.map op ++ .token (.name p.name) ::
    p.default.toList.flatMap fun e => [op .assign, .operand e]

/-! ## Nodes -/

open Parse.Grammar in
/-- What the text of a node is made of, without parentheses around it. -/
inductive Expr.Layout : Expr → List TextPart → Prop
  | literals {line : Nat} {literals : List (LiteralKind × String)} {e : Expr} : literals ≠ [] →
      joinLiterals line literals = .ok e →
      Expr.Layout e (literals.map fun l => .token (.literal l.1 l.2))
  | number (line : Nat) (text : String) : Expr.Layout (.number line text) [.token (.number text)]
  | ellipsis (line : Nat) : Expr.Layout (.ellipsis line) [op .ellipsis]
  | name (line : Nat) {n : String} : Parse.keywords.contains n = false →
      Expr.Layout (.name line n) [.token (.name n)]
  | tuple (line : Nat) {items : List Expr} {trailing : Bool} :
      (items.length = 1 → trailing = true) →
      Expr.Layout (.tuple line items)
        (enclosed .leftParen (operands items trailing) .rightParen)
  | list (line : Nat) (items : List Expr) (trailing : Bool) : Expr.Layout (.list line items)
      (enclosed .leftBracket (operands items trailing) .rightBracket)
  | set (line : Nat) {items : List Expr} (trailing : Bool) : items ≠ [] →
      Expr.Layout (.set line items) (enclosed .leftBrace (operands items trailing) .rightBrace)
  | dict (line : Nat) (items : List DictItem) (trailing : Bool) : Expr.Layout (.dict line items)
      (enclosed .leftBrace (listed (items.map DictItem.parts) trailing) .rightBrace)
  | starred (line : Nat) (value : Expr) :
      Expr.Layout (.starred line value) [op .star, .operand value]
  | call (line : Nat) (callee : Expr) (arguments : List Argument) (trailing : Bool) :
      Expr.Layout (.call line callee (positionals arguments) (namedArguments arguments)
        (lastSequence? arguments) (lastMapping? arguments))
        (.operand callee ::
          enclosed .leftParen (listed (arguments.map Argument.parts) trailing) .rightParen)
  | field (line : Nat) (value : Expr) (n : String) :
      Expr.Layout (.field line value n) [.operand value, op .dot, .token (.name n)]
  | subscript (line : Nat) (value index : Expr) :
      Expr.Layout (.subscript line value index) [.operand value, .index index]
  | slice (line : Nat) (lower upper : Option Expr) : Expr.Layout (.slice line lower upper none)
      (lower.toList.map .operand ++ op .colon :: upper.toList.map .operand)
  | steppedSlice (line : Nat) (lower upper step : Option Expr) :
      Expr.Layout (.slice line lower upper step)
        (lower.toList.map .operand ++ op .colon ::
          (upper.toList.map .operand ++ op .colon :: step.toList.map .operand))
  | lambda (line : Nat) (parameters : List Parameter) (trailing : Bool) (body : Expr) :
      Expr.Layout (.lambda line (parameters.map Parameter.name) body)
        (keyword "lambda" :: (listed (parameters.map Parameter.parts) trailing
          ++ [op .colon, .operand body]))
  | comprehension (line : Nat) (kind : ComprehensionKind) (element : Expr) (value : Option Expr)
      (clauses : List Clause) : Expr.Layout (.comprehension line kind element value clauses)
        (enclosed kind.brackets.1 (comprehensionParts element value clauses) kind.brackets.2)
  | conditional (line : Nat) (test body otherwise : Expr) :
      Expr.Layout (.conditional line test body otherwise)
        [.operand body, keyword "if", .operand test, keyword "else", .operand otherwise]
  | binary (line : Nat) (op : BinaryOp) (left right : Expr) :
      Expr.Layout (.binary line op left right)
        [.operand left, TextPart.op op.token, .operand right]
  | boolean (line : Nat) (op : BoolOp) (first : Expr) (rest : List Expr) :
      Expr.Layout (.boolean line op (first :: rest))
        (.operand first :: rest.flatMap fun e => [keyword op.keyword, .operand e])
  | unary (line : Nat) (op : UnaryOp) (operand : Expr) :
      Expr.Layout (.unary line op operand) [.token op.token, .operand operand]
  | compare (line : Nat) (left : Expr) (comparisons : List (Comparison × Expr)) :
      Expr.Layout (.compare line left comparisons)
        (.operand left :: comparisons.flatMap fun c => c.1.tokens.map .token ++ [.operand c.2])
  | named (line : Nat) (target value : Expr) :
      Expr.Layout (.named line target value) [.operand target, op .walrus, .operand value]

/-- What the text of a node that has no brackets is made of where other nodes of its kind have them.
-/
inductive Expr.BareLayout : Expr → List TextPart → Prop
  | tuple (line : Nat) {items : List Expr} {trailing : Bool} : items ≠ [] →
      (items.length = 1 → trailing = true) →
      Expr.BareLayout (.tuple line items) (operands items trailing)
  | generator (line : Nat) (element : Expr) (clauses : List Clause) :
      Expr.BareLayout (.comprehension line .generator element none clauses)
        (comprehensionParts element none clauses)

namespace Expr

theorem Layout.ne_nil {e : Expr} {parts : List TextPart} (h : e.Layout parts) : parts ≠ [] := by
  cases h with
  | literals hne _ => simpa using hne
  | slice _ lower => cases lower <;> exact List.cons_ne_nil _ _
  | steppedSlice _ lower => cases lower <;> exact List.cons_ne_nil _ _
  | _ => exact List.cons_ne_nil _ _

theorem BareLayout.ne_nil {e : Expr} {parts : List TextPart} (h : e.BareLayout parts) :
    parts ≠ [] := by
  cases h with
  | tuple _ hne _ =>
      obtain ⟨first, rest, rfl⟩ := List.exists_cons_of_ne_nil hne
      exact List.cons_ne_nil _ _
  | generator => exact List.cons_ne_nil _ _

/-- The line of a node with a given text. -/
def lineIn (text : List Token) : Expr → List TextPart → Nat
  | .tuple .., _ | .slice .., _ => (Parse.current text).line
  | _, .operand first :: _ => first.line
  | _, _ => (Parse.current text).line

end Expr

/-! ## Tokens -/

/-- The tokens are a text made of the parts, and the nodes in it stand on the lines of their texts.
-/
inductive Fits : List Token → List TextPart → Prop
  | nil : Fits [] []
  | token {t : Token} {us : List Token} {parts : List TextPart} : Fits us parts →
      Fits (t :: us) (.token t.kind :: parts)
  | node {e : Expr} {inner parts : List TextPart} {us vs : List Token} : e.Layout inner →
      Fits us inner → e.line = e.lineIn us inner → Fits vs parts →
      Fits (us ++ vs) (.operand e :: parts)
  | loose {e : Expr} {parts : List TextPart} {us : List Token} : Fits us (.operand e :: parts) →
      Fits us (.loose e :: parts)
  | bare {e : Expr} {inner parts : List TextPart} {us vs : List Token} : e.BareLayout inner →
      Fits us inner → e.line = e.lineIn us inner → Fits vs parts → Fits (us ++ vs)
        (.loose e :: parts)
  | parens {t u : Token} {e : Expr} {parts : List TextPart} {us vs : List Token} :
      t.kind = .op .leftParen → u.kind = .op .rightParen → Fits us [.operand e] → Fits vs parts →
      Fits (t :: us ++ u :: vs) (.operand e :: parts)
  | index {t u : Token} {e : Expr} {parts : List TextPart} {us vs : List Token} :
      t.kind = .op .leftBracket → u.kind = .op .rightBracket → Fits us [.operand e] →
      Fits vs parts → Fits (t :: us ++ u :: vs) (.index e :: parts)
  | indices {t u : Token} {items : List Expr} {trailing : Bool} {parts : List TextPart}
      {us vs : List Token} : t.kind = .op .leftBracket → u.kind = .op .rightBracket →
      items ≠ [] → (items.length = 1 → trailing = true) → Fits us (operands items trailing) →
      Fits vs parts → Fits (t :: us ++ u :: vs) (.index (.tuple t.line items) :: parts)

theorem Fits.append {us vs : List Token} {parts more : List TextPart} (h : Fits us parts)
    (h' : Fits vs more) : Fits (us ++ vs) (parts ++ more) := by
  induction h with
  | nil => exact h'
  | token _ ih => exact .token ih
  | node hlayout hinner hline _ _ ih =>
      rw [List.append_assoc]
      exact .node hlayout hinner hline ih
  | loose _ ih => exact .loose ih
  | bare hlayout hinner hline _ _ ih =>
      rw [List.append_assoc]
      exact .bare hlayout hinner hline ih
  | parens ht hu he _ _ ih =>
      rw [List.append_assoc]
      exact .parens ht hu he ih
  | index ht hu he _ _ ih =>
      rw [List.append_assoc]
      exact .index ht hu he ih
  | indices ht hu hne htrailing hitems _ _ ih =>
      rw [List.append_assoc]
      exact .indices ht hu hne htrailing hitems ih

theorem Fits.ne_nil {us : List Token} {parts : List TextPart} (h : Fits us parts)
    (hparts : parts ≠ []) : us ≠ [] := by
  induction h with
  | nil => exact absurd rfl hparts
  | node hlayout _ _ _ ih _ => exact List.append_ne_nil_of_left_ne_nil (ih hlayout.ne_nil) _
  | bare hlayout _ _ _ ih _ => exact List.append_ne_nil_of_left_ne_nil (ih hlayout.ne_nil) _
  | loose _ ih => exact ih (List.cons_ne_nil _ _)
  | _ => exact List.cons_ne_nil _ _

theorem Fits.eq_nil {us : List Token} (h : Fits us []) : us = [] := by
  cases h
  rfl

namespace Expr

/-- The tokens are the text of a node, which stands on the line that they give. -/
def HasText (e : Expr) (text : List Token) : Prop :=
  ∃ parts, (e.Layout parts ∨ e.BareLayout parts) ∧ Fits text parts ∧ e.line = e.lineIn text parts

end Expr

end DepsManifest
