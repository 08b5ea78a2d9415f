import DepsManifest.Expr.Parser
import DepsManifest.Proofs.Expr.Rebuild
import DepsManifest.Proofs.Token.Phrase
/-! # The written form of an expression

How an expression is written with no more parentheses than its operators need. The form is a list of
lexemes, the blanks between them included, so that its text is what the lexemes put together are
(`Expr.text`).

Expressions bind at levels, and every operand stands at a position that requires a level:

    0  a if b else c       5  a | b       10  a * b   a / b   a // b   a % b   a @ b
    1  a or b              6  a ^ b       11  -a   +a   ~a
    2  a and b             7  a & b       12  a ** b
    3  not a               8  a << b      13  f(a)
    4  a < b               9  a + b       14  literals, names and displays

An operand is put in parentheses exactly if its level is below its position (`Lexeme.placed`).
Binary operators group from the left, so their right operand stands one position higher; the
exponent of a power stands at the level of signs and its base at that of calls. Operands of `or` and
`and` stand one position above the operator, so that a chain inside a chain of the same operator
keeps its parentheses.

Not every expression has a written form here; `Expr.Writable` says which have. It asks of a form
that its parts are there to be written: a chain has two operands or more, a name is an identifier
and no keyword, and a dict has entries alone.

What is written is a phrase (`Writable.phrase`): no two lexemes side by side would be read as one.
Operators that are words have blanks around them, and between brackets and what they hold nothing
can run together.
-/
namespace DepsManifest

/-! ## Levels -/

/-- The level at which a binary operator binds. -/
def BinaryOp.level : BinaryOp → Nat
  | bitOr => 5
  | bitXor => 6
  | bitAnd => 7
  | shiftLeft | shiftRight => 8
  | add | subtract => 9
  | multiply | matrixMultiply | divide | floorDivide | modulo => 10
  | power => 12

def BinaryOp.leftPosition : BinaryOp → Nat
  | power => 13
  | op => op.level

def BinaryOp.rightPosition : BinaryOp → Nat
  | power => 11
  | op => op.level + 1

/-- The level at which `or` and `and` bind. -/
def BoolOp.level : BoolOp → Nat
  | or => 1
  | and => 2

/-- The level at which a unary operator binds, which is also the position of its operand. -/
def UnaryOp.level : UnaryOp → Nat
  | not => 3
  | minus | plus | invert => 11

/-- The level at which an expression binds. -/
def Expr.level : Expr → Nat
  | .conditional .. => 0
  | .boolean _ op _ => op.level
  | .unary _ op _ => op.level
  | .compare .. => 4
  | .binary _ op _ _ => op.level
  | .call .. => 13
  | _ => 14

/-! ## Lexemes -/

/-- The operator that a binary operator is written as. -/
def BinaryOp.sign : BinaryOp → Op
  | add => .plus
  | subtract => .minus
  | multiply => .star
  | matrixMultiply => .atSign
  | divide => .slash
  | floorDivide => .doubleSlash
  | modulo => .percent
  | power => .doubleStar
  | shiftLeft => .shiftLeft
  | shiftRight => .shiftRight
  | bitOr => .bar
  | bitXor => .caret
  | bitAnd => .ampersand

namespace Lexeme

/-- The lexemes of an expression of some level at a position. -/
def placed (position level : Nat) (written : List Lexeme) : List Lexeme :=
  if level < position then bracketed .leftParen .rightParen written else written

/-- Parts with the same lexemes between each two. -/
def separated (separator : List Lexeme) : List (List Lexeme) → List Lexeme
  | [] => []
  | part :: rest => part ++ rest.flatMap (separator ++ ·)

/-- Parts with commas between them. -/
def listed : List (List Lexeme) → List Lexeme := separated [ofOp .comma, space]

/-- The parts of a tuple: a single one has a comma after it. -/
def listedTuple : List (List Lexeme) → List Lexeme
  | [part] => part ++ [ofOp .comma]
  | parts => listed parts

/-- Lexemes with blanks around them. -/
def spaced (inner : List Lexeme) : List Lexeme := space :: (inner ++ [space])

end Lexeme

/-- The lexemes of a unary operator before its operand. -/
def UnaryOp.written : UnaryOp → List Lexeme
  | not => [.ofName "not", .space]
  | minus => [.ofOp .minus]
  | plus => [.ofOp .plus]
  | invert => [.ofOp .tilde]

/-- The lexemes of a comparison between its operands. -/
def Comparison.written : Comparison → List Lexeme
  | equal => [.ofOp .equal]
  | notEqual => [.ofOp .notEqual]
  | less => [.ofOp .less]
  | lessEqual => [.ofOp .lessEqual]
  | greater => [.ofOp .greater]
  | greaterEqual => [.ofOp .greaterEqual]
  | same => [.ofName "is"]
  | notSame => [.ofName "is", .space, .ofName "not"]
  | member => [.ofName "in"]
  | notMember => [.ofName "not", .space, .ofName "in"]

/-! ## Expressions -/

namespace Expr

open Lexeme

mutual

/-- The lexemes of an expression. -/
def written : Expr → List Lexeme
  | .str _ text => [.ofText text]
  | .name _ n => [.ofName n]
  | .tuple _ items => bracketed .leftParen .rightParen (listedTuple (writtenAll 0 items))
  | .list _ items => bracketed .leftBracket .rightBracket (listed (writtenAll 0 items))
  | .dict _ items => bracketed .leftBrace .rightBrace (listed (writtenItems items))
  | .call _ callee arguments _ _ _ =>
    placed 13 callee.level (written callee)
      ++ bracketed .leftParen .rightParen (listed (writtenAll 0 arguments))
  | .conditional _ test body otherwise =>
    placed 1 body.level (written body) ++ spaced [.ofName "if"]
      ++ placed 1 test.level (written test) ++ spaced [.ofName "else"]
      ++ placed 0 otherwise.level (written otherwise)
  | .binary _ op left right =>
    placed op.leftPosition left.level (written left) ++ spaced [.ofOp op.sign]
      ++ placed op.rightPosition right.level (written right)
  | .boolean _ op operands =>
    separated (spaced [.ofName op.keyword]) (writtenAll (op.level + 1) operands)
  | .unary _ op operand => op.written ++ placed op.level operand.level (written operand)
  | .compare _ left comparisons =>
    placed 5 left.level (written left) ++ (writtenComparisons comparisons).flatten
  | _ => []

def writtenAll (position : Nat) : List Expr → List (List Lexeme)
  | [] => []
  | e :: rest => placed position e.level (written e) :: writtenAll position rest

def writtenItems : List DictItem → List (List Lexeme)
  | [] => []
  | .entry key value :: rest =>
    (placed 0 key.level (written key) ++ [.ofOp .colon, .space]
      ++ placed 0 value.level (written value)) :: writtenItems rest
  | .unpack _ :: rest => writtenItems rest

def writtenComparisons : List (Comparison × Expr) → List (List Lexeme)
  | [] => []
  | (op, e) :: rest =>
    (spaced op.written ++ placed 5 e.level (written e)) :: writtenComparisons rest

end

/-- The text of an expression. -/
def text (e : Expr) : String := String.ofList (e.written.flatMap Lexeme.chars)

/-- The lexemes of an expression at a position. -/
def writtenAt (position : Nat) (e : Expr) : List Lexeme := placed position e.level e.written

@[simp] theorem writtenAt_zero (e : Expr) : e.writtenAt 0 = e.written := rfl

end Expr

/-- A name that is no keyword. -/
structure IsIdentifier (n : String) : Prop where
  word : Lexeme.isWord n = true
  not_keyword : n ∉ Parse.keywords

theorem IsIdentifier.contains_eq_false {n : String} (h : IsIdentifier n) {names : List String}
    (hnames : names ⊆ Parse.keywords) : names.contains n = false := by
  rw [Bool.eq_false_iff]
  intro hmem
  exact h.not_keyword (hnames (List.contains_iff_mem.mp hmem))

/-- The expressions that have a written form: string literals, identifiers, tuples, lists, dict
displays of entries, calls with positional arguments, binary operators, chains of `or` or `and`,
unary operators, chains of comparisons and conditional expressions. -/
inductive Expr.Writable : Expr → Prop
  | str (line : Nat) (text : String) : Writable (.str line text)
  | name (line : Nat) {n : String} : IsIdentifier n → Writable (.name line n)
  | tuple (line : Nat) {items : List Expr} :
      (∀ e ∈ items, Writable e) → Writable (.tuple line items)
  | list (line : Nat) {items : List Expr} :
      (∀ e ∈ items, Writable e) → Writable (.list line items)
  | dict (line : Nat) {entries : List (Expr × Expr)} :
      (∀ e ∈ entries, Writable e.1) → (∀ e ∈ entries, Writable e.2) →
      Writable (.dict line (entries.map fun e => .entry e.1 e.2))
  | call (line : Nat) {callee : Expr} {arguments : List Expr} :
      Writable callee → (∀ e ∈ arguments, Writable e) →
      Writable (.call line callee arguments [] none none)
  | binary (line : Nat) (op : BinaryOp) {left right : Expr} :
      Writable left → Writable right → Writable (.binary line op left right)
  | boolean (line : Nat) (op : BoolOp) {first second : Expr} {rest : List Expr} :
      Writable first → Writable second → (∀ e ∈ rest, Writable e) →
      Writable (.boolean line op (first :: second :: rest))
  | unary (line : Nat) (op : UnaryOp) {operand : Expr} :
      Writable operand → Writable (.unary line op operand)
  | compare (line : Nat) {left : Expr} {op : Comparison} {right : Expr}
      {rest : List (Comparison × Expr)} :
      Writable left → Writable right → (∀ c ∈ rest, Writable c.2) →
      Writable (.compare line left ((op, right) :: rest))
  | conditional (line : Nat) {test body otherwise : Expr} :
      Writable test → Writable body → Writable otherwise →
      Writable (.conditional line test body otherwise)

/-! ## What is written is a phrase -/

namespace Lexeme

theorem phrase_placed {ls : List Lexeme} (h : Phrase ls) (position level : Nat) :
    Phrase (placed position level ls) := by
  unfold placed
  split
  · exact .group rfl rfl fun _ => h
  · exact h

theorem phrase_append_flatMap {α : Type} {f : α → List Lexeme} {parts : List α}
    (hstep : ∀ part ∈ parts, ∀ ls, Phrase ls → Phrase (ls ++ f part)) {ls : List Lexeme}
    (h : Phrase ls) : Phrase (ls ++ parts.flatMap f) := by
  induction parts generalizing ls with
  | nil => rwa [List.flatMap_nil, List.append_nil]
  | cons part parts ih =>
      rw [List.flatMap_cons, ← List.append_assoc]
      exact ih (fun p hp => hstep p (List.mem_cons_of_mem _ hp))
        (hstep part List.mem_cons_self ls h)

theorem phrase_listed {parts : List (List Lexeme)} (h : ∀ part ∈ parts, Phrase part)
    (hne : parts ≠ []) : Phrase (listed parts) := by
  cases parts with
  | nil => exact absurd rfl hne
  | cons part rest =>
      refine phrase_append_flatMap (fun p hp ls hls => ?_) (h part List.mem_cons_self)
      have hp := h p (List.mem_cons_of_mem _ hp)
      have hmark : Phrase (ls ++ [ofOp .comma]) := .mark rfl rfl hls
      have hspaced := hmark.spaced hp
      rwa [List.append_assoc] at hspaced

theorem phrase_listedTuple {parts : List (List Lexeme)} (h : ∀ part ∈ parts, Phrase part)
    (hne : parts ≠ []) : Phrase (listedTuple parts) := by
  unfold listedTuple
  split
  · exact .mark rfl rfl (h _ List.mem_cons_self)
  · exact phrase_listed h hne

theorem phrase_keyword {n : String} (hn : isWord n = true) {ls ms : List Lexeme} (hls : Phrase ls)
    (hms : Phrase ms) : Phrase (ls ++ (spaced [ofName n] ++ ms)) := by
  have h := (hls.spaced (.name hn)).spaced hms
  rwa [List.append_assoc] at h

theorem phrase_comparison (op : Comparison) {ls ms : List Lexeme} (hls : Phrase ls)
    (hms : Phrase ms) : Phrase (ls ++ (spaced op.written ++ ms)) := by
  cases op with
  | same => exact phrase_keyword (by decide) hls hms
  | member => exact phrase_keyword (by decide) hls hms
  | notSame =>
      have hfirst : Phrase (ls ++ [space, ofName "is"]) := hls.spaced (.name (by decide))
      have h := phrase_keyword (n := "not") (by decide) hfirst hms
      rwa [List.append_assoc] at h
  | notMember =>
      have hfirst : Phrase (ls ++ [space, ofName "not"]) := hls.spaced (.name (by decide))
      have h := phrase_keyword (n := "in") (by decide) hfirst hms
      rwa [List.append_assoc] at h
  | _ => exact Phrase.operator rfl hls hms

end Lexeme

namespace Expr

open Lexeme

theorem writtenAll_eq_map (position : Nat) (items : List Expr) :
    writtenAll position items = items.map (writtenAt position) := by
  induction items with
  | nil => rfl
  | cons e rest ih => rw [writtenAll, ih, List.map_cons, writtenAt]

theorem writtenItems_entries (entries : List (Expr × Expr)) :
    writtenItems (entries.map fun e => .entry e.1 e.2) =
      entries.map fun e => e.1.writtenAt 0 ++ [ofOp .colon, space] ++ e.2.writtenAt 0 := by
  induction entries with
  | nil => rfl
  | cons e rest ih => rw [List.map_cons, writtenItems, ih, List.map_cons, writtenAt, writtenAt]

theorem flatten_writtenComparisons (comparisons : List (Comparison × Expr)) :
    (writtenComparisons comparisons).flatten =
      comparisons.flatMap fun c => spaced c.1.written ++ c.2.writtenAt 5 := by
  induction comparisons with
  | nil => rfl
  | cons c rest ih => rw [writtenComparisons, List.flatten_cons, ih, List.flatMap_cons, writtenAt]

theorem phrase_writtenAt {e : Expr} (h : Phrase e.written) (position : Nat) :
    Phrase (e.writtenAt position) := phrase_placed h position e.level

theorem phrase_mem_writtenAll {items : List Expr} (h : ∀ e ∈ items, Phrase e.written)
    (position : Nat) : ∀ part ∈ writtenAll position items, Phrase part := by
  rw [writtenAll_eq_map]
  intro part hpart
  obtain ⟨e, he, rfl⟩ := List.mem_map.mp hpart
  exact phrase_writtenAt (h e he) position

/-- What is written for an expression is a phrase. -/
theorem Writable.phrase {e : Expr} (h : Writable e) : Phrase e.written := by
  induction h with
  | str _ text => exact .text text
  | name _ hn => exact .name hn.word
  | tuple _ _ ih =>
      refine .group rfl rfl fun hne => phrase_listedTuple (phrase_mem_writtenAll ih 0) ?_
      rintro heq
      exact hne (by rw [heq]; rfl)
  | list _ _ ih =>
      refine .group rfl rfl fun hne => phrase_listed (phrase_mem_writtenAll ih 0) ?_
      rintro heq
      exact hne (by rw [heq]; rfl)
  | dict _ _ _ ih₁ ih₂ =>
      rw [written, writtenItems_entries]
      refine .group rfl rfl fun hne => phrase_listed (fun part hpart => ?_) ?_
      · obtain ⟨entry, hentry, rfl⟩ := List.mem_map.mp hpart
        have hkey : Phrase (entry.1.writtenAt 0 ++ [ofOp .colon]) :=
          .mark rfl rfl (phrase_writtenAt (ih₁ entry hentry) 0)
        have h := hkey.spaced (phrase_writtenAt (ih₂ entry hentry) 0)
        rw [List.append_assoc] at h ⊢
        exact h
      · rintro heq
        exact hne (by rw [heq]; rfl)
  | call _ _ _ ih₁ ih₂ =>
      refine .applied rfl rfl (phrase_writtenAt ih₁ 13)
        fun hne => phrase_listed (phrase_mem_writtenAll ih₂ 0) ?_
      rintro heq
      exact hne (by rw [heq]; rfl)
  | binary _ op _ _ ih₁ ih₂ =>
      have hinner : isInner op.sign = true := by cases op <;> rfl
      have h := Phrase.operator hinner (phrase_writtenAt ih₁ op.leftPosition)
        (phrase_writtenAt ih₂ op.rightPosition)
      rw [written, List.append_assoc]
      exact h
  | boolean _ op _ _ _ ih₁ ih₂ ih₃ =>
      have hword : isWord op.keyword = true := by cases op <;> decide
      have hparts := phrase_mem_writtenAll (List.forall_mem_cons.mpr ⟨ih₂, ih₃⟩) (op.level + 1)
      refine phrase_append_flatMap (fun part hpart ls hls => ?_)
        (phrase_writtenAt ih₁ (op.level + 1))
      exact phrase_keyword hword hls (hparts part hpart)
  | unary _ op _ ih =>
      cases op with
      | not => exact Phrase.spaced (.name (by decide)) (phrase_writtenAt ih 3)
      | minus => exact .sign rfl rfl (phrase_writtenAt ih 11)
      | plus => exact .sign rfl rfl (phrase_writtenAt ih 11)
      | invert => exact .sign rfl rfl (phrase_writtenAt ih 11)
  | compare _ _ _ _ ih₁ ih₂ ih₃ =>
      rw [written, flatten_writtenComparisons]
      refine phrase_append_flatMap (fun c hc ls hls => ?_) (phrase_writtenAt ih₁ 5)
      rcases List.mem_cons.mp hc with rfl | hc
      · exact phrase_comparison _ hls (phrase_writtenAt ih₂ 5)
      · exact phrase_comparison _ hls (phrase_writtenAt (ih₃ c hc) 5)
  | conditional _ _ _ _ ih₁ ih₂ ih₃ =>
      have hif := phrase_keyword (n := "if") (by decide) (phrase_writtenAt ih₂ 1)
        (phrase_writtenAt ih₁ 1)
      have helse := phrase_keyword (n := "else") (by decide) hif (phrase_writtenAt ih₃ 0)
      simp only [List.append_assoc] at helse
      simp only [written, List.append_assoc]
      exact helse

end Expr

end DepsManifest
