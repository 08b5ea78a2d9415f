import DepsManifest.Expr.Primary
import DepsManifest.Proofs.Expr.Rebuild
/-! # Expressions on other lines

An expression with its lines replaced by others (`Expr.moved`) is built in the same way from its
parts with theirs replaced. The definition is the general rebuilding of a tree, so that one
traversal serves for lines and for names. The lemmas here are what is used of it:

  * each form of node is moved part by part (`moved_tuple`, `moved_call` and the others), so a
    reader that puts nodes together need not know on which lines they are;
  * lists of parts are moved element by element, whatever they are lists of;
  * a move that leaves every line where it is changes nothing (`moved_id`);
  * trailers and arguments, which are no nodes, are moved along with the nodes in them, and to put a
    trailer behind an expression and to move both can be done in either order
    (`moved_applyTrailer`).

Nothing is asked of the function on lines. It is a shift where one text is put after another, and
constant where a whole expression is put on one line.
-/
namespace DepsManifest

namespace Expr

/-- An expression with its lines replaced. -/
def moved (lines : Nat → Nat) : Expr → Expr := rebuild lines fun line n => .name (lines line) n

end Expr

def DictItem.moved (lines : Nat → Nat) : DictItem → DictItem
  | .entry key value => .entry (key.moved lines) (value.moved lines)
  | .unpack value => .unpack (value.moved lines)

def Keyword.moved (lines : Nat → Nat) : Keyword → Keyword
  | .mk name value => .mk name (value.moved lines)

def Clause.moved (lines : Nat → Nat) : Clause → Clause
  | .mk target iterable conditions =>
    .mk (target.moved lines) (iterable.moved lines) (conditions.map (Expr.moved lines))

namespace Expr

variable (lines : Nat → Nat)

@[simp] theorem moved_name (line : Nat) (n : String) :
    (name line n).moved lines = .name (lines line) n := rfl

@[simp] theorem moved_binary (line : Nat) (op : BinaryOp) (left right : Expr) :
    (binary line op left right).moved lines =
      .binary (lines line) op (left.moved lines) (right.moved lines) := rfl

/-! ## Lists of parts -/

theorem rebuildOption_moved (e : Option Expr) :
    rebuildOption lines (fun line n => .name (lines line) n) e = e.map (moved lines) := by
  cases e with
  | none => rfl
  | some e => rfl

theorem rebuildItems_moved (items : List DictItem) :
    rebuildItems lines (fun line n => .name (lines line) n) items =
      items.map (DictItem.moved lines) := by
  induction items with
  | nil => rfl
  | cons item items ih =>
      cases item with
      | entry key value => exact congrArg (_ :: ·) ih
      | unpack value => exact congrArg (_ :: ·) ih

theorem rebuildKeywords_moved (keywords : List Keyword) :
    rebuildKeywords lines (fun line n => .name (lines line) n) keywords =
      keywords.map (Keyword.moved lines) := by
  induction keywords with
  | nil => rfl
  | cons keyword keywords ih =>
      cases keyword with
      | mk name value => exact congrArg (_ :: ·) ih

theorem rebuildClauses_moved (clauses : List Clause) :
    rebuildClauses lines (fun line n => .name (lines line) n) clauses =
      clauses.map (Clause.moved lines) := by
  induction clauses with
  | nil => rfl
  | cons clause clauses ih =>
      cases clause with
      | mk target iterable conditions =>
          rw [rebuildClauses, ih, rebuildAll_eq_map]
          rfl

theorem rebuildComparisons_moved (comparisons : List (Comparison × Expr)) :
    rebuildComparisons lines (fun line n => .name (lines line) n) comparisons =
      comparisons.map fun c => (c.1, c.2.moved lines) := by
  induction comparisons with
  | nil => rfl
  | cons comparison comparisons ih => exact congrArg (_ :: ·) ih

/-! ## Nodes with lists of parts -/

@[simp] theorem moved_tuple (line : Nat) (items : List Expr) :
    (tuple line items).moved lines = .tuple (lines line) (items.map (moved lines)) :=
  congrArg (Expr.tuple _) (rebuildAll_eq_map _ _ _)

@[simp] theorem moved_list (line : Nat) (items : List Expr) :
    (list line items).moved lines = .list (lines line) (items.map (moved lines)) :=
  congrArg (Expr.list _) (rebuildAll_eq_map _ _ _)

@[simp] theorem moved_set (line : Nat) (items : List Expr) :
    (set line items).moved lines = .set (lines line) (items.map (moved lines)) :=
  congrArg (Expr.set _) (rebuildAll_eq_map _ _ _)

@[simp] theorem moved_dict (line : Nat) (items : List DictItem) :
    (dict line items).moved lines = .dict (lines line) (items.map (DictItem.moved lines)) :=
  congrArg (Expr.dict _) (rebuildItems_moved _ _)

@[simp] theorem moved_call (line : Nat) (callee : Expr) (arguments : List Expr)
    (keywords : List Keyword) (sequence mapping : Option Expr) :
    (call line callee arguments keywords sequence mapping).moved lines =
      .call (lines line) (callee.moved lines) (arguments.map (moved lines))
        (keywords.map (Keyword.moved lines)) (sequence.map (moved lines))
        (mapping.map (moved lines)) := by
  have hcallee : (call line callee arguments keywords sequence mapping).moved lines =
      .call (lines line) (callee.moved lines)
        (rebuildAll lines (fun line n => .name (lines line) n) arguments)
        (rebuildKeywords lines (fun line n => .name (lines line) n) keywords)
        (rebuildOption lines (fun line n => .name (lines line) n) sequence)
        (rebuildOption lines (fun line n => .name (lines line) n) mapping) := by
    cases callee <;> rfl
  rw [hcallee, rebuildAll_eq_map, rebuildKeywords_moved, rebuildOption_moved, rebuildOption_moved]
  rfl

@[simp] theorem moved_slice (line : Nat) (lower upper step : Option Expr) :
    (slice line lower upper step).moved lines =
      .slice (lines line) (lower.map (moved lines)) (upper.map (moved lines))
        (step.map (moved lines)) := by
  rw [← rebuildOption_moved, ← rebuildOption_moved, ← rebuildOption_moved]
  rfl

@[simp] theorem moved_comprehension (line : Nat) (kind : ComprehensionKind) (element : Expr)
    (value : Option Expr) (clauses : List Clause) :
    (comprehension line kind element value clauses).moved lines =
      .comprehension (lines line) kind (element.moved lines) (value.map (moved lines))
        (clauses.map (Clause.moved lines)) := by
  rw [← rebuildOption_moved, ← rebuildClauses_moved]
  rfl

@[simp] theorem moved_boolean (line : Nat) (op : BoolOp) (operands : List Expr) :
    (boolean line op operands).moved lines =
      .boolean (lines line) op (operands.map (moved lines)) :=
  congrArg (Expr.boolean _ _) (rebuildAll_eq_map _ _ _)

@[simp] theorem moved_compare (line : Nat) (left : Expr) (comparisons : List (Comparison × Expr)) :
    (compare line left comparisons).moved lines =
      .compare (lines line) (left.moved lines)
        (comparisons.map fun c => (c.1, c.2.moved lines)) :=
  congrArg (Expr.compare _ _) (rebuildComparisons_moved _ _)

@[simp] theorem line_moved (e : Expr) : (e.moved lines).line = lines e.line := by
  cases e with
  | call line callee arguments keywords sequence mapping => rw [moved_call]; rfl
  | _ => rfl

/-! ## Lines that stay -/

mutual

theorem rebuild_id : ∀ e : Expr, rebuild id .name e = e
  | .str _ _ | .bytes _ _ | .formatted _ _ | .number _ _ | .ellipsis _ | .name _ _ => rfl
  | .tuple line items => congrArg (Expr.tuple line) (rebuildAll_id items)
  | .list line items => congrArg (Expr.list line) (rebuildAll_id items)
  | .set line items => congrArg (Expr.set line) (rebuildAll_id items)
  | .dict line items => congrArg (Expr.dict line) (rebuildItems_id items)
  | .starred line value => congrArg (Expr.starred line) (rebuild_id value)
  | .call line callee arguments keywords sequence mapping => by
      have hparts : rebuild id .name (.call line callee arguments keywords sequence mapping) =
          .call line (rebuild id .name callee) (rebuildAll id .name arguments)
            (rebuildKeywords id .name keywords) (rebuildOption id .name sequence)
            (rebuildOption id .name mapping) := by
        cases callee <;> rfl
      rw [hparts, rebuild_id callee, rebuildAll_id arguments, rebuildKeywords_id keywords,
        rebuildOption_id sequence, rebuildOption_id mapping]
  | .field line value n => by rw [rebuild, rebuild_id value]; rfl
  | .subscript line value index => by rw [rebuild, rebuild_id value, rebuild_id index]; rfl
  | .slice line lower upper step => by
      rw [rebuild, rebuildOption_id lower, rebuildOption_id upper, rebuildOption_id step]; rfl
  | .lambda line parameters body => by rw [rebuild, rebuild_id body]; rfl
  | .comprehension line kind element value clauses => by
      rw [rebuild, rebuild_id element, rebuildOption_id value, rebuildClauses_id clauses]; rfl
  | .conditional line test body otherwise => by
      rw [rebuild, rebuild_id test, rebuild_id body, rebuild_id otherwise]; rfl
  | .binary line op left right => by rw [rebuild, rebuild_id left, rebuild_id right]; rfl
  | .boolean line op operands => congrArg (Expr.boolean line op) (rebuildAll_id operands)
  | .unary line op operand => congrArg (Expr.unary line op) (rebuild_id operand)
  | .compare line left comparisons => by
      rw [rebuild, rebuild_id left, rebuildComparisons_id comparisons]; rfl
  | .named line target value => by rw [rebuild, rebuild_id target, rebuild_id value]; rfl

theorem rebuildAll_id : ∀ items : List Expr, rebuildAll id .name items = items
  | [] => rfl
  | e :: rest => by rw [rebuildAll, rebuild_id e, rebuildAll_id rest]

theorem rebuildOption_id : ∀ e : Option Expr, rebuildOption id .name e = e
  | none => rfl
  | some e => congrArg some (rebuild_id e)

theorem rebuildItems_id : ∀ items : List DictItem, rebuildItems id .name items = items
  | [] => rfl
  | .entry key value :: rest => by
      rw [rebuildItems, rebuild_id key, rebuild_id value, rebuildItems_id rest]
  | .unpack value :: rest => by rw [rebuildItems, rebuild_id value, rebuildItems_id rest]

theorem rebuildKeywords_id : ∀ keywords : List Keyword, rebuildKeywords id .name keywords = keywords
  | [] => rfl
  | .mk n value :: rest => by rw [rebuildKeywords, rebuild_id value, rebuildKeywords_id rest]

theorem rebuildClauses_id : ∀ clauses : List Clause, rebuildClauses id .name clauses = clauses
  | [] => rfl
  | .mk target iterable conditions :: rest => by
      rw [rebuildClauses, rebuild_id target, rebuild_id iterable, rebuildAll_id conditions,
        rebuildClauses_id rest]

theorem rebuildComparisons_id :
    ∀ comparisons : List (Comparison × Expr), rebuildComparisons id .name comparisons = comparisons
  | [] => rfl
  | (op, e) :: rest => by rw [rebuildComparisons, rebuild_id e, rebuildComparisons_id rest]

end

theorem moved_id (e : Expr) : e.moved id = e := rebuild_id e

end Expr

/-! ## Trailers -/

namespace Parse.Grammar

/-- An argument of a call with its lines replaced. -/
def Argument.moved (lines : Nat → Nat) : Argument → Argument
  | .positional value => .positional (value.moved lines)
  | .keyword name value => .keyword name (value.moved lines)
  | .sequence value => .sequence (value.moved lines)
  | .mapping value => .mapping (value.moved lines)

/-- What follows an atom with its lines replaced. -/
def Trailer.moved (lines : Nat → Nat) : Trailer → Trailer
  | .call arguments => .call (arguments.map (Argument.moved lines))
  | .subscript index => .subscript (index.moved lines)
  | .field name => .field name

variable (lines : Nat → Nat)

theorem filterMap_map_moved {β γ : Type} {pick : Argument → Option β} {pick' : Argument → Option γ}
    {φ : β → γ} (h : ∀ a, pick' (a.moved lines) = (pick a).map φ) (arguments : List Argument) :
    (arguments.map (Argument.moved lines)).filterMap pick' = (arguments.filterMap pick).map φ := by
  rw [List.filterMap_map, List.map_filterMap]
  exact congrArg (List.filterMap · arguments) (funext h)

theorem moved_applyTrailer (e : Expr) (trailer : Trailer) :
    (applyTrailer e trailer).moved lines =
      applyTrailer (e.moved lines) (trailer.moved lines) := by
  cases trailer with
  | subscript index =>
      rw [applyTrailer, Trailer.moved, applyTrailer, Expr.line_moved]
      rfl
  | field name =>
      rw [applyTrailer, Trailer.moved, applyTrailer, Expr.line_moved]
      rfl
  | call arguments =>
      have hpositionals : positionals (arguments.map (Argument.moved lines)) =
          (positionals arguments).map (Expr.moved lines) :=
        filterMap_map_moved lines (fun a => by cases a <;> rfl) arguments
      have hkeywords : namedArguments (arguments.map (Argument.moved lines)) =
          (namedArguments arguments).map (Keyword.moved lines) :=
        filterMap_map_moved lines (fun a => by cases a <;> rfl) arguments
      have hsequence : lastSequence? (arguments.map (Argument.moved lines)) =
          (lastSequence? arguments).map (Expr.moved lines) := by
        rw [lastSequence?, lastSequence?, ← List.getLast?_map]
        exact congrArg _ (filterMap_map_moved lines (fun a => by cases a <;> rfl) arguments)
      have hmapping : lastMapping? (arguments.map (Argument.moved lines)) =
          (lastMapping? arguments).map (Expr.moved lines) := by
        rw [lastMapping?, lastMapping?, ← List.getLast?_map]
        exact congrArg _ (filterMap_map_moved lines (fun a => by cases a <;> rfl) arguments)
      rw [applyTrailer, Trailer.moved, applyTrailer, Expr.line_moved, Expr.moved_call, hpositionals,
        hkeywords, hsequence, hmapping]

end Parse.Grammar

end DepsManifest
