import DepsManifest.Expr.Basic
/-! # Positions in an expression

A frame is a node with one of its operands missing; a list of frames, the outermost first, is an
expression with a hole, and so a position. Every notion of "inside" is read off frames here:

  * `s` occurs in `e` when `e` is `s` put into some list of frames (`OccursIn`);
  * a part of `e` is what fills a single frame (`IsPartOf`), and parts are smaller
    (`Frame.sizeOf_lt_plug`), which gives the one induction over expressions that the proofs about
    evaluation share (`Expr.inductionOnParts`);
  * a position is strict when no frame on the way is the right operand of `and` or `or`, and the
    last one is not the callee of a call (`OccursStrictlyIn`);
  * a name is called where a call of it occurs (`Calls`).

There is a frame for every operand of every kind of node, also of those that are never evaluated. So
to occur in an expression is a matter of its form alone, and what evaluation reaches is said
elsewhere.

The induction on parts takes the place of the induction that the type would give. Expressions are
nested in lists, in options and in items of displays, and each of these would need a motive of its
own; a proof by parts has a single case, and splits on the node where it wants to.
-/
namespace DepsManifest

/-- A node with one of its operands missing. -/
inductive Frame where
  | tupleItem (line : Nat) (before after : List Expr)
  | listItem (line : Nat) (before after : List Expr)
  | setItem (line : Nat) (before after : List Expr)
  | dictKey (line : Nat) (before : List DictItem) (value : Expr) (after : List DictItem)
  | dictValue (line : Nat) (before : List DictItem) (key : Expr) (after : List DictItem)
  | dictUnpacked (line : Nat) (before after : List DictItem)
  | starredValue (line : Nat)
  | callee (line : Nat) (arguments : List Expr) (keywords : List Keyword)
      (sequence mapping : Option Expr)
  | argument (line : Nat) (callee : Expr) (before after : List Expr) (keywords : List Keyword)
      (sequence mapping : Option Expr)
  | keywordValue (line : Nat) (callee : Expr) (arguments : List Expr) (before : List Keyword)
      (name : String) (after : List Keyword) (sequence mapping : Option Expr)
  | sequenceValue (line : Nat) (callee : Expr) (arguments : List Expr) (keywords : List Keyword)
      (mapping : Option Expr)
  | mappingValue (line : Nat) (callee : Expr) (arguments : List Expr) (keywords : List Keyword)
      (sequence : Option Expr)
  | fieldOwner (line : Nat) (name : String)
  | subscripted (line : Nat) (index : Expr)
  | subscriptIndex (line : Nat) (value : Expr)
  | sliceLower (line : Nat) (upper step : Option Expr)
  | sliceUpper (line : Nat) (lower step : Option Expr)
  | sliceStep (line : Nat) (lower upper : Option Expr)
  | lambdaBody (line : Nat) (parameters : List String)
  | element (line : Nat) (kind : ComprehensionKind) (value : Option Expr) (clauses : List Clause)
  | elementValue (line : Nat) (kind : ComprehensionKind) (element : Expr) (clauses : List Clause)
  | clauseTarget (line : Nat) (kind : ComprehensionKind) (element : Expr) (value : Option Expr)
      (before : List Clause) (iterable : Expr) (conditions : List Expr) (after : List Clause)
  | clauseIterable (line : Nat) (kind : ComprehensionKind) (element : Expr) (value : Option Expr)
      (before : List Clause) (target : Expr) (conditions : List Expr) (after : List Clause)
  | clauseCondition (line : Nat) (kind : ComprehensionKind) (element : Expr) (value : Option Expr)
      (before : List Clause) (target iterable : Expr) (earlier later : List Expr)
      (after : List Clause)
  | conditionalTest (line : Nat) (body otherwise : Expr)
  | conditionalBody (line : Nat) (test otherwise : Expr)
  | conditionalOtherwise (line : Nat) (test body : Expr)
  | binaryLeft (line : Nat) (op : BinaryOp) (right : Expr)
  | binaryRight (line : Nat) (op : BinaryOp) (left : Expr)
  | booleanOperand (line : Nat) (op : BoolOp) (before after : List Expr)
  | unaryOperand (line : Nat) (op : UnaryOp)
  | comparedFirst (line : Nat) (comparisons : List (Comparison × Expr))
  | comparedLater (line : Nat) (left : Expr) (before : List (Comparison × Expr)) (op : Comparison)
      (after : List (Comparison × Expr))
  | namedTarget (line : Nat) (value : Expr)
  | namedValue (line : Nat) (target : Expr)

namespace Frame

/-- The node with an expression as the missing operand. -/
def plug : Frame → Expr → Expr
  | tupleItem line before after, s => .tuple line (before ++ s :: after)
  | listItem line before after, s => .list line (before ++ s :: after)
  | setItem line before after, s => .set line (before ++ s :: after)
  | dictKey line before value after, s => .dict line (before ++ .entry s value :: after)
  | dictValue line before key after, s => .dict line (before ++ .entry key s :: after)
  | dictUnpacked line before after, s => .dict line (before ++ .unpack s :: after)
  | starredValue line, s => .starred line s
  | callee line arguments keywords sequence mapping, s =>
    .call line s arguments keywords sequence mapping
  | argument line called before after keywords sequence mapping, s =>
    .call line called (before ++ s :: after) keywords sequence mapping
  | keywordValue line called arguments before name after sequence mapping, s =>
    .call line called arguments (before ++ .mk name s :: after) sequence mapping
  | sequenceValue line called arguments keywords mapping, s =>
    .call line called arguments keywords (some s) mapping
  | mappingValue line called arguments keywords sequence, s =>
    .call line called arguments keywords sequence (some s)
  | fieldOwner line name, s => .field line s name
  | subscripted line index, s => .subscript line s index
  | subscriptIndex line value, s => .subscript line value s
  | sliceLower line upper step, s => .slice line (some s) upper step
  | sliceUpper line lower step, s => .slice line lower (some s) step
  | sliceStep line lower upper, s => .slice line lower upper (some s)
  | lambdaBody line parameters, s => .lambda line parameters s
  | element line kind value clauses, s => .comprehension line kind s value clauses
  | elementValue line kind main clauses, s => .comprehension line kind main (some s) clauses
  | clauseTarget line kind main value before iterable conditions after, s =>
    .comprehension line kind main value (before ++ .mk s iterable conditions :: after)
  | clauseIterable line kind main value before target conditions after, s =>
    .comprehension line kind main value (before ++ .mk target s conditions :: after)
  | clauseCondition line kind main value before target iterable earlier later after, s =>
    .comprehension line kind main value
      (before ++ .mk target iterable (earlier ++ s :: later) :: after)
  | conditionalTest line body otherwise, s => .conditional line s body otherwise
  | conditionalBody line test otherwise, s => .conditional line test s otherwise
  | conditionalOtherwise line test body, s => .conditional line test body s
  | binaryLeft line op right, s => .binary line op s right
  | binaryRight line op left, s => .binary line op left s
  | booleanOperand line op before after, s => .boolean line op (before ++ s :: after)
  | unaryOperand line op, s => .unary line op s
  | comparedFirst line comparisons, s => .compare line s comparisons
  | comparedLater line left before op after, s => .compare line left (before ++ (op, s) :: after)
  | namedTarget line value, s => .named line s value
  | namedValue line target, s => .named line target s

/-- Whether the missing operand is the right one of the two of `and` or `or`. -/
def isRightOperand : Frame → Bool
  | booleanOperand _ _ [_] [] => true
  | _ => false

/-- Whether the missing operand is what a call calls. -/
def isCallee : Frame → Bool
  | callee .. => true
  | _ => false

theorem sizeOf_lt_plug (f : Frame) (s : Expr) : sizeOf s < sizeOf (f.plug s) := by
  have item {α : Type} [SizeOf α] (before after : List α) (a : α) :
      sizeOf a < sizeOf (before ++ a :: after) :=
    List.sizeOf_lt_of_mem (List.mem_append_right before List.mem_cons_self)
  cases f with
  | tupleItem _ before after => have := item before after s; simp [plug]; omega
  | listItem _ before after => have := item before after s; simp [plug]; omega
  | setItem _ before after => have := item before after s; simp [plug]; omega
  | dictKey _ before value after =>
      have := item before after (.entry s value); simp [plug] at this ⊢; omega
  | dictValue _ before key after =>
      have := item before after (.entry key s); simp [plug] at this ⊢; omega
  | dictUnpacked _ before after =>
      have := item before after (.unpack s); simp [plug] at this ⊢; omega
  | argument _ _ before after => have := item before after s; simp [plug]; omega
  | keywordValue _ _ _ before name after =>
      have := item before after (.mk name s); simp [plug] at this ⊢; omega
  | clauseTarget _ _ _ _ before iterable conditions after =>
      have := item before after (.mk s iterable conditions); simp [plug] at this ⊢; omega
  | clauseIterable _ _ _ _ before target conditions after =>
      have := item before after (.mk target s conditions); simp [plug] at this ⊢; omega
  | clauseCondition _ _ _ _ before target iterable earlier later after =>
      have inner := item earlier later s
      have := item before after (.mk target iterable (earlier ++ s :: later))
      simp [plug] at this ⊢; omega
  | booleanOperand _ _ before after => have := item before after s; simp [plug]; omega
  | comparedLater _ _ before op after =>
      have := item before after (op, s); simp [plug] at this ⊢; omega
  | _ => simp [plug] <;> omega

/-! ## Lists of frames -/

/-- An expression put into a list of frames, the outermost of which stands first. -/
def plugAll (c : List Frame) (s : Expr) : Expr := c.foldr plug s

@[simp] theorem plugAll_nil (s : Expr) : plugAll [] s = s := rfl

@[simp] theorem plugAll_cons (f : Frame) (c : List Frame) (s : Expr) :
    plugAll (f :: c) s = f.plug (plugAll c s) := rfl

end Frame

namespace Expr

/-! ## Parts -/

/-- `s.IsPartOf e`: `s` is an operand of `e`. -/
def IsPartOf (s e : Expr) : Prop := ∃ f : Frame, e = f.plug s

theorem IsPartOf.sizeOf_lt {s e : Expr} : s.IsPartOf e → sizeOf s < sizeOf e
  | ⟨f, h⟩ => h ▸ f.sizeOf_lt_plug s

/-- Proves a property of all expressions from one case: it holds of a node if it holds of all of
its parts. -/
theorem inductionOnParts {motive : Expr → Prop}
    (node : ∀ e, (∀ s : Expr, s.IsPartOf e → motive s) → motive e) (e : Expr) : motive e :=
  node e fun s h =>
    have := h.sizeOf_lt
    inductionOnParts node s
  termination_by sizeOf e

section IsPartOf

variable {s : Expr} {line : Nat}

theorem isPartOf_tuple {items : List Expr} (h : s ∈ items) : s.IsPartOf (.tuple line items) := by
  obtain ⟨before, after, rfl⟩ := List.append_of_mem h
  exact ⟨.tupleItem line before after, rfl⟩

theorem isPartOf_list {items : List Expr} (h : s ∈ items) : s.IsPartOf (.list line items) := by
  obtain ⟨before, after, rfl⟩ := List.append_of_mem h
  exact ⟨.listItem line before after, rfl⟩

theorem isPartOf_dict {items : List DictItem} {key value : Expr}
    (h : .entry key value ∈ items) :
    key.IsPartOf (.dict line items) ∧ value.IsPartOf (.dict line items) := by
  obtain ⟨before, after, rfl⟩ := List.append_of_mem h
  exact ⟨⟨.dictKey line before value after, rfl⟩, ⟨.dictValue line before key after, rfl⟩⟩

theorem isPartOf_call {callee : Expr} {arguments : List Expr} {keywords : List Keyword}
    {sequence mapping : Option Expr} (h : s ∈ arguments) :
    s.IsPartOf (.call line callee arguments keywords sequence mapping) := by
  obtain ⟨before, after, rfl⟩ := List.append_of_mem h
  exact ⟨.argument line callee before after keywords sequence mapping, rfl⟩

theorem isPartOf_boolean {op : BoolOp} {operands : List Expr} (h : s ∈ operands) :
    s.IsPartOf (.boolean line op operands) := by
  obtain ⟨before, after, rfl⟩ := List.append_of_mem h
  exact ⟨.booleanOperand line op before after, rfl⟩

end IsPartOf

/-! ## Occurrences -/

/-- `s.OccursIn e`: `s` is `e` or stands somewhere inside it. -/
def OccursIn (s e : Expr) : Prop := ∃ c, e = Frame.plugAll c s

/-- `s.OccursStrictlyIn e`: `s` stands in `e` outside of every right operand of `and` and `or`, and
is not what a call calls. -/
def OccursStrictlyIn (s e : Expr) : Prop :=
  ∃ c, e = Frame.plugAll c s ∧ (∀ f ∈ c, f.isRightOperand = false) ∧
    ∀ f, c.getLast? = some f → f.isCallee = false

theorem OccursIn.refl (e : Expr) : e.OccursIn e := ⟨[], rfl⟩

theorem OccursIn.of_isPartOf {s p e : Expr} : s.OccursIn p → p.IsPartOf e → s.OccursIn e
  | ⟨c, hc⟩, ⟨f, hf⟩ => ⟨f :: c, by rw [hf, hc]; rfl⟩

theorem OccursIn.eq_or_plug {s e : Expr} :
    s.OccursIn e → e = s ∨ ∃ (f : Frame) (p : Expr), e = f.plug p ∧ s.OccursIn p
  | ⟨[], h⟩ => .inl h
  | ⟨f :: c, h⟩ => .inr ⟨f, Frame.plugAll c s, h, c, rfl⟩

/-- `e.Calls name`: somewhere in `e` stands a call of the name. -/
def Calls (e : Expr) (name : String) : Prop :=
  ∃ line nameLine arguments keywords sequence mapping,
    (Expr.call line (.name nameLine name) arguments keywords sequence mapping).OccursIn e

theorem Calls.of_isPartOf {p e : Expr} {name : String} :
    p.Calls name → p.IsPartOf e → e.Calls name
  | ⟨line, nameLine, arguments, keywords, sequence, mapping, h⟩, hp =>
    ⟨line, nameLine, arguments, keywords, sequence, mapping, h.of_isPartOf hp⟩

end Expr

end DepsManifest
