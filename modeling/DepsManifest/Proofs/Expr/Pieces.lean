import DepsManifest.Proofs.Expr.Texts
import DepsManifest.Proofs.Token.Pieces
/-! # What is read is what was written

The pieces of a source are its names, its texts and its operators; brackets, commas and colons are
none, and a run of string literals is one text. An expression has pieces too, from left to right.
For plain expressions they are the same, in the same order (`Expr.pieces_ofText`). So nothing of a
source is lost, read twice or read in another order.

Plain expressions (`Expr.Plain`) are made of names, string literals, displays of items, calls of
names with positional arguments, and operators other than comparisons.

## The way of the proof

Nothing here looks at a production of the grammar. A text that is read has a layout (`Expr.Layout`),
and the pieces are taken from there in two steps:

  * the parts of the layout of a plain node have the pieces of the node (`Layout.pieces`), one case
    for each kind of node. An operand is one part, and its pieces are its own;
  * tokens that fit some parts have the pieces of these (`Fits.pieces`), by induction over `Fits`.
    Parentheses around an operand are no pieces, so they do not count.

## Literals that come next to each other

The second step does not hold of all parts. If a literal ends one operand and another one begins the
next, their tokens would be a single piece. In no layout do two operands stand side by side, and
`Spaced` says so: after an operand comes a token that is no literal. It also has to be known of what
comes after the text, and that is the end of the line.
-/
namespace DepsManifest

/-! ## Plain expressions -/

mutual

/-- An expression of names, string literals, displays of items, calls of names with positional
arguments, and operators other than comparisons. -/
inductive Expr.Plain : Expr → Prop
  | str (line : Nat) (text : String) : Expr.Plain (.str line text)
  | name (line : Nat) (n : String) : Expr.Plain (.name line n)
  | tuple (line : Nat) {items : List Expr} :
      (∀ e ∈ items, Expr.Plain e) → Expr.Plain (.tuple line items)
  | list (line : Nat) {items : List Expr} :
      (∀ e ∈ items, Expr.Plain e) → Expr.Plain (.list line items)
  | dict (line : Nat) {items : List DictItem} :
      (∀ item ∈ items, DictItem.Plain item) → Expr.Plain (.dict line items)
  | call (line line' : Nat) (callee : String) {arguments : List Expr} :
      (∀ e ∈ arguments, Expr.Plain e) →
      Expr.Plain (.call line (.name line' callee) arguments [] none none)
  | binary (line : Nat) (op : BinaryOp) {left right : Expr} :
      Expr.Plain left → Expr.Plain right → Expr.Plain (.binary line op left right)
  | boolean (line : Nat) (op : BoolOp) {operands : List Expr} :
      (∀ e ∈ operands, Expr.Plain e) → Expr.Plain (.boolean line op operands)
  | unary (line : Nat) (op : UnaryOp) {operand : Expr} :
      Expr.Plain operand → Expr.Plain (.unary line op operand)

/-- An entry of plain expressions. -/
inductive DictItem.Plain : DictItem → Prop
  | entry {key value : Expr} :
      Expr.Plain key → Expr.Plain value → DictItem.Plain (.entry key value)

end

namespace Expr

mutual

/-- The names, texts and operators of an expression, from left to right. A chain of operands has its
operator between each two of them. -/
def pieces : Expr → List Piece
  | .str _ text => [.text text]
  | .name _ n => [.name n]
  | .tuple _ items | .list _ items => (piecesEach items).flatten
  | .dict _ items => (piecesItems items).flatten
  | .call _ callee arguments _ _ _ => pieces callee ++ (piecesEach arguments).flatten
  | .binary _ op left right => pieces left ++ .symbol op.symbol :: pieces right
  | .boolean _ op operands => [.symbol op.keyword].intercalate (piecesEach operands)
  | .unary _ op operand => .symbol op.symbol :: pieces operand
  | _ => []

def piecesEach : List Expr → List (List Piece)
  | [] => []
  | e :: rest => pieces e :: piecesEach rest

def piecesItems : List DictItem → List (List Piece)
  | [] => []
  | .entry key value :: rest => (pieces key ++ pieces value) :: piecesItems rest
  | .unpack value :: rest => pieces value :: piecesItems rest

end

end Expr

/-- The pieces of an item of a dict display. -/
def DictItem.pieces : DictItem → List Piece
  | .entry key value => key.pieces ++ value.pieces
  | .unpack value => value.pieces

namespace Expr

/-- The names and texts of an expression, from left to right. -/
def leaves (e : Expr) : List Piece := e.pieces.filter Piece.isLeaf

/-- The operators of an expression, from left to right. -/
def symbols (e : Expr) : List Piece := e.pieces.filter (!·.isLeaf)

theorem flatten_piecesEach (items : List Expr) :
    (piecesEach items).flatten = items.flatMap pieces := by
  induction items with
  | nil => rfl
  | cons e rest ih => rw [piecesEach, List.flatten_cons, ih, List.flatMap_cons]

theorem flatten_piecesItems (items : List DictItem) :
    (piecesItems items).flatten = items.flatMap DictItem.pieces := by
  induction items with
  | nil => rfl
  | cons item rest ih =>
      cases item with
      | entry key value =>
          rw [piecesItems, List.flatten_cons, ih, List.flatMap_cons, DictItem.pieces]
      | unpack value => rw [piecesItems, List.flatten_cons, ih, List.flatMap_cons, DictItem.pieces]

theorem intercalate_piecesEach (separator : Piece) (first : Expr) (rest : List Expr) :
    [separator].intercalate (piecesEach (first :: rest)) =
      first.pieces ++ rest.flatMap fun e => separator :: e.pieces := by
  induction rest generalizing first with
  | nil => simp [piecesEach]
  | cons second rest ih =>
      have h := ih second
      rw [piecesEach, piecesEach, List.intercalate_cons_cons]
      rw [piecesEach] at h
      rw [h, List.flatMap_cons]
      simp

end Expr

/-! ## Pieces of a text -/

namespace TextPart

/-- The pieces of a part. -/
def pieces : TextPart → List Piece
  | token kind => kind.pieces
  | operand e | loose e | index e => e.pieces

theorem pieces_op_of_groups {o : Op} (h : o.groups = true) : (op o).pieces = [] := if_pos h

/-- Parts that are tokens and plain operands. No token is a literal, which is one piece with the
literals around it, and so no operand comes next to another: it might be a literal as well. -/
inductive Spaced : List TextPart → Prop
  | nil : Spaced []
  | token {kind : TokenKind} {parts : List TextPart} (hkind : kind.isLiteral = false)
      (h : Spaced parts) : Spaced (.token kind :: parts)
  | operand {e : Expr} {parts : List TextPart} (he : e.Plain)
      (hnext : ∀ p ∈ parts.head?, p.node? = none) (h : Spaced parts) : Spaced (.operand e :: parts)
  | loose {e : Expr} {parts : List TextPart} (he : e.Plain)
      (hnext : ∀ p ∈ parts.head?, p.node? = none) (h : Spaced parts) : Spaced (.loose e :: parts)

theorem spaced_operand {e : Expr} (he : e.Plain) : Spaced [.operand e] := .operand he nofun .nil

theorem spaced_loose {e : Expr} (he : e.Plain) : Spaced [.loose e] := .loose he nofun .nil

theorem Spaced.append {parts more : List TextPart} (h : Spaced parts) (hmore : Spaced more)
    (hnext : ∀ p ∈ more.head?, p.node? = none) : Spaced (parts ++ more) := by
  have hhead {parts : List TextPart} (hparts : ∀ p ∈ parts.head?, p.node? = none) :
      ∀ p ∈ (parts ++ more).head?, p.node? = none := by
    cases parts with
    | nil => exact hnext
    | cons => exact hparts
  induction h with
  | nil => exact hmore
  | token hkind _ ih => exact .token hkind ih
  | operand he hnext' _ ih => exact .operand he (hhead hnext') ih
  | loose he hnext' _ ih => exact .loose he (hhead hnext') ih

theorem Spaced.append_op {parts more : List TextPart} (h : Spaced parts) {o : Op}
    (hmore : Spaced more) : Spaced (parts ++ op o :: more) := by
  refine h.append (.token rfl hmore) ?_
  rintro _ ⟨⟩
  rfl

theorem spaced_afterCommas {items : List (List TextPart)} (h : ∀ item ∈ items, Spaced item)
    (trailing : Bool) :
    Spaced (items.flatMap (op .comma :: ·) ++ if trailing then [op .comma] else []) ∧
      ∀ p ∈ (items.flatMap (op .comma :: ·) ++ if trailing then [op .comma] else []).head?,
        p.node? = none := by
  induction items with
  | nil =>
      cases trailing with
      | false => exact ⟨.nil, nofun⟩
      | true =>
          refine ⟨.token rfl .nil, ?_⟩
          rintro _ ⟨⟩
          rfl
  | cons item items ih =>
      obtain ⟨hitem, hitems⟩ := List.forall_mem_cons.mp h
      obtain ⟨hrest, hnext⟩ := ih hitems
      rw [List.flatMap_cons, List.append_assoc]
      refine ⟨.token rfl (hitem.append hrest hnext), ?_⟩
      rintro _ ⟨⟩
      rfl

theorem spaced_listed {items : List (List TextPart)} (h : ∀ item ∈ items, Spaced item)
    (trailing : Bool) : Spaced (listed items trailing) := by
  cases items with
  | nil => exact .nil
  | cons first rest =>
      obtain ⟨hfirst, hrest⟩ := List.forall_mem_cons.mp h
      obtain ⟨hafter, hnext⟩ := spaced_afterCommas hrest trailing
      exact hfirst.append hafter hnext

theorem spaced_enclosed {inner : List TextPart} (h : Spaced inner) (opening closing : Op) :
    Spaced (enclosed opening inner closing) := .token rfl (h.append_op .nil)

theorem pieces_listed (items : List (List TextPart)) (trailing : Bool) :
    (listed items trailing).flatMap pieces = items.flatMap (·.flatMap pieces) := by
  have hcomma : (op .comma).pieces = [] := rfl
  have htrailing : (if trailing then [op .comma] else []).flatMap pieces = [] := by
    cases trailing <;> rfl
  cases items with
  | nil => rfl
  | cons first rest =>
      rw [listed, List.flatMap_append, List.flatMap_append, htrailing, List.append_nil,
        List.flatMap_assoc, List.flatMap_cons]
      simp only [List.flatMap_cons, hcomma, List.nil_append]

theorem pieces_operands (items : List Expr) (trailing : Bool) :
    (operands items trailing).flatMap pieces = items.flatMap Expr.pieces := by
  rw [operands, pieces_listed, List.flatMap_map]
  simp only [List.flatMap_singleton, pieces]

theorem pieces_enclosed {opening closing : Op} (hopening : opening.groups = true)
    (hclosing : closing.groups = true) (inner : List TextPart) :
    (enclosed opening inner closing).flatMap pieces = inner.flatMap pieces := by
  rw [enclosed, List.flatMap_cons, List.flatMap_append, List.flatMap_singleton,
    pieces_op_of_groups hopening, pieces_op_of_groups hclosing, List.nil_append, List.append_nil]

end TextPart

/-! ## Pieces of a layout -/

open TextPart

theorem DictItem.Plain.spaced {item : DictItem} (h : item.Plain) :
    Spaced item.parts ∧ item.parts.flatMap TextPart.pieces = item.pieces := by
  cases h with
  | entry hkey hvalue =>
      refine ⟨(spaced_operand hkey).append_op (spaced_operand hvalue), ?_⟩
      have hcolon : (op .colon).pieces = [] := rfl
      simp only [DictItem.parts, List.flatMap_cons, List.flatMap_nil, hcolon, List.nil_append,
        List.append_nil]
      rfl

namespace Parse.Grammar

/-- A positional argument that is plain. -/
def Argument.Plain : Argument → Prop
  | .positional value => value.Plain
  | _ => False

def Argument.pieces : Argument → List Piece
  | .positional value => value.pieces
  | _ => []

theorem Argument.Plain.spaced {a : Argument} (h : a.Plain) :
    Spaced a.parts ∧ a.parts.flatMap TextPart.pieces = a.pieces := by
  cases a with
  | positional value => exact ⟨spaced_loose h, List.append_nil _⟩
  | _ => exact h.elim

theorem flatMap_positionals {arguments : List Argument} (h : ∀ a ∈ arguments, a.Plain) :
    (positionals arguments).flatMap Expr.pieces = arguments.flatMap Argument.pieces := by
  induction arguments with
  | nil => rfl
  | cons a arguments ih =>
      obtain ⟨ha, hrest⟩ := List.forall_mem_cons.mp h
      cases a with
      | positional value =>
          show (value :: positionals arguments).flatMap Expr.pieces = _
          rw [List.flatMap_cons, ih hrest]
          rfl
      | _ => exact ha.elim

theorem plain_call {line : Nat} {callee : Expr} {arguments : List Argument}
    (h : (Expr.call line callee (positionals arguments) (namedArguments arguments)
      (lastSequence? arguments) (lastMapping? arguments)).Plain) :
    callee.Plain ∧ ∀ a ∈ arguments, a.Plain := by
  generalize hpositionals : positionals arguments = values at h
  generalize hnamed : namedArguments arguments = named at h
  generalize hsequence : lastSequence? arguments = sequence at h
  generalize hmapping : lastMapping? arguments = mapping at h
  cases h with
  | call _ line n hvalues =>
      refine ⟨.name line n, fun a ha => ?_⟩
      cases a with
      | positional value =>
          exact hvalues value (hpositionals ▸ List.mem_filterMap.mpr ⟨_, ha, rfl⟩)
      | keyword n value => exact absurd (List.filterMap_eq_nil_iff.mp hnamed _ ha) nofun
      | sequence value =>
          have hnone := List.getLast?_eq_none_iff.mp hsequence
          exact absurd (List.filterMap_eq_nil_iff.mp hnone _ ha) nofun
      | mapping value =>
          have hnone := List.getLast?_eq_none_iff.mp hmapping
          exact absurd (List.filterMap_eq_nil_iff.mp hnone _ ha) nofun

end Parse.Grammar

namespace Expr

open Parse.Grammar

theorem Plain.pieces_joinLiterals {line : Nat} {literals : List (LiteralKind × String)} {e : Expr}
    (hplain : e.Plain) (h : joinLiterals line literals = .ok e) :
    e.pieces = [.text (String.join (literals.map (·.2)))] := by
  unfold joinLiterals at h
  dsimp only at h
  split at h
  · split at h
    · cases h
      cases hplain
    · cases h
  · split at h
    · cases h
      cases hplain
    · cases h
      rfl

theorem spaced_operands {items : List Expr} (h : ∀ e ∈ items, e.Plain) (trailing : Bool) :
    Spaced (operands items trailing) :=
  spaced_listed (List.forall_mem_map.mpr fun e he => spaced_operand (h e he)) trailing

theorem pieces_name {line : Nat} {n : String} (h : Parse.keywords.contains n = false) :
    (TokenKind.name n).pieces = (Expr.name line n).pieces := by
  have hoperator : Parse.operatorNames.contains n = false := by
    have hsubset : Parse.operatorNames ⊆ Parse.keywords := by decide
    rw [← Bool.not_eq_true, List.contains_iff_mem] at h ⊢
    exact fun hn => h (hsubset hn)
  rw [TokenKind.pieces, hoperator]
  rfl

theorem pieces_binaryOp (o : BinaryOp) : (op o.token).pieces = [.symbol o.symbol] := by
  cases o <;> rfl

theorem pieces_unaryOp (o : UnaryOp) : o.token.pieces = [.symbol o.symbol] := by
  cases o <;> rfl

theorem pieces_boolOp (o : BoolOp) : (keyword o.keyword).pieces = [.symbol o.keyword] := by
  cases o <;> rfl

theorem spaced_chain (o : BoolOp) {rest : List Expr} (h : ∀ e ∈ rest, e.Plain) :
    Spaced (rest.flatMap fun e => [keyword o.keyword, .operand e]) ∧
      (∀ p ∈ (rest.flatMap fun e => [keyword o.keyword, .operand e]).head?, p.node? = none) ∧
      (rest.flatMap fun e => [keyword o.keyword, .operand e]).flatMap TextPart.pieces =
        rest.flatMap fun e => .symbol o.keyword :: e.pieces := by
  induction rest with
  | nil => exact ⟨.nil, nofun, rfl⟩
  | cons e rest ih =>
      obtain ⟨he, hrest⟩ := List.forall_mem_cons.mp h
      obtain ⟨hspaced, hnext, hpieces⟩ := ih hrest
      refine ⟨.token rfl (.operand he hnext hspaced), ?_, ?_⟩
      · rintro _ ⟨⟩
        rfl
      · rw [List.flatMap_cons, List.flatMap_append, hpieces, List.flatMap_cons, List.flatMap_cons,
          List.flatMap_nil, List.append_nil, pieces_boolOp]
        rfl

/-- The text of a plain node has the pieces of the node, if it is not made of literals. -/
theorem Layout.pieces {e : Expr} {parts : List TextPart} (h : e.Layout parts) (hplain : e.Plain) :
    (∃ literals : List (LiteralKind × String), literals ≠ [] ∧
      parts = (literals.map fun l => TokenKind.literal l.1 l.2).map .token ∧
      e.pieces = [.text (String.join (literals.map (·.2)))]) ∨
    Spaced parts ∧ parts.flatMap TextPart.pieces = e.pieces := by
  cases h with
  | literals hne hjoin =>
      exact .inl ⟨_, hne, List.map_map.symm, hplain.pieces_joinLiterals hjoin⟩
  | name _ hname => exact .inr ⟨.token rfl .nil, (List.append_nil _).trans (pieces_name hname)⟩
  | @tuple _ items trailing _ | list _ items trailing =>
      have hitems : ∀ e ∈ items, e.Plain := by
        cases hplain
        assumption
      refine .inr ⟨spaced_enclosed (spaced_operands hitems trailing) _ _, ?_⟩
      rw [pieces_enclosed rfl rfl, pieces_operands, Expr.pieces, flatten_piecesEach]
  | dict _ items trailing =>
      cases hplain with
      | dict _ hitems =>
          have hspaced := fun item hitem => (hitems item hitem).spaced
          refine .inr ⟨spaced_enclosed (spaced_listed (List.forall_mem_map.mpr fun item hitem =>
            (hspaced item hitem).1) trailing) _ _, ?_⟩
          rw [pieces_enclosed rfl rfl, pieces_listed, Expr.pieces, flatten_piecesItems,
            List.flatMap_map]
          exact List.flatMap_congr fun item hitem => (hspaced item hitem).2
  | call _ callee arguments trailing =>
      obtain ⟨hcallee, harguments⟩ := plain_call hplain
      have hspaced := fun a ha => (harguments a ha).spaced
      have hlisted := spaced_listed (List.forall_mem_map.mpr fun a ha => (hspaced a ha).1) trailing
      refine .inr ⟨(spaced_operand hcallee).append (spaced_enclosed hlisted _ _) ?_, ?_⟩
      · rintro _ ⟨⟩
        rfl
      · rw [List.flatMap_cons, pieces_enclosed rfl rfl, pieces_listed, Expr.pieces,
          flatten_piecesEach, flatMap_positionals harguments, List.flatMap_map]
        exact congrArg _ (List.flatMap_congr fun a ha => (hspaced a ha).2)
  | binary _ o left right =>
      cases hplain with
      | binary _ _ hleft hright =>
          refine .inr ⟨(spaced_operand hleft).append_op (spaced_operand hright), ?_⟩
          simp only [List.flatMap_cons, List.flatMap_nil, pieces_binaryOp, List.append_nil]
          rfl
  | boolean _ o first rest =>
      cases hplain with
      | boolean _ _ hoperands =>
          obtain ⟨hfirst, hrest⟩ := List.forall_mem_cons.mp hoperands
          obtain ⟨hspaced, hnext, hpieces⟩ := spaced_chain o hrest
          refine .inr ⟨.operand hfirst hnext hspaced, ?_⟩
          rw [Expr.pieces, intercalate_piecesEach, List.flatMap_cons, hpieces]
          rfl
  | unary _ o operand =>
      cases hplain with
      | unary _ _ hoperand =>
          refine .inr ⟨.token ?_ (spaced_operand hoperand), ?_⟩
          · cases o <;> rfl
          · rw [List.flatMap_cons, List.flatMap_singleton, Expr.pieces]
            exact congrArg (· ++ _) (pieces_unaryOp o)
  | _ => cases hplain

theorem BareLayout.pieces {e : Expr} {parts : List TextPart} (h : e.BareLayout parts)
    (hplain : e.Plain) : Spaced parts ∧ parts.flatMap TextPart.pieces = e.pieces := by
  cases h with
  | tuple =>
      cases hplain with
      | tuple _ hitems =>
          refine ⟨spaced_operands hitems _, ?_⟩
          rw [pieces_operands, Expr.pieces, flatten_piecesEach]
  | generator => cases hplain

end Expr

/-! ## From parts to tokens -/

theorem Fits.kinds {us : List Token} {kinds : List TokenKind} (h : Fits us (kinds.map .token)) :
    us.map Token.kind = kinds := by
  induction kinds generalizing us with
  | nil => rw [h.eq_nil]; rfl
  | cons kind kinds ih =>
      cases h with
      | token h => rw [List.map_cons, ih h]

theorem Fits.isLiteral_current {us ts : List Token} {parts : List TextPart} (h : Fits us parts)
    (hspaced : Spaced parts) (hfirst : ∀ p ∈ parts.head?, p.node? = none)
    (hafter : (Parse.current ts).kind.isLiteral = false) :
    (Parse.current (us ++ ts)).kind.isLiteral = false := by
  cases hspaced with
  | nil => rwa [h.eq_nil]
  | token hkind =>
      cases h
      exact hkind
  | operand => cases hfirst _ rfl
  | loose => cases hfirst _ rfl

/-- Tokens that are a text have the pieces of its parts, whatever comes after them, unless it is a
literal, which might be one piece with the last of them. -/
theorem Fits.pieces {us : List Token} {parts : List TextPart} (h : Fits us parts)
    (hspaced : Spaced parts) {ts : List Token}
    (hafter : (Parse.current ts).kind.isLiteral = false) :
    Token.pieces (us ++ ts) = parts.flatMap TextPart.pieces ++ Token.pieces ts := by
  induction h generalizing ts with
  | nil => rfl
  | token _ ih =>
      cases hspaced with
      | token hkind hspaced =>
          rw [List.cons_append, Token.pieces_cons hkind, ih hspaced hafter, List.flatMap_cons,
            List.append_assoc]
          rfl
  | @node e inner parts us vs hlayout hinner _ hvs ihinner ih =>
      cases hspaced with
      | operand he hnext hspaced =>
          have hbetween := hvs.isLiteral_current hspaced hnext hafter
          rw [List.append_assoc, List.flatMap_cons, List.append_assoc, ← ih hspaced hafter]
          rcases hlayout.pieces he with ⟨literals, hne, rfl, hpieces⟩ | ⟨hinner', hpieces⟩
          · rw [Token.pieces_literals hne hinner.kinds hbetween]
            exact congrArg (· ++ _) hpieces.symm
          · rw [ihinner hinner' hbetween, hpieces]
            rfl
  | loose _ ih =>
      cases hspaced with
      | loose he hnext hspaced => exact ih (.operand he hnext hspaced) hafter
  | bare hlayout _ _ hvs ihinner ih =>
      cases hspaced with
      | loose he hnext hspaced =>
          have hbetween := hvs.isLiteral_current hspaced hnext hafter
          obtain ⟨hinner', hpieces⟩ := hlayout.pieces he
          rw [List.append_assoc, ihinner hinner' hbetween, hpieces, ih hspaced hafter,
            List.flatMap_cons, List.append_assoc]
          rfl
  | @parens t u e parts us vs ht hu _ _ ihinner ih =>
      cases hspaced with
      | operand he _ hspaced =>
          have hopening : t.kind.isLiteral = false ∧ t.kind.pieces = [] := by
            rw [ht]
            exact ⟨rfl, rfl⟩
          have hclosing : u.kind.isLiteral = false ∧ u.kind.pieces = [] := by
            rw [hu]
            exact ⟨rfl, rfl⟩
          have hinner : Token.pieces (us ++ u :: (vs ++ ts)) = _ :=
            ihinner (spaced_operand he) hclosing.1
          rw [List.append_assoc, List.cons_append, List.cons_append, Token.pieces_cons hopening.1,
            hopening.2, List.nil_append, hinner, Token.pieces_cons hclosing.1, hclosing.2,
            List.nil_append, ih hspaced hafter, List.flatMap_singleton, List.flatMap_cons,
            List.append_assoc]
  | index => cases hspaced
  | indices => cases hspaced

namespace Parse

theorem pieces_skipNewlines (ts : List Token) :
    Token.pieces (skipNewlines ts) = Token.pieces ts := by
  induction ts with
  | nil => rfl
  | cons t ts ih =>
      cases hkind : t.kind with
      | newline =>
          rw [skipNewlines, List.dropWhile_cons_of_pos (by rw [hkind]; rfl), Token.pieces, hkind]
          exact ih
      | _ => rw [skipNewlines, List.dropWhile_cons_of_neg (by rw [hkind]; exact Bool.false_ne_true)]

theorem isLiteral_of_skipNewlines {ts : List Token}
    (h : (current (skipNewlines ts)).kind = .endOfText) : (current ts).kind.isLiteral = false := by
  cases ts with
  | nil => rfl
  | cons t ts =>
      show t.kind.isLiteral = false
      cases hkind : t.kind with
      | literal =>
          rw [skipNewlines,
            List.dropWhile_cons_of_neg (by rw [hkind]; exact Bool.false_ne_true)] at h
          cases hkind.symm.trans h
      | _ => rfl

end Parse

/-! ## Texts -/

namespace Expr

/-- A plain expression that a text denotes has the names, texts and operators of the text, in the
same order. So its leaves are the names and the texts of the source, runs of string literals joined,
and its operators are those of the source other than brackets, commas and colons. -/
theorem pieces_ofText {text : String} {e : Expr} (he : Expr.ofText text = .ok e)
    (hplain : e.Plain) :
    ∃ ts, Token.ofText text = .ok ts ∧ e.pieces = Token.pieces ts ∧
      e.leaves = Token.leaves ts ∧ e.symbols = Token.symbols ts := by
  obtain ⟨ts, hts, hread⟩ := bind_eq_ok.mp he
  obtain ⟨rest, ⟨taken, rfl, hfits⟩, hend⟩ := spans_of_ofTokens hread
  have hrest : Token.pieces rest = [] := by
    rw [← Parse.pieces_skipNewlines]
    exact Token.pieces_of_endOfText hts
      ((List.dropWhile_suffix _).trans (List.suffix_append taken rest)) hend
  have hpieces : e.pieces = Token.pieces (taken ++ rest) := by
    rw [hfits.pieces (spaced_loose hplain) (Parse.isLiteral_of_skipNewlines hend), hrest,
      List.append_nil, List.flatMap_singleton]
    rfl
  exact ⟨_, hts, hpieces, congrArg (List.filter Piece.isLeaf) hpieces,
    congrArg (List.filter fun p : Piece => !p.isLeaf) hpieces⟩

/-- A call with literals to join, a chain and a comma too many, and a tuple of one item. -/
def callAndTuple : Expr :=
  .binary 1 .modulo
    (.call 1 (.name 1 "f")
      [.str 1 "ab", .boolean 1 .or [.name 1 "x", .name 1 "y", .unary 1 .not (.name 1 "z")]]
      [] none none)
    (.tuple 1 [.name 1 "u"])

theorem pieces_ofText_callAndTuple :
    callAndTuple.pieces = [.name "f", .text "ab", .name "x", .symbol "or", .name "y",
      .symbol "or", .symbol "not", .name "z", .symbol "%", .name "u"] ∧
    ∃ ts, Token.ofText "f('a''b',x or y or not z,)%(u,)" = .ok ts ∧
      callAndTuple.pieces = Token.pieces ts ∧ callAndTuple.leaves = Token.leaves ts ∧
      callAndTuple.symbols = Token.symbols ts := by
  have htokens : Token.ofText "f('a''b',x or y or not z,)%(u,)" = .ok
      [⟨.name "f", 1, 0⟩, ⟨.op .leftParen, 1, 1⟩, ⟨.literal .text "a", 1, 2⟩,
        ⟨.literal .text "b", 1, 5⟩, ⟨.op .comma, 1, 8⟩, ⟨.name "x", 1, 9⟩, ⟨.name "or", 1, 11⟩,
        ⟨.name "y", 1, 14⟩, ⟨.name "or", 1, 16⟩, ⟨.name "not", 1, 19⟩, ⟨.name "z", 1, 23⟩,
        ⟨.op .comma, 1, 24⟩, ⟨.op .rightParen, 1, 25⟩, ⟨.op .percent, 1, 26⟩,
        ⟨.op .leftParen, 1, 27⟩, ⟨.name "u", 1, 28⟩, ⟨.op .comma, 1, 29⟩,
        ⟨.op .rightParen, 1, 30⟩, ⟨.newline, 1, 0⟩, ⟨.endOfText, 1, 0⟩] := by decide +kernel
  have hread : Expr.ofText "f('a''b',x or y or not z,)%(u,)" = .ok callAndTuple := by
    rw [Expr.ofText, htokens]
    rfl
  have hchain : Plain (.boolean 1 .or [.name 1 "x", .name 1 "y", .unary 1 .not (.name 1 "z")]) := by
    refine .boolean 1 .or (List.forall_mem_cons.mpr ⟨.name 1 "x", ?_⟩)
    refine List.forall_mem_cons.mpr ⟨.name 1 "y", List.forall_mem_singleton.mpr ?_⟩
    exact .unary 1 .not (.name 1 "z")
  have hplain : callAndTuple.Plain := by
    refine .binary 1 .modulo (.call 1 1 "f" (List.forall_mem_cons.mpr ⟨.str 1 "ab", ?_⟩)) ?_
    · exact List.forall_mem_singleton.mpr hchain
    · exact .tuple 1 (List.forall_mem_singleton.mpr (.name 1 "u"))
  exact ⟨rfl, pieces_ofText hread hplain⟩

end Expr

end DepsManifest
