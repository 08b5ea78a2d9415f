import DepsManifest.Proofs.Expr.Layout
import DepsManifest.Proofs.Except
import DepsManifest.Token.Parse
/-! # What is read is a text of what was read

Every production takes tokens that are a text of what it reads (`Grammar.Takes`), if that is so of
the readers of nested expressions. So it is so of every depth (`Grammar.takes_grammar`), and of an
expression that a whole text denotes (`Expr.spans_of_ofTokens`).

This is the one place where the readers are compared with the layouts of nodes. What is known of a
source from what is read of it (the lines of nodes, the names in it, its leaves and operators) is
taken from the layouts, and does not look at the grammar again.

## How a production is shown to take a text

There is one lemma for each production. Its steps are those of the production: `Spans ts us parts`
says that the tokens between `ts` and `us` are a text of the parts, and the parts are put together
in the order in which they are taken (`Spans.append`). A production that makes a node ends with the
layout of its node and the line on which the node is put (`Spans.node`).

A production that goes on with a node, as a trailer does or an operator after its left operand, is
given the text of that node and takes a text of the whole. Loops of these are folds
(`ensures_many_foldl`).

## Lists

Items between commas have one statement for all lists (`TakesFor.afterCommas`). It says whether a
comma comes after the last one, since a tuple of one item has to have it. An item may be made of
more than what is kept of it, as a parameter with a default value, and `TakesFor` allows for that.
-/
namespace DepsManifest

open TextPart

namespace Parse

/-! ## Texts in sequence -/

/-- The tokens that were taken are a text of the parts. -/
def Spans (ts rest : List Token) (parts : List TextPart) : Prop :=
  ∃ us, ts = us ++ rest ∧ Fits us parts

section

variable {ts us vs : List Token} {parts more : List TextPart}

theorem Spans.refl (ts : List Token) : Spans ts ts [] := ⟨[], rfl, .nil⟩

theorem Spans.append (h : Spans ts us parts) (h' : Spans us vs more) :
    Spans ts vs (parts ++ more) := by
  obtain ⟨taken, rfl, hparts⟩ := h
  obtain ⟨next, rfl, hmore⟩ := h'
  exact ⟨taken ++ next, (List.append_assoc _ _ _).symm, hparts.append hmore⟩

theorem Spans.eq (h : Spans ts us []) : ts = us := by
  obtain ⟨taken, rfl, hparts⟩ := h
  rw [hparts.eq_nil, List.nil_append]

theorem spans_current {kind : TokenKind} (h : (current ts).kind = kind) (hend : kind ≠ .endOfText) :
    Spans ts ts.tail [.token kind] := by
  cases ts with
  | nil => exact absurd h.symm hend
  | cons t ts =>
      subst h
      exact ⟨[t], rfl, .token .nil⟩

theorem spans_skipOp? {o : Op} (h : skipOp? o ts = some us) : Spans ts us [op o] := by
  unfold skipOp? at h
  split at h
  · rename_i hat
    cases h
    exact spans_current (beq_iff_eq.mp hat) nofun
  · cases h

theorem spans_skipKeyword? {word : String} (h : skipKeyword? word ts = some us) :
    Spans ts us [keyword word] := by
  unfold skipKeyword? at h
  split at h
  · rename_i hat
    cases h
    exact spans_current (beq_iff_eq.mp hat) nofun
  · cases h

theorem ensures_spans_expectOp (o : Op) (ts : List Token) :
    Ensures (fun us => Spans ts us [op o]) (expectOp o ts) := by
  unfold expectOp
  split
  · rename_i hat
    exact ensures_ok (spans_current (beq_iff_eq.mp hat) nofun)
  · exact ensures_error _

theorem ensures_spans_expectKeyword (word : String) (ts : List Token) :
    Ensures (fun us => Spans ts us [keyword word]) (expectKeyword word ts) := by
  unfold expectKeyword
  split
  · rename_i hat
    exact ensures_ok (spans_current (beq_iff_eq.mp hat) nofun)
  · exact ensures_error _

/-- The text of a node is taken if the parts of its layout are and the node is on its line. -/
theorem Spans.node {e : Expr} (h : Spans ts us parts) (hlayout : e.Layout parts)
    (hline : e.line = e.lineIn ts parts) : Spans ts us [.operand e] := by
  obtain ⟨taken, rfl, hparts⟩ := h
  obtain ⟨t, rest, rfl⟩ := List.exists_cons_of_ne_nil (hparts.ne_nil hlayout.ne_nil)
  refine ⟨_, rfl, ?_⟩
  rw [← List.append_nil (t :: rest)]
  exact .node hlayout hparts hline .nil

theorem Spans.bare {e : Expr} (h : Spans ts us parts) (hlayout : e.BareLayout parts)
    (hline : e.line = e.lineIn ts parts) : Spans ts us [.loose e] := by
  obtain ⟨taken, rfl, hparts⟩ := h
  obtain ⟨t, rest, rfl⟩ := List.exists_cons_of_ne_nil (hparts.ne_nil hlayout.ne_nil)
  refine ⟨_, rfl, ?_⟩
  rw [← List.append_nil (t :: rest)]
  exact .bare hlayout hparts hline .nil

theorem Spans.loose {e : Expr} (h : Spans ts us [.operand e]) : Spans ts us [.loose e] := by
  obtain ⟨taken, rfl, hparts⟩ := h
  exact ⟨taken, rfl, .loose hparts⟩

theorem Spans.exists_token {kind : TokenKind} (h : Spans ts us [.token kind]) :
    ∃ t, ts = t :: us ∧ t.kind = kind := by
  obtain ⟨taken, rfl, hparts⟩ := h
  cases hparts with
  | token hrest =>
      rw [hrest.eq_nil]
      exact ⟨_, rfl, rfl⟩

theorem Spans.parens {e : Expr} {ts' us' : List Token} (hopening : Spans ts ts' [op .leftParen])
    (h : Spans ts' us [.operand e]) (hclosing : Spans us us' [op .rightParen]) :
    Spans ts us' [.operand e] := by
  obtain ⟨t, rfl, ht⟩ := hopening.exists_token
  obtain ⟨u, rfl, hu⟩ := hclosing.exists_token
  obtain ⟨taken, rfl, hparts⟩ := h
  exact ⟨t :: taken ++ [u], by simp, .parens ht hu hparts .nil⟩

theorem Spans.index {e : Expr} {ts' us' : List Token} (hopening : Spans ts ts' [op .leftBracket])
    (h : Spans ts' us [.operand e]) (hclosing : Spans us us' [op .rightBracket]) :
    Spans ts us' [.index e] := by
  obtain ⟨t, rfl, ht⟩ := hopening.exists_token
  obtain ⟨u, rfl, hu⟩ := hclosing.exists_token
  obtain ⟨taken, rfl, hparts⟩ := h
  exact ⟨t :: taken ++ [u], by simp, .index ht hu hparts .nil⟩

/-- The tuple of several indices is taken with the bracket on whose line it stands. -/
theorem Spans.indices {items : List Expr} {trailing : Bool} {ts' us' : List Token}
    (hopening : Spans ts ts' [op .leftBracket]) (hne : items ≠ [])
    (htrailing : items.length = 1 → trailing = true)
    (h : Spans ts' us (operands items trailing)) (hclosing : Spans us us' [op .rightBracket]) :
    Spans ts us' [.index (.tuple (current ts).line items)] := by
  obtain ⟨t, rfl, ht⟩ := hopening.exists_token
  obtain ⟨u, rfl, hu⟩ := hclosing.exists_token
  obtain ⟨taken, rfl, hparts⟩ := h
  exact ⟨t :: taken ++ [u], by simp, .indices ht hu hne htrailing hparts .nil⟩

end

/-! ## Readers -/

section

variable {α : Type}

/-- A reader that takes a text of what it reads. -/
def Takes (parts : α → List TextPart) (p : Parse α) : Prop :=
  ∀ ts, Ensures (fun r => Spans ts r.2 (parts r.1)) (p ts)

/-- The same for readers of what need not come next. -/
def TakesIf (parts : α → List TextPart) (p : ParseIf α) : Prop :=
  ∀ ts, Ensures (fun found => ∀ r ∈ found, Spans ts r.2 (parts r.1)) (p ts)

variable {parts : α → List TextPart}

theorem TakesIf.manyUpTo {next : ParseIf α} (h : TakesIf parts next) (n : Nat) :
    Takes (fun as => as.flatMap parts) (manyUpTo next n) := by
  induction n with
  | zero => exact fun ts => ensures_error _
  | succ n ih =>
      intro ts
      rw [Parse.manyUpTo]
      refine (h ts).bind fun found hfound => ?_
      cases found with
      | none => exact ensures_ok (.refl ts)
      | some r => exact (ih r.2).bind fun more hmore => ensures_ok ((hfound r rfl).append hmore)

theorem TakesIf.many {next : ParseIf α} (h : TakesIf parts next) :
    Takes (fun as => as.flatMap parts) (many next) :=
  fun ts => h.manyUpTo _ ts

/-- The same for readers of what is made of more than they give. -/
def TakesFor {β : Type} (f : β → α) (partsOf : β → List TextPart) (p : Parse α) : Prop :=
  ∀ ts, Ensures (fun r => ∃ b, f b = r.1 ∧ Spans ts r.2 (partsOf b)) (p ts)

section

variable {β : Type} {f : β → α} {partsOf : β → List TextPart} {item : Parse α}

theorem TakesFor.afterCommasUpTo (h : TakesFor f partsOf item) (stop : List Token → Bool) (n : Nat)
    (ts : List Token) : Ensures (fun r => ∃ (bs : List β) (trailing : Bool), bs.map f = r.1 ∧
      Spans ts r.2 (bs.flatMap (op .comma :: partsOf ·) ++ if trailing then [op .comma] else []) ∧
      (bs = [] → trailing = atOp .comma ts)) (afterCommasUpTo stop item n ts) := by
  induction n generalizing ts with
  | zero => exact ensures_error _
  | succ n ih =>
      rw [Parse.afterCommasUpTo]
      unfold skipOp?
      split
      · rename_i hskip
        split at hskip
        · cases hskip
        · rename_i hat
          exact ensures_ok ⟨[], false, rfl, .refl ts, fun _ => (Bool.eq_false_iff.mpr hat).symm⟩
      · rename_i us hskip
        split at hskip
        · rename_i hat
          cases hskip
          have hcomma : Spans ts ts.tail [op .comma] := spans_skipOp? (if_pos hat)
          split
          · exact ensures_ok ⟨[], true, rfl, hcomma, fun _ => hat.symm⟩
          · refine (h ts.tail).bind fun first hfirst => ?_
            refine (ih first.2).bind fun more hmore => ?_
            obtain ⟨b, hb, hfirst⟩ := hfirst
            obtain ⟨bs, trailing, hbs, hmore, -⟩ := hmore
            refine ensures_ok ⟨b :: bs, trailing, by rw [List.map_cons, hb, hbs], ?_,
              fun hnil => by cases hnil⟩
            rw [List.flatMap_cons, List.append_assoc]
            exact (hcomma.append hfirst).append hmore
        · cases hskip

/-- Items after commas are taken after a first one as a list of items. If there are none, there is a
comma only if one comes next. -/
theorem TakesFor.afterCommas (h : TakesFor f partsOf item) (stop : List Token → Bool) {first : β}
    {ts us : List Token} (hfirst : Spans ts us (partsOf first)) :
    Ensures (fun r => ∃ bs trailing, bs.map f = r.1 ∧
      Spans ts r.2 (listed ((first :: bs).map partsOf) trailing) ∧
      (bs = [] → trailing = atOp .comma us ∧ (trailing = false → r.2 = us)))
      (afterCommas stop item us) := by
  refine (h.afterCommasUpTo stop _ us).imp fun r htaken => ?_
  obtain ⟨bs, trailing, hbs, hr, htrailing⟩ := htaken
  refine ⟨bs, trailing, hbs, ?_, ?_⟩
  · have heq : listed ((first :: bs).map partsOf) trailing = partsOf first ++
        (bs.flatMap (op .comma :: partsOf ·) ++ if trailing then [op .comma] else []) := by
      rw [List.map_cons, listed, List.flatMap_map]
    rw [heq]
    exact hfirst.append hr
  · intro hnil
    refine ⟨htrailing hnil, ?_⟩
    rintro rfl
    rw [hnil] at hr
    exact hr.eq.symm

end

theorem Takes.takesFor {item : Parse α} (h : Takes parts item) : TakesFor id parts item :=
  fun ts => (h ts).imp fun r hr => ⟨r.1, rfl, hr⟩

theorem Takes.afterCommas {item : Parse α} (h : Takes parts item) (stop : List Token → Bool)
    {first : α} {ts us : List Token} (hfirst : Spans ts us (parts first)) :
    Ensures (fun r => ∃ trailing, Spans ts r.2 (listed ((first :: r.1).map parts) trailing) ∧
      (r.1 = [] → trailing = atOp .comma us ∧ (trailing = false → r.2 = us)))
      (afterCommas stop item us) := by
  refine (h.takesFor.afterCommas stop hfirst).imp fun r ⟨bs, trailing, hbs, hr, hmore⟩ => ?_
  rw [List.map_id] at hbs
  exact hbs ▸ ⟨trailing, hr, hmore⟩

theorem Takes.afterOp {item : Parse α} (h : Takes parts item) (o : Op) :
    TakesIf (fun a => op o :: parts a) (afterOp o item) := by
  intro ts
  unfold Parse.afterOp
  split
  · exact ensures_ok nofun
  · rename_i us hskip
    refine (h us).bind fun r hr => ensures_ok ?_
    rintro _ ⟨⟩
    exact (spans_skipOp? hskip).append hr

theorem Takes.afterKeyword {item : Parse α} (h : Takes parts item) (word : String) :
    TakesIf (fun a => keyword word :: parts a) (afterKeyword word item) := by
  intro ts
  unfold Parse.afterKeyword
  split
  · exact ensures_ok nofun
  · rename_i us hskip
    refine (h us).bind fun r hr => ensures_ok ?_
    rintro _ ⟨⟩
    exact (spans_skipKeyword? hskip).append hr

end

theorem takes_name : Takes (fun n => [.token (.name n)]) name := by
  intro ts
  unfold name
  split
  · rename_i n hkind
    split
    · exact ensures_error _
    · exact ensures_ok (spans_current hkind nofun)
  · exact ensures_error _

/-- A reader of expressions that takes their texts. -/
abbrev TakesExpr (p : Parse Expr) : Prop := Takes (fun e => [.operand e]) p

theorem ensures_manyUpTo_foldl {β : Type} {next : ParseIf β} {f : Expr → β → Expr} {ts : List Token}
    (h : ∀ {e us}, Spans ts us [.operand e] →
      Ensures (fun found => ∀ r ∈ found, Spans ts r.2 [.operand (f e r.1)]) (next us))
    {first : Expr} {us : List Token} (hfirst : Spans ts us [.operand first]) (n : Nat) :
    Ensures (fun r => Spans ts r.2 [.operand (r.1.foldl f first)]) (manyUpTo next n us) := by
  induction n generalizing first us with
  | zero => exact ensures_error _
  | succ n ih =>
      rw [Parse.manyUpTo]
      refine (h hfirst).bind fun found hfound => ?_
      cases found with
      | none => exact ensures_ok hfirst
      | some r => exact (ih (hfound r rfl)).bind fun more hmore => ensures_ok hmore

theorem ensures_many_foldl {β : Type} {next : ParseIf β} {f : Expr → β → Expr} {ts : List Token}
    (h : ∀ {e us}, Spans ts us [.operand e] →
      Ensures (fun found => ∀ r ∈ found, Spans ts r.2 [.operand (f e r.1)]) (next us))
    {first : Expr} {us : List Token} (hfirst : Spans ts us [.operand first]) :
    Ensures (fun r => Spans ts r.2 [.operand (r.1.foldl f first)]) (many next us) :=
  ensures_manyUpTo_foldl h hfirst _

/-- One item is an operand, and several are a tuple, which stands on the given line. -/
theorem ensures_itemOrTuple {item : Parse Expr} (h : TakesExpr item) (line : Nat)
    (stop : List Token → Bool) (ts : List Token) :
    Ensures (fun r => Spans ts r.2 [.operand r.1] ∨ ∃ items trailing, r.1 = .tuple line items ∧
      items ≠ [] ∧ (items.length = 1 → trailing = true) ∧
      Spans ts r.2 (operands items trailing)) (itemOrTuple line stop item ts) := by
  unfold itemOrTuple
  refine (h ts).bind fun first hfirst => ?_
  dsimp only
  split
  · rename_i hcomma
    refine (h.afterCommas stop hfirst).bind fun rest ⟨trailing, hitems, hmore⟩ => ensures_ok ?_
    refine .inr ⟨first.1 :: rest.1, trailing, rfl, List.cons_ne_nil _ _, fun hone => ?_, hitems⟩
    have hnil : rest.1 = [] := by simpa using hone
    rw [(hmore hnil).1, hcomma]
  · exact ensures_ok (.inl hfirst)

theorem takes_itemOrTuple {item : Parse Expr} (h : TakesExpr item) (stop : List Token → Bool)
    (ts : List Token) : Ensures (fun r => Spans ts r.2 [.loose r.1])
      (itemOrTuple (current ts).line stop item ts) := by
  refine (ensures_itemOrTuple h _ stop ts).imp ?_
  rintro ⟨_, us⟩ (hone | ⟨items, trailing, rfl, hne, htrailing, hitems⟩)
  · exact hone.loose
  · exact hitems.bare (.tuple _ hne htrailing) rfl

namespace Grammar

/-- A grammar whose readers take the texts of what they read. -/
structure Takes (g : Grammar) : Prop where
  test : TakesExpr g.test
  disjunction : TakesExpr g.disjunction
  negation : TakesExpr g.negation
  operand : TakesExpr g.operand
  signed : TakesExpr g.signed

namespace Takes

variable {g : Grammar} (h : g.Takes)

include h

/-! ## Displays -/

theorem testOrStar : TakesExpr g.testOrStar := by
  intro ts
  unfold Grammar.testOrStar
  split
  · rename_i us hskip
    refine (h.operand us).bind fun value hvalue => ensures_ok ?_
    exact ((spans_skipOp? hskip).append hvalue).node (.starred _ _) rfl
  · exact h.test ts

theorem target : TakesExpr g.target := by
  intro ts
  unfold Grammar.target
  split
  · rename_i us hskip
    refine (h.operand us).bind fun value hvalue => ensures_ok ?_
    exact ((spans_skipOp? hskip).append hvalue).node (.starred _ _) rfl
  · exact h.operand ts

theorem testList (allowStar : Bool) :
    Parse.Takes (fun e => [.loose e]) (g.testList allowStar) := by
  intro ts
  unfold Grammar.testList
  refine takes_itemOrTuple ?_ _ ts
  cases allowStar with
  | true => exact h.testOrStar
  | false => exact h.test

theorem clause : Parse.Takes (fun c => c.parts.tail) g.clause := by
  intro ts
  unfold Grammar.clause
  refine (takes_itemOrTuple h.target _ ts).bind fun targets htargets => ?_
  refine (ensures_spans_expectKeyword "in" targets.2).bind fun us hin => ?_
  refine (h.disjunction us).bind fun iterable hiterable => ?_
  refine ((h.disjunction.afterKeyword "if").many iterable.2).bind fun conditions hconditions => ?_
  exact ensures_ok (((htargets.append hin).append hiterable).append hconditions)

theorem comprehension (kind : ComprehensionKind) {element : Expr} (value : Option Expr)
    (line : Nat) {ts us : List Token}
    (helement : Spans ts us
      (.operand element :: value.toList.flatMap fun e => [op .colon, .operand e])) :
    Ensures (fun r => ∃ clauses, r.1 = .comprehension line kind element value clauses ∧
      Spans ts r.2 (Expr.comprehensionParts element value clauses))
      (g.comprehension kind element value line us) := by
  unfold Grammar.comprehension
  have hclauses : TakesIf Clause.parts (afterKeyword "for" g.clause) := by
    intro ts
    refine (h.clause.afterKeyword "for" ts).imp fun found hfound r hr => ?_
    obtain ⟨⟨target, iterable, conditions⟩, us⟩ := r
    exact hfound _ hr
  refine (hclauses.many us).bind fun clauses hclauses => ensures_ok ⟨clauses.1, rfl, ?_⟩
  exact helement.append hclauses

theorem closedComprehension (kind : ComprehensionKind) {element : Expr} (value : Option Expr)
    {ts us vs : List Token} (hopening : Spans ts us [op kind.brackets.1])
    (helement : Spans us vs
      (.operand element :: value.toList.flatMap fun e => [op .colon, .operand e])) :
    Ensures (fun r => Spans ts r.2 [.operand r.1]) (do
      let (e, ts) ← g.comprehension kind element value (current ts).line vs
      let ts ← expectOp kind.brackets.2 ts
      return (e, ts)) := by
  refine (h.comprehension kind value _ helement).bind fun found hfound => ?_
  obtain ⟨clauses, heq, hfound⟩ := hfound
  refine (ensures_spans_expectOp kind.brackets.2 found.2).bind fun ws hclosing => ensures_ok ?_
  rw [heq]
  exact ((hopening.append hfound).append hclosing).node (.comprehension _ kind _ _ _) rfl

/-- The rest of a display is taken after its first item. -/
theorem sequenceRest {first : Expr} {ts us : List Token} (hfirst : Spans ts us [.operand first])
    (close : Op) : Ensures (fun r => ∃ trailing vs, Spans ts vs (operands r.1 trailing) ∧
      Spans vs r.2 [op close] ∧ r.1 ≠ [] ∧
      (r.1.length = 1 → trailing = false → vs = us)) (g.sequenceRest first close us) := by
  refine (h.testOrStar.afterCommas _ hfirst).bind fun rest ⟨trailing, hrest, hmore⟩ => ?_
  refine (ensures_spans_expectOp close rest.2).bind fun vs hvs => ensures_ok ?_
  refine ⟨trailing, rest.2, hrest, hvs, List.cons_ne_nil _ _, fun hone => (hmore ?_).2⟩
  simpa using hone

theorem parenthesized {ts us : List Token} (hopening : Spans ts us [op .leftParen]) :
    Ensures (fun r => Spans ts r.2 [.operand r.1]) (g.parenthesized (current ts).line us) := by
  unfold Grammar.parenthesized
  split
  · rename_i vs hskip
    exact ensures_ok ((hopening.append (spans_skipOp? hskip)).node
      (@Expr.Layout.tuple _ [] false nofun) rfl)
  · refine (h.testOrStar us).bind fun first hfirst => ?_
    dsimp only
    split
    · exact h.closedComprehension .generator none hopening hfirst
    · split
      · rename_i vs hskip
        exact ensures_ok (hopening.parens hfirst (spans_skipOp? hskip))
      · rename_i hnone
        refine (h.sequenceRest hfirst .rightParen).bind
          fun items ⟨trailing, vs, hitems, hclosing, hne, htrailing⟩ => ensures_ok ?_
        refine ((hopening.append hitems).append hclosing).node (.tuple _ fun hone => ?_) rfl
        cases trailing with
        | true => rfl
        | false =>
            rw [htrailing hone rfl] at hclosing
            obtain ⟨t, heq, ht⟩ := hclosing.exists_token
            rw [heq, skipOp?,
              if_pos (show atOp .rightParen (t :: _) from beq_iff_eq.mpr ht)] at hnone
            cases hnone

theorem bracketed {ts us : List Token} (hopening : Spans ts us [op .leftBracket]) :
    Ensures (fun r => Spans ts r.2 [.operand r.1]) (g.bracketed (current ts).line us) := by
  unfold Grammar.bracketed
  split
  · rename_i vs hskip
    exact ensures_ok ((hopening.append (spans_skipOp? hskip)).node (.list _ [] false) rfl)
  · refine (h.testOrStar us).bind fun first hfirst => ?_
    dsimp only
    split
    · exact h.closedComprehension .list none hopening hfirst
    · refine (h.sequenceRest hfirst .rightBracket).bind
        fun items ⟨trailing, vs, hitems, hclosing, _⟩ => ensures_ok ?_
      exact ((hopening.append hitems).append hclosing).node (.list _ _ trailing) rfl

theorem dictItem : Parse.Takes DictItem.parts g.dictItem := by
  intro ts
  unfold Grammar.dictItem
  split
  · rename_i us hskip
    refine (h.operand us).bind fun value hvalue => ensures_ok ?_
    exact (spans_skipOp? hskip).append hvalue
  · refine (h.test ts).bind fun key hkey => ?_
    refine (ensures_spans_expectOp .colon key.2).bind fun us hcolon => ?_
    refine (h.test us).bind fun value hvalue => ensures_ok ?_
    exact (hkey.append hcolon).append hvalue

theorem dictRest (first : DictItem) {ts us vs : List Token}
    (hopening : Spans ts us [op .leftBrace]) (hfirst : Spans us vs first.parts) :
    Ensures (fun r => Spans ts r.2 [.operand r.1]) (g.dictRest (current ts).line first vs) := by
  unfold Grammar.dictRest
  refine (h.dictItem.afterCommas _ hfirst).bind fun rest ⟨trailing, hrest, _⟩ => ?_
  refine (ensures_spans_expectOp .rightBrace rest.2).bind fun ws hclosing => ensures_ok ?_
  exact ((hopening.append hrest).append hclosing).node (.dict _ (first :: rest.1) trailing) rfl

theorem dictAfterKey {key : Expr} {ts us vs ws : List Token}
    (hopening : Spans ts us [op .leftBrace]) (hkey : Spans us vs [.operand key])
    (hcolon : Spans vs ws [op .colon]) :
    Ensures (fun r => Spans ts r.2 [.operand r.1]) (g.dictAfterKey (current ts).line key ws) := by
  unfold Grammar.dictAfterKey
  refine (h.test ws).bind fun value hvalue => ?_
  have hentry := (hkey.append hcolon).append hvalue
  dsimp only
  split
  · exact h.closedComprehension .dict (some value.1) hopening hentry
  · exact h.dictRest (.entry key value.1) hopening hentry

theorem braced {ts us : List Token} (hopening : Spans ts us [op .leftBrace]) :
    Ensures (fun r => Spans ts r.2 [.operand r.1]) (g.braced (current ts).line us) := by
  unfold Grammar.braced
  split
  · rename_i vs hskip
    exact ensures_ok ((hopening.append (spans_skipOp? hskip)).node (.dict _ [] false) rfl)
  · split
    · rename_i vs hskip
      refine (h.operand vs).bind fun value hvalue => ?_
      exact h.dictRest (.unpack value.1) hopening ((spans_skipOp? hskip).append hvalue)
    · refine (h.testOrStar us).bind fun first hfirst => ?_
      dsimp only
      split
      · rename_i vs hskip
        exact h.dictAfterKey hopening hfirst (spans_skipOp? hskip)
      · split
        · exact h.closedComprehension .set none hopening hfirst
        · refine (h.sequenceRest hfirst .rightBrace).bind
            fun items ⟨trailing, vs, hitems, hclosing, hne, _⟩ => ensures_ok ?_
          exact ((hopening.append hitems).append hclosing).node (.set _ trailing hne) rfl

end Takes

/-! ## Atoms and what follows them -/

theorem spans_literals (ts : List Token) : Spans ts (literals ts).2
    ((literals ts).1.map fun l => .token (.literal l.1 l.2)) := by
  induction ts with
  | nil => exact .refl []
  | cons t ts ih =>
      unfold literals
      split
      · rename_i kind text hkind
        have hfirst : Spans (t :: ts) ts [.token (.literal kind text)] := spans_current hkind nofun
        exact hfirst.append ih
      · exact .refl _

theorem literals_ne_nil {ts : List Token} {kind : LiteralKind} {text : String}
    (h : (current ts).kind = .literal kind text) : (literals ts).1 ≠ [] := by
  cases ts with
  | nil => cases h
  | cons t ts =>
      have hkind : t.kind = .literal kind text := h
      unfold literals
      rw [hkind]
      exact List.cons_ne_nil _ _

theorem line_joinLiterals (line : Nat) (parts : List (LiteralKind × String)) :
    Ensures (fun e => e.line = line ∧ ∀ text kind rest,
      e.lineIn text (.token kind :: rest) = (current text).line) (joinLiterals line parts) := by
  unfold joinLiterals
  dsimp only
  split
  · split
    · exact ensures_ok ⟨rfl, fun _ _ _ => rfl⟩
    · exact ensures_error _
  · split
    · exact ensures_ok ⟨rfl, fun _ _ _ => rfl⟩
    · exact ensures_ok ⟨rfl, fun _ _ _ => rfl⟩

theorem spans_assign {ts us : List Token} {n : String} (h : atKeywordArgument ts = true)
    (hname : name ts = .ok (n, us)) : Spans us us.tail [op .assign] := by
  have htail : us = ts.tail := by
    unfold name at hname
    split at hname
    · split at hname
      · cases hname
      · cases hname
        rfl
    · cases hname
  unfold atKeywordArgument at h
  split at h
  · subst htail
    exact spans_current rfl nofun
  · cases h

namespace Takes

variable {g : Grammar} (h : g.Takes)

include h

theorem atom : TakesExpr g.atom := by
  intro ts
  unfold Grammar.atom
  dsimp only
  split
  · rename_i n hkind
    split
    · exact ensures_error _
    · rename_i hkeyword
      have hname : keywords.contains n = false := Bool.eq_false_iff.mpr hkeyword
      exact ensures_ok ((spans_current hkind nofun).node (.name _ hname) rfl)
  · rename_i text hkind
    exact ensures_ok ((spans_current hkind nofun).node (.number _ text) rfl)
  · rename_i hkind
    intro r hr
    obtain ⟨e, he, hr⟩ := bind_eq_ok.mp hr
    cases hr
    obtain ⟨hline, hfirst⟩ := line_joinLiterals _ _ e he
    refine (spans_literals ts).node (.literals (literals_ne_nil hkind) he) ?_
    obtain ⟨l, rest, heq⟩ := List.exists_cons_of_ne_nil (literals_ne_nil hkind)
    rw [hline, heq, List.map_cons, hfirst]
  · rename_i hkind
    exact h.parenthesized (spans_current hkind nofun)
  · rename_i hkind
    exact h.bracketed (spans_current hkind nofun)
  · rename_i hkind
    exact h.braced (spans_current hkind nofun)
  · rename_i hkind
    exact ensures_ok ((spans_current hkind nofun).node (.ellipsis _) rfl)
  · exact ensures_error _

theorem argument : Parse.Takes Argument.parts g.argument := by
  intro ts
  unfold Grammar.argument
  split
  · rename_i us hskip
    refine (h.test us).bind fun value hvalue => ensures_ok ?_
    exact (spans_skipOp? hskip).append hvalue
  · split
    · rename_i us hskip
      refine (h.test us).bind fun value hvalue => ensures_ok ?_
      exact (spans_skipOp? hskip).append hvalue
    · split
      · rename_i hat
        intro r hr
        obtain ⟨⟨n, us⟩, hname, hr⟩ := bind_eq_ok.mp hr
        obtain ⟨value, hvalue, hr⟩ := bind_eq_ok.mp hr
        cases hr
        exact (takes_name ts _ hname).append ((spans_assign hat hname).append (h.test _ _ hvalue))
      · refine (h.test ts).bind fun value hvalue => ?_
        dsimp only
        split
        · refine (h.comprehension .generator none _ hvalue).bind
            fun found ⟨clauses, heq, hfound⟩ => ensures_ok ?_
          show Spans ts found.2 [.loose found.1]
          rw [heq]
          exact hfound.bare (.generator _ _ _) rfl
        · exact ensures_ok hvalue.loose

theorem arguments {ts us : List Token} (hopening : Spans ts us [op .leftParen]) :
    Ensures (fun r => ∃ trailing, Spans ts r.2
      (enclosed .leftParen (listed (r.1.map Argument.parts) trailing) .rightParen))
      (g.arguments us) := by
  unfold Grammar.arguments
  split
  · rename_i vs hskip
    exact ensures_ok ⟨false, hopening.append (spans_skipOp? hskip)⟩
  · refine (h.argument us).bind fun first hfirst => ?_
    refine (h.argument.afterCommas _ hfirst).bind fun rest ⟨trailing, hrest, _⟩ => ?_
    refine (ensures_spans_expectOp .rightParen rest.2).bind fun vs hvs => ensures_ok ?_
    exact ⟨trailing, (hopening.append hrest).append hvs⟩

theorem slicePart : Parse.Takes (fun e => e.toList.map .operand) g.slicePart := by
  intro ts
  unfold Grammar.slicePart
  split
  · exact ensures_ok (.refl ts)
  · exact (h.test ts).bind fun e he => ensures_ok he

theorem sliceFrom (lower : Option Expr) {ts us : List Token}
    (hlower : Spans ts us (lower.toList.map .operand)) :
    Ensures (fun r => Spans ts r.2 [.operand r.1]) (g.sliceFrom (current ts).line lower us) := by
  unfold Grammar.sliceFrom
  refine (ensures_spans_expectOp .colon us).bind fun vs hcolon => ?_
  refine (h.slicePart vs).bind fun upper hupper => ?_
  dsimp only
  split
  · rename_i ws hskip
    refine (h.slicePart ws).bind fun step hstep => ensures_ok ?_
    exact (hlower.append (hcolon.append (hupper.append ((spans_skipOp? hskip).append hstep)))).node
      (.steppedSlice _ lower upper.1 step.1) rfl
  · exact ensures_ok ((hlower.append (hcolon.append hupper)).node (.slice _ lower upper.1) rfl)

theorem subscriptItem : TakesExpr g.subscriptItem := by
  intro ts
  unfold Grammar.subscriptItem
  split
  · exact h.sliceFrom none (.refl ts)
  · refine (h.test ts).bind fun lower hlower => ?_
    dsimp only
    split
    · exact h.sliceFrom (some lower.1) hlower
    · exact ensures_ok hlower

/-- What follows a node makes a node of it. -/
theorem trailer {e : Expr} {ts us : List Token} (he : Spans ts us [.operand e]) :
    Ensures (fun found => ∀ r ∈ found, Spans ts r.2 [.operand (applyTrailer e r.1)])
      (g.trailer us) := by
  unfold Grammar.trailer
  split
  · rename_i hkind
    refine (h.arguments (spans_current hkind nofun)).bind fun r ⟨trailing, hr⟩ => ensures_ok ?_
    rintro _ ⟨⟩
    exact (he.append hr).node (.call _ e r.1 trailing) rfl
  · rename_i hkind
    have hopening : Spans us us.tail [op .leftBracket] := spans_current hkind nofun
    refine (ensures_itemOrTuple h.subscriptItem _ _ us.tail).bind fun found hfound => ?_
    refine (ensures_spans_expectOp .rightBracket found.2).bind fun vs hclosing => ensures_ok ?_
    rintro _ ⟨⟩
    have hindex : Spans us vs [.index found.1] := by
      rcases hfound with hone | ⟨items, trailing, heq, hne, htrailing, hitems⟩
      · exact hopening.index hone hclosing
      · rw [heq]
        exact hopening.indices hne htrailing hitems hclosing
    exact (he.append hindex).node (.subscript _ e found.1) rfl
  · rename_i hkind
    refine (takes_name us.tail).bind fun r hr => ensures_ok ?_
    rintro _ ⟨⟩
    have hdot : Spans us us.tail [op .dot] := spans_current hkind nofun
    exact (he.append (hdot.append hr)).node (.field _ e r.1) rfl
  · exact ensures_ok nofun

theorem primary : TakesExpr g.primary := by
  intro ts
  unfold Grammar.primary
  refine (h.atom ts).bind fun first hfirst => ?_
  exact (ensures_many_foldl (fun he => h.trailer he) hfirst).bind fun trailers htrailers =>
    ensures_ok htrailers

/-! ## Operators -/

omit h in
theorem spans_sign? {ts : List Token} {o : UnaryOp} (h : sign? (current ts).kind = some o) :
    Spans ts ts.tail [.token o.token] := by
  unfold sign? at h
  split at h
  case h_4 => cases h
  all_goals
    rename_i hkind
    cases h
    exact spans_current hkind nofun

theorem power : TakesExpr g.power := by
  intro ts
  unfold Grammar.power
  refine (h.primary ts).bind fun base hbase => ?_
  dsimp only
  split
  · rename_i us hskip
    refine (h.signed us).bind fun exponent hexponent => ensures_ok ?_
    exact (hbase.append ((spans_skipOp? hskip).append hexponent)).node
      (.binary _ .power base.1 exponent.1) rfl
  · exact ensures_ok hbase

theorem signedOperand : TakesExpr g.signedOperand := by
  intro ts
  unfold Grammar.signedOperand
  split
  · rename_i o hsign
    refine (h.signed ts.tail).bind fun operand hoperand => ensures_ok ?_
    exact ((spans_sign? hsign).append hoperand).node (.unary _ o operand.1) rfl
  · exact h.power ts

end Takes

/-- The operators of a table are written as their tokens. -/
def Tokens (table : List (Op × BinaryOp)) : Prop := ∀ o ∈ table, o.2.token = o.1

theorem tokens_levels : ∀ table ∈ levels, Tokens table := by
  unfold Tokens
  decide

theorem spans_operator? {table : List (Op × BinaryOp)} (htable : Tokens table) {ts : List Token}
    {o : BinaryOp} (ho : operator? table (current ts).kind = some o) :
    Spans ts ts.tail [op o.token] := by
  unfold operator? at ho
  split at ho
  · rename_i symbol hkind
    obtain ⟨before, after, rfl, -⟩ := List.lookup_eq_some_iff.mp ho
    rw [htable _ List.mem_append_cons_self]
    exact spans_current hkind nofun
  · cases ho

section

variable {operand : Parse Expr} (h : TakesExpr operand)

include h

/-- An operator with an operand makes a node of what stands before it. -/
theorem ensures_operatorAndOperand {table : List (Op × BinaryOp)} (htable : Tokens table)
    {left : Expr} {ts us : List Token} (hleft : Spans ts us [.operand left]) :
    Ensures (fun found => ∀ r ∈ found,
      Spans ts r.2 [.operand (.binary left.line r.1.1 left r.1.2)])
      (operatorAndOperand table operand us) := by
  unfold operatorAndOperand
  split
  · exact ensures_ok nofun
  · rename_i o ho
    refine (h us.tail).bind fun right hright => ensures_ok ?_
    rintro _ ⟨⟩
    exact (hleft.append ((spans_operator? htable ho).append hright)).node
      (.binary _ o left right.1) rfl

theorem takes_binaryChain {tables : List (List (Op × BinaryOp))}
    (htables : ∀ table ∈ tables, Tokens table) : TakesExpr (binaryChain operand tables) := by
  induction tables with
  | nil => exact h
  | cons table tighter ih =>
      obtain ⟨htable, htighter⟩ := List.forall_mem_cons.mp htables
      intro ts
      unfold binaryChain
      refine (ih htighter ts).bind fun first hfirst => ?_
      exact (ensures_many_foldl (fun hleft => ensures_operatorAndOperand (ih htighter) htable hleft)
        hfirst).bind fun rest hrest => ensures_ok hrest

theorem takes_joined (o : BoolOp) : TakesExpr (joined o operand) := by
  intro ts
  unfold joined
  refine (h ts).bind fun first hfirst => ?_
  refine ((h.afterKeyword o.keyword).many first.2).bind fun rest hrest => ?_
  dsimp only
  split
  · rename_i hempty
    rw [List.isEmpty_iff.mp hempty] at hrest
    rw [← hrest.eq]
    exact ensures_ok hfirst
  · exact ensures_ok ((hfirst.append hrest).node (.boolean _ o first.1 rest.1) rfl)

end

theorem spans_comparison? {ts us : List Token} {c : Comparison}
    (h : comparison? ts = some (c, us)) : Spans ts us (c.tokens.map .token) := by
  unfold comparison? at h
  split at h
  case h_7 =>
    rename_i word hkind
    have hword : Spans ts ts.tail [keyword word] := spans_current hkind nofun
    unfold keywordComparison? at h
    split at h
    · rename_i heq
      subst heq
      cases h
      exact hword
    · split at h
      · rename_i heq
        subst heq
        obtain ⟨vs, hskip, hvs⟩ := Option.map_eq_some_iff.mp h
        cases hvs
        exact hword.append (spans_skipKeyword? hskip)
      · split at h
        · rename_i heq
          subst heq
          split at h
          · rename_i vs hskip
            cases h
            exact hword.append (spans_skipKeyword? hskip)
          · cases h
            exact hword
        · cases h
  case h_8 => cases h
  all_goals
    rename_i hkind
    cases h
    exact spans_current hkind nofun

namespace Takes

variable {g : Grammar} (h : g.Takes)

include h

theorem comparand : TakesExpr g.comparand :=
  takes_binaryChain h.signedOperand tokens_levels

theorem comparisonAndOperand :
    TakesIf (fun c => c.1.tokens.map .token ++ [.operand c.2]) g.comparisonAndOperand := by
  intro ts
  unfold Grammar.comparisonAndOperand
  split
  · exact ensures_ok nofun
  · rename_i c us hread
    refine (h.comparand us).bind fun right hright => ensures_ok ?_
    rintro _ ⟨⟩
    exact (spans_comparison? hread).append hright

theorem comparison : TakesExpr g.comparison := by
  intro ts
  unfold Grammar.comparison
  refine (h.comparand ts).bind fun left hleft => ?_
  refine (h.comparisonAndOperand.many left.2).bind fun comparisons hcomparisons => ?_
  dsimp only
  split
  · rename_i hempty
    rw [List.isEmpty_iff.mp hempty] at hcomparisons
    rw [← hcomparisons.eq]
    exact ensures_ok hleft
  · exact ensures_ok ((hleft.append hcomparisons).node (.compare _ left.1 comparisons.1) rfl)

theorem negatedComparison : TakesExpr g.negatedComparison := by
  intro ts
  unfold Grammar.negatedComparison
  split
  · rename_i us hskip
    refine (h.negation us).bind fun operand hoperand => ensures_ok ?_
    exact ((spans_skipKeyword? hskip).append hoperand).node (.unary _ .not operand.1) rfl
  · exact h.comparison ts

theorem conditions : TakesExpr g.conditions :=
  takes_joined (takes_joined h.negatedComparison .and) .or

/-! ## Whole expressions -/

theorem parameter : TakesFor Parameter.name Parameter.parts g.parameter := by
  intro ts
  unfold Grammar.parameter
  obtain ⟨star, hstar⟩ : ∃ star : Option Op,
      Spans ts ((skipOp? .star ts <|> skipOp? .doubleStar ts).getD ts) (star.toList.map op) := by
    cases hone : skipOp? .star ts with
    | some us => exact ⟨some .star, spans_skipOp? hone⟩
    | none =>
        cases htwo : skipOp? .doubleStar ts with
        | some us => exact ⟨some .doubleStar, spans_skipOp? htwo⟩
        | none => exact ⟨none, .refl ts⟩
  refine (takes_name _).bind fun n hn => ?_
  dsimp only
  split
  · rename_i us hskip
    refine (h.test us).bind fun value hvalue => ensures_ok ⟨⟨star, n.1, some value.1⟩, rfl, ?_⟩
    exact hstar.append (hn.append ((spans_skipOp? hskip).append hvalue))
  · exact ensures_ok ⟨⟨star, n.1, none⟩, rfl, hstar.append hn⟩

theorem parameters : TakesFor (List.map Parameter.name ∘ Prod.fst)
    (fun written : List Parameter × Bool => listed (written.1.map Parameter.parts) written.2)
    g.parameters := by
  intro ts
  unfold Grammar.parameters
  split
  · exact ensures_ok ⟨⟨[], false⟩, rfl, .refl ts⟩
  · refine (h.parameter ts).bind fun first ⟨p, hp, hfirst⟩ => ?_
    refine (h.parameter.afterCommas _ hfirst).bind fun rest ⟨ps, trailing, hps, hrest, _⟩ => ?_
    exact ensures_ok ⟨⟨p :: ps, trailing⟩, by rw [← hp, ← hps]; rfl, hrest⟩

theorem lambda {ts us : List Token} (hopening : Spans ts us [keyword "lambda"]) :
    Ensures (fun r => Spans ts r.2 [.operand r.1]) (g.lambda (current ts).line us) := by
  unfold Grammar.lambda
  refine (h.parameters us).bind fun r ⟨⟨ps, trailing⟩, hnames, hps⟩ => ?_
  refine (ensures_spans_expectOp .colon r.2).bind fun vs hcolon => ?_
  refine (h.test vs).bind fun body hbody => ensures_ok ?_
  rw [← hnames]
  exact (hopening.append (hps.append (hcolon.append hbody))).node (.lambda _ ps trailing body.1) rfl

theorem conditionalRest {body : Expr} {ts us vs : List Token} (hbody : Spans ts us [.operand body])
    (hif : Spans us vs [keyword "if"]) :
    Ensures (fun r => Spans ts r.2 [.operand r.1]) (g.conditionalRest body vs) := by
  unfold Grammar.conditionalRest
  refine (h.conditions vs).bind fun test htest => ?_
  refine (ensures_spans_expectKeyword "else" test.2).bind fun ws helse => ?_
  refine (h.test ws).bind fun otherwise hotherwise => ensures_ok ?_
  exact (hbody.append (hif.append (htest.append (helse.append hotherwise)))).node
    (.conditional _ test.1 body otherwise.1) rfl

theorem expression : TakesExpr g.expression := by
  intro ts
  unfold Grammar.expression
  split
  · rename_i us hskip
    exact h.lambda (spans_skipKeyword? hskip)
  · refine (h.conditions ts).bind fun body hbody => ?_
    dsimp only
    split
    · rename_i us hskip
      exact h.conditionalRest hbody (spans_skipKeyword? hskip)
    · split
      · rename_i us hskip
        refine (h.test us).bind fun value hvalue => ensures_ok ?_
        exact (hbody.append ((spans_skipOp? hskip).append hvalue)).node
          (.named _ body.1 value.1) rfl
      · exact ensures_ok hbody

theorem deeper : g.deeper.Takes :=
  ⟨h.expression, h.conditions, h.negatedComparison, h.comparand, h.signedOperand⟩

end Takes

theorem takes_grammar (n : Nat) : (grammar n).Takes := by
  induction n with
  | zero => exact ⟨fun _ => ensures_error _, fun _ => ensures_error _, fun _ => ensures_error _,
      fun _ => ensures_error _, fun _ => ensures_error _⟩
  | succ n ih => exact ih.deeper

end Grammar

end Parse

/-- The tokens that denote an expression are its text, with ends of lines after it. -/
theorem Expr.spans_of_ofTokens {ts : List Token} {e : Expr} (h : Expr.ofTokens ts = .ok e) :
    ∃ rest, Parse.Spans ts rest [.loose e] ∧
      (Parse.current (Parse.skipNewlines rest)).kind = .endOfText := by
  obtain ⟨⟨e', rest⟩, hread, hresult⟩ := bind_eq_ok.mp h
  have hspans := (Parse.Grammar.takes_grammar _).testList false ts _ hread
  dsimp only at hresult
  split at hresult
  · rename_i hend
    cases hresult
    exact ⟨rest, hspans, hend⟩
  · cases hresult

end DepsManifest
