import DepsManifest.Proofs.Expr.Lines
import DepsManifest.Statement.Parser
import Mathlib.Data.List.Basic
/-! # The lines of statements

The tokens of a text that is read are the text of the expression, or those of the statements one
after another, and the text of a statement or a node gives its line (`Token.standsIn_of_ofText`):

  * a statement stands on the line of its first token;
  * a node stands on the line of the first token of its text, or of one before which only opening
    parentheses stand in it;
  * all that occurs in an expression or in a statement has its own text among the tokens.

The second point is where a node may stand below the beginning of its text. The sum `(` *break*
`'a') + 'b'` stands on the second line, with its first operand, though its text begins on the first
(`Expr.HasText.line_ne_parenthesized`).

## The way of the proof

`Statement.Layout` says what the text of a statement is made of, as `Expr.Layout` does for nodes,
and `FitsBody` how the texts of statements stand one after another, with ends of lines and
semicolons between them. One lemma for each reader of statements says that it takes such a text; the
texts of expressions come from the grammar, in one piece. Of a statement that is kept by its keyword
the tokens after the keyword are not looked at, but for where they end.
-/
namespace DepsManifest

open TextPart

/-! ## What statements are made of -/

namespace Statement

def operands : Statement → List Expr
  | assign _ targets value => targets ++ [value]
  | augmented _ target _ value => [target, value]
  | annotated _ target typeHint value => target :: typeHint :: value.toList
  | expression _ value => [value]
  | simple .. | compound .. => []

/-- What the text of a statement is made of. Of a statement that is kept by its keyword, the tokens
after the keyword are not looked at, but for where they end if the statement has no block. -/
inductive Layout : Statement → List TextPart → Prop
  | assign (line : Nat) (first : Expr) (more : List Expr) (value : Expr) :
      Layout (.assign line (first :: more) value)
        (.loose first :: (more ++ [value]).flatMap fun e => [op .assign, .loose e])
  | augmented (line : Nat) (target value : Expr) {kind : TokenKind} {op : BinaryOp} :
      Parse.augmentedOp? kind = some op →
      Layout (.augmented line target op value) [.loose target, .token kind, .loose value]
  | annotated (line : Nat) (target typeHint : Expr) (value : Option Expr) :
      Layout (.annotated line target typeHint value)
        (.loose target :: op .colon :: .operand typeHint ::
          value.toList.flatMap fun e => [op .assign, .loose e])
  | expression (line : Nat) (value : Expr) : Layout (.expression line value) [.loose value]
  | simple (line : Nat) {first : TokenKind} {keyword : String} {rest : List TokenKind} :
      Parse.simpleKeyword? first = some keyword →
      (∀ kind ∈ rest, kind ≠ .newline ∧ kind ≠ .endOfText ∧ kind ≠ .op .semicolon) →
      Layout (.simple line keyword) ((first :: rest).map .token)
  | compound (line : Nat) {first : TokenKind} {keyword : String} (rest : List TokenKind) :
      Parse.compoundKeyword? first = some keyword →
      Layout (.compound line keyword) ((first :: rest).map .token)

/-- The tokens are the text of a statement, which stands on the line of the first of them. -/
def HasText (s : Statement) (text : List Token) : Prop :=
  ∃ parts, s.Layout parts ∧ Fits text parts ∧ s.line = (Parse.current text).line

/-- A part of a source is the text of a statement. -/
def StandsIn (s : Statement) (source : List Token) : Prop :=
  ∃ text, text <:+: source ∧ s.HasText text

theorem Layout.ne_nil {s : Statement} {parts : List TextPart} (h : s.Layout parts) :
    parts ≠ [] := by
  cases h <;> exact List.cons_ne_nil _ _

theorem Layout.mem_nodes {s : Statement} {parts : List TextPart} (h : s.Layout parts) {e : Expr}
    (he : e ∈ s.operands) : e ∈ nodes parts := by
  cases h with
  | assign _ first more value =>
      have hmem : e = first ∨ e ∈ more ++ [value] := List.mem_cons.mp he
      refine TextPart.mem_nodes (p := .loose e) ?_ rfl
      rcases hmem with rfl | hmem
      · exact List.mem_cons_self
      · refine List.mem_cons_of_mem _ (List.mem_flatMap.mpr ⟨e, hmem, ?_⟩)
        exact List.mem_cons_of_mem _ List.mem_cons_self
  | annotated _ _ _ value => cases value <;> exact he
  | augmented => exact he
  | expression => exact he
  | simple => cases he
  | compound => cases he

/-- The expressions of a statement that stands in a source stand in it as well. -/
theorem StandsIn.operand {s : Statement} {source : List Token} (h : s.StandsIn source) {e : Expr}
    (he : e ∈ s.operands) : e.StandsIn source := by
  obtain ⟨text, hwithin, parts, hlayout, hfits, -⟩ := h
  exact (hfits.standsIn (hlayout.mem_nodes he)).mono hwithin

end Statement

/-- The tokens are the texts of statements one after another, with ends of lines and semicolons
between them, up to the end of the text. -/
inductive FitsBody : List Token → List Statement → Prop
  | done {ts : List Token} : (Parse.current ts).kind = .endOfText → FitsBody ts []
  | separator {t : Token} {ts : List Token} {body : List Statement} :
      t.kind = .newline ∨ t.kind = .op .semicolon → FitsBody ts body → FitsBody (t :: ts) body
  | statement {s : Statement} {text ts : List Token} {body : List Statement} : s.HasText text →
      FitsBody ts body → FitsBody (text ++ ts) (s :: body)

theorem FitsBody.standsIn {ts : List Token} {body : List Statement} (h : FitsBody ts body)
    {s : Statement} (hs : s ∈ body) : s.StandsIn ts := by
  induction h with
  | done => cases hs
  | @separator t ts _ _ _ ih =>
      obtain ⟨text, hwithin, htext⟩ := ih hs
      exact ⟨text, hwithin.trans (List.suffix_cons t ts).isInfix, htext⟩
  | @statement _ first ts _ hfirst _ ih =>
      rcases List.mem_cons.mp hs with rfl | hs
      · exact ⟨first, (List.prefix_append first ts).isInfix, hfirst⟩
      · obtain ⟨text, hwithin, htext⟩ := ih hs
        exact ⟨text, hwithin.trans (List.suffix_append first ts).isInfix, htext⟩

namespace Parse

/-! ## Reading statements -/

/-- The tokens that were taken are the text of a statement. -/
def StatementSpans (line : Nat) (ts : List Token) (r : Statement × List Token) : Prop :=
  ∃ parts, r.1.Layout parts ∧ r.1.line = line ∧ Spans ts r.2 parts

theorem StatementSpans.hasText {ts : List Token} {r : Statement × List Token}
    (h : StatementSpans (current ts).line ts r) : ∃ text, ts = text ++ r.2 ∧ r.1.HasText text := by
  obtain ⟨parts, hlayout, hline, text, rfl, hfits⟩ := h
  refine ⟨text, rfl, parts, hlayout, hfits, ?_⟩
  obtain ⟨t, rest, rfl⟩ := List.exists_cons_of_ne_nil (hfits.ne_nil hlayout.ne_nil)
  exact hline

theorem fits_tokens (us : List Token) : Fits us ((us.map (·.kind)).map .token) := by
  induction us with
  | nil => exact .nil
  | cons u us ih => exact .token ih

theorem spans_tokens {ts taken us : List Token} {kind : TokenKind} (h : (current ts).kind = kind)
    (hend : kind ≠ .endOfText) (htail : ts.tail = taken ++ us) :
    Spans ts us ((kind :: taken.map (·.kind)).map .token) :=
  (spans_current h hend).append ⟨taken, htail, fits_tokens taken⟩

theorem kind_ne_endOfText {α : Type} {f : TokenKind → Option α} (hf : f .endOfText = none)
    {kind : TokenKind} {a : α} (h : f kind = some a) : kind ≠ .endOfText := by
  rintro rfl
  cases hf.symm.trans h

theorem afterBlock_suffix (column : Nat) (ts : List Token) : afterBlock column ts <:+ ts := by
  induction ts with
  | nil => exact List.suffix_refl _
  | cons t ts ih =>
      have hrest : ts <:+ t :: ts := List.suffix_cons t ts
      unfold afterBlock
      split
      · exact List.suffix_refl _
      · split
        · split
          · exact ih.trans hrest
          · exact hrest
        · exact ih.trans hrest

theorem not_ends_of_mem_takeWhile {ts : List Token} {kind : TokenKind}
    (h : kind ∈ (ts.takeWhile fun t => !endsStatement t).map (·.kind)) :
    kind ≠ .newline ∧ kind ≠ .endOfText ∧ kind ≠ .op .semicolon := by
  obtain ⟨t, ht, rfl⟩ := List.mem_map.mp h
  have hends := List.all_eq_true.mp List.all_takeWhile t ht
  simpa [endsStatement, and_assoc] using hends

section

variable {g : Grammar} (h : g.Takes)

include h

theorem ensures_statementAfter (line : Nat) {first : Expr} {ts us : List Token}
    (hfirst : Spans ts us [.loose first]) :
    Ensures (StatementSpans line ts) (statementAfter g line first us) := by
  unfold statementAfter
  refine (((h.testList true).afterOp .assign).many us).bind fun values hvalues => ?_
  dsimp only
  split
  · rename_i value hlast
    have heq : values.1 = values.1.dropLast ++ [value] :=
      (List.dropLast_append_getLast? _ hlast).symm
    rw [heq] at hvalues
    exact ensures_ok ⟨_, .assign line first _ value, rfl, hfirst.append hvalues⟩
  · rename_i hnone
    rw [List.getLast?_eq_none_iff.mp hnone] at hvalues
    rw [hvalues.eq] at hfirst
    split
    · rename_i op hop
      refine (h.testList true values.2.tail).bind fun value hvalue => ensures_ok ?_
      have hsign := spans_current rfl (kind_ne_endOfText rfl hop)
      exact ⟨_, .augmented line first value.1 hop, rfl, hfirst.append (hsign.append hvalue)⟩
    · split
      · exact ensures_ok ⟨_, .expression line first, rfl, hfirst⟩
      · rename_i vs hskip
        refine (h.test vs).bind fun typeHint hhint => ?_
        have hboth := hfirst.append ((spans_skipOp? hskip).append hhint)
        split
        · exact ensures_ok ⟨_, .annotated line first typeHint.1 none, rfl, hboth⟩
        · rename_i ws hskip'
          refine (h.testList true ws).bind fun value hvalue => ensures_ok ?_
          exact ⟨_, .annotated line first typeHint.1 (some value.1), rfl,
            hboth.append ((spans_skipOp? hskip').append hvalue)⟩

theorem ensures_simpleStatement (ts : List Token) :
    Ensures (StatementSpans (current ts).line ts) (simpleStatement g ts) := by
  unfold simpleStatement
  split
  · rename_i keyword hkeyword
    have hspans := spans_tokens rfl (kind_ne_endOfText rfl hkeyword)
      (List.takeWhile_append_dropWhile (p := fun t => !endsStatement t)).symm
    exact ensures_ok ⟨_, .simple _ hkeyword fun _ => not_ends_of_mem_takeWhile, rfl, hspans⟩
  · exact (h.testList true ts).bind fun first hfirst => ensures_statementAfter h _ hfirst

theorem ensures_lineStatements (n : Nat) (ts : List Token) :
    Ensures (fun r => ∀ body, FitsBody r.2 body → FitsBody ts (r.1 ++ body))
      (lineStatements g n ts) := by
  induction n generalizing ts with
  | zero => exact ensures_error _
  | succ n ih =>
      unfold lineStatements
      refine (ensures_simpleStatement h ts).bind fun first hfirst => ?_
      obtain ⟨text, rfl, htext⟩ := hfirst.hasText
      dsimp only
      split
      · exact ensures_ok fun body hbody => .statement htext hbody
      · rename_i vs hskip
        obtain ⟨t, heq, ht⟩ := (spans_skipOp? hskip).exists_token
        rw [heq]
        split
        · exact ensures_ok fun body hbody => .statement htext (.separator (.inr ht) hbody)
        · refine (ih vs).bind fun rest hrest => ensures_ok fun body hbody => ?_
          exact .statement htext (.separator (.inr ht) (hrest body hbody))

theorem ensures_statementLine (ts : List Token) :
    Ensures (fun r => ∀ body, FitsBody r.2 body → FitsBody ts (r.1 ++ body))
      (statementLine g ts) := by
  unfold statementLine
  split
  · rename_i keyword hkeyword
    obtain ⟨block, htail⟩ := afterBlock_suffix (current ts).column ts.tail
    have hspans := spans_tokens rfl (kind_ne_endOfText rfl hkeyword) htail.symm
    have hstatement : StatementSpans (current ts).line ts
        (.compound (current ts).line keyword, afterBlock (current ts).column ts.tail) :=
      ⟨_, .compound _ _ hkeyword, rfl, hspans⟩
    obtain ⟨text, htaken, htext⟩ := hstatement.hasText
    refine ensures_ok fun body hbody => ?_
    have hfits := FitsBody.statement htext hbody
    rwa [← htaken] at hfits
  · refine (ensures_lineStatements h _ ts).bind fun r hr => ?_
    dsimp only
    split
    · exact ensures_ok hr
    · exact ensures_error _

omit h in
theorem fitsBody_of_skipNewlines {ts : List Token} {body : List Statement}
    (h : FitsBody (skipNewlines ts) body) : FitsBody ts body := by
  induction ts with
  | nil => exact h
  | cons t ts ih =>
      unfold skipNewlines at h
      rw [List.dropWhile_cons] at h
      split at h
      · rename_i hnewline
        exact .separator (.inl (beq_iff_eq.mp hnewline)) (ih h)
      · exact h

theorem ensures_fitsBody (n : Nat) (ts : List Token) :
    Ensures (FitsBody ts) (statements g n ts) := by
  induction n generalizing ts with
  | zero => exact ensures_error _
  | succ n ih =>
      unfold statements
      dsimp only
      split
      · rename_i hend
        exact ensures_ok (fitsBody_of_skipNewlines (.done hend))
      · refine (ensures_statementLine h (skipNewlines ts)).bind fun first hfirst => ?_
        refine (ih first.2).bind fun rest hrest => ensures_ok ?_
        exact fitsBody_of_skipNewlines (hfirst rest hrest)

end

end Parse

/-- The tokens that denote a module are the texts of its statements. -/
theorem Module.fitsBody_of_ofTokens {ts : List Token} {m : Module}
    (h : Module.ofTokens ts = .ok m) : FitsBody ts m.body := by
  obtain ⟨body, hbody, hresult⟩ := bind_eq_ok.mp h
  cases hresult
  exact Parse.ensures_fitsBody (Parse.Grammar.takes_grammar _) _ ts body hbody

/-- The tokens of a text are the text of the expression that it is read as, up to the end, or those
of the statements that it is read as. All that occurs in the expression or in a statement has its
own text among the tokens. Its text gives its line. The line of a statement is that of the first
token of its text. The line of a node is that of the first token of its text or of one before which
only opening parentheses stand in it, except that the tuple of several indices stands on the line of
the bracket before it. -/
theorem Token.standsIn_of_ofText {text : String} {ts : List Token}
    (h : Token.ofText text = .ok ts) : (∀ e, Expr.ofText text = .ok e →
      (∃ rest, Parse.Spans ts rest [.loose e] ∧
        (Parse.current (Parse.skipNewlines rest)).kind = .endOfText) ∧
      ∀ s : Expr, s.OccursIn e → s.StandsIn ts) ∧
    ∀ m, Module.ofText text = .ok m → FitsBody ts m.body ∧ ∀ s ∈ m.body, s.StandsIn ts ∧
      ∀ e ∈ s.operands, ∀ e' : Expr, e'.OccursIn e → e'.StandsIn ts := by
  constructor
  · intro e he
    rw [Expr.ofText, h] at he
    obtain ⟨rest, hspans, hend⟩ := Expr.spans_of_ofTokens he
    refine ⟨⟨rest, hspans, hend⟩, fun s hs => ?_⟩
    obtain ⟨text, rfl, hfits⟩ := hspans
    have hstands : e.StandsIn text := hfits.standsIn (mem_nodes List.mem_cons_self rfl)
    exact (hstands.mono (List.prefix_append text rest).isInfix).of_occursIn hs
  · intro m hm
    rw [Module.ofText, h] at hm
    have hfits := Module.fitsBody_of_ofTokens hm
    refine ⟨hfits, fun s hs => ⟨hfits.standsIn hs, fun e he e' he' => ?_⟩⟩
    exact ((hfits.standsIn hs).operand he).of_occursIn he'

def parenthesizedSum : List Token :=
  [⟨.op .leftParen, 1, 0⟩, ⟨.literal .text "a", 2, 0⟩, ⟨.op .rightParen, 2, 3⟩,
    ⟨.op .plus, 2, 5⟩, ⟨.literal .text "b", 2, 7⟩]

theorem tokens_parenthesizedSum : Token.ofText "(\n'a') + 'b'" =
    .ok (parenthesizedSum ++ [⟨.newline, 2, 0⟩, ⟨.endOfText, 2, 0⟩]) := by
  decide +kernel

theorem ofText_parenthesizedSum :
    Expr.ofText "(\n'a') + 'b'" = .ok (.binary 2 .add (.str 2 "a") (.str 2 "b")) := by
  rw [Expr.ofText, tokens_parenthesizedSum]
  rfl

/-- The sum stands in its tokens, on the line of its first operand. -/
theorem Token.standsIn_of_ofText_parenthesized :
    Token.ofText "(\n'a') + 'b'" =
      .ok (parenthesizedSum ++ [⟨.newline, 2, 0⟩, ⟨.endOfText, 2, 0⟩]) ∧
    (Expr.binary 2 .add (.str 2 "a") (.str 2 "b")).StandsIn
      (parenthesizedSum ++ [⟨.newline, 2, 0⟩, ⟨.endOfText, 2, 0⟩]) := by
  refine ⟨tokens_parenthesizedSum, ?_⟩
  exact ((standsIn_of_ofText tokens_parenthesizedSum).1 _ ofText_parenthesizedSum).2 _ (.refl _)

/-- So it is not on the line of the first token of its text. -/
theorem Expr.HasText.line_ne_parenthesized :
    Expr.ofText "(\n'a') + 'b'" = .ok (.binary 2 .add (.str 2 "a") (.str 2 "b")) ∧
    Token.ofText "(\n'a') + 'b'" =
      .ok (parenthesizedSum ++ [⟨.newline, 2, 0⟩, ⟨.endOfText, 2, 0⟩]) ∧
    (Expr.binary 2 .add (.str 2 "a") (.str 2 "b")).HasText parenthesizedSum ∧
    (Expr.binary 2 .add (.str 2 "a") (.str 2 "b")).line ≠
      (Parse.current parenthesizedSum).line := by
  have hliteral (text : String) (column : Nat) {us : List Token} {parts : List TextPart}
      (h : Fits us parts) :
      Fits ([⟨.literal .text text, 2, column⟩] ++ us) (.operand (.str 2 text) :: parts) := by
    have hjoin : Parse.Grammar.joinLiterals 2 [(.text, text)] = .ok (.str 2 text) := by
      simp [Parse.Grammar.joinLiterals, String.join]
    exact .node (.literals (List.cons_ne_nil _ _) hjoin) (.token .nil) rfl h
  refine ⟨ofText_parenthesizedSum, tokens_parenthesizedSum, ?_, by decide⟩
  refine ⟨_, .inl (.binary 2 .add _ _), ?_, rfl⟩
  exact .parens rfl rfl (hliteral "a" 0 .nil) (.token (hliteral "b" 7 .nil))

end DepsManifest
