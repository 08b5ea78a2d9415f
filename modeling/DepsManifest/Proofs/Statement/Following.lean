import DepsManifest.Proofs.Expr.Following
import DepsManifest.Proofs.Expr.Starting
import DepsManifest.Statement.Parser
/-! # Statements of a text that goes on

When does a text mean the same if another text follows it? A text is read statement by statement, so
the question is where a statement ends.

  * A statement without a block is read within a logical line, and it ends with the line or before
    it (`Parse.statementLine_onLine`). The lines of a text are read as the same statements when
    others follow.
  * A statement with a block reads on to the first line that does not belong to the block. Whether a
    line does can be told from its first token (`Parse.afterBlockLines_ahead`): from its column, or
    from a keyword that goes on with a block.

So the last statement of a text is the only one that could go on in the text that follows. If it has
no block, or if what follows cannot belong to one, the statements of both are those of the first and
then those of the second (`Parse.statements_ahead`, and for texts `Module.ofText_append_newline`).
What begins at the first column cannot belong to a block, as no statement begins with a keyword that
goes on with one (`Parse.not_continuesBlock`).

The two lists of tokens are related by `Token.Ahead`: the tokens of the first text, further down,
and then those of the second. The end of a line that the lexer puts at the end of a text may be
there or not; it is skipped where it is (`statements_newline`).
-/
namespace DepsManifest

/-- A statement with its lines replaced. -/
def Statement.moved (lines : Nat → Nat) : Statement → Statement
  | .assign line targets value =>
    .assign (lines line) (targets.map (Expr.moved lines)) (value.moved lines)
  | .augmented line target op value =>
    .augmented (lines line) (target.moved lines) op (value.moved lines)
  | .annotated line target typeHint value =>
    .annotated (lines line) (target.moved lines) (typeHint.moved lines)
      (value.map (Expr.moved lines))
  | .expression line value => .expression (lines line) (value.moved lines)
  | .simple line keyword => .simple (lines line) keyword
  | .compound line keyword => .compound (lines line) keyword

/-- Whether a statement has a block. -/
def Statement.hasBlock : Statement → Bool
  | .compound _ _ => true
  | _ => false

namespace Parse

open Token

/-! ## Statements without a block -/

theorem dropWhile_of_newline {ts : List Token} (h : (current ts).kind = .newline) :
    (ts.dropWhile fun t => !endsStatement t) = ts := by
  cases ts with
  | nil => rfl
  | cons t ts =>
      have hkind : t.kind = .newline := h
      refine List.dropWhile_cons_of_neg ?_
      rw [endsStatement, hkind]
      exact Bool.false_ne_true

theorem dropWhile_onLine {lines : Nat → Nat} {later later' ts ts' : List Token}
    (hts : OnLine lines later later' ts ts') (hnl : (current later').kind = .newline) :
    OnLine lines later later' (ts.dropWhile fun t => !endsStatement t)
      (ts'.dropWhile fun t => !endsStatement t) := by
  induction hts with
  | lineEnd hclose =>
      rw [dropWhile_of_newline hclose.newline, dropWhile_of_newline hnl]
      exact .lineEnd hclose
  | @token kind ts ts' line column column' hnewline hend h ih =>
      have hsame : endsStatement ⟨kind, lines line, column'⟩ = endsStatement ⟨kind, line, column⟩ :=
        rfl
      rw [List.dropWhile_cons, List.dropWhile_cons, hsame]
      split
      · exact ih
      · exact .token line column column' hnewline hend h

section

variable {lines : Nat → Nat} {g g' : Grammar} (h : g.Alike lines g')

include h

theorem alike_statementAfter (line : Nat) (first : Expr) :
    Alike lines (Statement.moved lines) (statementAfter g line first)
      (statementAfter g' (lines line) (first.moved lines)) := by
  intro later later' ts ts' hts
  unfold statementAfter
  refine (((h.testList true).afterOp .assign nofun).many hts).read fun values us us' hus => ?_
  dsimp only
  rw [List.getLast?_map]
  cases values.getLast? with
  | some value => exact readAlike (by simp [Statement.moved, List.map_dropLast]) hus
  | none =>
      dsimp only [Option.map_none]
      rw [hus.apply_kind (f := augmentedOp?) rfl]
      cases hop : augmentedOp? (current us).kind with
      | some op =>
          have htail : OnLine lines later later' us.tail us'.tail := by
            refine hus.tail rfl fun hkind => ?_
            rw [hkind] at hop
            cases hop
          refine (h.testList true htail).read fun value vs vs' hvs => ?_
          exact readAlike rfl hvs
      | none =>
          dsimp only
          rcases hus.skipOp? .colon (by decide) with ⟨h1, h2⟩ | ⟨vs, vs', h1, h2, -, hvs⟩
          · rw [h1, h2]
            exact readAlike rfl hus
          · rw [h1, h2]
            refine (h.test hvs).read fun typeHint ws ws' hws => ?_
            dsimp only
            rcases hws.skipOp? .assign (by decide) with ⟨h3, h4⟩ | ⟨xs, xs', h3, h4, -, hxs⟩
            · rw [h3, h4]
              exact readAlike rfl hws
            · rw [h3, h4]
              refine (h.testList true hxs).read fun value ys ys' hys => ?_
              exact readAlike rfl hys

theorem failsAtLineEnd_simpleStatement : FailsAtLineEnd (simpleStatement g) := by
  intro ts hend r hr
  rw [simpleStatement, hend] at hr
  obtain ⟨first, hfirst, -⟩ := bind_eq_ok.mp hr
  exact (Grammar.starts_testList h.starts_test true).failsAtLineEnd ts hend first hfirst

variable {later later' ts ts' : List Token} (hnl : (current later').kind = .newline)

include hnl

theorem simpleStatement_onLine (hts : OnLine lines later later' ts ts') :
    Refines (ReadAlike lines later later' (Statement.moved lines)) (simpleStatement g ts)
      (simpleStatement g' ts') := by
  rcases hts.cases_current with ⟨hne, hkind, hline, htail⟩ | ⟨hend, -⟩
  · unfold simpleStatement
    rw [hkind, hline]
    cases hkeyword : simpleKeyword? (current ts).kind with
    | some keyword => exact readAlike rfl (dropWhile_onLine htail hnl)
    | none =>
        refine (h.testList true hts).read fun first us us' hus => ?_
        exact alike_statementAfter h (current ts).line first hus
  · exact refines_of_fails (failsAtLineEnd_simpleStatement h ts hend) _

theorem lineStatements_onLine {n m : Nat} (hle : n ≤ m) (hts : OnLine lines later later' ts ts') :
    Refines (ReadAlike lines later later' (List.map (Statement.moved lines)))
      (lineStatements g n ts) (lineStatements g' m ts') := by
  induction n generalizing m ts ts' with
  | zero => exact refines_error _ _
  | succ n ih =>
      obtain ⟨m, rfl⟩ : ∃ k, m = k + 1 := ⟨m - 1, by omega⟩
      unfold lineStatements
      refine (simpleStatement_onLine h hnl hts).read fun first us us' hus => ?_
      dsimp only
      rcases hus.skipOp? .semicolon (by decide) with ⟨h1, h2⟩ | ⟨vs, vs', h1, h2, -, hvs⟩
      · rw [h1, h2]
        exact readAlike rfl hus
      · rw [h1, h2]
        dsimp only
        rw [hvs.atLineEnd_eq hnl]
        split
        · exact readAlike rfl hvs
        · refine (ih (Nat.le_of_succ_le_succ hle) hvs).read fun rest ws ws' hws => ?_
          exact readAlike rfl hws

theorem statementLine_onLine {r : List Token} {ss : List Statement}
    (hts : OnLine lines later later' ts ts') (hblock : compoundKeyword? (current ts).kind = none)
    (hread : statementLine g ts = .ok (ss, r)) :
    r = later ∧ statementLine g' ts' = .ok (ss.map (Statement.moved lines), later') := by
  unfold statementLine at hread ⊢
  rw [hblock] at hread
  obtain ⟨⟨ss', r'⟩, hline, hend⟩ := bind_eq_ok.mp hread
  dsimp only at hend
  split at hend
  · rename_i hatEnd
    cases hend
    obtain ⟨⟨moved, r''⟩, hline', hvalue, hrest⟩ :=
      lineStatements_onLine h hnl (Nat.succ_le_succ hts.length_le) hts _ hline
    cases hvalue
    have hatEnd' := (hrest.atLineEnd_eq hnl).trans hatEnd
    obtain ⟨rfl, rfl⟩ := hrest.eq_of_atLineEnd hatEnd
    refine ⟨rfl, ?_⟩
    have hblock' : compoundKeyword? (current ts').kind = none :=
      (hts.apply_kind (f := compoundKeyword?) rfl).trans hblock
    rw [hblock']
    refine bind_eq_ok.mpr ⟨_, hline', ?_⟩
    dsimp only
    rw [hatEnd']
    rfl
  · cases hend

end

/-! ## Statements with a block -/

/-- What is left of the lines after a block begun at a column, given the line after that beginning.
-/
def afterBlockLines (column : Nat) (ts : List Token) : List Token :=
  if continuesBlock column (current ts) then afterBlock column ts else ts

theorem afterBlock_newline {nl : Token} (h : nl.kind = .newline) (column : Nat)
    (later : List Token) : afterBlock column (nl :: later) = afterBlockLines column later := by
  rw [afterBlock, if_neg (by rw [h]; exact nofun), if_pos h]
  rfl

theorem afterBlock_onLine {lines : Nat → Nat} {later later' ts ts' : List Token} (column : Nat)
    (hts : OnLine lines later later' ts ts') :
    afterBlock column ts = afterBlock column later ∧
      afterBlock column ts' = afterBlock column later' := by
  induction hts with
  | lineEnd hclose => exact ⟨rfl, rfl⟩
  | @token kind ts ts' line column' column'' hnewline hend h ih =>
      rw [afterBlock, afterBlock, if_neg hend, if_neg hnewline]
      rw [if_neg hend, if_neg hnewline]
      exact ih

/-- The lines of a block are the same when a text goes on, if the block ends before that or the text
goes on with a line that does not belong to it. -/
theorem afterBlockLines_ahead {lines : Nat → Nat} {more ts ts' : List Token} (column : Nat)
    (hts : Ahead lines more ts ts')
    (hend : (current (afterBlockLines column ts)).kind = .endOfText →
      continuesBlock column (current more) = false) :
    Ahead lines more (afterBlockLines column ts) (afterBlockLines column ts') ∧
      (afterBlockLines column ts').length ≤ ts'.length := by
  induction hts with
  | ending line column' hmore =>
      have hsecond : afterBlockLines column more = more := by
        rw [afterBlockLines, hend rfl]
        rfl
      rw [hsecond]
      exact ⟨.ending line column' hmore, Nat.le_refl _⟩
  | @line kind nl nl' later later' ts ts' line column' hnewline hkind hnl h hlater ih =>
      have hsame : continuesBlock column (current (⟨kind, lines line, column'⟩ :: ts')) =
          continuesBlock column (current (⟨kind, line, column'⟩ :: ts)) := rfl
      have hblock := afterBlock_onLine column (.token line column' column' hnewline hkind h)
      have hnl₀ : nl.kind = .newline := h.closes.newline
      rw [afterBlock_newline hnl₀, afterBlock_newline hnl] at hblock
      unfold afterBlockLines at hend ⊢
      rw [hsame]
      split
      · rename_i hcontinues
        rw [if_pos hcontinues, hblock.1] at hend
        rw [hblock.1, hblock.2]
        obtain ⟨hahead, hle⟩ := ih hend
        refine ⟨hahead, ?_⟩
        have hshort : later'.length + 1 ≤ ts'.length := h.length_later_le
        rw [List.length_cons]
        omega
      · exact ⟨.line line column' hnewline hkind hnl h hlater, Nat.le_refl _⟩

/-! ## Modules -/

section

variable {g : Grammar}

theorem statements_mono {n m : Nat} (hle : n ≤ m) {ts : List Token} {ss : List Statement}
    (h : statements g n ts = .ok ss) : statements g m ts = .ok ss := by
  induction n generalizing m ts ss with
  | zero => cases h
  | succ n ih =>
      obtain ⟨m, rfl⟩ : ∃ k, m = k + 1 := ⟨m - 1, by omega⟩
      rw [statements] at h ⊢
      dsimp only at h ⊢
      split at h
      · rename_i hend
        rwa [if_pos hend]
      · rename_i hend
        rw [if_neg hend]
        obtain ⟨⟨first, us⟩, hfirst, h⟩ := bind_eq_ok.mp h
        obtain ⟨rest, hrest, h⟩ := bind_eq_ok.mp h
        exact bind_eq_ok.mpr ⟨_, hfirst, bind_eq_ok.mpr ⟨rest, ih (by omega) hrest, h⟩⟩

theorem statements_newline {nl : Token} (h : nl.kind = .newline) (n : Nat) (ts : List Token)
    (ss : List Statement) :
    statements g n (nl :: ts) = .ok ss ↔ statements g n ts = .ok ss := by
  cases n with
  | zero => exact ⟨nofun, nofun⟩
  | succ n =>
      have hskip : skipNewlines (nl :: ts) = skipNewlines ts :=
        List.dropWhile_cons_of_pos (by rw [h]; rfl)
      rw [statements, statements, hskip]

theorem statements_endOfText {n : Nat} {ts : List Token} {ss : List Statement}
    (hend : (current ts).kind = .endOfText) (h : statements g n ts = .ok ss) : ss = [] := by
  cases n with
  | zero => cases h
  | succ n =>
      have hskip : (current (skipNewlines ts)).kind = .endOfText := by
        rcases ts with _ | ⟨t, ts⟩
        · rfl
        · have hkind : t.kind = .endOfText := hend
          rw [skipNewlines, List.dropWhile_cons_of_neg (by rw [hkind]; decide)]
          exact hkind
      rw [statements] at h
      dsimp only at h
      rw [if_pos hskip] at h
      cases h
      rfl

end

/-- A module goes on after a text with what the tokens after it denote, unless the last statement of
the text takes them for lines of its block. -/
theorem statements_ahead {lines : Nat → Nat} {g g' : Grammar} (hg : g.Alike lines g')
    {more : List Token} {ss' : List Statement}
    (hmore : statements g' (more.length + 1) more = .ok ss') {n m : Nat} {ts ts' : List Token}
    {ss : List Statement} (hts : Ahead lines more ts ts') (h : statements g n ts = .ok ss)
    (hlast : (∀ s ∈ ss.getLast?, s.hasBlock = false) ∨
      ∀ column, continuesBlock column (current more) = false) (hm : ts'.length < m) :
    statements g' m ts' = .ok (ss.map (Statement.moved lines) ++ ss') := by
  induction n generalizing m ts ts' ss with
  | zero => cases h
  | succ n ih =>
      cases hts with
      | ending line column _ =>
          cases h
          exact statements_mono hm hmore
      | @line kind nl nl' later later' us us' line column hnewline hend hnl hline hlater =>
          obtain ⟨m, rfl⟩ : ∃ k, m = k + 1 := ⟨m - 1, by omega⟩
          have hskip : ∀ (l : Nat) (us : List Token),
              skipNewlines (⟨kind, l, column⟩ :: us) = ⟨kind, l, column⟩ :: us := by
            intro l us
            exact List.dropWhile_cons_of_neg (by simpa using hnewline)
          rw [statements] at h ⊢
          dsimp only at h ⊢
          rw [hskip, current_cons, if_neg hend] at h
          rw [hskip, current_cons, if_neg hend]
          obtain ⟨⟨first, r⟩, hfirst, h⟩ := bind_eq_ok.mp h
          obtain ⟨rest, hrest, h⟩ := bind_eq_ok.mp h
          cases h
          have hlast' : (∀ s ∈ rest.getLast?, s.hasBlock = false) ∨
              ∀ column, continuesBlock column (current more) = false := by
            refine hlast.imp_left fun hno s hs => hno s ?_
            rw [List.getLast?_append, Option.mem_def.mp hs]
            rfl
          have hboth : OnLine lines (nl :: later) (nl' :: later') (⟨kind, line, column⟩ :: us)
              (⟨kind, lines line, column⟩ :: us') := .token line column column hnewline hend hline
          have hnl₀ : nl.kind = .newline := hline.closes.newline
          have hnl' : (current (nl' :: later')).kind = .newline := hnl
          have hshort : later'.length + 1 ≤ us'.length := hline.length_later_le
          rw [List.length_cons] at hm
          rw [List.map_append, List.append_assoc]
          cases hblock : compoundKeyword? kind with
          | none =>
              obtain ⟨rfl, hfirst'⟩ := statementLine_onLine hg hnl' hboth hblock hfirst
              have hlines := ih hlater ((statements_newline hnl₀ n later rest).mp hrest) hlast'
                (m := m) (by omega)
              refine bind_eq_ok.mpr ⟨_, hfirst', bind_eq_ok.mpr ⟨_, ?_, rfl⟩⟩
              exact (statements_newline hnl m later' _).mpr hlines
          | some keyword =>
              rw [statementLine, current_cons, hblock] at hfirst
              cases hfirst
              obtain ⟨hr, hr'⟩ := afterBlock_onLine column hline
              rw [afterBlock_newline hnl₀] at hr
              rw [afterBlock_newline hnl] at hr'
              have hstops : (current (afterBlockLines column later)).kind = .endOfText →
                  continuesBlock column (current more) = false := by
                intro hkind
                dsimp only [List.tail_cons] at hrest
                rw [hr] at hrest
                obtain rfl := statements_endOfText hkind hrest
                rcases hlast with hno | hno
                · have hfalse : true = false := hno _ rfl
                  cases hfalse
                · exact hno column
              obtain ⟨hahead, hle⟩ := afterBlockLines_ahead column hlater hstops
              dsimp only [List.tail_cons] at hrest
              rw [hr] at hrest
              have hlines := ih hahead hrest hlast' (m := m) (by omega)
              rw [statementLine, current_cons, hblock]
              refine bind_eq_ok.mpr ⟨_, rfl, bind_eq_ok.mpr ⟨_, ?_, rfl⟩⟩
              dsimp only [List.tail_cons]
              rw [hr']
              exact hlines

/-! ## What does not go on with a block -/

theorem kind_ne_of_statementLine {d : Nat} {ts : List Token} {r : List Statement × List Token}
    (h : statementLine (grammar d) ts = .ok r) :
    ∀ keyword ∈ continuingKeywords, (current ts).kind ≠ .name keyword := by
  intro keyword hkeyword hkind
  have hblock : ∀ keyword ∈ continuingKeywords, compoundKeyword? (.name keyword) = none := by decide
  have hsimple : ∀ keyword ∈ continuingKeywords, simpleKeyword? (.name keyword) = none := by decide
  have hstarts : ∀ keyword ∈ continuingKeywords, startsExpression (.name keyword) = false := by
    decide
  rw [statementLine, hkind, hblock keyword hkeyword] at h
  obtain ⟨_, hline, -⟩ := bind_eq_ok.mp h
  rw [lineStatements] at hline
  obtain ⟨_, hstatement, -⟩ := bind_eq_ok.mp hline
  rw [simpleStatement, hkind, hsimple keyword hkeyword] at hstatement
  have hfirst := (Grammar.starts_testList (Grammar.starts_test d) true).of_bind hstatement
  rw [hkind, hstarts keyword hkeyword] at hfirst
  cases hfirst

/-- A module that begins at the first column does not go on with a block. -/
theorem not_continuesBlock {d n : Nat} {ts : List Token} {ss : List Statement}
    (h : statements (grammar d) n ts = .ok ss) (hcolumn : (current ts).column = 0) (column : Nat) :
    continuesBlock column (current ts) = false := by
  rw [Bool.eq_false_iff]
  intro hcontinues
  rw [continuesBlock, hcolumn, Bool.and_eq_true, bne_iff_ne, Bool.or_eq_true, Bool.and_eq_true,
    List.any_eq_true] at hcontinues
  obtain ⟨hend, hdeeper | ⟨-, keyword, hkeyword, hkind⟩⟩ := hcontinues
  · cases of_decide_eq_true hdeeper
  · rw [beq_iff_eq] at hkind
    cases n with
    | zero => cases h
    | succ n =>
        have hskip : skipNewlines ts = ts := by
          rcases ts with _ | ⟨t, ts⟩
          · rfl
          · rw [current_cons] at hkind
            exact List.dropWhile_cons_of_neg (by rw [hkind]; exact nofun)
        rw [statements, hskip] at h
        dsimp only at h
        rw [if_neg hend] at h
        obtain ⟨_, hfirst, -⟩ := bind_eq_ok.mp h
        exact kind_ne_of_statementLine hfirst keyword hkeyword hkind

end Parse

/-! ## Texts -/

namespace Statement

theorem moved_id (s : Statement) : s.moved id = s := by
  have hall : ∀ es : List Expr, es.map (Expr.moved id) = es := by
    intro es
    exact (List.map_congr_left fun e _ => e.moved_id).trans (List.map_id es)
  cases s with
  | assign line targets value => rw [moved, hall, Expr.moved_id]; rfl
  | augmented line target op value => rw [moved, Expr.moved_id, Expr.moved_id]; rfl
  | annotated line target typeHint value =>
      rw [moved, Expr.moved_id, Expr.moved_id]
      cases value with
      | none => rfl
      | some value => rw [Option.map_some, Expr.moved_id]; rfl
  | expression line value => rw [moved, Expr.moved_id]; rfl
  | simple line keyword => rfl
  | compound line keyword => rfl

end Statement

namespace Module

theorem ofText_eq_ok_iff {text : String} {m : Module} : ofText text = .ok m ↔
    ∃ ts, Token.ofText text = .ok ts ∧
      Parse.statements (Parse.grammarFor ts) (ts.length + 1) ts = .ok m.body := by
  unfold ofText
  rw [bind_eq_ok]
  refine exists_congr fun ts => and_congr_right fun _ => ?_
  unfold ofTokens
  rw [bind_eq_ok]
  constructor
  · rintro ⟨body, hbody, hm⟩
    cases hm
    exact hbody
  · intro hbody
    exact ⟨m.body, hbody, rfl⟩

theorem column_current_eq_zero {lines : Nat → Nat} {line : Nat} {ts ts' : List Token}
    (h : Token.Ahead lines [⟨.endOfText, line, 0⟩] ts ts')
    (hcolumn : (Parse.current ts).column = 0) : (Parse.current ts').column = 0 := by
  cases h with
  | ending _ _ _ => rfl
  | line _ _ _ _ _ _ _ => exact hcolumn

/-- Two texts with a line break between them are read as the statements of the first, and then those
of the second further down, unless the second goes on with a block that ends the first. -/
theorem ofText_append_newline {s s' : String} {m m' : Module} (h : ofText s = .ok m)
    (h' : ofText s' = .ok m')
    (hlast : (∀ t ∈ m.body.getLast?, t.hasBlock = false) ∨
      ∃ ts, Token.ofText s' = .ok ts ∧ (Parse.current ts).column = 0) :
    ofText (s ++ "\n" ++ s') =
      .ok ⟨m.body ++ m'.body.map (Statement.moved (· + (s.toList.count '\n' + 1)))⟩ := by
  obtain ⟨ts, hts, hbody⟩ := ofText_eq_ok_iff.mp h
  obtain ⟨ts', hts', hbody'⟩ := ofText_eq_ok_iff.mp h'
  obtain ⟨line, more, both, hsecond, hfirst, hboth⟩ := Token.ofChars_append_newline hts hts'
  have hmore : Parse.statements (Parse.grammarFor both) (more.length + 1) more =
      .ok (m'.body.map (Statement.moved (· + (s.toList.count '\n' + 1)))) := by
    have hdeep := Parse.Grammar.alike_grammar (· + (s.toList.count '\n' + 1))
      (Nat.succ_le_succ (Nat.le_trans hsecond.length_le hfirst.more_length_le))
    have hlines := Parse.statements_ahead hdeep rfl hsecond hbody' (.inr fun _ => rfl)
      (Nat.lt_succ_self _)
    rwa [List.append_nil] at hlines
  have hcolumn : (∀ t ∈ m.body.getLast?, t.hasBlock = false) ∨
      ∀ column, Parse.continuesBlock column (Parse.current more) = false := by
    refine hlast.imp_right ?_
    rintro ⟨us, hus, hzero⟩ column
    obtain rfl : ts' = us := Except.ok.inj (hts'.symm.trans hus)
    exact Parse.not_continuesBlock hmore (column_current_eq_zero hsecond hzero) column
  have hdeep := Parse.Grammar.alike_grammar id (Nat.succ_le_succ hfirst.length_le)
  have hlines := Parse.statements_ahead hdeep hmore hfirst hbody hcolumn (Nat.lt_succ_self _)
  rw [List.map_congr_left fun t _ => t.moved_id, List.map_id'] at hlines
  refine ofText_eq_ok_iff.mpr ⟨both, ?_, hlines⟩
  rw [Token.ofText, String.toList_append, String.toList_append, List.append_assoc]
  exact hboth

end Module

end DepsManifest
