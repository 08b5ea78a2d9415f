import DepsManifest.Proofs.Token.Lines
/-! # Logical lines

`Token.ofText_logicalLines` says what the tokens of a text are, and when there are any.

  * The tokens are logical lines (`LogicalLines`): each ends with one line break, no line is empty,
    brackets are nested, a line goes on until they are closed, and the end of the text is the last
    token and the only one of its kind.
  * The operators among them are those of the text, each at its line.
  * A text without lexical faults has tokens exactly if its brackets are nested. Otherwise its fault
    is the first bracket that closes wrongly, or else the innermost one that is left open
    (`Token.BracketFault`).

## The way of the proof

For the first point the statement is generalized from texts to what may follow where brackets are
open and a line has begun or not (`Following`). One lexeme adds to it what these allow
(`Following.placed`), and that carries over to a whole text by induction (`following_layOut`).

For the third point the program goes through the lexemes with a stack of brackets and stops at the
first fault. Only the operators change the stack, so this is to go through the operators alone
(`leftOpen_operatorAt`), and where that fails is known from the brackets (`layOut_eq_error`).
-/
namespace DepsManifest

/-! ## The operators of a text -/

namespace Lexeme

/-- The operator that a lexeme is, if it is one, at a line. -/
def operatorAt (line : Nat) (l : Lexeme) : List (Op × Nat) :=
  match l.kind with
  | .op op => [(op, line)]
  | _ => []

/-- The operators of a text that begins on a line, each at its own. -/
def operators : Nat → List Lexeme → List (Op × Nat)
  | _, [] => []
  | line, l :: ls => l.operatorAt line ++ operators (line + l.chars.count '\n') ls

end Lexeme

namespace Token

def operator? (t : Token) : Option (Op × Nat) :=
  match t.kind with
  | .op op => some (op, t.line)
  | _ => none

/-- The operators among tokens. -/
def operators (ts : List Token) : List (Op × Nat) := ts.filterMap operator?

theorem operators_append (ts us : List Token) :
    operators (ts ++ us) = operators ts ++ operators us :=
  List.filterMap_append

theorem operators_cons (t : Token) (ts : List Token) :
    operators (t :: ts) = operators [t] ++ operators ts :=
  operators_append [t] ts

theorem operators_of_kind {t : Token} {op : Op} (h : t.kind = .op op) :
    operators [t] = [(op, t.line)] := by
  rw [operators, List.filterMap_cons, operator?, h]
  rfl

/-- Tokens that are logical lines. -/
structure LogicalLines (ts : List Token) : Prop where
  /-- They end with the end of the text, which is nowhere else. -/
  ends : ∃ before last, ts = before ++ [last] ∧ last.kind = .endOfText ∧
    ∀ t ∈ before, t.kind ≠ .endOfText
  /-- The last line is ended before, unless there is none. -/
  ended : ts.length = 1 ∨ ∃ before nl last, ts = before ++ [nl, last] ∧ nl.kind = .newline
  begins : ∀ t ∈ ts.head?, t.kind ≠ .newline
  apart : ts.IsChain fun t u => t.kind = .newline → u.kind ≠ .newline
  nested : Nested (brackets (operators ts))
  /-- No line ends between a bracket and the one that closes it. -/
  joined : ∀ before opening inner close after op op',
    ts = before ++ opening :: (inner ++ close :: after) → opening.kind = .op op →
    close.kind = .op op' → op'.closes op = true → Nested (brackets (operators inner)) →
    ∀ t ∈ inner, t.kind ≠ .newline

/-! ## Tokens that may follow -/

/-- `Following opened inLine ts`: tokens up to the end of a text, where brackets are open, and where
a logical line has begun or not. -/
inductive Following : List (Op × Nat) → Bool → List Token → Prop
  | ending (line : Nat) : Following [] false [⟨.endOfText, line, 0⟩]
  | newline {ts : List Token} (line column : Nat) (h : Following [] false ts) :
      Following [] true (⟨.newline, line, column⟩ :: ts)
  | token {t : Token} {ts : List Token} {opened opened' : List (Op × Nat)} (inLine : Bool)
      (hnewline : t.kind ≠ .newline) (hend : t.kind ≠ .endOfText)
      (hopened : leftOpen opened (operators [t]) = .ok opened') (h : Following opened' true ts) :
      Following opened inLine (t :: ts)

namespace Following

variable {opened : List (Op × Nat)} {inLine : Bool} {ts : List Token}

theorem ends (h : Following opened inLine ts) : ∃ before last, ts = before ++ [last] ∧
    last.kind = .endOfText ∧ ∀ t ∈ before, t.kind ≠ .endOfText := by
  induction h with
  | ending line => exact ⟨[], _, rfl, rfl, nofun⟩
  | newline line column h ih =>
      obtain ⟨before, last, rfl, hlast, hbefore⟩ := ih
      exact ⟨_ :: before, last, rfl, hlast, List.forall_mem_cons.mpr ⟨nofun, hbefore⟩⟩
  | token inLine hnewline hend hopened h ih =>
      obtain ⟨before, last, rfl, hlast, hbefore⟩ := ih
      exact ⟨_ :: before, last, rfl, hlast, List.forall_mem_cons.mpr ⟨hend, hbefore⟩⟩

theorem ended (h : Following opened inLine ts) : inLine = false ∧ ts.length = 1 ∨
    ∃ before nl last, ts = before ++ [nl, last] ∧ nl.kind = .newline := by
  induction h with
  | ending line => exact .inl ⟨rfl, rfl⟩
  | newline line column h ih =>
      rcases ih with ⟨-, hlength⟩ | ⟨before, nl, last, rfl, hnl⟩
      · obtain ⟨last, rfl⟩ := List.length_eq_one_iff.mp hlength
        exact .inr ⟨[], _, last, rfl, rfl⟩
      · exact .inr ⟨_ :: before, nl, last, rfl, hnl⟩
  | token inLine hnewline hend hopened h ih =>
      rcases ih with ⟨hin, -⟩ | ⟨before, nl, last, rfl, hnl⟩
      · cases hin
      · exact .inr ⟨_ :: before, nl, last, rfl, hnl⟩

theorem begins (h : Following opened false ts) : ∀ t ∈ ts.head?, t.kind ≠ .newline := by
  cases h with
  | ending line =>
      rintro _ ⟨⟩
      nofun
  | token inLine hnewline hend hopened h =>
      rintro _ ⟨⟩
      exact hnewline

theorem apart (h : Following opened inLine ts) :
    ts.IsChain fun t u => t.kind = .newline → u.kind ≠ .newline := by
  induction h with
  | ending line => exact .singleton _
  | newline line column h ih => exact ih.cons fun t ht _ => h.begins t ht
  | token inLine hnewline hend hopened h ih => exact ih.cons fun t ht hkind => absurd hkind hnewline

theorem leftOpen_eq (h : Following opened inLine ts) : leftOpen opened (operators ts) = .ok [] := by
  induction h with
  | ending line => rfl
  | newline line column h ih => exact ih
  | token inLine hnewline hend hopened h ih =>
      rw [operators_cons, leftOpen_append, hopened]
      exact ih

/-- Where a line ends no bracket is open. -/
theorem leftOpen_before {before after : List Token} {nl : Token} (hnl : nl.kind = .newline)
    (h : Following opened inLine (before ++ nl :: after)) :
    leftOpen opened (operators before) = .ok [] := by
  induction before generalizing opened inLine with
  | nil =>
      cases h with
      | newline line column h => rfl
      | token inLine hnewline hend hopened h => exact absurd hnl hnewline
      | ending line => cases hnl
  | cons t before ih =>
      rw [operators_cons, leftOpen_append]
      generalize hts : t :: before ++ nl :: after = ts at h
      cases h with
      | ending line => cases before <;> cases hts
      | newline line column h =>
          cases hts
          exact ih h
      | token inLine hnewline hend hopened h =>
          cases hts
          rw [hopened]
          exact ih h

theorem logicalLines (h : Following [] false ts) : LogicalLines ts where
  ends := h.ends
  ended := h.ended.imp_left And.right
  begins := h.begins
  apart := h.apart
  nested := leftOpen_eq_ok_nil.mp h.leftOpen_eq
  joined := by
    rintro before opening inner close after op op' rfl hopening hclose hcloses hinner t ht hnewline
    obtain ⟨inner, inner', rfl⟩ := List.append_of_mem ht
    have hts : before ++ opening :: (inner ++ t :: inner' ++ close :: after) =
        (before ++ opening :: inner) ++ t :: (inner' ++ close :: after) := by
      simp only [List.append_assoc, List.cons_append]
    rw [hts] at h
    have hline := h.leftOpen_before hnewline
    rw [operators_append, operators_cons, operators_of_kind hopening] at hline
    rw [operators_append] at hinner
    exact leftOpen_inside_ne (Op.opensGroup_of_closes hcloses) hinner _ hline

end Following

/-! ## Laying out -/

variable {context context' : Context} {p : Position} {lexeme : Lexeme} {ls : List Lexeme}
  {ts : List Token} {e : Located SyntaxFault}

/-- Placing a lexeme goes through the operator that it is, and fails where that does. -/
theorem leftOpen_operatorAt (line : Nat) :
    leftOpen context.opened (lexeme.operatorAt line) =
      ((place context line lexeme).map fun r => r.2.opened).mapError (Located.mk line) := by
  unfold place Lexeme.operatorAt
  cases lexeme.kind with
  | op op =>
      dsimp only
      rw [leftOpen_cons, openedBy]
      cases openedAfter context.opened op line <;> rfl
  | lineBreak =>
      dsimp only
      split <;> rfl
  | _ => rfl

theorem operators_placed {line : Nat} {kind : Option TokenKind}
    (h : place context line lexeme = .ok (kind, context')) (column : Nat) :
    operators (kind.map fun k => ⟨k, line, column⟩).toList = lexeme.operatorAt line := by
  unfold place at h
  unfold Lexeme.operatorAt
  cases hkind : lexeme.kind with
  | op op =>
      rw [hkind] at h
      obtain ⟨opened, -, hresult⟩ := bind_eq_ok.mp h
      cases hresult
      rfl
  | lineBreak =>
      rw [hkind] at h
      dsimp only at h
      split at h
      · cases h
        rfl
      · cases h
        rfl
  | _ =>
      rw [hkind] at h
      cases h
      rfl

theorem leftOpen_placed {line : Nat} {kind : Option TokenKind}
    (h : place context line lexeme = .ok (kind, context')) :
    leftOpen context.opened (lexeme.operatorAt line) = .ok context'.opened := by
  rw [leftOpen_operatorAt, h]
  rfl

/-- A lexeme before tokens that may follow it. -/
theorem Following.placed {us : List Token} {kind : Option TokenKind} {line : Nat}
    (h : Following context'.opened context'.inLine us)
    (hplace : place context line lexeme = .ok (kind, context')) (column : Nat) :
    Following context.opened context.inLine
      ((kind.map fun k => ⟨k, line, column⟩).toList ++ us) := by
  rcases place_eq_ok hplace with ⟨rfl, rfl⟩ | ⟨rfl, rfl, rfl⟩ | ⟨inner, rfl, hnewline, hend, hin⟩
  · exact h
  · exact h.newline line column
  · rw [hin] at h
    refine .token context.inLine hnewline hend ?_ h
    exact (congrArg _ (operators_placed hplace column)).trans (leftOpen_placed hplace)

theorem following_layOut (h : layOut none context p ls = .ok ts) :
    Following context.opened context.inLine ts := by
  induction ls generalizing context p ts with
  | nil =>
      rcases layOut_nil_eq_ok h with ⟨rfl, rfl⟩ | ⟨rfl, rfl⟩
      · exact .newline p.line 0 (.ending p.line)
      · exact .ending p.line
  | cons lexeme rest ih =>
      obtain ⟨kind, context', hplace, us, hus, rfl⟩ := layOut_cons_eq_ok.mp h
      exact (ih hus).placed hplace p.column

theorem operators_layOut (h : layOut none context p ls = .ok ts) :
    operators ts = Lexeme.operators p.line ls := by
  induction ls generalizing context p ts with
  | nil =>
      rcases layOut_nil_eq_ok h with ⟨rfl, rfl⟩ | ⟨rfl, rfl⟩
      · rfl
      · rfl
  | cons lexeme rest ih =>
      obtain ⟨kind, context', hplace, us, hus, rfl⟩ := layOut_cons_eq_ok.mp h
      rw [operators_append, operators_placed hplace, ih hus, Position.line_after_eq]
      rfl

theorem ending_eq_error {line : Nat} : ending context line = .error e ↔
    ∃ opening outer, context.opened = opening :: outer ∧
      e = ⟨opening.2, .neverClosed opening.1⟩ := by
  obtain ⟨opened, inLine⟩ := context
  cases opened with
  | nil =>
      constructor
      · intro h
        cases inLine <;> cases h
      · rintro ⟨_, _, h, -⟩
        cases h
  | cons opening outer =>
      constructor
      · intro h
        cases h
        exact ⟨opening, outer, rfl, rfl⟩
      · rintro ⟨_, _, h, rfl⟩
        cases h
        rfl

/-- Laying out fails where the operators cannot be gone through, and at the end if brackets are
open. -/
theorem layOut_eq_error : layOut none context p ls = .error e ↔
    leftOpen context.opened (Lexeme.operators p.line ls) = .error e ∨
      ∃ opening outer,
        leftOpen context.opened (Lexeme.operators p.line ls) = .ok (opening :: outer) ∧
        e = ⟨opening.2, .neverClosed opening.1⟩ := by
  induction ls generalizing context p with
  | nil =>
      refine ending_eq_error.trans ⟨?_, ?_⟩
      · rintro ⟨opening, outer, hopened, he⟩
        exact .inr ⟨opening, outer, congrArg Except.ok hopened, he⟩
      · rintro (h | ⟨opening, outer, hopened, he⟩)
        · cases h
        · exact ⟨opening, outer, Except.ok.inj hopened, he⟩
  | cons lexeme rest ih =>
      rw [layOut, Lexeme.operators, leftOpen_append, leftOpen_operatorAt, ← Position.line_after_eq]
      cases place context p.line lexeme with
      | error fault =>
          constructor
          · intro h
            cases h
            exact .inl rfl
          · rintro (h | ⟨_, _, h, -⟩)
            · cases h
              rfl
            · cases h
      | ok placed =>
          obtain ⟨kind, context'⟩ := placed
          refine Iff.trans (bind_eq_error.trans ?_) ih
          refine or_iff_left ?_
          rintro ⟨us, -, h⟩
          cases h

/-! ## The tokens of a text -/

section

variable {text : String}

theorem ofText_eq_ok (h : ofText text = .ok ts) :
    LogicalLines ts ∧
      ∃ ls, Lexeme.all text.toList = (ls, none) ∧ operators ts = Lexeme.operators 1 ls := by
  obtain ⟨ls, hall, hout⟩ := ofChars_eq_ok h
  exact ⟨(following_layOut hout).logicalLines, ls, hall, operators_layOut hout⟩

theorem ofText_eq_error (hall : Lexeme.all text.toList = (ls, none)) :
    ofText text = .error e ↔ BracketFault (brackets (Lexeme.operators 1 ls)) e := by
  have htext : ofText text = layOut none ⟨[], false⟩ .start ls := by
    rw [ofText, ofChars, hall]
  rw [htext, layOut_eq_error, leftOpen_eq_error]
  constructor
  · rintro (hwrong | ⟨opening, outer, hopen, rfl⟩)
    · exact .closes hwrong
    · exact .neverClosed (leftOpen_eq_ok.mp hopen)
  · rintro (hwrong | hopen)
    · exact .inl hwrong
    · exact .inr ⟨_, _, leftOpen_eq_ok.mpr hopen, rfl⟩

theorem exists_ofText_eq_error (hall : Lexeme.all text.toList = (ls, none)) :
    (∃ e, ofText text = .error e) ↔ ¬Nested (brackets (Lexeme.operators 1 ls)) := by
  constructor
  · rintro ⟨e, he⟩ hnested
    rcases (ofText_eq_error hall).mp he with hwrong | hopen
    · cases hwrong.leftOpen_eq.symm.trans hnested.leftOpen_eq
    · cases hopen.leftOpen_eq.symm.trans hnested.leftOpen_eq
  · intro hnested
    cases h : ofText text with
    | error e => exact ⟨e, rfl⟩
    | ok ts =>
        obtain ⟨hlines, ls', hall', hoperators⟩ := ofText_eq_ok h
        cases hall.symm.trans hall'
        exact absurd (hoperators ▸ hlines.nested) hnested

end

/-- The tokens of a text are logical lines with the operators of the text. A text without lexical
faults has tokens exactly if its brackets are nested, and otherwise its fault is the first bracket
that closes wrongly, or else the innermost one that is left open. -/
theorem ofText_logicalLines (text : String) :
    (∀ ts, ofText text = .ok ts → LogicalLines ts ∧
      ∃ ls, Lexeme.all text.toList = (ls, none) ∧ operators ts = Lexeme.operators 1 ls) ∧
    ∀ ls, Lexeme.all text.toList = (ls, none) →
      ((∃ e, ofText text = .error e) ↔ ¬Nested (brackets (Lexeme.operators 1 ls))) ∧
      ∀ e, ofText text = .error e ↔ BracketFault (brackets (Lexeme.operators 1 ls)) e :=
  ⟨fun _ h => ofText_eq_ok h,
    fun _ hall => ⟨exists_ofText_eq_error hall, fun _ => ofText_eq_error hall⟩⟩

/-- A bracket that goes on over lines, with a comment and an empty line, and one that is left open.
-/
theorem ofText_logicalLines_bracketed :
    (∃ ts, ofText "# c\nx = [ # d\n\n'a',\n]\n\n" = .ok ts ∧ LogicalLines ts) ∧
    ∃ ls, Lexeme.all "(\n[".toList = (ls, none) ∧ ¬Nested (brackets (Lexeme.operators 1 ls)) ∧
      BracketFault (brackets (Lexeme.operators 1 ls)) ⟨2, .neverClosed .leftBracket⟩ := by
  have htokens : ofText "# c\nx = [ # d\n\n'a',\n]\n\n" = .ok [⟨.name "x", 2, 0⟩,
      ⟨.op .assign, 2, 2⟩, ⟨.op .leftBracket, 2, 4⟩, ⟨.literal .text "a", 4, 0⟩, ⟨.op .comma, 4, 3⟩,
      ⟨.op .rightBracket, 5, 0⟩, ⟨.newline, 5, 1⟩, ⟨.endOfText, 7, 0⟩] := by decide +kernel
  have hall : Lexeme.all "(\n[".toList = ([⟨.op .leftParen, ['(']⟩, ⟨.lineBreak, ['\n']⟩,
      ⟨.op .leftBracket, ['[']⟩], none) := by decide +kernel
  have hfault : ofText "(\n[" = .error ⟨2, .neverClosed .leftBracket⟩ := by decide +kernel
  obtain ⟨hnested, herror⟩ := (ofText_logicalLines "(\n[").2 _ hall
  exact ⟨⟨_, htokens, ((ofText_logicalLines _).1 _ htokens).1⟩, _, hall, hnested.mp ⟨_, hfault⟩,
    (herror _).mp hfault⟩

end Token

end DepsManifest
