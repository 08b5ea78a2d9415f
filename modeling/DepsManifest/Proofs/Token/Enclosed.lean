import DepsManifest.Proofs.Token.Lines
import DepsManifest.Proofs.Token.Phrase
/-! # Tokens of a text in parentheses

When a text stands in parentheses its tokens stay what they are and on their lines, but

  * the ends of its logical lines are no tokens any more,
  * the columns of the first line are others, and
  * other tokens follow where the text ended.

`Token.Enclosed` is the relation between the two lists of tokens.

The brackets that are open inside are those of the text and the outer one besides. Only a line break
can tell the difference, and it is dropped (`place_within`); everything else is laid out as it was
(`layOut_within`, by induction over the lexemes, for any outer brackets).

`Token.ofText_assignment` says what the tokens are of an assignment to a name whose expression
stands in parentheses. A text of one logical line stays a line there, which the closing parenthesis
ends (`Enclosed.onLine`), and that is the form in which the grammar is compared.
-/
namespace DepsManifest

namespace Token

/-- `Enclosed more ts ts'`: the tokens are the same but for columns and the ends of logical lines,
and other tokens come where the text ends. -/
inductive Enclosed (more : List Token) : List Token → List Token → Prop
  | ending (line column : Nat) : Enclosed more [⟨.endOfText, line, column⟩] more
  | newline {ts ts' : List Token} (line column : Nat) (h : Enclosed more ts ts') :
      Enclosed more (⟨.newline, line, column⟩ :: ts) ts'
  | token {kind : TokenKind} {ts ts' : List Token} (line column column' : Nat)
      (hnewline : kind ≠ .newline) (hend : kind ≠ .endOfText) (h : Enclosed more ts ts') :
      Enclosed more (⟨kind, line, column⟩ :: ts) (⟨kind, line, column'⟩ :: ts')

theorem Enclosed.more_length_le {more ts ts' : List Token} (h : Enclosed more ts ts') :
    more.length ≤ ts'.length := by
  induction h with
  | ending => exact Nat.le_refl _
  | newline line column h ih => exact ih
  | token line column column' hnewline hend h ih => exact Nat.le_succ_of_le ih

theorem Enclosed.onLine {lines : Nat → Nat} {more later' ts ts' us : List Token} {nl eot : Token}
    (h : Enclosed more ts ts') (hline : OnLine lines [nl, eot] later' ts us)
    (hend : eot.kind = .endOfText) (hcloses : Closes [nl, eot] more) :
    OnLine id [nl, eot] more ts ts' := by
  induction hline generalizing ts' with
  | lineEnd _ =>
      obtain ⟨kind, line, column⟩ := nl
      obtain rfl : kind = .newline := hcloses.newline
      cases h with
      | newline _ _ h =>
          cases h with
          | ending => exact .lineEnd hcloses
          | newline => cases hend
          | token _ _ _ _ hnot => exact absurd hend hnot
      | token _ _ _ hnot => exact absurd rfl hnot
  | token line column column' hnewline hkind _ ih =>
      cases h with
      | ending => exact absurd rfl hkind
      | newline => exact absurd rfl hnewline
      | token _ _ column' _ _ h => exact .token line column column' hnewline hkind (ih h)

/-! ## Laying out in parentheses -/

section

variable {opened opened' outer : List (Op × Nat)} {line : Nat}

/-- Inside an outer bracket a lexeme becomes the same token, unless it ends a logical line. -/
theorem place_within (houter : outer ≠ []) {a b : Bool} {lexeme : Lexeme} {kind : Option TokenKind}
    (h : place ⟨opened, a⟩ line lexeme = .ok (kind, ⟨opened', b⟩)) (inLine : Bool) :
    ∃ kind' inLine', place ⟨opened ++ outer, inLine⟩ line lexeme =
        .ok (kind', ⟨opened' ++ outer, inLine'⟩) ∧
      (kind = some .newline ∧ kind' = none ∨ kind ≠ some .newline ∧ kind' = kind) := by
  unfold place at h ⊢
  cases hkind : lexeme.kind with
  | lineBreak =>
      have hopen : (opened ++ outer).isEmpty = false :=
        List.isEmpty_eq_false_iff.mpr (List.append_ne_nil_of_right_ne_nil _ houter)
      rw [hkind] at h
      dsimp only at h ⊢
      rw [hopen]
      split at h
      · cases h
        exact ⟨_, _, rfl, .inl ⟨rfl, rfl⟩⟩
      · cases h
        exact ⟨_, _, rfl, .inr ⟨Option.some_ne_none _ ∘ Eq.symm, rfl⟩⟩
  | op op =>
      rw [hkind] at h
      obtain ⟨opened'', hopened, hresult⟩ := bind_eq_ok.mp h
      cases hresult
      refine ⟨_, _, bind_eq_ok.mpr ⟨_, openedAfter_append hopened outer, rfl⟩, .inr ⟨?_, rfl⟩⟩
      intro heq
      cases heq
  | _ =>
      rw [hkind] at h
      cases h
      refine ⟨_, _, rfl, .inr ⟨?_, rfl⟩⟩
      intro heq
      cases heq

end

/-- Lexemes that are laid out to the end of a text are enclosed in an outer bracket, where other
lexemes follow them. -/
theorem layOut_within {fault : Option SyntaxFault} {outer : List (Op × Nat)} (houter : outer ≠ [])
    {after : List Lexeme} {more : List Token} {ls : List Lexeme} {context : Context}
    {p p' : Position} {ts : List Token} (h : layOut none context p ls = .ok ts)
    (hline : p'.line = p.line) (hafter : ∀ inLine,
      layOut fault ⟨outer, inLine⟩ (p'.after (ls.flatMap Lexeme.chars)) after = .ok more)
    (inLine : Bool) :
    ∃ ts', layOut fault ⟨context.opened ++ outer, inLine⟩ p' (ls ++ after) = .ok ts' ∧
      Enclosed more ts ts' := by
  induction ls generalizing context p p' ts inLine with
  | nil =>
      rcases layOut_nil_eq_ok h with ⟨rfl, rfl⟩ | ⟨rfl, rfl⟩
      · exact ⟨more, hafter inLine, .newline _ _ (.ending _ _)⟩
      · exact ⟨more, hafter inLine, .ending _ _⟩
  | cons lexeme rest ih =>
      obtain ⟨kind, context', hplace, us, hus, rfl⟩ := layOut_cons_eq_ok.mp h
      rw [List.flatMap_cons, Position.after_append] at hafter
      have hline' : (p'.after lexeme.chars).line = (p.after lexeme.chars).line := by
        rw [Position.line_after_eq, Position.line_after_eq, hline]
      rw [← hline] at hplace
      obtain ⟨kind', inLine', hplace', hkind⟩ := place_within houter hplace inLine
      obtain ⟨us', hus', henclosed⟩ := ih hus hline' hafter inLine'
      refine ⟨_, layOut_cons_eq_ok.mpr ⟨kind', _, hplace', us', hus', rfl⟩, ?_⟩
      rcases hkind with ⟨rfl, rfl⟩ | ⟨hne, rfl⟩
      · exact .newline _ _ henclosed
      · rcases place_eq_ok hplace with ⟨rfl, -⟩ | ⟨rfl, -⟩ | ⟨inner, rfl, h1, h2, -⟩
        · exact henclosed
        · exact absurd rfl hne
        · rw [hline]
          exact .token _ _ _ h1 h2 henclosed

end Token

/-! ## Assignments -/

namespace Lexeme

/-- What stands before the expression of an assignment in parentheses. -/
def assigned (n : String) : List Lexeme := [ofName n, space, ofOp .assign, space]

theorem all_leftParen (rest : List Char) :
    all ('(' :: rest) = (ofOp .leftParen :: (all rest).1, (all rest).2) := by
  have hat : at? '(' rest = .ok (ofOp .leftParen) := at?_of_opAt? rfl rfl rfl rfl rfl rfl
  exact all_append_of_at? (l := ofOp .leftParen) rfl hat

theorem all_assigned {n : String} (hn : isWord n = true) (rest : List Char) :
    all ((assigned n).flatMap chars ++ '(' :: rest) =
      (assigned n ++ ofOp .leftParen :: (all rest).1, (all rest).2) := by
  have hprinted : ∀ l ∈ assigned n, Printed l := by
    refine List.forall_mem_cons.mpr ⟨.name hn, List.forall_mem_cons.mpr ⟨.space, ?_⟩⟩
    exact List.forall_mem_cons.mpr ⟨.op nofun nofun, List.forall_mem_singleton.mpr .space⟩
  have hapart : (assigned n).IsChain fun l m => l.kind.apart m.kind = true :=
    .cons_cons rfl (.cons_cons rfl (.cons_cons rfl (.singleton _)))
  have hends : ∀ l ∈ (assigned n).getLast?, ∀ c ∈ ('(' :: rest).head?,
      l.kind.mayPrecede c = true := by
    intro l hl c hc
    cases hl
    cases hc
    rfl
  rw [all_flatMap_append hprinted hapart hends, all_leftParen]

end Lexeme

namespace Token

open Lexeme

/-- The tokens of an assignment whose expression stands in parentheses, the closing one on its own
line: those of the expression are enclosed. -/
theorem ofText_assignment {n s : String} (hn : isWord n = true) {ts : List Token}
    (h : ofText s = .ok ts) :
    ∃ before ts' line, Spell 1 before [.name n, .op .assign, .op .leftParen] ∧
      ofText (n ++ " = (" ++ s ++ "\n)") = .ok (before ++ ts') ∧
      Enclosed [⟨.op .rightParen, line, 0⟩, ⟨.newline, line, 0⟩, ⟨.endOfText, line, 0⟩] ts ts' := by
  obtain ⟨ls, hall, hout⟩ := ofChars_eq_ok h
  have hclose : all [')'] = ([ofOp .rightParen], none) := rfl
  obtain ⟨hchars, hbreak⟩ := all_append_newline hall [')']
  rw [hclose] at hbreak
  have htext : (n ++ " = (" ++ s ++ "\n)").toList =
      (assigned n).flatMap chars ++ '(' :: (s.toList ++ ['\n', ')']) := by
    have hassigned : (assigned n).flatMap chars = n.toList ++ [' ', '=', ' '] := rfl
    rw [hassigned]
    simp only [String.toList_append, List.append_assoc]
    rfl
  have hlays : Lays 1 [] (assigned n ++ [ofOp .leftParen]) [(.leftParen, 1)] := by
    have hname : Lays 1 [] [ofName n] [] :=
      lays_singleton (Printed.name hn).newline_not_mem fun _ => ⟨true, rfl⟩
    have hassign : Lays 1 [] [ofOp .assign] [] := lays_op (.op nofun nofun) rfl
    have hopen : Lays 1 [] [ofOp .leftParen] [(.leftParen, 1)] := lays_op (.op nofun nofun) rfl
    exact hname.append (lays_space.append (hassign.append (lays_space.append hopen)))
  obtain ⟨before, inLine, q, hq, hspell, heq⟩ :=
    hlays none false .start (ls ++ [⟨.lineBreak, ['\n']⟩, ofOp .rightParen]) rfl
  have hafter : ∀ inLine, layOut none ⟨[(.leftParen, 1)], inLine⟩ (q.after (ls.flatMap chars))
      [⟨.lineBreak, ['\n']⟩, ofOp .rightParen] =
        .ok [⟨.op .rightParen, (q.after (ls.flatMap chars)).line + 1, 0⟩,
          ⟨.newline, (q.after (ls.flatMap chars)).line + 1, 0⟩,
          ⟨.endOfText, (q.after (ls.flatMap chars)).line + 1, 0⟩] := fun _ => rfl
  obtain ⟨ts', hts', henclosed⟩ := layOut_within (List.cons_ne_nil _ _) hout hq hafter inLine
  have hkinds : kinds (assigned n ++ [ofOp .leftParen]) =
      [.name n, .op .assign, .op .leftParen] := by
    simp [assigned]
  rw [hkinds] at hspell
  refine ⟨before, ts', _, hspell, ?_, henclosed⟩
  rw [ofText, ofChars, htext, all_assigned hn, hbreak]
  rw [List.append_assoc, List.singleton_append] at heq
  exact heq.trans (bind_eq_ok.mpr ⟨ts', hts', rfl⟩)

end Token

end DepsManifest
