import DepsManifest.Proofs.Token.Cutting
import DepsManifest.Proofs.Token.Nesting
import DepsManifest.Token.Parse
/-! # Tokens of a text that goes on

The tokens of a text come in logical lines. When the text goes on after a line break, its tokens
stay what they are, line by line, and where the text ended other tokens follow (`Token.Ahead`).
Within one logical line that makes no difference before the end of the line (`Token.OnLine`), which
is what a reader of lines has to know.

Both relations allow for tokens that have moved to other lines. So they also say what becomes of the
tokens of a text that stands further down in another, and `Token.ofChars_append_newline` says both
of two texts with a line break between them. A logical line may also be continued by the parenthesis
that closes around it, as nothing that stands within a line begins with one (`Closes`).

## The way of the proof

Two texts with a line break between them are cut into the lexemes of the first, the line break, and
the lexemes of the second. The lexemes are laid out one by one, in a context of open brackets and of
whether a line has begun:

  * a lexeme becomes no token and changes nothing, or it ends a logical line outside brackets, or it
    becomes a token within one (`place_eq_ok`);
  * in a context further down the same happens further down (`place_down`);
  * so the lexemes of a text become the same tokens some lines further down, where other lexemes
    follow them (`layOut_append`). At the end of the text no bracket is open, so what follows is
    laid out as on its own.
-/
namespace DepsManifest

namespace Token

/-- Tokens that end a logical line, and tokens that end it or close a parenthesis around it. -/
structure Closes (later later' : List Token) : Prop where
  newline : (Parse.current later).kind = .newline
  kind : (Parse.current later').kind = .newline ∨ (Parse.current later').kind = .op .rightParen
  length_le : later.length ≤ later'.length

theorem Closes.kind_ne {later later' : List Token} (h : Closes later later') (kind : TokenKind)
    (hnewline : kind ≠ .newline) (hparen : kind ≠ .op .rightParen) :
    (Parse.current later).kind ≠ kind ∧ (Parse.current later').kind ≠ kind := by
  refine ⟨fun hkind => hnewline (hkind.symm.trans h.newline), fun hkind => ?_⟩
  rcases h.kind with hkind' | hkind'
  · exact hnewline (hkind.symm.trans hkind')
  · exact hparen (hkind.symm.trans hkind')

/-- `OnLine lines later later' ts ts'`: the tokens are the same up to the end of a logical line but
for their lines and columns, and some tokens begin with that end. -/
inductive OnLine (lines : Nat → Nat) (later later' : List Token) : List Token → List Token → Prop
  | lineEnd (h : Closes later later') : OnLine lines later later' later later'
  | token {kind : TokenKind} {ts ts' : List Token} (line column column' : Nat)
      (hnewline : kind ≠ .newline) (hend : kind ≠ .endOfText)
      (h : OnLine lines later later' ts ts') :
      OnLine lines later later' (⟨kind, line, column⟩ :: ts) (⟨kind, lines line, column'⟩ :: ts')

/-- `Ahead lines more ts ts'`: the tokens are the same logical lines but for their line numbers, and
other tokens come where the text ends. -/
inductive Ahead (lines : Nat → Nat) (more : List Token) : List Token → List Token → Prop
  | ending (line column : Nat) (hmore : more ≠ []) :
      Ahead lines more [⟨.endOfText, line, column⟩] more
  | line {kind : TokenKind} {nl nl' : Token} {later later' ts ts' : List Token} (line column : Nat)
      (hnewline : kind ≠ .newline) (hend : kind ≠ .endOfText) (hnl : nl'.kind = .newline)
      (h : OnLine lines (nl :: later) (nl' :: later') ts ts')
      (hlater : Ahead lines more later later') :
      Ahead lines more (⟨kind, line, column⟩ :: ts) (⟨kind, lines line, column⟩ :: ts')

theorem OnLine.closes {lines : Nat → Nat} {later later' ts ts' : List Token}
    (h : OnLine lines later later' ts ts') : Closes later later' := by
  induction h with
  | lineEnd hclose => exact hclose
  | token line column column' hnewline hend h ih => exact ih

theorem OnLine.length_le {lines : Nat → Nat} {later later' ts ts' : List Token}
    (h : OnLine lines later later' ts ts') : ts.length ≤ ts'.length := by
  induction h with
  | lineEnd hclose => exact hclose.length_le
  | token line column column' hnewline hend h ih => exact Nat.succ_le_succ ih

theorem OnLine.length_later_le {lines : Nat → Nat} {later later' ts ts' : List Token}
    (h : OnLine lines later later' ts ts') : later'.length ≤ ts'.length := by
  induction h with
  | lineEnd hclose => exact Nat.le_refl _
  | token line column column' hnewline hend h ih => exact Nat.le_succ_of_le ih

theorem Ahead.ne_nil {lines : Nat → Nat} {more ts ts' : List Token}
    (h : Ahead lines more ts ts') : ts' ≠ [] := by
  cases h with
  | ending line column hmore => exact hmore
  | line line column hnewline hend hnl h hlater => exact List.cons_ne_nil _ _

theorem Ahead.length_le {lines : Nat → Nat} {more ts ts' : List Token}
    (h : Ahead lines more ts ts') : ts.length ≤ ts'.length := by
  cases h with
  | ending line column hmore => exact List.length_pos_iff.mpr hmore
  | line line column hnewline hend hnl h hlater => exact Nat.succ_le_succ h.length_le

theorem Ahead.more_length_le {lines : Nat → Nat} {more ts ts' : List Token}
    (h : Ahead lines more ts ts') : more.length ≤ ts'.length := by
  induction h with
  | ending line column hmore => exact Nat.le_refl _
  | line line column hnewline hend hnl h hlater ih =>
      exact Nat.le_trans ih (Nat.le_of_succ_le (Nat.le_succ_of_le h.length_later_le))

/-- Tokens after which the text goes on, within a logical line or between two. -/
def GoesOn (lines : Nat → Nat) (more : List Token) (inLine : Bool) (ts ts' : List Token) : Prop :=
  if inLine then
    ∃ nl nl' later later', nl'.kind = .newline ∧ OnLine lines (nl :: later) (nl' :: later') ts ts' ∧
      Ahead lines more later later'
  else Ahead lines more ts ts'

theorem Ahead.goesOn {lines : Nat → Nat} {more later later' : List Token}
    (h : Ahead lines more later later') (line column line' column' : Nat) :
    GoesOn lines more true (⟨.newline, line, column⟩ :: later)
      (⟨.newline, line', column'⟩ :: later') :=
  ⟨_, _, later, later', rfl, .lineEnd ⟨rfl, .inl rfl, Nat.succ_le_succ h.length_le⟩, h⟩

end Token

/-! ## Places further down -/

namespace Position

def down (k : Nat) (p : Position) : Position := ⟨p.line + k, p.column⟩

theorem after_down (k : Nat) (p : Position) (cs : List Char) :
    (p.down k).after cs = (p.after cs).down k := by
  induction cs generalizing p with
  | nil => rfl
  | cons c cs ih =>
      have hnext : (p.down k).next c = (p.next c).down k := by
        unfold next down
        split
        · exact congrArg (Position.mk · 0) (Nat.add_right_comm p.line k 1)
        · rfl
      show ((p.down k).next c).after cs = ((p.next c).after cs).down k
      rw [hnext, ih]

theorem after_append (p : Position) (cs ds : List Char) :
    p.after (cs ++ ds) = (p.after cs).after ds :=
  List.foldl_append

theorem line_after_eq (p : Position) (cs : List Char) :
    (p.after cs).line = p.line + cs.count '\n' := by
  induction cs generalizing p with
  | nil => rfl
  | cons c cs ih =>
      show ((p.next c).after cs).line = _
      rw [ih, List.count_cons, next]
      by_cases h : c = '\n'
      · simp only [h, if_true, beq_self_eq_true]
        omega
      · simp [h]

end Position

namespace Token

/-! ## Placing lexemes -/

namespace Context

def down (k : Nat) (c : Context) : Context := ⟨c.opened.map fun o => (o.1, o.2 + k), c.inLine⟩

end Context

theorem openedAfter_down (k : Nat) {opened opened' : List (Op × Nat)} {op : Op} {line : Nat}
    (h : openedAfter opened op line = .ok opened') :
    openedAfter (opened.map fun o => (o.1, o.2 + k)) op (line + k) =
      .ok (opened'.map fun o => (o.1, o.2 + k)) := by
  rcases openedAfter_eq_ok h with ⟨hopens, rfl⟩ | ⟨opening, rfl, hcloses⟩ | ⟨hother, rfl⟩
  · exact openedAfter_opening hopens
  · exact @openedAfter_matched _ (opening.1, opening.2 + k) _ _ hcloses
  · exact openedAfter_of_not_isBracket hother

theorem place_down (k : Nat) {context context' : Context} {line : Nat} {lexeme : Lexeme}
    {kind : Option TokenKind} (h : place context line lexeme = .ok (kind, context')) :
    place (context.down k) (line + k) lexeme = .ok (kind, context'.down k) := by
  have hempty : (context.down k).opened.isEmpty = context.opened.isEmpty := List.isEmpty_map
  unfold place at h ⊢
  cases hkind : lexeme.kind with
  | lineBreak =>
      rw [hkind] at h
      dsimp only at h ⊢
      rw [hempty]
      show (if (context.opened.isEmpty && context.inLine) = true then _ else _) = _
      split at h
      · rename_i hends
        cases h
        rw [if_pos hends]
        rfl
      · rename_i hends
        cases h
        rw [if_neg hends]
  | op op =>
      rw [hkind] at h
      obtain ⟨opened, hopened, hresult⟩ := bind_eq_ok.mp h
      cases hresult
      exact bind_eq_ok.mpr ⟨_, openedAfter_down k hopened, rfl⟩
  | _ =>
      rw [hkind] at h
      cases h
      rfl

/-- A lexeme becomes no token and changes nothing, or it ends a logical line outside brackets, or it
becomes a token within one. -/
theorem place_eq_ok {context context' : Context} {line : Nat} {lexeme : Lexeme}
    {kind : Option TokenKind} (h : place context line lexeme = .ok (kind, context')) :
    kind = none ∧ context' = context ∨
      kind = some .newline ∧ context = ⟨[], true⟩ ∧ context' = ⟨[], false⟩ ∨
      ∃ inner, kind = some inner ∧ inner ≠ .newline ∧ inner ≠ .endOfText ∧
        context'.inLine = true := by
  unfold place at h
  cases hkind : lexeme.kind with
  | blank =>
      rw [hkind] at h
      cases h
      exact .inl ⟨rfl, rfl⟩
  | lineBreak =>
      rw [hkind] at h
      dsimp only at h
      split at h
      · rename_i hends
        obtain ⟨opened, inLine⟩ := context
        obtain ⟨hopened, hin⟩ := Bool.and_eq_true_iff.mp hends
        obtain rfl : opened = [] := List.isEmpty_iff.mp hopened
        obtain rfl : inLine = true := hin
        cases h
        exact .inr (.inl ⟨rfl, rfl, rfl⟩)
      · cases h
        exact .inl ⟨rfl, rfl⟩
  | op op =>
      rw [hkind] at h
      obtain ⟨opened, hopened, hresult⟩ := bind_eq_ok.mp h
      cases hresult
      exact .inr (.inr ⟨_, rfl, nofun, nofun, rfl⟩)
  | _ =>
      rw [hkind] at h
      cases h
      exact .inr (.inr ⟨_, rfl, nofun, nofun, rfl⟩)

/-! ## Laying out -/

theorem layOut_cons_eq_ok {fault : Option SyntaxFault} {context : Context} {p : Position}
    {lexeme : Lexeme} {rest : List Lexeme} {ts : List Token} :
    layOut fault context p (lexeme :: rest) = .ok ts ↔
      ∃ kind context', place context p.line lexeme = .ok (kind, context') ∧
        ∃ us, layOut fault context' (p.after lexeme.chars) rest = .ok us ∧
          ts = (kind.map fun k => ⟨k, p.line, p.column⟩).toList ++ us := by
  rw [layOut]
  cases place context p.line lexeme with
  | error fault => exact ⟨nofun, nofun⟩
  | ok placed =>
      obtain ⟨kind, context'⟩ := placed
      dsimp only
      rw [bind_eq_ok]
      constructor
      · rintro ⟨us, hus, hresult⟩
        refine ⟨kind, context', rfl, us, hus, ?_⟩
        cases kind with
        | none =>
            cases hresult
            rfl
        | some k =>
            cases hresult
            rfl
      · rintro ⟨kind', context'', hplaced, us, hus, rfl⟩
        cases hplaced
        refine ⟨us, hus, ?_⟩
        cases kind with
        | none => rfl
        | some k => rfl

/-- A text ends outside brackets, and with it the logical line that has begun. -/
theorem layOut_nil_eq_ok {fault : Option SyntaxFault} {context : Context} {p : Position}
    {ts : List Token} (h : layOut fault context p [] = .ok ts) :
    context = ⟨[], true⟩ ∧ ts = [⟨.newline, p.line, 0⟩, ⟨.endOfText, p.line, 0⟩] ∨
      context = ⟨[], false⟩ ∧ ts = [⟨.endOfText, p.line, 0⟩] := by
  cases fault with
  | some fault => cases h
  | none =>
      obtain ⟨opened, inLine⟩ := context
      have hend : ending ⟨opened, inLine⟩ p.line = .ok ts := h
      cases opened with
      | cons first outer => cases hend
      | nil =>
          cases inLine with
          | true =>
              cases hend
              exact .inl ⟨rfl, rfl⟩
          | false =>
              cases hend
              exact .inr ⟨rfl, rfl⟩

theorem layOut_some_ne_ok (fault : SyntaxFault) (context : Context) (p : Position)
    (ls : List Lexeme) (ts : List Token) : layOut (some fault) context p ls ≠ .ok ts := by
  induction ls generalizing context p ts with
  | nil => exact nofun
  | cons lexeme rest ih =>
      intro h
      obtain ⟨kind, context', -, us, hus, -⟩ := layOut_cons_eq_ok.mp h
      exact ih context' (p.after lexeme.chars) us hus

theorem GoesOn.placed {lines : Nat → Nat} {more us us' : List Token} {context context' : Context}
    (h : GoesOn lines more context'.inLine us us') {p p' : Position} {lexeme : Lexeme}
    {kind : Option TokenKind} (hplace : place context p.line lexeme = .ok (kind, context'))
    (hp : ∀ inner, kind = some inner → inner ≠ .newline → p' = ⟨lines p.line, p.column⟩) :
    GoesOn lines more context.inLine
      ((kind.map fun k => ⟨k, p.line, p.column⟩).toList ++ us)
      ((kind.map fun k => ⟨k, p'.line, p'.column⟩).toList ++ us') := by
  rcases place_eq_ok hplace with ⟨rfl, rfl⟩ | ⟨rfl, rfl, rfl⟩ | ⟨inner, rfl, h1, h2, hin⟩
  · exact h
  · exact Ahead.goesOn h _ _ _ _
  · cases hp inner rfl h1
    rw [hin] at h
    obtain ⟨nl, nl', later, later', hnl, hline, hahead⟩ := h
    cases context.inLine with
    | true => exact ⟨nl, nl', later, later', hnl, .token _ _ _ h1 h2 hline, hahead⟩
    | false => exact .line p.line p.column h1 h2 hnl hline hahead

/-- Lexemes that are laid out to the end of a text become the same tokens some lines further down,
where other lexemes follow them. -/
theorem layOut_append {k : Nat} {fault : Option SyntaxFault} {after : List Lexeme}
    {more : List Token} (hmore : more ≠ []) {ls : List Lexeme} {context : Context} {p : Position}
    {ts : List Token} (h : layOut none context p ls = .ok ts) (column : Nat)
    (hafter : ∀ inLine,
      layOut fault ⟨[], inLine⟩ ((p.after (ls.flatMap Lexeme.chars)).down k) after =
      .ok (if inLine then ⟨.newline, (p.after (ls.flatMap Lexeme.chars)).line + k, column⟩ :: more
        else more)) :
    ∃ ts', layOut fault (context.down k) (p.down k) (ls ++ after) = .ok ts' ∧
      GoesOn (· + k) more context.inLine ts ts' := by
  induction ls generalizing context p ts with
  | nil =>
      rcases layOut_nil_eq_ok h with ⟨rfl, rfl⟩ | ⟨rfl, rfl⟩
      · exact ⟨_, hafter true, Ahead.goesOn (.ending p.line 0 hmore) _ _ _ _⟩
      · exact ⟨_, hafter false, .ending p.line 0 hmore⟩
  | cons lexeme rest ih =>
      obtain ⟨kind, context', hplace, us, hus, rfl⟩ := layOut_cons_eq_ok.mp h
      rw [List.flatMap_cons, Position.after_append] at hafter
      obtain ⟨us', hus', hgoes⟩ := ih hus hafter
      refine ⟨_, layOut_cons_eq_ok.mpr
        ⟨kind, context'.down k, place_down k hplace, us', ?_, rfl⟩, ?_⟩
      · rw [Position.after_down]
        exact hus'
      · exact hgoes.placed hplace fun _ _ _ => rfl

theorem ofChars_eq_ok {cs : List Char} {ts : List Token} (h : ofChars cs = .ok ts) :
    ∃ ls, Lexeme.all cs = (ls, none) ∧ layOut none ⟨[], false⟩ .start ls = .ok ts := by
  unfold ofChars at h
  cases hall : Lexeme.all cs with
  | mk ls fault =>
      rw [hall] at h
      cases fault with
      | none => exact ⟨ls, rfl, h⟩
      | some fault => exact absurd h (layOut_some_ne_ok fault _ _ ls ts)

theorem layOut_nil (p : Position) (inLine : Bool) : layOut none ⟨[], inLine⟩ p [] =
    .ok (if inLine then ⟨.newline, p.line, 0⟩ :: [⟨.endOfText, p.line, 0⟩]
      else [⟨.endOfText, p.line, 0⟩]) := by
  cases inLine with
  | true => rfl
  | false => rfl

theorem ofChars_ahead {cs : List Char} {ts : List Token} (h : ofChars cs = .ok ts) :
    ∃ line, Ahead id [⟨.endOfText, line, 0⟩] ts ts := by
  obtain ⟨ls, -, hout⟩ := ofChars_eq_ok h
  obtain ⟨us, hus, hahead⟩ := layOut_append (k := 0) (List.cons_ne_nil _ _) hout 0 (layOut_nil _)
  rw [List.append_nil] at hus
  obtain rfl : us = ts := Except.ok.inj (hus.symm.trans hout)
  exact ⟨_, hahead⟩

/-- Two texts with a line break between them have the tokens of the first, and then those of the
second further down. -/
theorem ofChars_append_newline {cs cs' : List Char} {ts ts' : List Token}
    (h : ofChars cs = .ok ts) (h' : ofChars cs' = .ok ts') :
    ∃ line more both, Ahead (· + (cs.count '\n' + 1)) [⟨.endOfText, line, 0⟩] ts' more ∧
      Ahead (· + 0) more ts both ∧ ofChars (cs ++ '\n' :: cs') = .ok both := by
  obtain ⟨ls, hall, hout⟩ := ofChars_eq_ok h
  obtain ⟨ls', hall', hout'⟩ := ofChars_eq_ok h'
  obtain ⟨hchars, hboth⟩ := Lexeme.all_append_newline hall cs'
  obtain ⟨more, hmore, hsecond⟩ := layOut_append (k := cs.count '\n' + 1) (List.cons_ne_nil _ _)
    hout' 0 (layOut_nil _)
  rw [List.append_nil] at hmore
  have hline : (Position.start.after cs).line + 1 = 1 + (cs.count '\n' + 1) := by
    rw [Position.line_after_eq]
    show 1 + cs.count '\n' + 1 = _
    omega
  have hbreak : ∀ inLine, layOut none ⟨[], inLine⟩
      ((Position.start.after (ls.flatMap Lexeme.chars)).down 0) (⟨.lineBreak, ['\n']⟩ :: ls') =
      .ok (if inLine then ⟨.newline, (Position.start.after (ls.flatMap Lexeme.chars)).line + 0,
        (Position.start.after (ls.flatMap Lexeme.chars)).column⟩ :: more else more) := by
    intro inLine
    have hstart : ((Position.start.after cs).down 0).after ['\n'] =
        Position.start.down (cs.count '\n' + 1) := congrArg (Position.mk · 0) hline
    rw [hchars, layOut_cons_eq_ok]
    cases inLine with
    | true => exact ⟨some .newline, ⟨[], false⟩, rfl, more, by rw [hstart]; exact hmore, rfl⟩
    | false => exact ⟨none, ⟨[], false⟩, rfl, more, by rw [hstart]; exact hmore, rfl⟩
  obtain ⟨both, hresult, hfirst⟩ := layOut_append (Ahead.ne_nil hsecond) hout _ hbreak
  refine ⟨_, more, both, hsecond, hfirst, ?_⟩
  rw [ofChars, hboth, hall']
  exact hresult

end Token

end DepsManifest
