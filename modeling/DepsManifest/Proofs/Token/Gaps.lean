import DepsManifest.Proofs.Token.LogicalLines
/-! # Gaps between tokens

What stands between two tokens is no part of the tokens. Where one ends, blanks and continued line
breaks can be put in, and inside brackets also line breaks and comments (`Token.Gap`). The text then
has tokens of the same kinds (`Token.ofText_gap`); their lines and columns are others.

## Hypotheses

  * The place is after a lexeme that is not blank (`SplitAfter`). After a comment the gap would be
    taken in by it, so a gap goes after the token that the comment follows.
  * For line breaks and comments in the gap, some bracket is open at the place.

## The way of the proof

  * The lexemes up to the place stay as they are, since a gap ends each of them
    (`Lexeme.all_separated`).
  * What comes after them is the gap, cut into lexemes that become no tokens, and then the lexemes
    that came before. Only blanks that the gap ends with may be one lexeme with those that the rest
    of the text began with; so the two are compared from the first lexeme on that may become a token
    (`Lexeme.afterSilence_gap`).
  * All tokens are laid out on other lines and in other columns, which makes no difference to their
    kinds: what counts of the open brackets is what they are, and not where (`layOut_alike`).
-/
namespace DepsManifest

open Lexeme

/-- The texts that can stand between two tokens, outside brackets or inside. A comment goes on to
the line break that ends it. -/
inductive Gap (bracketed : Bool) : List Char → Prop
  | nil : Gap bracketed []
  | space {c : Char} {gap : List Char} (hspace : isSpace c = true) (h : Gap bracketed gap) :
      Gap bracketed (c :: gap)
  | continuation {gap : List Char} (h : Gap bracketed gap) : Gap bracketed ('\\' :: '\n' :: gap)
  | returnContinuation {gap : List Char} (h : Gap bracketed gap) :
      Gap bracketed ('\\' :: '\r' :: '\n' :: gap)
  | lineBreak {gap : List Char} (hbracketed : bracketed = true) (h : Gap bracketed gap) :
      Gap bracketed ('\n' :: gap)
  | returnLineBreak {gap : List Char} (hbracketed : bracketed = true) (h : Gap bracketed gap) :
      Gap bracketed ('\r' :: '\n' :: gap)
  | comment {line gap : List Char} (hbracketed : bracketed = true) (hline : '\n' ∉ line)
      (h : Gap bracketed gap) : Gap bracketed ('#' :: (line ++ '\n' :: gap))

theorem mem_gapStarts_of_isSpace {c : Char} (h : isSpace c = true) : c ∈ gapStarts := by
  simp only [isSpace, Bool.or_eq_true, beq_iff_eq, or_assoc] at h
  rcases h with rfl | rfl | rfl
  · decide
  · decide
  · decide

theorem Gap.opensGap {bracketed : Bool} {gap : List Char} (h : Gap bracketed gap) (hne : gap ≠ [])
    (rest : List Char) : OpensGap (gap ++ rest) := by
  cases h with
  | nil => exact absurd rfl hne
  | space hspace _ => exact opensGap_cons (mem_gapStarts_of_isSpace hspace) _
  | continuation _ => exact opensGap_cons (by decide) _
  | returnContinuation _ => exact opensGap_cons (by decide) _
  | lineBreak _ _ => exact opensGap_cons (by decide) _
  | returnLineBreak _ _ => exact opensGap_cons (by decide) _
  | comment _ _ _ => exact opensGap_cons (by decide) _

/-! ## Lexemes of a gap -/

namespace Lexeme

/-- Whether a lexeme becomes no token, outside brackets or inside. -/
def silent (bracketed : Bool) (l : Lexeme) : Bool :=
  match l.kind with
  | .blank => true
  | .lineBreak => bracketed
  | _ => false

/-- The lexemes of a text from the first on that may become a token. -/
def afterSilence (bracketed : Bool) (cs : List Char) : List Lexeme × Option SyntaxFault :=
  ((all cs).1.dropWhile (silent bracketed), (all cs).2)

variable {bracketed : Bool}

theorem afterSilence_append {l : Lexeme} {c : Char} {cs rest : List Char}
    (hchars : l.chars = c :: cs) (hat : at? c (cs ++ rest) = .ok l)
    (hsilent : l.silent bracketed = true) :
    afterSilence bracketed (c :: (cs ++ rest)) = afterSilence bracketed rest := by
  have hall := all_append_of_at? hchars hat
  rw [hchars, List.cons_append] at hall
  rw [afterSilence, hall]
  exact congrArg (Prod.mk · (all rest).2) (List.dropWhile_cons_of_pos hsilent)

theorem afterSilence_newline (h : bracketed = true) (rest : List Char) :
    afterSilence bracketed ('\n' :: rest) = afterSilence bracketed rest :=
  afterSilence_append (l := ⟨.lineBreak, ['\n']⟩) rfl (at?_newline rest) h

theorem afterSilence_dropWhile (cs : List Char) :
    afterSilence bracketed (cs.dropWhile isSpace) = afterSilence bracketed cs := by
  cases cs with
  | nil => rfl
  | cons c cs =>
      by_cases hspace : isSpace c = true
      · have hat := at?_of_isSpace hspace cs
        rw [List.takeWhile_cons_of_pos hspace] at hat
        have hsplit : cs.takeWhile isSpace ++ cs.dropWhile isSpace = cs :=
          List.takeWhile_append_dropWhile
        rw [List.dropWhile_cons_of_pos hspace]
        generalize cs.takeWhile isSpace = run at hat hsplit
        generalize cs.dropWhile isSpace = rest at hsplit ⊢
        subst hsplit
        exact (afterSilence_append rfl hat rfl).symm
      · rw [List.dropWhile_cons_of_neg hspace]

theorem afterSilence_space {c : Char} (h : isSpace c = true) (cs : List Char) :
    afterSilence bracketed (c :: cs) = afterSilence bracketed cs := by
  rw [← afterSilence_dropWhile (c :: cs), List.dropWhile_cons_of_pos h, afterSilence_dropWhile]

/-- A gap at the beginning of a text does not count. -/
theorem afterSilence_gap {gap : List Char} (h : Gap bracketed gap) (cs : List Char) :
    afterSilence bracketed (gap ++ cs) = afterSilence bracketed cs := by
  induction h with
  | nil => rfl
  | space hspace _ ih => exact (afterSilence_space hspace _).trans ih
  | continuation _ ih =>
      exact (afterSilence_append (l := ⟨.blank, ['\\', '\n']⟩) rfl rfl rfl).trans ih
  | returnContinuation _ ih =>
      exact (afterSilence_append (l := ⟨.blank, ['\\', '\r', '\n']⟩) rfl rfl rfl).trans ih
  | lineBreak hbracketed _ ih => exact (afterSilence_newline hbracketed _).trans ih
  | returnLineBreak hbracketed _ ih =>
      exact (afterSilence_append (l := ⟨.lineBreak, ['\r', '\n']⟩) rfl rfl hbracketed).trans ih
  | @comment line gap hbracketed hline _ ih =>
      rw [List.cons_append, List.append_assoc, List.cons_append,
        afterSilence_append rfl (at?_comment hline (gap ++ cs)) rfl,
        afterSilence_newline hbracketed]
      exact ih

end Lexeme

/-! ## Laying out -/

namespace Token

/-- The same brackets are open, though on other lines. -/
def Context.Alike (c c' : Context) : Prop :=
  c.opened.map Prod.fst = c'.opened.map Prod.fst ∧ c.inLine = c'.inLine

theorem openedAfter_alike {opened opened' left : List (Op × Nat)} {op : Op} {line : Nat}
    (h : openedAfter opened op line = .ok left)
    (halike : opened.map Prod.fst = opened'.map Prod.fst) (line' : Nat) :
    ∃ left', openedAfter opened' op line' = .ok left' ∧
      left.map Prod.fst = left'.map Prod.fst := by
  rcases openedAfter_eq_ok h with ⟨hopens, rfl⟩ | ⟨opening, rfl, hcloses⟩ | ⟨hother, rfl⟩
  · exact ⟨_, openedAfter_opening hopens, congrArg (op :: ·) halike⟩
  · cases opened' with
    | nil => cases halike
    | cons opening' outer =>
        obtain ⟨hsame, houter⟩ := List.cons.inj halike
        have hcloses' : op.closes opening'.1 = true := by rwa [← hsame]
        exact ⟨outer, openedAfter_matched hcloses', houter⟩
  · exact ⟨opened', openedAfter_of_not_isBracket hother, halike⟩

/-- A lexeme becomes a token of the same kind. -/
theorem place_alike {c c' d : Context} {line : Nat} {l : Lexeme} {kind : Option TokenKind}
    (h : place c line l = .ok (kind, d)) (halike : c.Alike c') (line' : Nat) :
    ∃ d', place c' line' l = .ok (kind, d') ∧ d.Alike d' := by
  obtain ⟨hopened, hin⟩ := halike
  have hempty : c.opened.isEmpty = c'.opened.isEmpty := by
    have hmap := congrArg List.isEmpty hopened
    rwa [List.isEmpty_map, List.isEmpty_map] at hmap
  unfold place at h ⊢
  cases hkind : l.kind with
  | lineBreak =>
      rw [hkind] at h
      dsimp only at h ⊢
      rw [← hempty, ← hin]
      split at h
      · rename_i hends
        cases h
        exact ⟨_, if_pos hends, hopened, rfl⟩
      · rename_i hgoesOn
        cases h
        exact ⟨_, if_neg hgoesOn, hopened, hin⟩
  | op op =>
      rw [hkind] at h
      obtain ⟨left, hleft, hresult⟩ := bind_eq_ok.mp h
      cases hresult
      obtain ⟨left', hleft', hsame⟩ := openedAfter_alike hleft hopened line'
      exact ⟨_, bind_eq_ok.mpr ⟨left', hleft', rfl⟩, hsame, rfl⟩
  | blank =>
      rw [hkind] at h
      cases h
      exact ⟨_, rfl, hopened, hin⟩
  | _ =>
      rw [hkind] at h
      cases h
      exact ⟨_, rfl, hopened, rfl⟩

theorem place_silent {bracketed : Bool} {l : Lexeme} (h : l.silent bracketed = true) {c : Context}
    (hopen : bracketed = true → c.opened ≠ []) (line : Nat) : place c line l = .ok (none, c) := by
  unfold Lexeme.silent at h
  unfold place
  cases hkind : l.kind with
  | blank => rfl
  | lineBreak =>
      rw [hkind] at h
      dsimp only at h ⊢
      have hsome : c.opened.isEmpty = false := List.isEmpty_eq_false_iff.mpr (hopen h)
      rw [hsome]
      rfl
  | _ =>
      rw [hkind] at h
      cases h

theorem layOut_dropWhile {bracketed : Bool} {c : Context}
    (hopen : bracketed = true → c.opened ≠ []) (p : Position) (ls : List Lexeme) :
    ∃ q, layOut none c p ls = layOut none c q (ls.dropWhile (Lexeme.silent bracketed)) := by
  induction ls generalizing p with
  | nil => exact ⟨p, rfl⟩
  | cons l ls ih =>
      by_cases hsilent : l.silent bracketed = true
      · obtain ⟨q, hq⟩ := ih (p.after l.chars)
        refine ⟨q, ?_⟩
        rw [List.dropWhile_cons_of_pos hsilent, ← hq, layOut, place_silent hsilent hopen]
        exact bind_pure _
      · rw [List.dropWhile_cons_of_neg hsilent]
        exact ⟨p, rfl⟩

/-- Two runs over the same lexemes give tokens of the same kinds, if what comes after the lexemes
does. -/
theorem layOut_alike {ls later later' : List Lexeme} {c c' : Context} {p : Position}
    {ts : List Token} (h : layOut none c p (ls ++ later) = .ok ts) (halike : c.Alike c')
    (p' : Position)
    (hlater : ∀ d d' q q' us, leftOpen c.opened (Lexeme.operators p.line ls) = .ok d.opened →
      d.Alike d' → layOut none d q later = .ok us →
        ∃ us', layOut none d' q' later' = .ok us' ∧ us'.map Token.kind = us.map Token.kind) :
    ∃ ts', layOut none c' p' (ls ++ later') = .ok ts' ∧ ts'.map Token.kind = ts.map Token.kind := by
  induction ls generalizing c c' p p' ts with
  | nil => exact hlater c c' p p' ts rfl halike h
  | cons l ls ih =>
      obtain ⟨kind, d, hplace, us, hus, rfl⟩ := layOut_cons_eq_ok.mp h
      obtain ⟨d', hplace', halike'⟩ := place_alike hplace halike p'.line
      obtain ⟨us', hus', hkinds⟩ := ih hus halike' (p'.after l.chars) fun e e' q q' us hleft => by
        refine hlater e e' q q' us ?_
        rw [Lexeme.operators, leftOpen_append, leftOpen_placed hplace, ← Position.line_after_eq]
        exact hleft
      refine ⟨_, layOut_cons_eq_ok.mpr ⟨kind, d', hplace', us', hus', rfl⟩, ?_⟩
      cases kind with
      | none => exact hkinds
      | some kind => exact congrArg (kind :: ·) hkinds

theorem layOut_nil_alike {c c' : Context} {p : Position} {ts : List Token}
    (h : layOut none c p [] = .ok ts) (halike : c.Alike c') (p' : Position) :
    ∃ ts', layOut none c' p' [] = .ok ts' ∧ ts'.map Token.kind = ts.map Token.kind := by
  obtain ⟨opened', inLine'⟩ := c'
  obtain ⟨hopened, hin⟩ := halike
  rcases layOut_nil_eq_ok h with ⟨rfl, rfl⟩ | ⟨rfl, rfl⟩
  · obtain rfl : opened' = [] := List.map_eq_nil_iff.mp hopened.symm
    obtain rfl : true = inLine' := hin
    exact ⟨_, rfl, rfl⟩
  · obtain rfl : opened' = [] := List.map_eq_nil_iff.mp hopened.symm
    obtain rfl : false = inLine' := hin
    exact ⟨_, rfl, rfl⟩

/-- What differs in silent lexemes only is laid out alike. -/
theorem layOut_silence {bracketed : Bool} {ls ls' : List Lexeme}
    (hsame : ls.dropWhile (Lexeme.silent bracketed) = ls'.dropWhile (Lexeme.silent bracketed))
    {c c' : Context} (hopen : bracketed = true → c.opened ≠ []) (halike : c.Alike c') {p : Position}
    {ts : List Token} (h : layOut none c p ls = .ok ts) (p' : Position) :
    ∃ ts', layOut none c' p' ls' = .ok ts' ∧ ts'.map Token.kind = ts.map Token.kind := by
  have hopen' : bracketed = true → c'.opened ≠ [] := by
    intro hbracketed hnone
    have hmap := halike.1
    rw [hnone] at hmap
    exact hopen hbracketed (List.map_eq_nil_iff.mp hmap)
  obtain ⟨q, hq⟩ := layOut_dropWhile hopen p ls
  obtain ⟨q', hq'⟩ := layOut_dropWhile hopen' p' ls'
  rw [hq, hsame] at h
  rw [hq']
  rw [← List.append_nil (ls'.dropWhile _)] at h ⊢
  exact layOut_alike h halike q' fun d d' r r' us _ halike' hus => layOut_nil_alike hus halike' r'

/-! ## The tokens of a text -/

/-- A text goes on after some of its lexemes, of which the last is not blank. -/
structure SplitAfter (ls : List Lexeme) (s t : String) : Prop where
  lexemes : ∃ later, Lexeme.all (s ++ t).toList = (ls ++ later, none)
  chars : ls.flatMap Lexeme.chars = s.toList
  ends : ∀ l ∈ ls.getLast?, l.kind ≠ .blank

/-- A gap after a token leaves the tokens what they are. Inside brackets it may go on over lines. -/
theorem ofText_gap {s t gap : String} {ts : List Token} (h : ofText (s ++ t) = .ok ts)
    {ls : List Lexeme} (hsplit : SplitAfter ls s t) {bracketed : Bool}
    (hgap : Gap bracketed gap.toList)
    (hopen : bracketed = true → ∃ opening outer,
      LeavesOpen (opening :: outer) (brackets (Lexeme.operators 1 ls))) :
    ∃ ts', ofText (s ++ gap ++ t) = .ok ts' ∧ ts'.map Token.kind = ts.map Token.kind := by
  by_cases hne : gap.toList = []
  · rw [String.toList_eq_nil_iff] at hne
    subst hne
    rw [String.append_empty]
    exact ⟨ts, h, rfl⟩
  obtain ⟨later, hall⟩ := hsplit.lexemes
  have hout : layOut none ⟨[], false⟩ .start (ls ++ later) = .ok ts := by
    rwa [ofText, ofChars, hall] at h
  rw [String.toList_append, ← hsplit.chars] at hall
  obtain ⟨ht, hboth⟩ := Lexeme.all_separated hall (hgap.opensGap hne t.toList) fun l hl hblank =>
    absurd hblank (hsplit.ends l hl)
  -- after the gap come the lexemes that came before, and no fault
  have hsame := Lexeme.afterSilence_gap hgap t.toList
  rw [Lexeme.afterSilence, Lexeme.afterSilence, ht] at hsame
  obtain ⟨hlater, hnone⟩ := Prod.mk.inj hsame
  have htext : (s ++ gap ++ t).toList = ls.flatMap Lexeme.chars ++ (gap.toList ++ t.toList) := by
    rw [String.toList_append, String.toList_append, List.append_assoc, hsplit.chars]
  rw [ofText, ofChars, htext, hboth, hnone]
  refine layOut_alike hout ⟨rfl, rfl⟩ .start fun d d' q q' us hleft halike hus => ?_
  refine layOut_silence hlater.symm ?_ halike hus q'
  intro hbracketed hclosed
  obtain ⟨opening, outer, hleaves⟩ := hopen hbracketed
  have hboth := leftOpen_eq_ok.mpr hleaves
  rw [hclosed] at hleft
  cases hleft.symm.trans hboth

theorem ofText_gap_bracketed :
    ∃ ts', ofText ("x = [1" ++ " # c\r\n\\\n\t" ++ ", 'a']") = .ok ts' ∧
      ts'.map Token.kind = [.name "x", .op .assign, .op .leftBracket, .number "1", .op .comma,
        .literal .text "a", .op .rightBracket, .newline, .endOfText] := by
  have htokens : ofText ("x = [1" ++ ", 'a']") = .ok [⟨.name "x", 1, 0⟩, ⟨.op .assign, 1, 2⟩,
      ⟨.op .leftBracket, 1, 4⟩, ⟨.number "1", 1, 5⟩, ⟨.op .comma, 1, 6⟩, ⟨.literal .text "a", 1, 8⟩,
      ⟨.op .rightBracket, 1, 11⟩, ⟨.newline, 1, 0⟩, ⟨.endOfText, 1, 0⟩] := by decide +kernel
  have hsplit : SplitAfter [⟨.name, ['x']⟩, ⟨.blank, [' ']⟩, ⟨.op .assign, ['=']⟩, ⟨.blank, [' ']⟩,
      ⟨.op .leftBracket, ['[']⟩, ⟨.number, ['1']⟩] "x = [1" ", 'a']" := by
    refine ⟨⟨[⟨.op .comma, [',']⟩, ⟨.blank, [' ']⟩, ⟨.literal .text "a", ['\'', 'a', '\'']⟩,
      ⟨.op .rightBracket, [']']⟩], by decide +kernel⟩, by decide +kernel, by decide⟩
  have hline : '\n' ∉ [' ', 'c', '\r'] := by decide
  have hgap : Gap true " # c\r\n\\\n\t".toList :=
    .space rfl (.comment rfl hline (.continuation (.space rfl .nil)))
  refine ofText_gap htokens hsplit hgap fun _ => ⟨(.leftBracket, 1), [], ?_⟩
  exact leftOpen_eq_ok.mp rfl

end Token

end DepsManifest
