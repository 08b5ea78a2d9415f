import DepsManifest.Proofs.Expr.Levels
import DepsManifest.Proofs.Expr.Written
/-! # Reading what is written

The tokens of a written expression are read as the expression, at every position it is written for.
What follows the tokens decides where reading ends, so the statement is about all tokens after them:
`ReadsAt` says that the reader of a level comes to the expression with its own tokens behind it, and
goes on from there as that level does.

## Why not simply "is read as the expression"

In a loop of the grammar the expression read so far is the first operand of what comes next. A
statement about whole expressions would have to take the chain apart from its end; this one composes
from the left, and an operator that groups from the left needs no more than its left operand at its
own level. Where nothing goes on (`Stops`), an expression is read whole (`Readable.read`,
`Readable.test`).

## Readable expressions

An expression is `Readable` if it is read so at its own level. Every other position follows
(`Readable.readsAt`): at a looser one nothing is added, at a tighter one there are parentheses, and
an expression in parentheses is an atom (`Readable.group`). One lemma for each form of expression
says that it is readable if its parts are; what such a lemma has to show is the content of
`readable_of_level` for the loops, and of `readable_whole` for the rest.

The depth of the grammar is bounded from below by the number of tokens, here and in all that
follows. It is there to make the grammar a structural recursion, and a text never reaches it.
-/
namespace DepsManifest

open Parse Token Lexeme

namespace Expr

/-! ## Readable expressions -/

/-- The level of the tokens that an expression at a level has to end before. The loops of the
grammar go on with the expression as their first operand. -/
def endLevel (level : Nat) : Nat :=
  if (5 ≤ level ∧ level ≤ 10) ∨ 13 ≤ level then level + 1
  else if level = 12 then 11
  else level

theorem endLevel_le_succ (level : Nat) : endLevel level ≤ level + 1 := by
  unfold endLevel
  split
  · exact Nat.le_refl _
  · split <;> omega

theorem endLevel_mono {level next : Nat} (h : level ≤ next) : endLevel level ≤ endLevel next := by
  unfold endLevel
  split
  · split
    · omega
    · split <;> omega
  · split
    · split
      · omega
      · split <;> omega
    · split
      · omega
      · split <;> omega

/-- Tokens that begin as an expression of a level does. -/
def Starts (level : Nat) (ks : List TokenKind) : Prop :=
  ∃ k rest start, ks = k :: rest ∧ startLevel? k = some start ∧ level ≤ start

/-- The tokens of an expression at a position. -/
def kindsAt (position : Nat) (e : Expr) : List TokenKind := kinds (e.writtenAt position)

/-- The reader of a level comes to an expression after its tokens on a line, and goes on from there,
in the grammar of expressions nested less than a number deep. -/
def ReadsAt (n line level : Nat) (e : Expr) : Prop :=
  ∀ ts rest r, Spell line ts (e.kindsAt level) → ts.length ≤ n → Stops (endLevel level) rest →
    (grammar n).finish level (e.onLine line) rest = .ok r →
    (grammar n).reader level (ts ++ rest) = .ok r

/-- An expression that is read at its own level, in every grammar that is deep enough. -/
structure Readable (line : Nat) (e : Expr) : Prop where
  starts : Starts e.level (kinds e.written)
  reads : ∀ n, ReadsAt n line e.level e

theorem kindsAt_of_le {e : Expr} {position : Nat} (h : position ≤ e.level) :
    e.kindsAt position = kinds e.written := by
  rw [kindsAt, writtenAt, placed, if_neg (by omega)]

theorem kindsAt_of_lt {e : Expr} {position : Nat} (h : e.level < position) :
    e.kindsAt position = .op .leftParen :: (kinds e.written ++ [.op .rightParen]) := by
  rw [kindsAt, writtenAt, placed, if_pos h, kinds_bracketed]

theorem line_onLine (e : Expr) (line : Nat) : (e.onLine line).line = line := by
  cases e with
  | call _ callee => cases callee <;> rfl
  | _ => rfl

/-! ## Positions -/

theorem Starts.mono {level next : Nat} {ks : List TokenKind} (h : Starts next ks)
    (hle : level ≤ next) : Starts level ks := by
  obtain ⟨k, rest, start, hks, hstart, hlevel⟩ := h
  exact ⟨k, rest, start, hks, hstart, hle.trans hlevel⟩

theorem Starts.append {level : Nat} {ks : List TokenKind} (h : Starts level ks)
    (js : List TokenKind) : Starts level (ks ++ js) := by
  obtain ⟨k, rest, start, rfl, hstart, hlevel⟩ := h
  exact ⟨k, rest ++ js, start, rfl, hstart, hlevel⟩

theorem Starts.current {level line : Nat} {ks : List TokenKind} (h : Starts level ks)
    {ts : List Token} (hts : Spell line ts ks) (rest : List Token) :
    (current (ts ++ rest)).line = line ∧
      ∃ start, startLevel? (current (ts ++ rest)).kind = some start ∧ level ≤ start := by
  obtain ⟨k, ks, start, rfl, hstart, hlevel⟩ := h
  obtain ⟨column, us, rfl, -⟩ := hts.eq_cons
  exact ⟨rfl, start, hstart, hlevel⟩

theorem Starts.kind_ne {level line : Nat} {ks : List TokenKind} (h : Starts level ks)
    {ts : List Token} (hts : Spell line ts ks) (rest : List Token) {kind : TokenKind}
    (hkind : startLevel? kind = none) : (Parse.current (ts ++ rest)).kind ≠ kind := by
  obtain ⟨-, start, hstart, -⟩ := h.current hts rest
  rintro rfl
  rw [hkind] at hstart
  cases hstart

theorem Starts.kind_ne_not {level line : Nat} {ks : List TokenKind} (h : Starts level ks)
    (hlevel : 3 < level) {ts : List Token} (hts : Spell line ts ks) (rest : List Token) :
    (Parse.current (ts ++ rest)).kind ≠ .name "not" := by
  obtain ⟨-, start, hstart, hle⟩ := h.current hts rest
  intro hkind
  rw [hkind] at hstart
  cases hstart
  omega

theorem Starts.level_le {level : Nat} {ks : List TokenKind} (h : Starts level ks) : level ≤ 14 := by
  obtain ⟨k, rest, start, -, hstart, hlevel⟩ := h
  exact hlevel.trans (Grammar.startLevel?_le hstart)

section

variable {line : Nat} {e : Expr}

theorem Readable.startsAt (h : Readable line e) {position : Nat} (hle : position ≤ 14) :
    Starts position (e.kindsAt position) := by
  rcases Nat.lt_or_ge e.level position with hlt | hge
  · rw [kindsAt_of_lt hlt]
    exact ⟨.op .leftParen, _, 14, rfl, rfl, hle⟩
  · rw [kindsAt_of_le hge]
    exact h.starts.mono hge

theorem Readable.readsAt_of_le (h : Readable line e) {position : Nat} (hle : position ≤ e.level)
    (n : Nat) : ReadsAt n line position e := by
  intro ts rest r hts hn hstops
  rw [kindsAt_of_le hle, ← kindsAt_of_le (Nat.le_refl e.level)] at hts
  obtain ⟨distance, hlevel⟩ := Nat.exists_eq_add_of_le hle
  have hstarts := h.startsAt h.starts.level_le
  obtain ⟨-, start, hstart, hstartLevel⟩ := hstarts.current hts rest
  refine Grammar.reader_climb hstart (hlevel ▸ hstartLevel) (hstops.mono (endLevel_le_succ _))
    (fun r hr => ?_) r
  rw [← hlevel] at hr ⊢
  exact h.reads n ts rest r hts hn (hstops.mono (endLevel_mono hle)) hr

theorem Readable.test (h : Readable line e) {n : Nat} {ts rest : List Token}
    (hts : Spell line ts (kinds e.written)) (hn : ts.length ≤ n) (hstops : Stops 0 rest) :
    (grammar (n + 1)).test (ts ++ rest) = .ok (e.onLine line, rest) := by
  have hts' : Spell line ts (e.kindsAt 0) := by rwa [kindsAt_of_le (Nat.zero_le _)]
  exact h.readsAt_of_le (Nat.zero_le _) n ts rest _ hts' hn hstops
    (Grammar.finish_eq _ (hstops.ne (Nat.le_refl 0)))

theorem Readable.testOrStar (h : Readable line e) {n : Nat} {ts rest : List Token}
    (hts : Spell line ts (kinds e.written)) (hn : ts.length ≤ n) (hstops : Stops 0 rest) :
    (grammar (n + 1)).testOrStar (ts ++ rest) = .ok (e.onLine line, rest) := by
  have hstar := h.starts.kind_ne hts rest (show startLevel? (.op .star) = none from rfl)
  rw [Grammar.testOrStar, skipOp?_eq_none hstar]
  exact h.test hts hn hstops

/-- An expression in parentheses is an atom. -/
theorem Readable.group (h : Readable line e) {n : Nat} {ts : List Token}
    (hts : Spell line ts (kinds e.written)) (hn : ts.length < n) (first last : Nat)
    (rest : List Token) :
    (grammar n).atom
      (⟨.op .leftParen, line, first⟩ :: (ts ++ ⟨.op .rightParen, line, last⟩ :: rest)) =
      .ok (e.onLine line, rest) := by
  obtain ⟨n, rfl⟩ : ∃ k, n = k + 1 := ⟨n - 1, by omega⟩
  have hclose := h.starts.kind_ne hts (⟨.op .rightParen, line, last⟩ :: rest)
    (show startLevel? (.op .rightParen) = none from rfl)
  have hstops : Stops 0 (⟨.op .rightParen, line, last⟩ :: rest) := fun l hl => by cases hl
  have hread := h.testOrStar hts (Nat.le_of_lt_succ hn) hstops
  show (grammar (n + 1)).parenthesized line _ = _
  exact Grammar.parenthesized_group hclose hread (beq_self_eq_true _)

/-- An expression is read at every position. -/
theorem Readable.readsAt (h : Readable line e) {position : Nat} (hle : position ≤ 14) (n : Nat) :
    ReadsAt n line position e := by
  rcases Nat.lt_or_ge e.level position with hlt | hge
  · intro ts rest r hts hn hstops
    rw [kindsAt_of_lt hlt] at hts
    obtain ⟨first, us, last, hus, hlength, heq⟩ := hts.eq_bracketed
    obtain ⟨distance, hlevel⟩ := Nat.exists_eq_add_of_le hle
    rw [heq]
    have hstart : ∀ us,
        startLevel? (current (⟨.op .leftParen, line, first⟩ :: us)).kind = some 14 :=
      fun _ => rfl
    refine Grammar.reader_climb (hstart _) (le_of_eq hlevel.symm)
      (hstops.mono (endLevel_le_succ position)) (fun r hr => ?_) r
    rw [← hlevel] at hr ⊢
    exact (h.group hus (by omega) first last rest).trans hr
  · exact h.readsAt_of_le hge n

theorem Stops.endLevel {level : Nat} {ts : List Token} (h : Stops level ts) :
    Stops (endLevel level) ts := by
  intro l hl
  have hlt := h l hl
  have hne : l ≠ 11 := followLevel?_ne_signs hl
  unfold Expr.endLevel
  split
  · omega
  · split <;> omega

/-- An expression at a position is read whole before what its level does not go on with. -/
theorem Readable.read (h : Readable line e) {position : Nat} (hle : position ≤ 14) {n : Nat}
    {ts rest : List Token} (hts : Spell line ts (e.kindsAt position)) (hn : ts.length ≤ n)
    (hstops : Stops position rest) :
    (grammar n).reader position (ts ++ rest) = .ok (e.onLine line, rest) :=
  h.readsAt hle n ts rest _ hts hn (Stops.endLevel hstops)
    (Grammar.finish_eq _ (hstops.ne (Nat.le_refl position)))

theorem readable_of_level {level : Nat} (hlevel : e.level = level)
    (hstarts : Starts level (kinds e.written))
    (h : ∀ n ts rest r, Spell line ts (kinds e.written) → ts.length ≤ n →
      Stops (endLevel level) rest → (grammar n).finish level (e.onLine line) rest = .ok r →
      (grammar n).reader level (ts ++ rest) = .ok r) : Readable line e where
  starts := hlevel ▸ hstarts
  reads := by
    intro n ts rest r hts hn hstops hr
    rw [kindsAt_of_le (Nat.le_refl _)] at hts
    rw [hlevel] at hstops hr ⊢
    exact h n ts rest r hts hn hstops hr

theorem readable_whole {level : Nat} (hlevel : e.level = level) (hend : endLevel level ≤ level)
    (hstarts : Starts level (kinds e.written))
    (h : ∀ n ts rest, Spell line ts (kinds e.written) → ts.length ≤ n →
      Stops (endLevel level) rest →
      (grammar n).reader level (ts ++ rest) = .ok (e.onLine line, rest)) : Readable line e := by
  refine readable_of_level hlevel hstarts fun n ts rest r hts hn hstops hr => ?_
  rw [Grammar.finish_eq _ (hstops.ne hend)] at hr
  cases hr
  exact h n ts rest hts hn hstops

end

end Expr

end DepsManifest
