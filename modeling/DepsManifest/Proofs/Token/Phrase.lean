import DepsManifest.Proofs.Token.Lexing
import DepsManifest.Proofs.Token.Nesting
/-! # Phrases

Lexemes that read as one piece of text wherever it is put: words and literals with operators and
brackets around and between them, and single blanks where two lexemes would run together. Whatever
is printed as a phrase (`Phrase`) comes back from its text as it was put together:

    Phrase.all_flatMap_chars    its lexemes are cut apart again
    Token.lays_of_phrase        they become tokens on one line, and leave no bracket open
    Token.ofText_of_phrase      so the tokens of its text are its own, and the end of the text

Nothing here knows what a phrase means. To print something as a phrase is to build it by the
constructors of `Phrase`, and that is all that a printed form has to show.

## The two inductions

Both are over the phrase. That the lexemes are cut apart again needs that none runs on into the next
(`Chained`). What a phrase begins with is one of a few kinds of lexemes (`Phrase.isFirst_head`), and
what stands before a phrase is apart from all of them.

Laying out goes lexeme by lexeme with a stack of open brackets; `Lays` says what becomes of the
stack over some lexemes, so that two runs of lexemes one after the other compose (`Lays.append`).
-/
namespace DepsManifest

namespace Lexeme

/-! ## Tokens of lexemes -/

/-- The token that a lexeme becomes, if it becomes one. -/
def token? (l : Lexeme) : Option TokenKind :=
  match l.kind with
  | .blank | .lineBreak => none
  | .name => some (.name (String.ofList l.chars))
  | .number => some (.number (String.ofList l.chars))
  | .literal kind text => some (.literal kind text)
  | .op op => some (.op op)

/-- The tokens that lexemes become. -/
def kinds (ls : List Lexeme) : List TokenKind := ls.filterMap token?

@[simp] theorem kinds_nil : kinds [] = [] := rfl

@[simp] theorem kinds_space (ls : List Lexeme) : kinds (space :: ls) = kinds ls := rfl

@[simp] theorem kinds_ofOp (op : Op) (ls : List Lexeme) :
    kinds (ofOp op :: ls) = .op op :: kinds ls := rfl

@[simp] theorem kinds_ofName (n : String) (ls : List Lexeme) :
    kinds (ofName n :: ls) = .name n :: kinds ls := by
  simp [kinds, token?, ofName]

@[simp] theorem kinds_ofText (text : String) (ls : List Lexeme) :
    kinds (ofText text :: ls) = .literal .text text :: kinds ls := rfl

@[simp] theorem kinds_append (ls ms : List Lexeme) : kinds (ls ++ ms) = kinds ls ++ kinds ms :=
  List.filterMap_append

/-! ## Phrases -/

/-- Lexemes between two brackets. -/
def bracketed (opening close : Op) (inner : List Lexeme) : List Lexeme :=
  ofOp opening :: (inner ++ [ofOp close])

@[simp] theorem kinds_bracketed (opening close : Op) (inner : List Lexeme) :
    kinds (bracketed opening close inner) = .op opening :: (kinds inner ++ [.op close]) := by
  simp [bracketed]

@[simp] theorem bracketed_ne_nil (opening close : Op) (inner : List Lexeme) :
    bracketed opening close inner ≠ [] := List.cons_ne_nil _ _

@[simp] theorem getLast?_bracketed (opening close : Op) (inner : List Lexeme) :
    (bracketed opening close inner).getLast? = some (ofOp close) := by
  show ((ofOp opening :: inner) ++ [ofOp close]).getLast? = some (ofOp close)
  exact List.getLast?_concat

def isInner (o : Op) : Bool :=
  !o.opensGroup && !o.closesGroup && o != .dot && o != .ellipsis && o != .assign

/-- Whether an operator can stand right after another one. -/
def isTight (o : Op) : Bool := !o.chars.head?.any isOpPart

/-- Lexemes that stay together whatever they are put next to. -/
inductive Phrase : List Lexeme → Prop
  | name {n : String} : isWord n = true → Phrase [ofName n]
  | text (text : String) : Phrase [ofText text]
  | sign {o : Op} {ls : List Lexeme} : isInner o = true → isTight o = true → Phrase ls →
      Phrase (ofOp o :: ls)
  | mark {o : Op} {ls : List Lexeme} : isInner o = true → isTight o = true → Phrase ls →
      Phrase (ls ++ [ofOp o])
  | spaced {ls ms : List Lexeme} : Phrase ls → Phrase ms → Phrase (ls ++ space :: ms)
  | operator {o : Op} {ls ms : List Lexeme} : isInner o = true → Phrase ls → Phrase ms →
      Phrase (ls ++ space :: ofOp o :: space :: ms)
  | group {opening close : Op} {inner : List Lexeme} : opening.opensGroup = true →
      close.closes opening = true → (inner ≠ [] → Phrase inner) →
      Phrase (bracketed opening close inner)
  | applied {opening close : Op} {ls inner : List Lexeme} : opening.opensGroup = true →
      close.closes opening = true → Phrase ls → (inner ≠ [] → Phrase inner) →
      Phrase (ls ++ bracketed opening close inner)

theorem printed_of_opensGroup {o : Op} (h : o.opensGroup = true) : Printed (ofOp o) := by
  refine .op ?_ ?_ <;> rintro rfl <;> cases h

theorem printed_of_closesGroup {o : Op} (h : o.closesGroup = true) : Printed (ofOp o) := by
  refine .op ?_ ?_ <;> rintro rfl <;> cases h

theorem printed_of_isInner {o : Op} (h : isInner o = true) : Printed (ofOp o) := by
  refine .op ?_ ?_ <;> rintro rfl <;> cases h

theorem forall_mem_of_ne_nil {p : Lexeme → Prop} {ls : List Lexeme}
    (h : ls ≠ [] → ∀ l ∈ ls, p l) : ∀ l ∈ ls, p l :=
  fun l hl => h (List.ne_nil_of_mem hl) l hl

theorem printed_bracketed {opening close : Op} {inner : List Lexeme}
    (hopening : opening.opensGroup = true) (hclose : close.closes opening = true)
    (h : inner ≠ [] → ∀ l ∈ inner, Printed l) :
    ∀ l ∈ bracketed opening close inner, Printed l := by
  simp only [bracketed, List.forall_mem_append, List.forall_mem_cons]
  exact ⟨printed_of_opensGroup hopening, forall_mem_of_ne_nil h,
    printed_of_closesGroup (Op.closesGroup_of_closes hclose), fun _ h => nomatch h⟩

theorem isTight_of_opensGroup {o : Op} (h : o.opensGroup = true) : isTight o = true := by
  cases o <;> first | rfl | cases h

theorem isTight_of_closesGroup {o : Op} (h : o.closesGroup = true) : isTight o = true := by
  cases o <;> first | rfl | cases h

theorem Phrase.printed {ls : List Lexeme} (h : Phrase ls) : ∀ l ∈ ls, Printed l := by
  induction h with
  | name h => exact List.forall_mem_singleton.mpr (.name h)
  | text text => exact List.forall_mem_singleton.mpr (.text text)
  | sign hop _ _ ih => exact List.forall_mem_cons.mpr ⟨printed_of_isInner hop, ih⟩
  | mark hop _ _ ih =>
      exact List.forall_mem_append.mpr
        ⟨ih, List.forall_mem_singleton.mpr (printed_of_isInner hop)⟩
  | spaced _ _ ih₁ ih₂ =>
      exact List.forall_mem_append.mpr ⟨ih₁, List.forall_mem_cons.mpr ⟨.space, ih₂⟩⟩
  | operator hop _ _ ih₁ ih₂ =>
      simp only [List.forall_mem_append, List.forall_mem_cons]
      exact ⟨ih₁, .space, printed_of_isInner hop, .space, ih₂⟩
  | group hopening hclose _ ih => exact printed_bracketed hopening hclose ih
  | applied hopening hclose _ _ ih₁ ih₂ =>
      exact List.forall_mem_append.mpr ⟨ih₁, printed_bracketed hopening hclose ih₂⟩

/-! ## The ends of a phrase -/

theorem Phrase.ne_nil {ls : List Lexeme} (h : Phrase ls) : ls ≠ [] := by
  cases h <;> simp

def isFirst : LexemeKind → Bool
  | .name | .literal _ _ => true
  | .op o => isTight o
  | _ => false

theorem Phrase.isFirst_head {ls : List Lexeme} (h : Phrase ls) :
    ∀ l ∈ ls.head?, isFirst l.kind = true := by
  induction h with
  | name _ => simp [isFirst]
  | text _ => simp [isFirst]
  | sign _ htight _ _ => simp [isFirst, htight]
  | mark _ _ h ih => rwa [List.head?_append_of_ne_nil _ h.ne_nil]
  | spaced h _ ih _ => rwa [List.head?_append_of_ne_nil _ h.ne_nil]
  | operator _ h _ ih _ => rwa [List.head?_append_of_ne_nil _ h.ne_nil]
  | group hopening _ _ _ => simp [bracketed, isFirst, isTight_of_opensGroup hopening]
  | applied _ _ h _ ih _ => rwa [List.head?_append_of_ne_nil _ h.ne_nil]

theorem Phrase.getLast_ne_blank {ls : List Lexeme} (h : Phrase ls) :
    ∀ l ∈ ls.getLast?, l.kind ≠ .blank := by
  induction h with
  | name _ => simp
  | text _ => simp
  | sign _ _ h ih => rwa [List.getLast?_cons_of_ne_nil h.ne_nil]
  | mark _ _ _ _ => simp
  | spaced _ h _ ih =>
      rwa [List.getLast?_append_of_ne_nil _ (List.cons_ne_nil _ _),
        List.getLast?_cons_of_ne_nil h.ne_nil]
  | operator _ _ h _ ih =>
      rwa [List.getLast?_append_of_ne_nil _ (List.cons_ne_nil _ _),
        List.getLast?_cons_of_ne_nil (List.cons_ne_nil _ _),
        List.getLast?_cons_of_ne_nil (List.cons_ne_nil _ _),
        List.getLast?_cons_of_ne_nil h.ne_nil]
  | group _ _ _ _ => simp
  | applied _ _ _ _ _ _ => simp

/-! ## A phrase is cut apart again -/

/-- No lexeme runs on into the next one. -/
def Chained (ls : List Lexeme) : Prop := ls.IsChain fun l m => l.kind.apart m.kind = true

theorem apart_op (k : LexemeKind) {o : Op} (h : isTight o = true) : k.apart (.op o) = true := by
  cases k <;> first | rfl | exact h

theorem apart_blank {k : LexemeKind} (h : k ≠ .blank) : k.apart .blank = true := by
  cases k <;> first | rfl | exact absurd rfl h

theorem op_apart {k : LexemeKind} (h : isFirst k = true) (o : Op) :
    (LexemeKind.op o).apart k = true := by
  cases k <;> first | rfl | exact h

theorem blank_apart {k : LexemeKind} (h : isFirst k = true) :
    LexemeKind.blank.apart k = true := by
  cases k <;> first | rfl | cases h

theorem Chained.cons {l : Lexeme} {ls : List Lexeme} (h : Chained ls)
    (hl : ∀ m ∈ ls.head?, l.kind.apart m.kind = true) : Chained (l :: ls) :=
  List.isChain_cons.mpr ⟨hl, h⟩

theorem chained_singleton (l : Lexeme) : Chained [l] := List.isChain_singleton l

theorem Chained.append {ls ms : List Lexeme} (hls : Chained ls) (hms : Chained ms)
    (h : ∀ l ∈ ls.getLast?, ∀ m ∈ ms.head?, l.kind.apart m.kind = true) : Chained (ls ++ ms) :=
  List.IsChain.append hls hms h

theorem chained_bracketed {opening close : Op} {inner : List Lexeme}
    (hclose : close.closes opening = true) (hphrase : inner ≠ [] → Phrase inner)
    (hchained : inner ≠ [] → Chained inner) : Chained (bracketed opening close inner) := by
  have htight := isTight_of_closesGroup (Op.closesGroup_of_closes hclose)
  cases inner with
  | nil =>
      refine (chained_singleton (ofOp close)).cons fun m hm => ?_
      obtain rfl : ofOp close = m := Option.some.inj hm
      exact apart_op _ htight
  | cons l inner =>
      have h := hphrase (List.cons_ne_nil l inner)
      have happend := (hchained (List.cons_ne_nil l inner)).append (chained_singleton (ofOp close))
        fun k _ m hm => by
          obtain rfl : ofOp close = m := Option.some.inj hm
          exact apart_op _ htight
      exact happend.cons fun m hm => op_apart (h.isFirst_head m hm) opening

theorem Phrase.chained {ls : List Lexeme} (h : Phrase ls) : Chained ls := by
  induction h with
  | name _ => exact chained_singleton _
  | text _ => exact chained_singleton _
  | sign _ _ h ih => exact ih.cons fun m hm => op_apart (h.isFirst_head m hm) _
  | mark _ htight _ ih =>
      exact ih.append (chained_singleton _) fun l _ m hm => by
        obtain rfl := Option.some.inj hm
        exact apart_op _ htight
  | spaced h₁ h₂ ih₁ ih₂ =>
      refine ih₁.append (ih₂.cons fun m hm => blank_apart (h₂.isFirst_head m hm))
        fun l hl m hm => ?_
      obtain rfl := Option.some.inj hm
      exact apart_blank (h₁.getLast_ne_blank l hl)
  | @operator o ls ms _ h₁ h₂ ih₁ ih₂ =>
      have hblank : Chained (space :: ms) :=
        ih₂.cons fun m hm => blank_apart (h₂.isFirst_head m hm)
      have hop : Chained (ofOp o :: space :: ms) := by
        refine hblank.cons fun m hm => ?_
        obtain rfl := Option.some.inj hm
        rfl
      refine ih₁.append (hop.cons fun m hm => ?_) fun l hl m hm => ?_
      · obtain rfl := Option.some.inj hm
        rfl
      · obtain rfl := Option.some.inj hm
        exact apart_blank (h₁.getLast_ne_blank l hl)
  | group _ hclose h ih => exact chained_bracketed hclose h ih
  | applied hopening hclose _ h ih₁ ih₂ =>
      refine ih₁.append (chained_bracketed hclose h ih₂) fun l _ m hm => ?_
      obtain rfl := Option.some.inj hm
      exact apart_op _ (isTight_of_opensGroup hopening)

/-- The lexemes of a phrase are cut apart again. -/
theorem Phrase.all_flatMap_chars {ls : List Lexeme} (h : Phrase ls) :
    Lexeme.all (ls.flatMap chars) = (ls, none) :=
  Lexeme.all_flatMap_chars h.printed h.chained

theorem assign_not_mem_kinds_bracketed {opening close : Op} {inner : List Lexeme}
    (hopening : opening.opensGroup = true) (hclose : close.closes opening = true)
    (h : inner ≠ [] → .op .assign ∉ kinds inner) :
    .op .assign ∉ kinds (bracketed opening close inner) := by
  have hfirst : Op.assign ≠ opening := by
    rintro rfl
    cases hopening
  have hlast : Op.assign ≠ close := by
    rintro rfl
    cases hclose
  cases inner with
  | nil => simp [hfirst, hlast]
  | cons l inner => simp [hfirst, hlast, h (List.cons_ne_nil l inner)]

theorem Phrase.assign_not_mem {ls : List Lexeme} (h : Phrase ls) : .op .assign ∉ kinds ls := by
  have hinner : ∀ {o : Op}, isInner o = true → Op.assign ≠ o := by
    rintro o ho rfl
    cases ho
  induction h with
  | name _ => simp
  | text _ => simp
  | sign hop _ _ ih => simp [hinner hop, ih]
  | mark hop _ _ ih => simp [hinner hop, ih]
  | spaced _ _ ih₁ ih₂ => simp [ih₁, ih₂]
  | operator hop _ _ ih₁ ih₂ => simp [hinner hop, ih₁, ih₂]
  | group hopening hclose _ ih => exact assign_not_mem_kinds_bracketed hopening hclose ih
  | applied hopening hclose _ _ ih₁ ih₂ =>
      rw [kinds_append, List.mem_append, not_or]
      exact ⟨ih₁, assign_not_mem_kinds_bracketed hopening hclose ih₂⟩

/-! ## A phrase is laid out on one line -/

theorem Printed.newline_not_mem {l : Lexeme} (h : Printed l) : '\n' ∉ l.chars := by
  cases h with
  | space => decide
  | op _ _ =>
      rename_i o _ _
      cases o <;> decide
  | name hword =>
      obtain ⟨c, cs, hchars, hstart, hparts⟩ := exists_chars_of_isWord hword
      show '\n' ∉ String.toList _
      rw [hchars]
      intro hmem
      rcases List.mem_cons.mp hmem with rfl | hmem
      · cases hstart
      · cases hparts _ hmem
  | text text => exact newline_not_mem_literalString text.toList

end Lexeme

theorem Position.line_after (p : Position) {cs : List Char} (h : '\n' ∉ cs) :
    (p.after cs).line = p.line := by
  induction cs generalizing p with
  | nil => rfl
  | cons c cs ih =>
      have hc : c ≠ '\n' := fun heq => h (heq ▸ List.mem_cons_self)
      show ((p.next c).after cs).line = p.line
      rw [ih (p.next c) fun hmem => h (List.mem_cons_of_mem c hmem), Position.next, if_neg hc]

namespace Token

open Lexeme

/-- Tokens of some kinds, all on one line. -/
def Spell (line : Nat) (ts : List Token) (kinds : List TokenKind) : Prop :=
  ts.map (fun t => (t.line, t.kind)) = kinds.map fun k => (line, k)

theorem Spell.append {line : Nat} {ts us : List Token} {ks js : List TokenKind}
    (hts : Spell line ts ks) (hus : Spell line us js) : Spell line (ts ++ us) (ks ++ js) := by
  unfold Spell at *
  rw [List.map_append, List.map_append, hts, hus]

theorem Spell.eq_nil {line : Nat} {ts : List Token} (h : Spell line ts []) : ts = [] :=
  List.map_eq_nil_iff.mp h

theorem Spell.eq_cons {line : Nat} {ts : List Token} {k : TokenKind} {ks : List TokenKind}
    (h : Spell line ts (k :: ks)) :
    ∃ column us, ts = ⟨k, line, column⟩ :: us ∧ Spell line us ks := by
  cases ts with
  | nil => cases h
  | cons t us =>
      obtain ⟨ht, hus⟩ := List.cons.inj h
      cases ht
      exact ⟨t.column, us, rfl, hus⟩

theorem Spell.eq_append {line : Nat} {ts : List Token} {ks js : List TokenKind}
    (h : Spell line ts (ks ++ js)) :
    ∃ us vs, ts = us ++ vs ∧ Spell line us ks ∧ Spell line vs js := by
  rw [Spell, List.map_append] at h
  obtain ⟨us, vs, rfl, hus, hvs⟩ := List.map_eq_append_iff.mp h
  exact ⟨us, vs, rfl, hus, hvs⟩

/-- Tokens between two brackets, with others after them. -/
theorem Spell.eq_bracketed {line : Nat} {ts : List Token} {opening close : Op}
    {ks : List TokenKind} (h : Spell line ts (.op opening :: (ks ++ [.op close]))) :
    ∃ first us last, Spell line us ks ∧ ts.length = us.length + 2 ∧ ∀ rest,
      ts ++ rest = ⟨.op opening, line, first⟩ :: (us ++ ⟨.op close, line, last⟩ :: rest) := by
  obtain ⟨first, vs, rfl, hvs⟩ := h.eq_cons
  obtain ⟨us, ws, rfl, hus, hws⟩ := hvs.eq_append
  obtain ⟨last, xs, rfl, hxs⟩ := hws.eq_cons
  obtain rfl := hxs.eq_nil
  refine ⟨first, us, last, hus, by simp, fun rest => ?_⟩
  simp only [List.cons_append, List.append_assoc, List.nil_append]

theorem Spell.kind_mem {line : Nat} {ts : List Token} {ks : List TokenKind} (h : Spell line ts ks)
    {t : Token} (ht : t ∈ ts) : t.kind ∈ ks := by
  have hmem : (t.line, t.kind) ∈ ks.map fun k => (line, k) := by
    rw [← h]
    exact List.mem_map_of_mem ht
  obtain ⟨k, hk, heq⟩ := List.mem_map.mp hmem
  cases heq
  exact hk

/-- `Lays line before ls after`: the lexemes become their tokens on a line that they begin on and do
not leave, and over them the open brackets change from `before` to `after`. -/
def Lays (line : Nat) (before : List (Op × Nat)) (ls : List Lexeme) (after : List (Op × Nat)) :
    Prop :=
  ∀ fault inLine p rest, p.line = line →
    ∃ ts inLine' q, q.line = line ∧ Spell line ts (kinds ls) ∧
      layOut fault ⟨before, inLine⟩ p (ls ++ rest) =
        (layOut fault ⟨after, inLine'⟩ q rest >>= fun more => .ok (ts ++ more))

section Lays

variable {line : Nat} {before middle after : List (Op × Nat)}

theorem Lays.append {ls ms : List Lexeme} (hls : Lays line before ls middle)
    (hms : Lays line middle ms after) : Lays line before (ls ++ ms) after := by
  intro fault inLine p rest hp
  obtain ⟨ts, inLine₁, q₁, hq₁, hts, heq₁⟩ := hls fault inLine p (ms ++ rest) hp
  obtain ⟨us, inLine₂, q₂, hq₂, hus, heq₂⟩ := hms fault inLine₁ q₁ rest hq₁
  refine ⟨ts ++ us, inLine₂, q₂, hq₂, ?_, ?_⟩
  · rw [kinds_append]
    exact hts.append hus
  · rw [List.append_assoc, heq₁, heq₂, bind_assoc]
    simp only [ok_bind, List.append_assoc]

theorem lays_singleton {l : Lexeme} (hnewline : '\n' ∉ l.chars)
    (hplace : ∀ inLine, ∃ inLine',
      place ⟨before, inLine⟩ line l = .ok (l.token?, ⟨after, inLine'⟩)) :
    Lays line before [l] after := by
  intro fault inLine p rest hp
  obtain ⟨inLine', hplace⟩ := hplace inLine
  have hline : (p.after l.chars).line = line := (p.line_after hnewline).trans hp
  refine ⟨(kinds [l]).map fun k => ⟨k, p.line, p.column⟩, inLine', p.after l.chars, hline, ?_, ?_⟩
  · rw [Spell, List.map_map, hp]
    rfl
  · subst hp
    rw [List.singleton_append, layOut, hplace]
    cases htoken : l.token? with
    | none =>
        simp only [kinds, List.filterMap_cons, htoken, List.filterMap_nil, List.map_nil]
        rfl
    | some kind =>
        simp only [kinds, List.filterMap_cons, htoken, List.filterMap_nil, List.map_cons,
          List.map_nil]
        rfl

theorem lays_op {o : Op} (hprinted : Printed (ofOp o))
    (hopened : openedAfter before o line = .ok after) : Lays line before [ofOp o] after := by
  refine lays_singleton hprinted.newline_not_mem fun inLine => ⟨true, ?_⟩
  simp only [place, kind_ofOp, hopened]
  rfl

theorem lays_inner {o : Op} (h : isInner o = true) : Lays line before [ofOp o] before := by
  refine lays_op (printed_of_isInner h) ?_
  cases o <;> first | rfl | cases h

theorem lays_space : Lays line before [space] before :=
  lays_singleton (by decide) fun inLine => ⟨inLine, rfl⟩

theorem lays_nil : Lays line before [] before := by
  intro fault inLine p rest hp
  refine ⟨[], inLine, p, hp, rfl, ?_⟩
  simp only [List.nil_append]
  exact (bind_pure _).symm

theorem lays_of_ne_nil {ls : List Lexeme}
    (h : ls ≠ [] → ∀ opened, Lays line opened ls opened) (opened : List (Op × Nat)) :
    Lays line opened ls opened := by
  cases ls with
  | nil => exact lays_nil
  | cons l ls => exact h (List.cons_ne_nil l ls) opened

theorem lays_bracketed {opening close : Op} {inner : List Lexeme}
    (hopening : opening.opensGroup = true) (hclose : close.closes opening = true)
    (h : ∀ opened, Lays line opened inner opened) :
    Lays line before (bracketed opening close inner) before := by
  have hfirst : Lays line before [ofOp opening] ((opening, line) :: before) :=
    lays_op (printed_of_opensGroup hopening) (openedAfter_opening hopening)
  have hlast : Lays line ((opening, line) :: before) [ofOp close] before :=
    lays_op (printed_of_closesGroup (Op.closesGroup_of_closes hclose)) (openedAfter_matched hclose)
  exact hfirst.append ((h _).append hlast)

end Lays

/-- The lexemes of a phrase become tokens on one line and leave no bracket open. -/
theorem lays_of_phrase {ls : List Lexeme} (h : Phrase ls) (line : Nat) (opened : List (Op × Nat)) :
    Lays line opened ls opened := by
  induction h generalizing opened with
  | name hword => exact lays_singleton (Printed.name hword).newline_not_mem fun _ => ⟨true, rfl⟩
  | text text => exact lays_singleton (Printed.text text).newline_not_mem fun _ => ⟨true, rfl⟩
  | sign hop _ _ ih => exact (lays_inner hop).append (ih opened)
  | mark hop _ _ ih => exact (ih opened).append (lays_inner hop)
  | spaced _ _ ih₁ ih₂ => exact (ih₁ opened).append (lays_space.append (ih₂ opened))
  | operator hop _ _ ih₁ ih₂ =>
      exact (ih₁ opened).append
        (lays_space.append ((lays_inner hop).append (lays_space.append (ih₂ opened))))
  | group hopening hclose _ ih => exact lays_bracketed hopening hclose (lays_of_ne_nil ih)
  | applied hopening hclose _ _ ih₁ ih₂ =>
      exact (ih₁ opened).append (lays_bracketed hopening hclose (lays_of_ne_nil ih₂))

/-- The tokens of a phrase's text are its own, on the first line, and the end of the text. -/
theorem ofText_of_phrase {ls : List Lexeme} (h : Phrase ls) :
    ∃ ts tail, Spell 1 ts (kinds ls) ∧
      (tail = [⟨.newline, 1, 0⟩, ⟨.endOfText, 1, 0⟩] ∨ tail = [⟨.endOfText, 1, 0⟩]) ∧
      ofText (String.ofList (ls.flatMap chars)) = .ok (ts ++ tail) := by
  obtain ⟨ts, inLine, q, hq, hspell, heq⟩ := lays_of_phrase h 1 [] none false .start [] rfl
  refine ⟨ts, if inLine then [⟨.newline, 1, 0⟩, ⟨.endOfText, 1, 0⟩] else [⟨.endOfText, 1, 0⟩],
    hspell, ?_, ?_⟩
  · cases inLine with
    | true => exact .inl rfl
    | false => exact .inr rfl
  · have hall : Lexeme.all (String.ofList (ls.flatMap chars)).toList = (ls, none) := by
      rw [String.toList_ofList]
      exact h.all_flatMap_chars
    rw [List.append_nil] at heq
    simp only [ofText, ofChars, hall, heq]
    cases inLine with
    | true => simp only [layOut, ending, hq]; rfl
    | false => simp only [layOut, ending, hq]; rfl

end Token

end DepsManifest
