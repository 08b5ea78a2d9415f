import DepsManifest.Proofs.Token.Literal
import Mathlib.Data.List.Chain
/-! # Printed lexemes are cut apart again

Text that is printed lexeme by lexeme is cut into the same lexemes, if no lexeme runs on into the
next one (`Lexeme.all_flatMap_chars`). Which character may follow a lexeme depends on its kind
(`LexemeKind.mayPrecede`):

  * a name goes on with a name part, and becomes the mark of a literal before a quote;
  * blanks go on with blanks;
  * an operator can become a longer one;
  * a literal ends with its quote, but with a quote after it could be another literal.

`LexemeKind.apart` is the same by the kinds of two lexemes, so that a printed form can be checked
without looking at characters.

The lexemes that are printed are few (`Lexeme.Printed`): a single blank, operators, names and string
literals. A point is not among them, as a number could follow it. Each is cut off what follows it
(`Printed.at?_eq`), and the induction over the list puts this together, also before a text of
another kind (`all_flatMap_append`).
-/
namespace DepsManifest

namespace Lexeme

/-! ## Printed lexemes -/

/-- A single blank. -/
def space : Lexeme := ⟨.blank, [' ']⟩

/-- An operator. -/
def ofOp (op : Op) : Lexeme := ⟨.op op, op.chars⟩

/-- A name or a keyword. -/
def ofName (n : String) : Lexeme := ⟨.name, n.toList⟩

/-- A string literal, written as the printed form of the string. -/
def ofText (text : String) : Lexeme := ⟨.literal .text text, Value.literalString text.toList⟩

/-- Whether a text is spelled as a name is. -/
def isWord (n : String) : Bool :=
  match n.toList with
  | [] => false
  | c :: cs => isNameStart c && cs.all isNamePart

/-- The lexemes that are printed. A point is not among them, as a number could follow it. -/
inductive Printed : Lexeme → Prop
  | space : Printed space
  | op {o : Op} : o ≠ .dot → o ≠ .ellipsis → Printed (ofOp o)
  | name {n : String} : isWord n = true → Printed (ofName n)
  | text (text : String) : Printed (ofText text)

/-- Whether an operator can go on with a character after its first. -/
def isOpPart (c : Char) : Bool := ['.', '=', '*', '/', '<', '>'].contains c

end Lexeme

open Lexeme

/-- Whether a lexeme of a kind ends before a character. -/
def LexemeKind.mayPrecede : LexemeKind → Char → Bool
  | .blank, c => !isSpace c
  | .name, c => !isNamePart c && !Literal.isQuote c
  | .literal _ _, c => !Literal.isQuote c
  | .op _, c => !isOpPart c
  | .lineBreak, _ | .number, _ => false

/-- Whether a lexeme of a kind ends before one of another. -/
def LexemeKind.apart : LexemeKind → LexemeKind → Bool
  | .blank, .blank => false
  | .name, .name | .name, .literal _ _ | .literal _ _, .name | .literal _ _, .literal _ _ => false
  | .op _, .op o => !o.chars.head?.any isOpPart
  | _, _ => true

namespace Lexeme

@[simp] theorem kind_space : space.kind = .blank := rfl

@[simp] theorem kind_ofOp (op : Op) : (ofOp op).kind = .op op := rfl

@[simp] theorem kind_ofName (n : String) : (ofName n).kind = .name := rfl

@[simp] theorem kind_ofText (text : String) : (ofText text).kind = .literal .text text := rfl

/-! ## Single lexemes -/

theorem ne_of_class {p : Char → Bool} {c d : Char} (hc : p c = true) (hd : p d = false) :
    c ≠ d := by
  rintro rfl
  rw [hc] at hd
  cases hd

theorem at?_space {rest : List Char} (hrest : ∀ c ∈ rest.head?, isSpace c = false) :
    at? ' ' rest = .ok space := by
  have hblank : blankPart (' ' :: rest) = [' '] := by
    show ([' '] ++ rest).takeWhile isSpace = [' ']
    exact Text.takeWhile_append_eq (fun c hc => by rw [List.mem_singleton.mp hc]; rfl) hrest
  have hopening : Literal.opening? (' ' :: rest) = none := rfl
  simp only [at?, hopening, hblank]
  rfl

theorem isSome_afterBeginning?_append {rest : List Char} :
    ∀ {bs cs : List Char}, (∀ c ∈ rest.head?, c ∉ bs) →
      (Text.afterBeginning? bs (cs ++ rest)).isSome = (Text.afterBeginning? bs cs).isSome
  | [], _, _ => rfl
  | b :: bs, [], h => by
      cases rest with
      | nil => rfl
      | cons c rest =>
          have hne : b ≠ c := fun heq => h c rfl (heq ▸ List.mem_cons_self)
          simp [Text.afterBeginning?, hne]
  | b :: bs, c :: cs, h => by
      simp only [List.cons_append, Text.afterBeginning?]
      split
      · exact isSome_afterBeginning?_append fun d hd hmem => h d hd (List.mem_cons_of_mem _ hmem)
      · rfl

theorem isOpPart_of_mem_tail (op : Op) : ∀ c ∈ op.chars.tail, isOpPart c = true := by
  have hall : op.chars.tail.all isOpPart = true := by cases op <;> rfl
  exact List.all_eq_true.mp hall

theorem opAt?_chars (op : Op) : opAt? op.chars = some op := by
  cases op <;> rfl

theorem opAt?_chars_append (op : Op) {rest : List Char}
    (hrest : ∀ c ∈ rest.head?, isOpPart c = false) : opAt? (op.chars ++ rest) = some op := by
  have hsame : ∀ other : Op, (Text.afterBeginning? other.chars (op.chars ++ rest)).isSome =
      (Text.afterBeginning? other.chars op.chars).isSome := by
    intro other
    have htail : ∀ c ∈ rest.head?, c ∉ other.chars.tail := by
      intro c hc hmem
      have := isOpPart_of_mem_tail other c hmem
      rw [hrest c hc] at this
      cases this
    obtain ⟨b, bs, hother⟩ : ∃ b bs, other.chars = b :: bs := by cases other <;> exact ⟨_, _, rfl⟩
    obtain ⟨c, cs, hop⟩ : ∃ c cs, op.chars = c :: cs := by cases op <;> exact ⟨_, _, rfl⟩
    rw [hother] at htail
    rw [hother, hop]
    simp only [List.cons_append, Text.afterBeginning?]
    split
    · exact isSome_afterBeginning?_append htail
    · rfl
  have hboth : opAt? (op.chars ++ rest) = opAt? op.chars := by
    simp only [opAt?, hsame]
  exact hboth.trans (opAt?_chars op)

theorem at?_of_opAt? {c : Char} {cs : List Char} {op : Op}
    (hopening : Literal.opening? (c :: cs) = none) (hblank : blankPart (c :: cs) = [])
    (hbreak : breakPart (c :: cs) = []) (hname : namePart (c :: cs) = [])
    (hnumber : numberPart (c :: cs) = []) (hop : opAt? (c :: cs) = some op) :
    at? c cs = .ok (ofOp op) := by
  simp only [at?, hopening, hblank, hbreak, hname, hnumber, hop]
  rfl

theorem at?_op {op : Op} (hdot : op ≠ .dot) (hellipsis : op ≠ .ellipsis) {rest : List Char}
    (hrest : ∀ c ∈ rest.head?, isOpPart c = false) :
    ∃ c cs, op.chars = c :: cs ∧ at? c (cs ++ rest) = .ok (ofOp op) := by
  have hop := opAt?_chars_append op hrest
  cases op <;>
    first
    | contradiction
    | exact ⟨_, _, rfl, at?_of_opAt? rfl rfl rfl rfl rfl hop⟩

theorem isNamePart_of_isMark {c : Char} (h : Literal.isMark c = true) : isNamePart c = true := by
  simp only [Literal.isMark, Bool.or_eq_true, beq_iff_eq, or_assoc] at h
  rcases h with rfl | rfl | rfl | rfl | rfl | rfl | rfl | rfl <;> rfl

theorem isQuote_of_isNamePart {c : Char} (h : isNamePart c = true) :
    Literal.isQuote c = false := by
  by_contra hquote
  rcases eq_quotes_of_isQuote (Bool.not_eq_false _ ▸ hquote) with rfl | rfl <;> cases h

theorem isNamePart_of_isNameStart {c : Char} (h : isNameStart c = true) : isNamePart c = true := by
  simp only [isNameStart, isNamePart, Char.isAlphanum, Bool.or_eq_true] at h ⊢
  exact h.imp_left Or.inl

theorem isSpace_of_isNameStart {c : Char} (h : isNameStart c = true) : isSpace c = false := by
  rw [Bool.eq_false_iff]
  intro hspace
  simp only [isSpace, Bool.or_eq_true, beq_iff_eq, or_assoc] at hspace
  rcases hspace with rfl | rfl | rfl <;> cases h

theorem opening?_name {cs rest : List Char} (hcs : ∀ c ∈ cs, isNamePart c = true)
    (hrest : ∀ c ∈ rest.head?, isNamePart c = false ∧ Literal.isQuote c = false) :
    Literal.opening? (cs ++ rest) = none := by
  have hmarks : ((cs ++ rest).takeWhile Literal.isMark).length ≤ cs.length := by
    have hnone : rest.takeWhile Literal.isMark = [] := by
      cases rest with
      | nil => rfl
      | cons c rest =>
          refine List.takeWhile_cons_of_neg fun hmark => ?_
          have hpart := isNamePart_of_isMark hmark
          rw [(hrest c rfl).1] at hpart
          cases hpart
    rw [List.takeWhile_append]
    split
    · rw [hnone, List.append_nil]
    · exact (List.takeWhile_prefix _).length_le
  unfold Literal.opening?
  generalize hk : (((cs ++ rest).takeWhile Literal.isMark).take 2).length = k
  have hle : k ≤ cs.length := by
    rw [← hk, List.length_take]
    omega
  simp only [hk, List.drop_append_of_le_length hle]
  cases hdrop : cs.drop k with
  | nil =>
      cases rest with
      | nil => rfl
      | cons c rest => simp [(hrest c rfl).2]
  | cons c tail =>
      have hpart : isNamePart c = true :=
        hcs c (List.mem_of_mem_drop (hdrop ▸ List.mem_cons_self))
      simp [isQuote_of_isNamePart hpart]

theorem blankPart_eq_nil {c : Char} (hhash : c ≠ '#') (hslash : c ≠ '\\')
    (hspace : isSpace c = false) (cs : List Char) : blankPart (c :: cs) = [] := by
  rw [blankPart]
  · rw [List.takeWhile_cons_of_neg (by rw [hspace]; decide)]
  · exact fun _ h => absurd (List.cons.inj h).1 hhash
  · exact fun _ h => absurd (List.cons.inj h).1 hslash
  · exact fun _ h => absurd (List.cons.inj h).1 hslash

theorem breakPart_eq_nil {c : Char} (hnewline : c ≠ '\n') (hreturn : c ≠ '\r') (cs : List Char) :
    breakPart (c :: cs) = [] := by
  rw [breakPart]
  · exact fun _ h => absurd (List.cons.inj h).1 hnewline
  · exact fun _ h => absurd (List.cons.inj h).1 hreturn

theorem at?_name {c : Char} {cs rest : List Char} (hstart : isNameStart c = true)
    (hparts : ∀ d ∈ cs, isNamePart d = true)
    (hrest : ∀ d ∈ rest.head?, isNamePart d = false ∧ Literal.isQuote d = false) :
    at? c (cs ++ rest) = .ok ⟨.name, c :: cs⟩ := by
  have hopening : Literal.opening? (c :: (cs ++ rest)) = none := by
    rw [← List.cons_append]
    refine opening?_name (fun d hd => ?_) hrest
    rcases List.mem_cons.mp hd with rfl | hd
    · exact isNamePart_of_isNameStart hstart
    · exact hparts d hd
  have hblank := blankPart_eq_nil (ne_of_class hstart rfl) (ne_of_class hstart rfl)
    (isSpace_of_isNameStart hstart) (cs ++ rest)
  have hbreak := breakPart_eq_nil (ne_of_class hstart rfl) (ne_of_class hstart rfl) (cs ++ rest)
  have hname : namePart (c :: (cs ++ rest)) = c :: cs := by
    rw [namePart, if_pos hstart, Text.takeWhile_append_eq hparts fun d hd => (hrest d hd).1]
  simp only [at?, hopening, hblank, hbreak, hname]
  rfl

/-! ## Lexemes one after another -/

theorem exists_chars_of_isWord {n : String} (h : isWord n = true) :
    ∃ c cs, n.toList = c :: cs ∧ isNameStart c = true ∧ ∀ d ∈ cs, isNamePart d = true := by
  unfold isWord at h
  cases hn : n.toList with
  | nil =>
      rw [hn] at h
      cases h
  | cons c cs =>
      simp only [hn, Bool.and_eq_true, List.all_eq_true] at h
      exact ⟨c, cs, rfl, h.1, h.2⟩

/-- A printed lexeme is cut off what follows it, if it ends before that. -/
theorem Printed.at?_eq {l : Lexeme} (h : Printed l) {rest : List Char}
    (hrest : ∀ c ∈ rest.head?, l.kind.mayPrecede c = true) :
    ∃ c cs, l.chars = c :: cs ∧ at? c (cs ++ rest) = .ok l := by
  cases h with
  | space =>
      exact ⟨' ', [], rfl, at?_space fun c hc => by simpa [LexemeKind.mayPrecede] using hrest c hc⟩
  | op hdot hellipsis =>
      exact at?_op hdot hellipsis fun c hc => by simpa [LexemeKind.mayPrecede] using hrest c hc
  | name hword =>
      obtain ⟨c, cs, hchars, hstart, hparts⟩ := exists_chars_of_isWord hword
      refine ⟨c, cs, hchars, ?_⟩
      rw [at?_name hstart hparts fun d hd => by
        simpa [LexemeKind.mayPrecede] using hrest d hd, ← hchars]
      rfl
  | text text =>
      let q := Value.quoteFor text.toList
      refine ⟨q, text.toList.flatMap (Value.literalChar q) ++ [q], rfl, ?_⟩
      have hquote : ∀ c ∈ rest.head?, Literal.isQuote c = false := fun c hc => by
        simpa [LexemeKind.mayPrecede] using hrest c hc
      have hat := at?_literalString text.toList hquote
      rw [String.ofList_toList] at hat
      rw [List.append_assoc]
      exact hat

theorem Printed.exists_chars {l : Lexeme} (h : Printed l) : ∃ c cs, l.chars = c :: cs := by
  have hnil : ∀ c ∈ ([] : List Char).head?, l.kind.mayPrecede c = true := by
    intro c hc
    cases hc
  obtain ⟨c, cs, hchars, -⟩ := h.at?_eq hnil
  exact ⟨c, cs, hchars⟩

theorem class_head_op (op : Op) : ∀ c ∈ op.chars.head?,
    isNamePart c = false ∧ Literal.isQuote c = false ∧ isSpace c = false := by
  intro c hc
  cases op <;>
    · obtain rfl := Option.some.inj hc
      decide

theorem isOpPart_of_isNameStart {c : Char} (h : isNameStart c = true) : isOpPart c = false := by
  rw [Bool.eq_false_iff]
  intro hop
  simp only [isOpPart, List.contains_eq_mem, List.mem_cons, List.not_mem_nil, or_false,
    decide_eq_true_eq] at hop
  rcases hop with rfl | rfl | rfl | rfl | rfl | rfl <;> cases h

/-- A printed lexeme ends before the first character of one that it is apart from. -/
theorem Printed.mayPrecede {l m : Lexeme} (hl : Printed l) (hm : Printed m)
    (h : l.kind.apart m.kind = true) : ∀ c ∈ m.chars.head?, l.kind.mayPrecede c = true := by
  intro c hc
  cases hm with
  | space =>
      obtain rfl : ' ' = c := Option.some.inj hc
      cases hl with
      | space => cases h
      | op _ _ => rfl
      | name _ => rfl
      | text _ => rfl
  | op _ _ =>
      obtain ⟨hname, hquote, hspace⟩ := class_head_op _ c hc
      cases hl with
      | space => simp [LexemeKind.mayPrecede, hspace]
      | op _ _ =>
          simp only [kind_ofOp, LexemeKind.apart, Bool.not_eq_true', Option.any_eq_false] at h
          simp [LexemeKind.mayPrecede, h c hc]
      | name _ => simp [LexemeKind.mayPrecede, hname, hquote]
      | text _ => simp [LexemeKind.mayPrecede, hquote]
  | name hword =>
      obtain ⟨d, ds, hchars, hstart, -⟩ := exists_chars_of_isWord hword
      obtain rfl : d = c := by simpa [ofName, hchars] using hc
      cases hl with
      | space => simp [LexemeKind.mayPrecede, isSpace_of_isNameStart hstart]
      | op _ _ => simp [LexemeKind.mayPrecede, isOpPart_of_isNameStart hstart]
      | name _ => cases h
      | text _ => cases h
  | text text =>
      obtain rfl : Value.quoteFor text.toList = c := by
        simpa [ofText, Value.literalString] using hc
      rcases eq_quotes_of_isQuote (isQuote_quoteFor text.toList) with hq | hq
      · rw [hq]
        cases hl <;> first | rfl | cases h
      · rw [hq]
        cases hl <;> first | rfl | cases h

theorem allFrom_append (cs rest : List Char) :
    allFrom cs.length (cs ++ rest) = allFrom 0 rest := by
  induction cs with
  | nil => rfl
  | cons c cs ih => exact ih

theorem allFrom_of_at? {c : Char} {cs : List Char} {l : Lexeme} (h : at? c cs = .ok l) :
    allFrom 0 (c :: cs) =
      (l :: (allFrom (l.chars.length - 1) cs).1, (allFrom (l.chars.length - 1) cs).2) := by
  conv =>
    lhs
    unfold allFrom
  simp only [h]

theorem all_append_of_at? {l : Lexeme} {c : Char} {cs rest : List Char} (hchars : l.chars = c :: cs)
    (h : at? c (cs ++ rest) = .ok l) :
    all (l.chars ++ rest) = (l :: (all rest).1, (all rest).2) := by
  rw [hchars, List.cons_append, all, allFrom_of_at? h, hchars, List.length_cons, Nat.add_sub_cancel,
    allFrom_append]
  rfl

/-- Printed lexemes that end before one another are cut apart again, and off what follows them. -/
theorem all_flatMap_append {ls : List Lexeme} {rest : List Char} (hprinted : ∀ l ∈ ls, Printed l)
    (hapart : ls.IsChain fun l m => l.kind.apart m.kind = true)
    (hrest : ∀ l ∈ ls.getLast?, ∀ c ∈ rest.head?, l.kind.mayPrecede c = true) :
    all (ls.flatMap chars ++ rest) = (ls ++ (all rest).1, (all rest).2) := by
  induction ls with
  | nil => rfl
  | cons l ls ih =>
      have hl := hprinted l List.mem_cons_self
      have htail : ∀ m ∈ ls, Printed m := fun m hm => hprinted m (List.mem_cons_of_mem l hm)
      have hends : ∀ c ∈ (ls.flatMap chars ++ rest).head?, l.kind.mayPrecede c = true := by
        cases ls with
        | nil => exact hrest l rfl
        | cons m ls =>
            have hm := htail m List.mem_cons_self
            have hfirst := hl.mayPrecede hm (List.isChain_cons_cons.mp hapart).1
            obtain ⟨d, ds, hds⟩ := hm.exists_chars
            rw [List.flatMap_cons, hds]
            rw [hds] at hfirst
            exact hfirst
      have hlast : ∀ m ∈ ls.getLast?, ∀ c ∈ rest.head?, m.kind.mayPrecede c = true := by
        intro m hm
        refine hrest m ?_
        rw [List.getLast?_cons, Option.mem_def.mp hm]
        rfl
      obtain ⟨c, cs, hchars, hat⟩ := hl.at?_eq hends
      rw [List.flatMap_cons, List.append_assoc, all_append_of_at? hchars hat,
        ih htail hapart.tail hlast]
      rfl

theorem all_flatMap_chars {ls : List Lexeme} (hprinted : ∀ l ∈ ls, Printed l)
    (hapart : ls.IsChain fun l m => l.kind.apart m.kind = true) :
    Lexeme.all (ls.flatMap chars) = (ls, none) := by
  have hends : ∀ l ∈ ls.getLast?, ∀ c ∈ ([] : List Char).head?, l.kind.mayPrecede c = true := by
    intro l _ c hc
    cases hc
  have hall := all_flatMap_append hprinted hapart hends
  have hnil : all [] = ([], none) := rfl
  rwa [hnil, List.append_nil, List.append_nil] at hall

end Lexeme

end DepsManifest
