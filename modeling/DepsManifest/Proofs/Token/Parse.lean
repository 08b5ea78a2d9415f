import DepsManifest.Proofs.Except
import DepsManifest.Proofs.Token.Phrase
import DepsManifest.Token.Parse
/-! # Reading tokens that are known

What the readers of single tokens and the two repetitions do on tokens whose kinds are known. Such
tokens are those of a printed text, and the lemmas here are what a proof that it is read back takes
at each token.

A repetition is bounded by the number of tokens left; a greater bound changes nothing where a
smaller one suffices (`manyUpTo_mono`, `afterCommasUpTo_mono`), so both repetitions can be followed
round by round without their bounds, and over a list of pieces:

    many_flatMap           pieces one after another, until none comes next
    afterCommas_flatMap    items after commas, until no comma comes next

Each piece is read from where it is known what comes after it: the next piece, or what ends the
list. That is the parameter `follows` of both. For items after commas a comma has to be among what
may follow.
-/
namespace DepsManifest

namespace Parse

open Token

/-! ## Single tokens -/

@[simp] theorem current_cons (t : Token) (ts : List Token) : current (t :: ts) = t := rfl

theorem skipOp?_eq_none {op : Op} {ts : List Token} (h : (current ts).kind ≠ .op op) :
    skipOp? op ts = none := by
  simp [skipOp?, atOp, h]

theorem skipKeyword?_eq_none {keyword : String} {ts : List Token}
    (h : (current ts).kind ≠ .name keyword) : skipKeyword? keyword ts = none := by
  simp [skipKeyword?, atKeyword, h]

@[simp] theorem skipOp?_cons (op : Op) (line column : Nat) (ts : List Token) :
    skipOp? op (⟨.op op, line, column⟩ :: ts) = some ts := by
  simp [skipOp?, atOp]

@[simp] theorem skipKeyword?_cons (keyword : String) (line column : Nat) (ts : List Token) :
    skipKeyword? keyword (⟨.name keyword, line, column⟩ :: ts) = some ts := by
  simp [skipKeyword?, atKeyword]

@[simp] theorem expectOp_cons (op : Op) (line column : Nat) (ts : List Token) :
    expectOp op (⟨.op op, line, column⟩ :: ts) = .ok ts := by
  simp [expectOp, atOp]

@[simp] theorem expectKeyword_cons (keyword : String) (line column : Nat) (ts : List Token) :
    expectKeyword keyword (⟨.name keyword, line, column⟩ :: ts) = .ok ts := by
  simp [expectKeyword, atKeyword]

/-! ## Repetition -/

section Many

variable {α : Type} {next : ParseIf α}

theorem manyUpTo_mono {n m : Nat} (hle : n ≤ m) {ts : List Token} {r : List α × List Token}
    (h : manyUpTo next n ts = .ok r) : manyUpTo next m ts = .ok r := by
  induction n generalizing m ts r with
  | zero => cases h
  | succ n ih =>
      obtain ⟨m, rfl⟩ : ∃ k, m = k + 1 := ⟨m - 1, by omega⟩
      rw [manyUpTo, bind_eq_ok] at h
      rw [manyUpTo, bind_eq_ok]
      obtain ⟨found, hnext, h⟩ := h
      refine ⟨found, hnext, ?_⟩
      cases found with
      | none => exact h
      | some piece =>
          obtain ⟨a, us⟩ := piece
          obtain ⟨more, hmore, h⟩ := bind_eq_ok.mp h
          exact bind_eq_ok.mpr ⟨more, ih (by omega) hmore, h⟩

theorem many_done {ts : List Token} (h : next ts = .ok none) : many next ts = .ok ([], ts) := by
  simp only [many, manyUpTo, h, ok_bind]
  rfl

/-- One round of a repetition, and the rounds after it. -/
theorem many_more {ts us vs : List Token} {a : α} {more : List α}
    (h : next ts = .ok (some (a, us))) (hlt : us.length < ts.length)
    (hmore : many next us = .ok (more, vs)) : many next ts = .ok (a :: more, vs) := by
  have hrest := manyUpTo_mono (show us.length + 1 ≤ ts.length by omega) hmore
  simp only [many, manyUpTo, h, ok_bind, hrest]
  rfl

/-- A repetition reads piece by piece what is spelled piece by piece. Each piece is read from where
`follows` holds of what comes after it. -/
theorem many_flatMap {β : Type} {line m : Nat} {spelled : β → List TokenKind} {value : β → α}
    {follows : List Token → Prop} {parts : List β} {rest : List Token}
    (hdone : next rest = .ok none) (hrest : follows rest)
    (hpart : ∀ b ∈ parts, ∀ ts after, Spell line ts (spelled b) → ts.length ≤ m → follows after →
      follows (ts ++ after) ∧ 0 < ts.length ∧ next (ts ++ after) = .ok (some (value b, after)))
    {ts : List Token} (hts : Spell line ts (parts.flatMap spelled)) (hm : ts.length ≤ m) :
    follows (ts ++ rest) ∧ many next (ts ++ rest) = .ok (parts.map value, rest) := by
  induction parts generalizing ts with
  | nil =>
      obtain rfl := hts.eq_nil
      exact ⟨hrest, many_done hdone⟩
  | cons b parts ih =>
      rw [List.flatMap_cons] at hts
      obtain ⟨us, vs, rfl, hus, hvs⟩ := hts.eq_append
      rw [List.length_append] at hm
      obtain ⟨hfollows, hmore⟩ :=
        ih (fun c hc => hpart c (List.mem_cons_of_mem b hc)) hvs (by omega)
      obtain ⟨hfirst, hpos, hnext⟩ :=
        hpart b List.mem_cons_self us (vs ++ rest) hus (by omega) hfollows
      rw [List.append_assoc]
      refine ⟨hfirst, many_more hnext ?_ hmore⟩
      simp only [List.length_append]
      omega

end Many

section AfterCommas

variable {α : Type} {stop : List Token → Bool} {item : Parse α}

theorem afterCommasUpTo_mono {n m : Nat} (hle : n ≤ m) {ts : List Token}
    {r : List α × List Token} (h : afterCommasUpTo stop item n ts = .ok r) :
    afterCommasUpTo stop item m ts = .ok r := by
  induction n generalizing m ts r with
  | zero => cases h
  | succ n ih =>
      obtain ⟨m, rfl⟩ : ∃ k, m = k + 1 := ⟨m - 1, by omega⟩
      rw [afterCommasUpTo] at h ⊢
      cases hskip : skipOp? .comma ts with
      | none => simpa only [hskip] using h
      | some us =>
          simp only [hskip] at h ⊢
          split at h
          case isTrue hstop => rwa [if_pos hstop]
          case isFalse hstop =>
            rw [if_neg hstop]
            obtain ⟨first, hfirst, h⟩ := bind_eq_ok.mp h
            obtain ⟨more, hmore, h⟩ := bind_eq_ok.mp h
            exact bind_eq_ok.mpr ⟨first, hfirst, bind_eq_ok.mpr ⟨more, ih (by omega) hmore, h⟩⟩

theorem afterCommas_done {ts : List Token} (h : (current ts).kind ≠ .op .comma) :
    afterCommas stop item ts = .ok ([], ts) := by
  simp only [afterCommas, afterCommasUpTo, skipOp?_eq_none h]

theorem afterCommas_stop {line column : Nat} {ts : List Token} (hstop : stop ts = true) :
    afterCommas stop item (⟨.op .comma, line, column⟩ :: ts) = .ok ([], ts) := by
  simp only [afterCommas, afterCommasUpTo, skipOp?_cons, if_pos hstop]

theorem afterCommas_more {line column : Nat} {ts us vs : List Token} {a : α} {more : List α}
    (hstop : stop ts = false) (h : item ts = .ok (a, us)) (hle : us.length ≤ ts.length)
    (hmore : afterCommas stop item us = .ok (more, vs)) :
    afterCommas stop item (⟨.op .comma, line, column⟩ :: ts) = .ok (a :: more, vs) := by
  have hrest := afterCommasUpTo_mono (show us.length + 1 ≤ ts.length + 1 by omega) hmore
  show afterCommasUpTo stop item (ts.length + 1 + 1) _ = _
  rw [afterCommasUpTo]
  simp only [skipOp?_cons, hstop, Bool.false_eq_true, if_false, h, ok_bind, hrest]
  rfl

/-- Items after commas are read item by item as they are spelled. Each item is read from where
`follows` holds of what comes after it, as it does of a comma. -/
theorem afterCommas_flatMap {β : Type} {line m : Nat} {spelled : β → List TokenKind} {value : β → α}
    {follows : List Token → Prop} {parts : List β} {rest : List Token}
    (hdone : (current rest).kind ≠ .op .comma) (hrest : follows rest)
    (hcomma : ∀ column ts, follows (⟨.op .comma, line, column⟩ :: ts))
    (hpart : ∀ b ∈ parts, ∀ ts after, Spell line ts (spelled b) → ts.length ≤ m → follows after →
      stop (ts ++ after) = false ∧ item (ts ++ after) = .ok (value b, after))
    {ts : List Token} (hts : Spell line ts (parts.flatMap fun b => .op .comma :: spelled b))
    (hm : ts.length ≤ m) :
    follows (ts ++ rest) ∧ afterCommas stop item (ts ++ rest) = .ok (parts.map value, rest) := by
  induction parts generalizing ts with
  | nil =>
      obtain rfl := hts.eq_nil
      exact ⟨hrest, afterCommas_done hdone⟩
  | cons b parts ih =>
      rw [List.flatMap_cons, List.cons_append] at hts
      obtain ⟨column, ws, rfl, hws⟩ := hts.eq_cons
      obtain ⟨us, vs, rfl, hus, hvs⟩ := hws.eq_append
      simp only [List.length_cons, List.length_append] at hm
      obtain ⟨hfollows, hmore⟩ :=
        ih (fun c hc => hpart c (List.mem_cons_of_mem b hc)) hvs (by omega)
      obtain ⟨hstop, hitem⟩ :=
        hpart b List.mem_cons_self us (vs ++ rest) hus (by omega) hfollows
      rw [List.cons_append, List.append_assoc]
      refine ⟨hcomma _ _, afterCommas_more hstop hitem ?_ hmore⟩
      simp only [List.length_append]
      omega

end AfterCommas

end Parse

end DepsManifest
