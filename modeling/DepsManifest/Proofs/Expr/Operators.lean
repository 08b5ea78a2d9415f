import DepsManifest.Proofs.Expr.Displays
/-! # Operators are readable

An expression with operators is readable (`Expr.Readable`) if its operands are. Each operand is read
at the position it is written for, and the token after it does not go on at that position. There is
one lemma for each way in which operators group:

  * **from the left** — a left operand of a binary operator is read at the operator's own level,
    with the operator and its right operand as the next round of the level's loop
    (`readable_binary`). All binary operators but one are members of that family, with their level
    and their sign;
  * **from the right** — the power is the exception: its base is no power, and its exponent may have
    signs (`readable_power`);
  * **before an operand** — signs, which may be repeated, and `not`, which is looser than any
    comparison;
  * **in a chain** — comparisons, and operands of `or` and of `and`, are one node with all of their
    operands, and one round of the loop for each operand after the first (`readable_compare`,
    `readable_boolean`);
  * **around a condition** — a conditional expression is no operand of itself but in its last place
    (`readable_conditional`).

A comparison operator of two words needs one more fact: after `is` no operand begins with `not`, as
it would be read as part of the operator (`comparison?_written`).
-/
namespace DepsManifest

open Parse Token Lexeme

namespace Expr

variable {line : Nat}

/-! ## Binary operators -/

theorem finish_binary {op : BinaryOp} (h : op ≠ .power) (g : Grammar) :
    ∃ table, g.finish op.level = Grammar.binaryRest table (g.reader (op.level + 1)) ∧
      table.lookup op.sign = some op := by
  cases op <;> first | exact ⟨_, rfl, rfl⟩ | exact absurd rfl h

theorem kinds_binary (l : Nat) (op : BinaryOp) (left right : Expr) :
    kinds (Expr.binary l op left right).written =
      left.kindsAt op.leftPosition ++ .op op.sign :: right.kindsAt op.rightPosition := by
  rw [written, kinds_append, kinds_append, List.append_assoc]
  rfl

theorem starts_binary (l : Nat) (op : BinaryOp) {left : Expr} (right : Expr)
    (h : Readable line left) : Starts op.level (kinds (Expr.binary l op left right).written) := by
  have hle : op.leftPosition ≤ 14 := by cases op <;> decide
  have hlevel : op.level ≤ op.leftPosition := by cases op <;> decide
  rw [kinds_binary]
  exact ((h.startsAt hle).append _).mono hlevel

theorem followLevel?_sign (op : BinaryOp) : followLevel? (.op op.sign) = some op.level := by
  cases op <;> rfl

theorem stops_sign (op : BinaryOp) {level : Nat} (h : op.level < level) (column : Nat)
    (ts : List Token) : Stops level (⟨.op op.sign, line, column⟩ :: ts) := by
  intro l hl
  have hlevel : some op.level = some l := (followLevel?_sign op).symm.trans hl
  cases hlevel
  exact h

theorem positions_binary {op : BinaryOp} (h : op ≠ .power) :
    op.leftPosition = op.level ∧ op.rightPosition = op.level + 1 ∧
      endLevel op.level = op.level + 1 ∧ op.level + 1 ≤ 14 := by
  cases op <;> first | decide | exact absurd rfl h

/-- A binary operator that groups from the left. -/
theorem readable_binary (l : Nat) {op : BinaryOp} (hop : op ≠ .power) {left right : Expr}
    (hleft : Readable line left) (hright : Readable line right) :
    Readable line (.binary l op left right) := by
  have hlevel : (Expr.binary l op left right).level = op.level := rfl
  refine readable_of_level hlevel (starts_binary l op right hleft)
    fun n ts rest r hts hn hstops hr => ?_
  obtain ⟨hleftPosition, hrightPosition, hend, hle⟩ := positions_binary hop
  obtain ⟨table, hfinish, hlookup⟩ := finish_binary hop (grammar n)
  rw [kinds_binary, hleftPosition, hrightPosition] at hts
  obtain ⟨us, vs, rfl, hus, hvs⟩ := hts.eq_append
  obtain ⟨column, ws, rfl, hws⟩ := hvs.eq_cons
  simp only [List.length_append, List.length_cons] at hn
  have hwsLength : ws.length ≤ n := by omega
  have hread := hright.read hle hws hwsLength (hend ▸ hstops)
  have hnext : Grammar.operatorAndOperand table ((grammar n).reader (op.level + 1))
      (⟨.op op.sign, line, column⟩ :: (ws ++ rest)) =
      .ok (some ((op, right.onLine line), rest)) := by
    simp only [Grammar.operatorAndOperand, current_cons, Grammar.operator?, hlookup,
      List.tail_cons, hread, ok_bind]
    rfl
  rw [List.append_assoc, List.cons_append]
  refine hleft.readsAt (Nat.le_of_succ_le hle) n us _ r hus (by omega) ?_ ?_
  · rw [hend]
    exact stops_sign op (Nat.lt_succ_self _) column _
  · rw [hfinish] at hr ⊢
    refine Grammar.binaryRest_more hnext ?_ ?_
    · simp only [List.length_cons, List.length_append]
      omega
    · rw [line_onLine]
      exact hr

theorem readable_power (l : Nat) {base exponent : Expr} (hbase : Readable line base)
    (hexponent : Readable line exponent) : Readable line (.binary l .power base exponent) := by
  refine readable_whole (show _ = 12 from rfl) (by decide)
    (starts_binary l .power exponent hbase) fun n ts rest hts hn hstops => ?_
  have hstops : Stops 11 rest := hstops
  rw [kinds_binary] at hts
  obtain ⟨us, vs, rfl, hus, hvs⟩ := hts.eq_append
  obtain ⟨column, ws, rfl, hws⟩ := hvs.eq_cons
  simp only [List.length_append, List.length_cons] at hn
  obtain ⟨m, rfl⟩ : ∃ k, n = k + 1 := ⟨n - 1, by omega⟩
  have hwsLength : ws.length ≤ m := by omega
  have hread : (grammar (m + 1)).signed (ws ++ rest) = .ok (exponent.onLine line, rest) :=
    hexponent.read (show 11 ≤ 14 by decide) hws hwsLength hstops
  have hfirst : (grammar (m + 1)).primary
      (us ++ ⟨.op .doubleStar, line, column⟩ :: (ws ++ rest)) =
      .ok (base.onLine line, ⟨.op .doubleStar, line, column⟩ :: (ws ++ rest)) :=
    hbase.read (show 13 ≤ 14 by decide) hus (by omega)
      (stops_sign .power (by decide) column _)
  rw [List.append_assoc, List.cons_append]
  show (grammar (m + 1)).power (us ++ ⟨.op .doubleStar, line, column⟩ :: (ws ++ rest)) = _
  simp only [Grammar.power, hfirst, ok_bind, skipOp?_cons, hread, line_onLine]
  rfl

/-! ## Unary operators -/

theorem readable_sign (l : Nat) {op : UnaryOp} (hop : op ≠ .not) {operand : Expr}
    (h : Readable line operand) : Readable line (.unary l op operand) := by
  obtain ⟨o, hwritten, hsign, hlevel⟩ : ∃ o, op.written = [ofOp o] ∧
      Grammar.sign? (.op o) = some op ∧ op.level = 11 := by
    cases op <;> first | exact absurd rfl hop | exact ⟨_, rfl, rfl, rfl⟩
  have hkinds : kinds (Expr.unary l op operand).written = .op o :: operand.kindsAt 11 := by
    rw [written, hwritten, hlevel]
    rfl
  have hstart : startLevel? (.op o) = some 11 := by
    cases o <;> first | rfl | cases hsign
  refine readable_whole hlevel (by decide) ?_ fun n ts rest hts hn hstops => ?_
  · rw [hkinds]
    exact ⟨.op o, _, 11, rfl, hstart, Nat.le_refl 11⟩
  · rw [hkinds] at hts
    obtain ⟨column, us, rfl, hus⟩ := hts.eq_cons
    rw [List.length_cons] at hn
    obtain ⟨m, rfl⟩ : ∃ k, n = k + 1 := ⟨n - 1, by omega⟩
    have hread : (grammar (m + 1)).signed (us ++ rest) = .ok (operand.onLine line, rest) :=
      h.read (show 11 ≤ 14 by decide) hus (Nat.le_of_succ_le_succ hn) hstops
    show (grammar (m + 1)).signedOperand (⟨.op o, line, column⟩ :: (us ++ rest)) = _
    simp only [Grammar.signedOperand, current_cons, hsign, List.tail_cons, hread, ok_bind]
    rfl

theorem readable_not (l : Nat) {operand : Expr} (h : Readable line operand) :
    Readable line (.unary l .not operand) := by
  have hkinds : kinds (Expr.unary l .not operand).written = .name "not" :: operand.kindsAt 3 :=
    kinds_ofName "not" _
  refine readable_whole (show _ = 3 from rfl) (by decide) ?_ fun n ts rest hts hn hstops => ?_
  · rw [hkinds]
    exact ⟨.name "not", _, 3, rfl, rfl, Nat.le_refl 3⟩
  · rw [hkinds] at hts
    obtain ⟨column, us, rfl, hus⟩ := hts.eq_cons
    rw [List.length_cons] at hn
    obtain ⟨m, rfl⟩ : ∃ k, n = k + 1 := ⟨n - 1, by omega⟩
    have hread : (grammar (m + 1)).negation (us ++ rest) = .ok (operand.onLine line, rest) :=
      h.read (show 3 ≤ 14 by decide) hus (Nat.le_of_succ_le_succ hn) hstops
    show (grammar (m + 1)).negatedComparison (⟨.name "not", line, column⟩ :: (us ++ rest)) = _
    simp only [Grammar.negatedComparison, skipKeyword?_cons, current_cons, hread, ok_bind]
    rfl

/-! ## Comparisons -/

theorem rebuildComparisons_onLine (comparisons : List (Comparison × Expr)) :
    rebuildComparisons (fun _ => line) (fun _ n => .name line n) comparisons =
      comparisons.map fun c => (c.1, c.2.onLine line) := by
  induction comparisons with
  | nil => rfl
  | cons c comparisons ih => rw [rebuildComparisons, ih, List.map_cons, onLine]

theorem kinds_comparison (l : Nat) (left : Expr) (comparisons : List (Comparison × Expr)) :
    kinds (Expr.compare l left comparisons).written =
      left.kindsAt 5 ++ comparisons.flatMap fun c => kinds c.1.written ++ c.2.kindsAt 5 := by
  rw [written, flatten_writtenComparisons, kinds_append, kinds_flatMap]
  simp only [spaced, List.cons_append, List.append_assoc, kinds_space, kinds_append,
    List.nil_append]
  rfl

/-- A written comparison operator ends the operand before it, and is the comparison that comes next
unless `not` follows it. -/
theorem comparison?_written (op : Comparison) {us : List Token}
    (hus : Spell line us (kinds op.written)) {vs : List Token}
    (hvs : (current vs).kind ≠ .name "not") :
    Stops 5 (us ++ vs) ∧ 0 < us.length ∧ Grammar.comparison? (us ++ vs) = some (op, vs) := by
  have hstops : ∀ kind column ts, followLevel? kind = some 4 →
      Stops 5 (⟨kind, line, column⟩ :: ts) := by
    intro kind column ts hkind l hl
    cases hkind.symm.trans hl
    decide
  have hword : ∀ n, kinds [ofName n] = [.name n] := fun n => kinds_ofName n []
  have hwords : ∀ n m, kinds [ofName n, space, ofName m] = [.name n, .name m] := by
    intro n m
    simp only [kinds_ofName, kinds_space, kinds_nil]
  cases op with
  | same =>
      obtain ⟨column, ws, rfl, hws⟩ := (hword "is" ▸ hus).eq_cons
      obtain rfl := hws.eq_nil
      refine ⟨hstops _ _ _ rfl, Nat.zero_lt_one, ?_⟩
      show Grammar.keywordComparison? "is" vs = _
      rw [Grammar.keywordComparison?, skipKeyword?_eq_none hvs]
      rfl
  | member =>
      obtain ⟨column, ws, rfl, hws⟩ := (hword "in" ▸ hus).eq_cons
      obtain rfl := hws.eq_nil
      exact ⟨hstops _ _ _ rfl, Nat.zero_lt_one, rfl⟩
  | notSame =>
      obtain ⟨column, ws, rfl, hws⟩ := (hwords "is" "not" ▸ hus).eq_cons
      obtain ⟨column', xs, rfl, hxs⟩ := hws.eq_cons
      obtain rfl := hxs.eq_nil
      exact ⟨hstops _ _ _ rfl, Nat.zero_lt_two, rfl⟩
  | notMember =>
      obtain ⟨column, ws, rfl, hws⟩ := (hwords "not" "in" ▸ hus).eq_cons
      obtain ⟨column', xs, rfl, hxs⟩ := hws.eq_cons
      obtain rfl := hxs.eq_nil
      exact ⟨hstops _ _ _ rfl, Nat.zero_lt_two, rfl⟩
  | _ =>
      obtain ⟨column, ws, rfl, hws⟩ := hus.eq_cons
      obtain rfl := hws.eq_nil
      exact ⟨hstops _ _ _ rfl, Nat.zero_lt_one, rfl⟩

theorem comparisonAndOperand_written {c : Comparison × Expr} (h : Readable line c.2) {n : Nat}
    {ts after : List Token} (hts : Spell line ts (kinds c.1.written ++ c.2.kindsAt 5))
    (hn : ts.length ≤ n) (hafter : Stops 5 after) :
    Stops 5 (ts ++ after) ∧ 0 < ts.length ∧
      (grammar n).comparisonAndOperand (ts ++ after) =
        .ok (some ((c.1, c.2.onLine line), after)) := by
  obtain ⟨us, vs, rfl, hus, hvs⟩ := hts.eq_append
  rw [List.length_append] at hn
  have hvsLength : vs.length ≤ n := by omega
  have hnot := (h.startsAt (show 5 ≤ 14 by decide)).kind_ne_not (by decide) hvs after
  obtain ⟨hstops, hpos, hcomparison⟩ := comparison?_written c.1 hus hnot
  have hread : (grammar n).comparand (vs ++ after) = .ok (c.2.onLine line, after) :=
    h.read (show 5 ≤ 14 by decide) hvs hvsLength hafter
  rw [List.append_assoc, List.length_append]
  refine ⟨hstops, Nat.add_pos_left hpos _, ?_⟩
  simp only [Grammar.comparisonAndOperand, hcomparison, hread, ok_bind]
  rfl

theorem readable_compare (l : Nat) {left : Expr} {first : Comparison × Expr}
    {others : List (Comparison × Expr)} (hleft : Readable line left)
    (hothers : ∀ c ∈ first :: others, Readable line c.2) :
    Readable line (.compare l left (first :: others)) := by
  refine readable_whole (show _ = 4 from rfl) (by decide) ?_ fun n ts rest hts hn hstops => ?_
  · rw [kinds_comparison]
    exact ((hleft.startsAt (show 5 ≤ 14 by decide)).append _).mono (by decide)
  · rw [kinds_comparison] at hts
    obtain ⟨us, vs, rfl, hus, hvs⟩ := hts.eq_append
    rw [List.length_append] at hn
    have hvsLength : vs.length ≤ n := by omega
    have hstops : Stops 4 rest := hstops
    have hdone : (grammar n).comparisonAndOperand rest = .ok none := by
      simp only [Grammar.comparisonAndOperand,
        Grammar.comparison?_eq_none (hstops.ne (Nat.le_refl 4))]
    obtain ⟨hstops', hmany⟩ := many_flatMap hdone (hstops.mono (by decide))
      (fun c hc ts after hts hn hafter =>
        comparisonAndOperand_written (hothers c hc) hts hn hafter) hvs hvsLength
    have hread : (grammar n).comparand (us ++ (vs ++ rest)) = .ok (left.onLine line, vs ++ rest) :=
      hleft.read (show 5 ≤ 14 by decide) hus (by omega) hstops'
    rw [List.append_assoc]
    show (grammar n).comparison (us ++ (vs ++ rest)) = _
    simp only [Grammar.comparison, hread, ok_bind, hmany, line_onLine]
    show Except.ok (compare line _ _, rest) = _
    rw [onLine, rebuild, rebuildComparisons_onLine]
    rfl

/-! ## Conditions -/

theorem followLevel?_keyword (op : BoolOp) :
    followLevel? (.name op.keyword) = some op.level := by
  cases op <;> rfl

theorem kinds_boolean (l : Nat) (op : BoolOp) (first : Expr) (rest : List Expr) :
    kinds (Expr.boolean l op (first :: rest)).written =
      first.kindsAt (op.level + 1) ++
        rest.flatMap fun e => .name op.keyword :: e.kindsAt (op.level + 1) := by
  rw [written, writtenAll_eq_map]
  show kinds (first.writtenAt (op.level + 1) ++
    (rest.map (writtenAt (op.level + 1))).flatMap (spaced [ofName op.keyword] ++ ·)) = _
  rw [kinds_append, kinds_flatMap, List.flatMap_map]
  simp only [spaced, List.cons_append, List.nil_append, kinds_space, kinds_ofName]
  rfl

theorem afterKeyword_operand (op : BoolOp) {e : Expr} (h : Readable line e) {n : Nat}
    {ts after : List Token} (hts : Spell line ts (.name op.keyword :: e.kindsAt (op.level + 1)))
    (hn : ts.length ≤ n) (hafter : Stops (op.level + 1) after) :
    Stops (op.level + 1) (ts ++ after) ∧ 0 < ts.length ∧
      afterKeyword op.keyword ((grammar n).reader (op.level + 1)) (ts ++ after) =
        .ok (some (e.onLine line, after)) := by
  have hle : op.level + 1 ≤ 14 := by cases op <;> decide
  obtain ⟨column, us, rfl, hus⟩ := hts.eq_cons
  have hread := h.read hle hus (Nat.le_of_succ_le hn) hafter
  refine ⟨?_, Nat.zero_lt_succ _, ?_⟩
  · intro l hl
    cases (followLevel?_keyword op).symm.trans hl
    exact Nat.lt_succ_self _
  · simp only [afterKeyword, List.cons_append, skipKeyword?_cons, hread]
    rfl

/-- A chain of `or` or `and` is read with all of its operands. -/
theorem readable_boolean (l : Nat) (op : BoolOp) {first second : Expr} {others : List Expr}
    (hfirst : Readable line first) (hothers : ∀ e ∈ second :: others, Readable line e) :
    Readable line (.boolean l op (first :: second :: others)) := by
  have hle : op.level + 1 ≤ 14 := by cases op <;> decide
  have hend : endLevel op.level = op.level := by cases op <;> rfl
  have hlevel : (Expr.boolean l op (first :: second :: others)).level = op.level := rfl
  refine readable_whole hlevel (le_of_eq hend) ?_ fun n ts rest hts hn hstops => ?_
  · rw [kinds_boolean]
    exact ((hfirst.startsAt hle).append _).mono (Nat.le_succ _)
  · rw [kinds_boolean] at hts
    obtain ⟨us, vs, rfl, hus, hvs⟩ := hts.eq_append
    rw [List.length_append] at hn
    have hvsLength : vs.length ≤ n := by omega
    let operand := (grammar n).reader (op.level + 1)
    have hdone : afterKeyword op.keyword operand rest = .ok none := by
      have hkeyword : (current rest).kind ≠ .name op.keyword := by
        intro hkind
        exact hstops.ne (le_of_eq hend) (hkind ▸ followLevel?_keyword op)
      simp only [afterKeyword, skipKeyword?_eq_none hkeyword]
    have hrest : Stops (op.level + 1) rest := hstops.mono (by rw [hend]; exact Nat.le_succ _)
    obtain ⟨hstops', hmany⟩ := many_flatMap hdone hrest
      (fun e he ts after hts hn hafter => afterKeyword_operand op (hothers e he) hts hn hafter)
      hvs hvsLength
    have hread : operand (us ++ (vs ++ rest)) = .ok (first.onLine line, vs ++ rest) :=
      hfirst.read hle hus (by omega) hstops'
    have hreader : (grammar n).reader op.level = Grammar.joined op operand := by
      cases op <;> rfl
    rw [List.append_assoc, hreader]
    simp only [Grammar.joined, hread, ok_bind, hmany, line_onLine]
    show Except.ok (boolean line op _, rest) = _
    rw [← List.map_cons, ← rebuildAll_onLine]
    rfl

theorem kinds_conditional (l : Nat) (test body otherwise : Expr) :
    kinds (Expr.conditional l test body otherwise).written =
      body.kindsAt 1 ++ .name "if" :: (test.kindsAt 1 ++ .name "else" :: otherwise.kindsAt 0) := by
  simp only [written, spaced, kinds_append, List.append_assoc, List.cons_append, List.nil_append,
    kinds_space, kinds_ofName]
  rfl

theorem readable_conditional (l : Nat) {test body otherwise : Expr} (htest : Readable line test)
    (hbody : Readable line body) (hotherwise : Readable line otherwise) :
    Readable line (.conditional l test body otherwise) := by
  have hstarts := (hbody.startsAt (show 1 ≤ 14 by decide))
  refine readable_whole (show _ = 0 from rfl) (by decide) ?_ fun n ts rest hts hn hstops => ?_
  · rw [kinds_conditional]
    exact (hstarts.append _).mono (Nat.zero_le 1)
  · rw [kinds_conditional] at hts
    obtain ⟨us, vs, rfl, hus, hvs⟩ := hts.eq_append
    obtain ⟨first, ws, rfl, hws⟩ := hvs.eq_cons
    obtain ⟨xs, ys, rfl, hxs, hys⟩ := hws.eq_append
    obtain ⟨second, zs, rfl, hzs⟩ := hys.eq_cons
    simp only [List.length_append, List.length_cons] at hn
    obtain ⟨m, rfl⟩ : ∃ k, n = k + 1 := ⟨n - 1, by omega⟩
    have husLength : us.length ≤ m + 1 := by omega
    have hxsLength : xs.length ≤ m + 1 := by omega
    have hzsLength : zs.length ≤ m := by omega
    have helse : Stops 1 (⟨.name "else", line, second⟩ :: (zs ++ rest)) := fun l hl => by cases hl
    have hif : Stops 1 (⟨.name "if", line, first⟩ ::
        (xs ++ ⟨.name "else", line, second⟩ :: (zs ++ rest))) := by
      intro l hl
      cases hl
      decide
    have hreadTest : (grammar (m + 1)).conditions
        (xs ++ ⟨.name "else", line, second⟩ :: (zs ++ rest)) =
        .ok (test.onLine line, ⟨.name "else", line, second⟩ :: (zs ++ rest)) :=
      htest.read (show 1 ≤ 14 by decide) hxs hxsLength helse
    have hreadOtherwise : (grammar (m + 1)).test (zs ++ rest) = .ok (otherwise.onLine line, rest) :=
      hotherwise.test hzs hzsLength hstops
    have hreadBody := hbody.read (show 1 ≤ 14 by decide) hus husLength hif
    simp only [List.append_assoc, List.cons_append]
    obtain ⟨-, start, hstart, hlt⟩ := hstarts.current hus (⟨.name "if", line, first⟩ ::
      (xs ++ ⟨.name "else", line, second⟩ :: (zs ++ rest)))
    rw [Grammar.reader_eq hstart hlt, hreadBody, ok_bind]
    simp only [Grammar.finish, Grammar.conditionRest, skipKeyword?_cons, Grammar.conditionalRest,
      hreadTest, ok_bind, expectKeyword_cons, hreadOtherwise, line_onLine]
    rfl

end Expr

end DepsManifest
