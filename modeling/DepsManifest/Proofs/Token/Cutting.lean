import DepsManifest.Proofs.Token.Parts
/-! # Lexemes end where they end

Where a lexeme ends, the text may be cut off or go on with a gap, and the lexeme stays what it is
(`Lexeme.at?_separated`). So the lexemes of a text up to the end of one of them are also cut off any
gap there, and what comes after it is cut as if it stood alone (`Lexeme.all_separated`).

## The reason

What a lexeme may be is decided by parts of the text: the blanks that it begins with, the name, the
number and so on. No part has characters in it that a gap begins with (`Separable`), so a part that
ends before the gap is the same before any gap. There are two kinds of exceptions:

  * a literal may hold anything, but only up to its end, which it has already (`literal_separated`);
  * blanks go on with blanks, and comments with anything but the end of the line. So the last lexeme
    before a gap is none of these, unless the gap begins with a line break: that even they end
    before (`Lexeme.all_append_newline`).

## Lexemes of a text

`all_of_at?` and `all_eq_cons` take a text apart at its first lexeme: the others are those of the
rest. Put together again the lexemes are the text, if it is cut to its end (`flatMap_chars_of_all`).
A fault ends the list, and what is cut off before it stays.

`at?_eq_ok` lists what a lexeme can be, with the part of the text that each is. The lemmas about
single characters say what begins with them, for those that begin one kind of lexeme only.
-/
namespace DepsManifest

namespace Lexeme

/-! ## Operators, blanks and line breaks -/

theorem break_not_mem_chars {b : Char} (hb : BeginsBreak b) (op : Op) : b ∉ op.chars := by
  rcases hb with rfl | rfl
  · cases op <;> decide
  · cases op <;> decide

theorem begins_of_opAt? {cs : List Char} {op : Op} (h : opAt? cs = some op) : op.chars <+: cs := by
  rw [opAt?] at h
  have hbegins := List.find?_some (p := fun op : Op => (Text.afterBeginning? op.chars cs).isSome) h
  exact Text.isSome_afterBeginning?_iff.mp hbegins

theorem not_mem_gapStarts_of_mem_chars (op : Op) : ∀ c ∈ op.chars, c ∉ gapStarts := by
  cases op <;> exact Text.forall_of_all (by decide)

theorem opAt?_separated {s t gap : List Char} {op : Op} (h : opAt? (s ++ t) = some op)
    (hwithin : op.chars <+: s) (hgap : OpensGap gap) : opAt? (s ++ gap) = some op := by
  have hsame : opAt? (s ++ gap) = opAt? s := by
    have hend : ∀ other : Op, (Text.afterBeginning? other.chars (s ++ gap)).isSome =
        (Text.afterBeginning? other.chars s).isSome :=
      fun other => isSome_afterBeginning?_append fun c hc hmem =>
        not_mem_gapStarts_of_mem_chars other c hmem (hgap c hc)
    simp only [opAt?, hend]
  rw [hsame]
  unfold opAt? at h ⊢
  obtain ⟨-, before, after, hlist, hbefore⟩ := List.find?_eq_some_iff_append.mp h
  refine List.find?_eq_some_iff_append.mpr ⟨Text.isSome_afterBeginning?_iff.mpr hwithin,
    before, after, hlist, fun other hother => ?_⟩
  -- an operator that the shorter text begins with begins the longer one
  have hnot := hbefore other hother
  rw [Bool.not_eq_true', Bool.eq_false_iff, Ne, Text.isSome_afterBeginning?_iff] at hnot ⊢
  exact fun hbegins => hnot (hbegins.trans (List.prefix_append s t))

theorem blankPart_eq_takeWhile {c : Char} (hhash : c ≠ '#') (hslash : c ≠ '\\') (cs : List Char) :
    blankPart (c :: cs) = (c :: cs).takeWhile isSpace := by
  rw [blankPart]
  · exact fun _ heq => hhash (List.cons.inj heq).1
  · exact fun _ heq => hslash (List.cons.inj heq).1
  · exact fun _ heq => hslash (List.cons.inj heq).1

theorem begins_blankPart (cs : List Char) : blankPart cs <+: cs := by
  rw [blankPart.eq_def]
  split
  · exact List.cons_prefix_cons.mpr ⟨rfl, List.takeWhile_prefix _⟩
  · exact List.prefix_append ['\\', '\n'] _
  · exact List.prefix_append ['\\', '\r', '\n'] _
  · exact List.takeWhile_prefix _

theorem begins_breakPart (cs : List Char) : breakPart cs <+: cs := by
  rw [breakPart.eq_def]
  split
  · exact List.prefix_append ['\n'] _
  · exact List.prefix_append ['\r', '\n'] _
  · exact List.nil_prefix

end Lexeme

/-! ## Literals -/

namespace Literal

theorem begins_delimiter (q : Char) (after : List Char) :
    (delimiter q after).chars <+: q :: after := by
  cases htriple : (Text.afterBeginning? [q, q] after).isSome with
  | true =>
      rw [delimiter, htriple]
      exact List.cons_prefix_cons.mpr ⟨rfl, Text.isSome_afterBeginning?_iff.mp htriple⟩
  | false =>
      rw [delimiter, htriple]
      exact List.prefix_append [q] after

theorem isPart_marks : IsPart fun cs => (cs.takeWhile isMark).take 2 := by
  have hmarks := Text.isPart_takeWhile (p := isMark) rfl rfl
  refine ⟨fun cs => (List.take_prefix 2 _).trans (hmarks.begins cs), fun hb cs rest => ?_⟩
  exact congrArg (List.take 2) (hmarks.append_break hb cs rest)

/-- Marks and a delimiter open a literal, if there are not more marks and the delimiter is as long
as it can be with what follows it. -/
structure Opens (marks : List Char) (d : Delimiter) (after : List Char) : Prop where
  few : marks.length ≤ 2
  marked : ∀ c ∈ marks, isMark c = true
  quoted : isQuote d.quote = true
  longest : d = delimiter d.quote (d.chars.tail ++ after)

theorem opening?_eq_some_iff {cs marks after : List Char} {d : Delimiter} :
    opening? cs = some (marks, d, after) ↔
      Opens marks d after ∧ cs = marks ++ (d.chars ++ after) := by
  constructor
  · intro h
    have hmarks := List.prefix_iff_eq_append.mp (isPart_marks.begins cs)
    unfold opening? at h
    dsimp only at h hmarks
    cases hrest : cs.drop ((cs.takeWhile isMark).take 2).length with
    | nil =>
        rw [hrest] at h
        cases h
    | cons quote following =>
        rw [hrest] at h hmarks
        dsimp only at h
        split at h
        · rename_i hquote
          obtain ⟨more, hmore⟩ := (delimiter quote following).chars_eq_cons
          have hsplit := List.prefix_iff_eq_append.mp (begins_delimiter quote following)
          rw [hmore, List.length_cons, List.drop_succ_cons] at hsplit
          rw [hmore, List.length_cons, Nat.add_sub_cancel] at h
          cases h
          have htail : more ++ following.drop more.length = following := (List.cons.inj hsplit).2
          refine ⟨⟨List.length_take_le 2 _, fun c hc => ?_, hquote, ?_⟩, ?_⟩
          · exact List.all_eq_true.mp List.all_takeWhile c (List.mem_of_mem_take hc)
          · rw [hmore, List.tail_cons, htail]
            rfl
          · rw [hmore, List.cons_append, htail]
            exact hmarks.symm
        · cases h
  · rintro ⟨⟨hfew, hmarked, hquoted, hlongest⟩, rfl⟩
    obtain ⟨more, hmore⟩ := d.chars_eq_cons
    rw [hmore, List.tail_cons] at hlongest
    rw [hmore, List.cons_append, opening?_append_cons hfew hmarked hquoted, ← hlongest, hmore,
      List.length_cons, Nat.add_sub_cancel, List.drop_left]

theorem Opens.separated {marks s t gap : List Char} {d : Delimiter} (h : Opens marks d (s ++ t))
    (hgap : OpensGap gap) : Opens marks d (s ++ gap) := by
  refine ⟨h.few, h.marked, h.quoted, ?_⟩
  have hlongest := h.longest
  have hquote : ∀ c ∈ gap.head?, c ∉ [d.quote, d.quote] := by
    intro c hc hmem
    obtain rfl : c = d.quote := by simpa using hmem
    have hnot : ∀ b ∈ gapStarts, isQuote b = false := Text.forall_of_all (by decide)
    exact Bool.false_ne_true ((hnot _ (hgap _ hc)).symm.trans h.quoted)
  obtain ⟨quote, triple⟩ := d
  cases triple with
  | true =>
      have hthree :
          (Text.afterBeginning? [quote, quote] ([quote, quote] ++ (s ++ gap))).isSome = true :=
        Text.isSome_afterBeginning?_iff.mpr (List.prefix_append _ _)
      exact congrArg (Delimiter.mk quote) hthree.symm
  | false =>
      have hone : (Text.afterBeginning? [quote, quote] (s ++ t)).isSome = false :=
        (congrArg Delimiter.triple hlongest).symm
      refine congrArg (Delimiter.mk quote) (Eq.symm ?_)
      show (Text.afterBeginning? [quote, quote] (s ++ gap)).isSome = false
      rw [Lexeme.isSome_afterBeginning?_append hquote]
      rw [Bool.eq_false_iff, Ne, Text.isSome_afterBeginning?_iff] at hone ⊢
      exact fun hbegins => hone (hbegins.trans (List.prefix_append s t))

theorem opening?_separated {s t gap : List Char} (h : opening? (s ++ t) = none)
    (hgap : OpensGap gap) : opening? (s ++ gap) = none := by
  have hnot : ∀ b ∈ gapStarts, isMark b = false ∧ isQuote b = false :=
    Text.forall_of_all (by decide)
  rw [Option.eq_none_iff_forall_ne_some]
  rintro ⟨marks, d, after⟩ hsome
  obtain ⟨⟨hfew, hmarked, hquoted, -⟩, htext⟩ := opening?_eq_some_iff.mp hsome
  obtain ⟨more, hmore⟩ := d.chars_eq_cons
  rw [hmore, List.cons_append] at htext
  rcases List.append_eq_append_iff.mp htext with ⟨inGap, hmarks, hrest⟩ | ⟨quotes, hs, hrest⟩
  · -- the gap begins with a mark or the quote
    cases inGap with
    | nil =>
        have hquote := (hnot d.quote (hgap d.quote (by rw [hrest]; rfl))).2
        exact Bool.false_ne_true (hquote.symm.trans hquoted)
    | cons mark inGap =>
        have hmark := (hnot mark (hgap mark (by rw [hrest]; rfl))).1
        have hmem : mark ∈ marks := by
          rw [hmarks]
          exact List.mem_append_right s List.mem_cons_self
        exact Bool.false_ne_true (hmark.symm.trans (hmarked mark hmem))
  · cases quotes with
    | nil =>
        have hquote :=
          (hnot d.quote (hgap d.quote (by rw [List.nil_append] at hrest; rw [← hrest]; rfl))).2
        exact Bool.false_ne_true (hquote.symm.trans hquoted)
    | cons quote quotes =>
        obtain ⟨rfl, -⟩ := List.cons.inj hrest
        rw [hs, List.append_assoc, List.cons_append, opening?_append_cons hfew hmarked hquoted] at h
        cases h

end Literal

/-! ## Cutting -/

namespace Lexeme

theorem literalAt_eq_ok {marks after : List Char} {d : Delimiter} {l : Lexeme} :
    literalAt marks d after = .ok l ↔ ∃ body text, d.body? after = some body ∧
      Literal.decode marks body = .ok text ∧
      l = ⟨.literal (Literal.kind marks) (String.ofList text),
        marks ++ d.chars ++ body ++ d.chars⟩ := by
  unfold literalAt
  cases d.body? after with
  | none =>
      refine ⟨nofun, ?_⟩
      rintro ⟨_, _, hnone, -⟩
      cases hnone
  | some body =>
      refine bind_eq_ok.trans ⟨?_, ?_⟩
      · rintro ⟨text, htext, hl⟩
        exact ⟨body, text, rfl, htext, (Except.ok.inj hl).symm⟩
      · rintro ⟨_, text, hbody, htext, rfl⟩
        cases hbody
        exact ⟨text, htext, rfl⟩

theorem kind_of_literalAt {marks after : List Char} {d : Delimiter} {l : Lexeme}
    (h : literalAt marks d after = .ok l) : ∃ kind text, l.kind = .literal kind text := by
  obtain ⟨_, _, -, -, rfl⟩ := literalAt_eq_ok.mp h
  exact ⟨_, _, rfl⟩

theorem at?_of_opening? {c : Char} {cs marks after : List Char} {d : Delimiter}
    (h : Literal.opening? (c :: cs) = some (marks, d, after)) :
    at? c cs = literalAt marks d after := by
  unfold at?
  dsimp only
  rw [h]

theorem at?_eq_of_blank {c : Char} (h : c = '\\' ∨ c = '\r') (cs : List Char) : at? c cs =
    if !(blankPart (c :: cs)).isEmpty then .ok ⟨.blank, blankPart (c :: cs)⟩
    else if !(breakPart (c :: cs)).isEmpty then .ok ⟨.lineBreak, breakPart (c :: cs)⟩
    else .error (.invalidCharacter c) := by
  rcases h with rfl | rfl
  · cases cs with
    | nil => rfl
    | cons c cs => rfl
  · cases cs with
    | nil => rfl
    | cons c cs => rfl

theorem at?_backslash {cs : List Char} {l : Lexeme} (h : at? '\\' cs = .ok l) :
    ∃ after, l = ⟨.blank, ['\\', '\n']⟩ ∧ cs = '\n' :: after ∨
      l = ⟨.blank, ['\\', '\r', '\n']⟩ ∧ cs = '\r' :: '\n' :: after := by
  rw [at?_eq_of_blank (.inl rfl), blankPart.eq_def, breakPart_eq_nil (by decide) (by decide)] at h
  split at h
  · rename_i heq
    cases heq
  · rename_i after heq
    cases heq
    cases h
    exact ⟨after, .inl ⟨rfl, rfl⟩⟩
  · rename_i after heq
    cases heq
    cases h
    exact ⟨after, .inr ⟨rfl, rfl⟩⟩
  · cases h

theorem at?_return {cs : List Char} {l : Lexeme} (h : at? '\r' cs = .ok l) :
    ∃ after, l = ⟨.lineBreak, ['\r', '\n']⟩ ∧ cs = '\n' :: after := by
  rw [at?_eq_of_blank (.inr rfl), blankPart_eq_nil (by decide) (by decide) (by decide)] at h
  rcases cs with _ | ⟨c, cs⟩
  · cases h
  · by_cases hnewline : c = '\n'
    · subst hnewline
      cases h
      exact ⟨cs, rfl, rfl⟩
    · rw [breakPart] at h
      · cases h
      · exact fun _ heq => absurd (List.cons.inj heq).1 (by decide)
      · exact fun _ heq => hnewline (List.cons.inj (List.cons.inj heq).2).1

theorem at?_newline (rest : List Char) : at? '\n' rest = .ok ⟨.lineBreak, ['\n']⟩ := by
  cases rest with
  | nil => rfl
  | cons c cs => rfl

theorem at?_hash (cs : List Char) :
    at? '#' cs = .ok ⟨.blank, '#' :: cs.takeWhile fun c => decide (c ≠ '\n')⟩ := rfl

theorem at?_comment {line : List Char} (hline : '\n' ∉ line) (rest : List Char) :
    at? '#' (line ++ '\n' :: rest) = .ok ⟨.blank, '#' :: line⟩ := by
  rw [at?_hash, List.takeWhile_append_of_pos, List.takeWhile_cons_of_neg, List.append_nil]
  · decide
  · intro c hc
    rw [decide_eq_true_iff]
    rintro rfl
    exact hline hc

theorem at?_of_isSpace {c : Char} (h : isSpace c = true) (cs : List Char) :
    at? c cs = .ok ⟨.blank, (c :: cs).takeWhile isSpace⟩ := by
  simp only [isSpace, Bool.or_eq_true, beq_iff_eq, or_assoc] at h
  rcases h with rfl | rfl | rfl
  · rfl
  · rfl
  · rfl

theorem at?_of_opening?_eq_none {c : Char} {cs : List Char} (hblank : blankPart (c :: cs) = [])
    (hbreak : breakPart (c :: cs) = []) (h : Literal.opening? (c :: cs) = none) : at? c cs =
      if !(namePart (c :: cs)).isEmpty then .ok ⟨.name, namePart (c :: cs)⟩
      else if !(numberPart (c :: cs)).isEmpty then .ok ⟨.number, numberPart (c :: cs)⟩
      else match opAt? (c :: cs) with
        | some op => .ok ⟨.op op, op.chars⟩
        | none => .error (.invalidCharacter c) := by
  unfold at?
  dsimp only
  rw [h, hblank, hbreak]
  rfl

theorem literal_separated {marks after s t gap : List Char} {d : Delimiter} {l : Lexeme}
    (hopening : Literal.opening? (s ++ t) = some (marks, d, after))
    (h : literalAt marks d after = .ok l) (hwithin : l.chars <+: s) (hgap : OpensGap gap) :
    ∃ after', Literal.opening? (s ++ gap) = some (marks, d, after') ∧
      literalAt marks d after' = .ok l := by
  obtain ⟨hopens, htext⟩ := Literal.opening?_eq_some_iff.mp hopening
  obtain ⟨body, text, hbody, hdecode, rfl⟩ := literalAt_eq_ok.mp h
  obtain ⟨-, hsame⟩ := Delimiter.body?_closed hopens.quoted hbody
  obtain ⟨s, rfl⟩ := hwithin
  have hafter : after = body ++ (d.chars ++ (s ++ t)) := by
    have hboth : marks ++ (d.chars ++ after) =
        marks ++ (d.chars ++ (body ++ (d.chars ++ (s ++ t)))) := by
      rw [← htext]
      simp only [List.append_assoc]
    exact List.append_cancel_left (List.append_cancel_left hboth)
  rw [hafter, ← List.append_assoc, ← List.append_assoc] at hopens
  have hopens' := hopens.separated hgap
  rw [List.append_assoc, List.append_assoc] at hopens'
  refine ⟨body ++ (d.chars ++ (s ++ gap)), Literal.opening?_eq_some_iff.mpr ⟨hopens', ?_⟩,
    literalAt_eq_ok.mpr ⟨body, text, hsame (s ++ gap), hdecode, rfl⟩⟩
  simp only [List.append_assoc]

/-- A name, a number or an operator ends where it does if the text has a gap after it: each part
that comes into question is the lexeme or empty, and so within the text. -/
theorem word_separated {c : Char} {s t gap : List Char} {l : Lexeme}
    (hblank : ∀ cs, blankPart (c :: cs) = []) (hbreak : ∀ cs, breakPart (c :: cs) = [])
    (hopening : Literal.opening? (c :: (s ++ t)) = none) (h : at? c (s ++ t) = .ok l)
    (hwithin : l.chars <+: c :: s) (hgap : OpensGap gap) : at? c (s ++ gap) = .ok l := by
  have hopening' : Literal.opening? (c :: (s ++ gap)) = none :=
    Literal.opening?_separated (s := c :: s) hopening hgap
  have hname : namePart (c :: (s ++ t)) <+: c :: s → namePart (c :: (s ++ gap)) = _ :=
    fun hpart => separable_namePart.separated (s := c :: s) hpart hgap
  have hnumber : numberPart (c :: (s ++ t)) <+: c :: s → numberPart (c :: (s ++ gap)) = _ :=
    fun hpart => separable_numberPart.separated (s := c :: s) hpart hgap
  rw [at?_of_opening?_eq_none (hblank _) (hbreak _) hopening] at h
  rw [at?_of_opening?_eq_none (hblank _) (hbreak _) hopening']
  split at h
  · rename_i hnonempty
    cases h
    rw [hname hwithin]
    exact if_pos hnonempty
  · rename_i hempty
    rw [Bool.not_eq_true', Bool.not_eq_false, List.isEmpty_iff] at hempty
    rw [hname (hempty ▸ List.nil_prefix)]
    rw [List.cons_append, hempty]
    split at h
    · rename_i hnonempty
      cases h
      rw [hnumber hwithin]
      exact if_pos hnonempty
    · rename_i hempty
      rw [Bool.not_eq_true', Bool.not_eq_false, List.isEmpty_iff] at hempty
      rw [hnumber (hempty ▸ List.nil_prefix)]
      rw [List.cons_append, hempty]
      split at h
      · rename_i op heq
        cases h
        have hop : opAt? (c :: (s ++ gap)) = some op :=
          opAt?_separated (s := c :: s) heq hwithin hgap
        rw [hop]
        rfl
      · cases h

/-- A lexeme ends where it does if the text has a gap after it. Blanks and comments would go on in
most gaps, except where a line feed comes first. -/
theorem at?_separated {c : Char} {s t gap : List Char} {l : Lexeme} (h : at? c (s ++ t) = .ok l)
    (hwithin : l.chars <+: c :: s) (hgap : OpensGap gap)
    (hblank : l.kind = .blank → l.chars = c :: s → ∀ b ∈ gap.head?, b = '\n') :
    at? c (s ++ gap) = .ok l := by
  by_cases hslash : c = '\\'
  · subst hslash
    obtain ⟨after, ⟨rfl, -⟩ | ⟨rfl, -⟩⟩ := at?_backslash h
    · obtain ⟨s, rfl⟩ := (List.cons_prefix_cons.mp hwithin).2
      rfl
    · obtain ⟨s, rfl⟩ := (List.cons_prefix_cons.mp hwithin).2
      rfl
  by_cases hreturn : c = '\r'
  · subst hreturn
    obtain ⟨after, rfl, -⟩ := at?_return h
    obtain ⟨s, rfl⟩ := (List.cons_prefix_cons.mp hwithin).2
    rfl
  by_cases hnewline : c = '\n'
  · subst hnewline
    rw [at?_newline] at h ⊢
    exact h
  by_cases hhash : c = '#'
  · subst hhash
    rw [at?_hash] at h ⊢
    cases h
    rw [Text.takeWhile_within (List.cons_prefix_cons.mp hwithin).2 fun heq b hb => ?_]
    rw [hblank rfl (congrArg ('#' :: ·) heq) b hb]
    rfl
  by_cases hspace : isSpace c = true
  · rw [at?_of_isSpace hspace, ← List.cons_append] at h ⊢
    cases h
    rw [Text.takeWhile_within hwithin fun heq b hb => ?_]
    rw [hblank rfl heq b hb]
    rfl
  cases hopening : Literal.opening? (c :: (s ++ t)) with
  | some opening =>
      obtain ⟨marks, d, after⟩ := opening
      rw [at?_of_opening? hopening] at h
      obtain ⟨after', hopening', hl⟩ := literal_separated (s := c :: s) hopening h hwithin hgap
      rw [← hl]
      exact at?_of_opening? hopening'
  | none =>
      exact word_separated (blankPart_eq_nil hhash hslash (Bool.eq_false_iff.mpr hspace))
        (breakPart_eq_nil hnewline hreturn) hopening h hwithin hgap

theorem ne_nil_of_not_isEmpty {cs : List Char} (h : (!cs.isEmpty) = true) : cs ≠ [] := by
  rintro rfl
  cases h

/-- What a lexeme can be. -/
theorem at?_eq_ok {c : Char} {cs : List Char} {l : Lexeme} (h : at? c cs = .ok l) :
    (∃ marks d after, Literal.opening? (c :: cs) = some (marks, d, after) ∧
        literalAt marks d after = .ok l) ∨
      Literal.opening? (c :: cs) = none ∧ l.chars ≠ [] ∧
        (l = ⟨.blank, blankPart (c :: cs)⟩ ∨ l = ⟨.lineBreak, breakPart (c :: cs)⟩ ∨
          l = ⟨.name, namePart (c :: cs)⟩ ∨ l = ⟨.number, numberPart (c :: cs)⟩ ∨
          ∃ op, opAt? (c :: cs) = some op ∧ l = ⟨.op op, op.chars⟩) := by
  unfold at? at h
  dsimp only at h
  split at h
  · rename_i marks d after hopening
    exact .inl ⟨marks, d, after, hopening, h⟩
  · rename_i hopening
    refine .inr ⟨hopening, ?_⟩
    split at h
    · rename_i hblank
      cases h
      exact ⟨ne_nil_of_not_isEmpty hblank, .inl rfl⟩
    · split at h
      · rename_i hbreak
        cases h
        exact ⟨ne_nil_of_not_isEmpty hbreak, .inr (.inl rfl)⟩
      · split at h
        · rename_i hname
          cases h
          exact ⟨ne_nil_of_not_isEmpty hname, .inr (.inr (.inl rfl))⟩
        · split at h
          · rename_i hnumber
            cases h
            exact ⟨ne_nil_of_not_isEmpty hnumber, .inr (.inr (.inr (.inl rfl)))⟩
          · split at h
            · rename_i op hop
              cases h
              refine ⟨?_, .inr (.inr (.inr (.inr ⟨op, hop, rfl⟩)))⟩
              cases op <;> exact List.cons_ne_nil _ _
            · cases h

theorem begins_of_at? {c : Char} {cs : List Char} {l : Lexeme} (h : at? c cs = .ok l) :
    l.chars <+: c :: cs ∧ l.chars ≠ [] := by
  rcases at?_eq_ok h with ⟨marks, d, after, hopening, hl⟩ | ⟨-, hne, hl⟩
  · obtain ⟨hopens, htext⟩ := Literal.opening?_eq_some_iff.mp hopening
    obtain ⟨body, text, hbody, -, rfl⟩ := literalAt_eq_ok.mp hl
    obtain ⟨hbegins, -⟩ := Delimiter.body?_closed hopens.quoted hbody
    obtain ⟨more, hmore⟩ := d.chars_eq_cons
    refine ⟨?_, ?_⟩
    · rw [htext, List.append_assoc, List.append_assoc]
      exact (List.prefix_append_right_inj _).mpr ((List.prefix_append_right_inj _).mpr hbegins)
    · rw [hmore]
      exact List.append_ne_nil_of_right_ne_nil _ (List.cons_ne_nil _ _)
  · refine ⟨?_, hne⟩
    rcases hl with rfl | rfl | rfl | rfl | ⟨op, hop, rfl⟩
    · exact begins_blankPart (c :: cs)
    · exact begins_breakPart (c :: cs)
    · exact isPart_namePart.begins (c :: cs)
    · exact isPart_numberPart.begins (c :: cs)
    · exact begins_of_opAt? hop

/-! ## Texts -/

theorem all_of_at?_error {c : Char} {cs : List Char} {fault : SyntaxFault}
    (h : at? c cs = .error fault) : all (c :: cs) = ([], some fault) := by
  unfold all allFrom
  simp only [h]

theorem all_of_at? {c : Char} {cs : List Char} {l : Lexeme} (h : at? c cs = .ok l) :
    ∃ more after, cs = more ++ after ∧ l.chars = c :: more ∧
      ∀ rest, at? c (more ++ rest) = .ok l →
        all (c :: (more ++ rest)) = (l :: (all rest).1, (all rest).2) := by
  obtain ⟨hbegins, hne⟩ := begins_of_at? h
  cases hchars : l.chars with
  | nil => exact absurd hchars hne
  | cons c' more =>
      rw [hchars] at hbegins
      obtain ⟨rfl, after, rfl⟩ := List.cons_prefix_cons.mp hbegins
      refine ⟨more, after, rfl, rfl, fun rest hrest => ?_⟩
      have hall := all_append_of_at? hchars hrest
      rwa [hchars] at hall

theorem all_eq_cons {cs : List Char} {l : Lexeme} {ls : List Lexeme} {fault : Option SyntaxFault}
    (h : all cs = (l :: ls, fault)) :
    ∃ c more after, cs = c :: (more ++ after) ∧ l.chars = c :: more ∧
      at? c (more ++ after) = .ok l ∧ all after = (ls, fault) := by
  cases cs with
  | nil => cases h
  | cons c cs =>
      cases hat : at? c cs with
      | error fault =>
          rw [all_of_at?_error hat] at h
          cases h
      | ok first =>
          obtain ⟨more, after, rfl, hchars, hall⟩ := all_of_at? hat
          rw [hall after hat] at h
          obtain ⟨hls, rfl⟩ := Prod.mk.inj h
          obtain ⟨rfl, rfl⟩ := List.cons.inj hls
          exact ⟨c, more, after, rfl, hchars, hat, rfl⟩

theorem flatMap_chars_of_all {cs : List Char} {ls : List Lexeme} (h : all cs = (ls, none)) :
    ls.flatMap chars = cs := by
  induction ls generalizing cs with
  | nil =>
      cases cs with
      | nil => rfl
      | cons c cs =>
          cases hat : at? c cs with
          | error fault =>
              rw [all_of_at?_error hat] at h
              cases h
          | ok l =>
              rw [all, allFrom_of_at? hat] at h
              cases h
  | cons l ls ih =>
      obtain ⟨c, more, after, rfl, hchars, -, hafter⟩ := all_eq_cons h
      rw [List.flatMap_cons, hchars, ih hafter]
      rfl

/-- The lexemes of a text up to the end of one of them are also cut off a gap there, unless that one
is blank and would go on; and what comes after it is cut as if it stood alone. -/
theorem all_separated {t gap : List Char} {ls later : List Lexeme} {fault : Option SyntaxFault}
    (h : all (ls.flatMap chars ++ t) = (ls ++ later, fault)) (hgap : OpensGap gap)
    (hblank : ∀ l ∈ ls.getLast?, l.kind = .blank → ∀ b ∈ gap.head?, b = '\n') :
    all t = (later, fault) ∧ all (ls.flatMap chars ++ gap) = (ls ++ (all gap).1, (all gap).2) := by
  induction ls with
  | nil => exact ⟨h, rfl⟩
  | cons l ls ih =>
      obtain ⟨c, more, after, htext, hchars, hat, hafter⟩ := all_eq_cons h
      rw [List.flatMap_cons, hchars, List.cons_append, List.cons_append, List.append_assoc] at htext
      obtain rfl := List.append_cancel_left (List.cons.inj htext).2
      have hwithin : l.chars <+: c :: (more ++ ls.flatMap chars) := by
        rw [hchars]
        exact List.cons_prefix_cons.mpr ⟨rfl, List.prefix_append _ _⟩
      rw [← List.append_assoc] at hat
      have hat' := at?_separated hat hwithin hgap fun hkind hwhole => by
        -- a lexeme that is all of the text is the last one
        cases ls with
        | nil => exact hblank l rfl hkind
        | cons m ls =>
            obtain ⟨d, _, _, -, hm, -, -⟩ := all_eq_cons hafter
            rw [hchars, List.flatMap_cons, hm] at hwhole
            simp at hwhole
      obtain ⟨ht, hrest⟩ := ih hafter fun m hm => hblank m (by
        rw [List.getLast?_cons, Option.mem_def.mp hm]
        rfl)
      refine ⟨ht, ?_⟩
      rw [List.append_assoc] at hat'
      have hall := all_append_of_at? hchars hat'
      rw [List.flatMap_cons, List.append_assoc, hall, hrest]
      rfl

theorem all_newline (rest : List Char) :
    all ('\n' :: rest) = (⟨.lineBreak, ['\n']⟩ :: (all rest).1, (all rest).2) :=
  all_append_of_at? (l := ⟨.lineBreak, ['\n']⟩) rfl (at?_newline rest)

/-- A text that is cut into lexemes to its end is those lexemes put together. Before a line break it
is cut into the same lexemes, and what comes after the line break is cut as if it stood alone. -/
theorem all_append_newline {cs : List Char} {ls : List Lexeme} (h : all cs = (ls, none))
    (rest : List Char) : ls.flatMap chars = cs ∧ all (cs ++ '\n' :: rest) =
      (ls ++ ⟨.lineBreak, ['\n']⟩ :: (all rest).1, (all rest).2) := by
  obtain rfl := flatMap_chars_of_all h
  have hall : all (ls.flatMap chars ++ []) = (ls ++ [], none) := by
    rwa [List.append_nil, List.append_nil]
  have hgap : OpensGap ('\n' :: rest) := opensGap_cons (by decide) rest
  obtain ⟨-, hsame⟩ := all_separated hall hgap (by rintro _ _ _ _ ⟨⟩; rfl)
  refine ⟨rfl, ?_⟩
  rw [hsame, all_newline]

end Lexeme

end DepsManifest
