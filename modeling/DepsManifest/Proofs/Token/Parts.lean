import DepsManifest.Proofs.Token.Lexing
/-! # Parts of a text

What a name or a number is depends on the beginning of the text alone. Beyond its end a reader looks
at most for more of the same. So it ends where it does if the text is cut off there, and also if the
text goes on there with a gap: with blanks, a comment, a continuation or a line break, which begin
with characters that no name, number or operator has (`Separable`).

## How a part is shown to be separable

  * a run of characters of a class is, if the class has none that a gap begins with
    (`separable_takeWhile`);
  * parts one after the other are if each is (`Separable.followed`);
  * a part that is chosen by its first character is, if it takes nothing off a gap
    (`Separable.of_cons`).

Numbers are the work: digits with underscores, a point with digits after it or before it, an
exponent that needs digits after its sign, a suffix, or digits of another base after a mark. Each
piece has a lemma, in the order in which they stand (`separable_numberPart`). Where the digits that
a piece needs are missing, it takes nothing, and a gap after the sign or the mark does not change
that.

A part that may hold blanks does not have that property, but it still ends before a line break
(`IsPart`).
-/
namespace DepsManifest

/-- A character that a line break begins with: a line feed, or a carriage return before one. -/
def BeginsBreak (b : Char) : Prop := b = '\n' ∨ b = '\r'

/-- A function takes a beginning off a text, and looks no further than the first line break. -/
structure IsPart (part : List Char → List Char) : Prop where
  begins : ∀ cs, part cs <+: cs
  append_break : ∀ {b}, BeginsBreak b → ∀ cs rest, part (cs ++ b :: rest) = part cs

/-- The characters that begin what can stand between two lexemes. -/
def gapStarts : List Char := [' ', '\t', '\x0c', '#', '\\', '\n', '\r']

/-- A text that goes on with a gap, or not at all. -/
def OpensGap (rest : List Char) : Prop := ∀ b ∈ rest.head?, b ∈ gapStarts

/-- A function takes a beginning off a text, and the same one if the text ends or has a gap anywhere
after it. -/
structure Separable (part : List Char → List Char) : Prop where
  begins : ∀ cs, part cs <+: cs
  separated : ∀ {s t gap}, part (s ++ t) <+: s → OpensGap gap → part (s ++ gap) = part (s ++ t)

theorem opensGap_cons {b : Char} (h : b ∈ gapStarts) (rest : List Char) : OpensGap (b :: rest) := by
  rintro _ ⟨⟩
  exact h

namespace Separable

variable {part next : List Char → List Char}

/-- A function that takes nothing off a gap may be looked at where a text begins otherwise. -/
theorem of_cons (hnil : part [] = []) (hgap : ∀ b ∈ gapStarts, ∀ rest, part (b :: rest) = [])
    (hbegins : ∀ c cs, part (c :: cs) <+: c :: cs)
    (hcons : ∀ c s t gap, part (c :: (s ++ t)) <+: c :: s → OpensGap gap →
      part (c :: (s ++ gap)) = part (c :: (s ++ t))) : Separable part where
  begins := by
    intro cs
    cases cs with
    | nil => exact List.prefix_nil.mpr hnil
    | cons c cs => exact hbegins c cs
  separated := by
    intro s t gap hwithin h
    cases s with
    | cons c s => exact hcons c s t gap hwithin h
    | nil =>
        rw [List.nil_append, List.nil_append, (List.prefix_nil.mp hwithin : part t = [])]
        cases gap with
        | nil => exact hnil
        | cons b gap => exact hgap b (h b rfl) gap

theorem gap_eq_nil (h : Separable part) {gap : List Char} (hgap : OpensGap gap) :
    part gap = [] := by
  have hnil : part ([] ++ []) <+: [] := h.begins []
  exact (h.separated hnil hgap).trans (List.prefix_nil.mp hnil)

theorem append_gap (h : Separable part) (cs : List Char) {gap : List Char} (hgap : OpensGap gap) :
    part (cs ++ gap) = part cs := by
  have hwithin : part (cs ++ []) <+: cs := by
    rw [List.append_nil]
    exact h.begins cs
  rw [h.separated hwithin hgap, List.append_nil]

theorem isPart (h : Separable part) : IsPart part where
  begins := h.begins
  append_break := by
    rintro b hb cs rest
    refine h.append_gap cs (opensGap_cons ?_ rest)
    rcases hb with rfl | rfl
    · decide
    · decide

theorem drop_append {s t : List Char} (hwithin : part (s ++ t) <+: s) (rest : List Char) :
    (s ++ rest).drop (part (s ++ t)).length = s.drop (part (s ++ t)).length ++ rest :=
  List.drop_append_of_le_length hwithin.length_le

/-- A part, and another part where it ends. -/
theorem followed (h : Separable part) (hnext : Separable next) :
    Separable fun cs => part cs ++ next (cs.drop (part cs).length) where
  begins := by
    intro cs
    obtain ⟨after, hafter⟩ := hnext.begins (cs.drop (part cs).length)
    refine ⟨after, ?_⟩
    rw [List.append_assoc, hafter]
    exact List.prefix_iff_eq_append.mp (h.begins cs)
  separated := by
    intro s t gap hwithin hgap
    have hfirst : part (s ++ t) <+: s := (List.prefix_append _ _).trans hwithin
    have hsplit := List.prefix_iff_eq_append.mp hfirst
    rw [h.separated hfirst hgap]
    rw [drop_append hfirst] at hwithin ⊢
    rw [drop_append hfirst]
    conv_rhs at hwithin => rw [← hsplit]
    rw [hnext.separated ((List.prefix_append_right_inj _).mp hwithin) hgap]

end Separable

namespace Text

theorem takeWhile_append_cons {p : Char → Bool} {b : Char} (h : p b = false) (cs rest : List Char) :
    (cs ++ b :: rest).takeWhile p = cs.takeWhile p := by
  induction cs with
  | nil => exact List.takeWhile_cons_of_neg (by rw [h]; decide)
  | cons c cs ih => rw [List.cons_append, List.takeWhile_cons, List.takeWhile_cons, ih]

theorem isPart_takeWhile {p : Char → Bool} (hnewline : p '\n' = false) (hreturn : p '\r' = false) :
    IsPart (List.takeWhile p) := by
  refine ⟨fun _ => List.takeWhile_prefix p, fun {b} hb cs rest => takeWhile_append_cons ?_ cs rest⟩
  rcases hb with rfl | rfl
  · exact hnewline
  · exact hreturn

/-- A run of characters that ends within a text ends there whatever the text goes on with, and one
that takes all of it ends before a character that is not of the class. -/
theorem takeWhile_within {p : Char → Bool} {s t rest : List Char}
    (hwithin : (s ++ t).takeWhile p <+: s)
    (hrest : (s ++ t).takeWhile p = s → ∀ b ∈ rest.head?, p b = false) :
    (s ++ rest).takeWhile p = (s ++ t).takeWhile p := by
  induction s with
  | nil =>
      have hnil : t.takeWhile p = [] := List.prefix_nil.mp hwithin
      rw [List.nil_append, List.nil_append, hnil]
      cases rest with
      | nil => rfl
      | cons b rest => exact List.takeWhile_cons_of_neg (by rw [hrest hnil b rfl]; decide)
  | cons c s ih =>
      simp only [List.cons_append, List.takeWhile_cons] at hwithin hrest ⊢
      split
      · rename_i hc
        simp only [hc, if_true] at hwithin hrest
        rw [ih (List.cons_prefix_cons.mp hwithin).2 fun heq => hrest (congrArg (c :: ·) heq)]
      · rfl

theorem separable_takeWhile {p : Char → Bool} (h : ∀ b ∈ gapStarts, p b = false) :
    Separable (List.takeWhile p) where
  begins := fun _ => List.takeWhile_prefix p
  separated := fun hwithin hgap => takeWhile_within hwithin fun _ b hb => h b (hgap b hb)

theorem drop_length_takeWhile (p : Char → Bool) (cs : List Char) :
    cs.drop (cs.takeWhile p).length = cs.dropWhile p := by
  have hsplit := List.prefix_iff_eq_append.mp (List.takeWhile_prefix p (l := cs))
  exact List.append_cancel_left (hsplit.trans List.takeWhile_append_dropWhile.symm)

theorem isSome_afterBeginning?_append_cons {bs : List Char} {b : Char} (h : b ∉ bs)
    (cs rest : List Char) : (afterBeginning? bs (cs ++ b :: rest)).isSome =
      (afterBeginning? bs cs).isSome :=
  Lexeme.isSome_afterBeginning?_append fun c hc hmem => by
    cases hc
    exact h hmem

end Text

namespace IsPart

variable {part : List Char → List Char}

theorem not_mem (h : IsPart part) {b : Char} (hb : BeginsBreak b) (cs : List Char) :
    b ∉ part cs := by
  intro hmem
  have hcs : b ∈ cs := (h.begins cs).subset hmem
  obtain ⟨before, after, rfl, hbefore⟩ := List.eq_append_cons_of_mem hcs
  rw [h.append_break hb] at hmem
  exact hbefore ((h.begins before).subset hmem)

end IsPart

/-! ## Names and numbers -/

namespace Lexeme

theorem separable_namePart : Separable namePart := by
  have hrest := Text.separable_takeWhile (p := isNamePart) (Text.forall_of_all (by decide))
  have hstart : ∀ b ∈ gapStarts, ¬ isNameStart b = true := Text.forall_of_all (by decide)
  refine .of_cons rfl (fun b hb rest => if_neg (hstart b hb)) (fun c cs => ?_) ?_
  · rw [namePart]
    split
    · exact List.cons_prefix_cons.mpr ⟨rfl, hrest.begins cs⟩
    · exact List.nil_prefix
  · intro c s t gap hwithin h
    rw [namePart] at hwithin
    rw [namePart, namePart]
    split
    · rename_i hc
      rw [if_pos hc] at hwithin
      rw [hrest.separated (List.cons_prefix_cons.mp hwithin).2 h]
    · rfl

theorem isPart_namePart : IsPart namePart := separable_namePart.isPart

def pointPart : List Char → List Char
  | '.' :: fraction => '.' :: fraction.takeWhile isDigitPart
  | _ => []

theorem pointPart_cons (c : Char) (cs : List Char) :
    pointPart (c :: cs) = if c = '.' then '.' :: cs.takeWhile isDigitPart else [] := by
  split
  · rename_i hpoint
    rw [hpoint, pointPart]
  · rename_i hpoint
    rw [pointPart]
    exact fun _ heq => hpoint (List.cons.inj heq).1

theorem separable_digits : Separable (List.takeWhile isDigitPart) :=
  Text.separable_takeWhile (Text.forall_of_all (by decide))

theorem separable_pointPart : Separable pointPart := by
  have hpoint : ∀ b ∈ gapStarts, b ≠ '.' := Text.forall_of_all (by decide)
  refine .of_cons rfl (fun b hb rest => ?_) (fun c cs => ?_) ?_
  · rw [pointPart_cons, if_neg (hpoint b hb)]
  · rw [pointPart_cons]
    split
    · rename_i hc
      exact List.cons_prefix_cons.mpr ⟨hc.symm, separable_digits.begins cs⟩
    · exact List.nil_prefix
  · intro c s t gap hwithin h
    rw [pointPart_cons] at hwithin
    rw [pointPart_cons, pointPart_cons]
    split
    · rename_i hc
      rw [if_pos hc] at hwithin
      rw [separable_digits.separated (List.cons_prefix_cons.mp hwithin).2 h]
    · rfl

theorem mantissaPart_cons (c : Char) (cs : List Char) :
    mantissaPart (c :: cs) =
      if c.isDigit = true then
        c :: (cs.takeWhile isDigitPart ++ pointPart (cs.drop (cs.takeWhile isDigitPart).length))
      else if c = '.' ∧ cs.head?.any Char.isDigit = true then '.' :: cs.takeWhile isDigitPart
      else [] := by
  rw [mantissaPart.eq_def, Text.drop_length_takeWhile]
  simp only []
  by_cases hdigit : c.isDigit = true
  · rw [if_pos hdigit, if_pos hdigit]
    split
    · rename_i fraction heq
      rw [heq]
      rfl
    · rename_i hno
      rw [pointPart, List.append_nil]
      exact hno
  · rw [if_neg hdigit, if_neg hdigit]
    by_cases hpoint : c = '.'
    · rw [if_pos hpoint]
      cases cs with
      | nil => rw [if_neg fun h => Bool.false_ne_true h.2]
      | cons d fraction =>
          by_cases hd : d.isDigit = true
          · have hpart : isDigitPart d = true := by rw [isDigitPart, hd, Bool.true_or]
            rw [if_pos ⟨hpoint, hd⟩, List.takeWhile_cons_of_pos hpart]
            exact if_pos hd
          · rw [if_neg fun h => hd h.2]
            exact if_neg hd
    · rw [if_neg hpoint, if_neg fun h => hpoint h.1]

theorem any_isDigit_head?_gap {gap : List Char} (h : OpensGap gap) :
    gap.head?.any Char.isDigit = false := by
  have hdigit : ∀ b ∈ gapStarts, b.isDigit = false := Text.forall_of_all (by decide)
  rw [Option.any_eq_false]
  exact fun b hb => hdigit b (h b hb)

theorem separable_mantissaPart : Separable mantissaPart := by
  have hwhole := separable_digits.followed separable_pointPart
  have hfirst : ∀ b ∈ gapStarts, b.isDigit = false ∧ b ≠ '.' := Text.forall_of_all (by decide)
  refine .of_cons rfl (fun b hb rest => ?_) (fun c cs => ?_) ?_
  · obtain ⟨hdigit, hpoint⟩ := hfirst b hb
    rw [mantissaPart_cons, if_neg (Bool.eq_false_iff.mp hdigit), if_neg fun h => hpoint h.1]
  · rw [mantissaPart_cons]
    split
    · exact List.cons_prefix_cons.mpr ⟨rfl, hwhole.begins cs⟩
    · split
      · rename_i h
        exact List.cons_prefix_cons.mpr ⟨h.1.symm, separable_digits.begins cs⟩
      · exact List.nil_prefix
  · intro c s t gap hwithin h
    rw [mantissaPart_cons] at hwithin
    rw [mantissaPart_cons, mantissaPart_cons]
    split
    · rename_i hc
      rw [if_pos hc] at hwithin
      exact congrArg (c :: ·) (hwhole.separated (List.cons_prefix_cons.mp hwithin).2 h)
    · rename_i hc
      rw [if_neg hc] at hwithin
      cases s with
      | cons d s =>
          have hhead : ∀ rest, (d :: s ++ rest).head?.any Char.isDigit = d.isDigit := fun _ => rfl
          simp only [hhead] at hwithin ⊢
          split
          · rename_i hpoint
            rw [if_pos hpoint] at hwithin
            exact congrArg ('.' :: ·)
              (separable_digits.separated (List.cons_prefix_cons.mp hwithin).2 h)
          · rfl
      | nil =>
          -- a point that has digits after it takes them with it
          have hnone : ¬ (c = '.' ∧ t.head?.any Char.isDigit = true) := by
            rintro hpoint
            rw [List.nil_append, if_pos hpoint] at hwithin
            have hdigits := List.prefix_nil.mp (List.cons_prefix_cons.mp hwithin).2
            cases t with
            | nil => cases hpoint.2
            | cons d t =>
                have hd : isDigitPart d = true := by
                  rw [isDigitPart, Bool.or_eq_true]
                  exact .inl hpoint.2
                rw [List.takeWhile_cons_of_pos hd] at hdigits
                cases hdigits
          rw [List.nil_append, List.nil_append, if_neg hnone, any_isDigit_head?_gap h]
          exact if_neg fun hpoint => Bool.false_ne_true hpoint.2

theorem signPart_cons (c : Char) (cs : List Char) :
    signPart (c :: cs) = if c = '+' ∨ c = '-' then [c] else [] := by
  by_cases hplus : c = '+'
  · subst hplus
    rfl
  · by_cases hminus : c = '-'
    · subst hminus
      rfl
    · rw [signPart, if_neg (not_or.mpr ⟨hplus, hminus⟩)]
      · exact fun _ h => hplus (List.cons.inj h).1
      · exact fun _ h => hminus (List.cons.inj h).1

theorem signPart_within (c : Char) (cs : List Char) : signPart (c :: cs) <+: [c] := by
  rw [signPart_cons]
  split
  · exact List.prefix_rfl
  · exact List.nil_prefix

theorem separable_signPart : Separable signPart := by
  have hsign : ∀ b ∈ gapStarts, ¬ (b = '+' ∨ b = '-') := Text.forall_of_all (by decide)
  refine .of_cons rfl (fun b hb rest => ?_) (fun c cs => ?_) fun c s t gap _ _ => ?_
  · rw [signPart_cons, if_neg (hsign b hb)]
  · exact (signPart_within c cs).trans (List.prefix_append [c] cs)
  · rw [signPart_cons, signPart_cons]

def signedPart (cs : List Char) : List Char :=
  signPart cs ++ (cs.drop (signPart cs).length).takeWhile Char.isDigit

theorem separable_signedPart : Separable signedPart :=
  separable_signPart.followed (Text.separable_takeWhile (Text.forall_of_all (by decide)))

theorem exponentPart_cons (c : Char) (cs : List Char) : exponentPart (c :: cs) =
    if c = 'e' ∨ c = 'E' then if signedPart cs = signPart cs then [] else c :: signedPart cs
    else [] := by
  have hempty : signedPart cs = signPart cs ↔
      ((cs.drop (signPart cs).length).takeWhile Char.isDigit).isEmpty = true := by
    rw [signedPart, List.append_right_eq_self, List.isEmpty_iff]
  simp only [hempty]
  rfl

theorem separable_exponentPart : Separable exponentPart := by
  have hmark : ∀ b ∈ gapStarts, ¬ (b = 'e' ∨ b = 'E') := Text.forall_of_all (by decide)
  refine .of_cons rfl (fun b hb rest => ?_) (fun c cs => ?_) ?_
  · rw [exponentPart_cons, if_neg (hmark b hb)]
  · rw [exponentPart_cons]
    split
    · split
      · exact List.nil_prefix
      · exact List.cons_prefix_cons.mpr ⟨rfl, separable_signedPart.begins cs⟩
    · exact List.nil_prefix
  · intro c s t gap hwithin h
    rw [exponentPart_cons] at hwithin
    rw [exponentPart_cons, exponentPart_cons]
    split
    · rename_i hc
      rw [if_pos hc] at hwithin
      cases s with
      | nil =>
          -- a mark without digits in the text is no exponent
          have hnone : signedPart t = signPart t := by
            by_contra hne
            rw [List.nil_append, if_neg hne] at hwithin
            have hnil : signedPart t = [] := List.prefix_nil.mp (List.cons_prefix_cons.mp hwithin).2
            exact hne (hnil.trans (List.append_eq_nil_iff.mp hnil).1.symm)
          have hgap : signedPart gap = signPart gap := by
            rw [separable_signedPart.gap_eq_nil h, separable_signPart.gap_eq_nil h]
          rw [List.nil_append, List.nil_append, if_pos hnone, if_pos hgap]
      | cons d s =>
          have hsign : signPart (d :: s ++ t) <+: d :: s :=
            (signPart_within d (s ++ t)).trans (List.prefix_append [d] s)
          have hsigned : signedPart (d :: s ++ t) <+: d :: s := by
            split at hwithin
            · rename_i heq
              rw [heq]
              exact hsign
            · exact (List.cons_prefix_cons.mp hwithin).2
          rw [separable_signedPart.separated hsigned h, separable_signPart.separated hsign h]
    · rfl

theorem separable_suffixPart : Separable suffixPart := by
  have hletter : ∀ b ∈ gapStarts, ¬ (b = 'j' ∨ b = 'J' ∨ b = 'l' ∨ b = 'L') :=
    Text.forall_of_all (by decide)
  refine .of_cons rfl (fun b hb rest => if_neg (hletter b hb)) (fun c cs => ?_)
    fun c s t gap _ _ => rfl
  rw [suffixPart]
  split
  · exact List.prefix_append [c] cs
  · exact List.nil_prefix

theorem radixPart_cons_cons (c mark : Char) (cs : List Char) :
    radixPart (c :: mark :: cs) =
      if c = '0' then
        ((radix? mark).map fun base =>
          if (cs.takeWhile (isRadixPart base)).isEmpty then []
          else '0' :: mark :: cs.takeWhile (isRadixPart base)).getD []
      else [] := by
  by_cases hzero : c = '0'
  · subst hzero
    rw [radixPart, if_pos rfl]
    cases radix? mark with
    | none => rfl
    | some base => rfl
  · rw [radixPart, if_neg hzero]
    exact fun _ _ h => hzero (List.cons.inj h).1

theorem isRadixPart_of_digitValue? {c : Char} (hc : c ≠ '_') {base : Nat}
    (h : Text.digitValue? base c = none) : isRadixPart base c = false := by
  rw [isRadixPart, h]
  exact beq_false_of_ne hc

theorem separable_radixDigits (base : Nat) : Separable (List.takeWhile (isRadixPart base)) := by
  refine Text.separable_takeWhile fun b hb => ?_
  simp only [gapStarts, List.mem_cons, List.not_mem_nil, or_false] at hb
  rcases hb with rfl | rfl | rfl | rfl | rfl | rfl | rfl <;>
    exact isRadixPart_of_digitValue? (by decide) rfl

theorem eq_nil_of_radixPart_prefix {c mark : Char} {cs : List Char}
    (h : radixPart (c :: mark :: cs) <+: [c]) : radixPart (c :: mark :: cs) = [] := by
  rw [radixPart_cons_cons] at h ⊢
  split
  · rename_i hzero
    rw [if_pos hzero] at h
    cases hbase : radix? mark with
    | none => rfl
    | some base =>
        rw [hbase] at h
        dsimp only [Option.map_some, Option.getD_some] at h ⊢
        split
        · rfl
        · rename_i hne
          rw [if_neg hne] at h
          cases (List.cons_prefix_cons.mp h).2.length_le
  · rfl

theorem separable_radixPart : Separable radixPart := by
  have hfirst : ∀ b ∈ gapStarts, b ≠ '0' ∧ radix? b = none := Text.forall_of_all (by decide)
  have hsingle : ∀ c, radixPart [c] = [] := by
    intro c
    rw [radixPart]
    exact nofun
  have hgap : ∀ b ∈ gapStarts, ∀ c rest, radixPart (c :: b :: rest) = [] := by
    intro b hb c rest
    rw [radixPart_cons_cons, (hfirst b hb).2]
    exact ite_self _
  refine .of_cons rfl (fun b hb rest => ?_) (fun c cs => ?_) ?_
  · cases rest with
    | nil => exact hsingle b
    | cons mark rest => rw [radixPart_cons_cons, if_neg (hfirst b hb).1]
  · cases cs with
    | nil =>
        rw [hsingle]
        exact List.nil_prefix
    | cons mark cs =>
        rw [radixPart_cons_cons]
        split
        · rename_i hzero
          cases radix? mark with
          | none => exact List.nil_prefix
          | some base =>
              dsimp only [Option.map_some, Option.getD_some]
              split
              · exact List.nil_prefix
              · exact List.cons_prefix_cons.mpr ⟨hzero.symm,
                  List.cons_prefix_cons.mpr ⟨rfl, (separable_radixDigits base).begins cs⟩⟩
        · exact List.nil_prefix
  · intro c s t gap hwithin h
    cases s with
    | nil =>
        have hnone : radixPart (c :: t) = [] := by
          cases t with
          | nil => exact hsingle c
          | cons mark t => exact eq_nil_of_radixPart_prefix hwithin
        rw [List.nil_append, List.nil_append, hnone]
        cases gap with
        | nil => exact hsingle c
        | cons b gap => exact hgap b (h b rfl) c gap
    | cons mark s =>
        rw [List.cons_append, radixPart_cons_cons] at hwithin
        rw [List.cons_append, List.cons_append, radixPart_cons_cons, radixPart_cons_cons]
        split
        · rename_i hzero
          rw [if_pos hzero] at hwithin
          cases hbase : radix? mark with
          | none => rfl
          | some base =>
              rw [hbase] at hwithin
              dsimp only [Option.map_some, Option.getD_some] at hwithin ⊢
              have hdigits : (s ++ t).takeWhile (isRadixPart base) <+: s := by
                split at hwithin
                · rename_i hempty
                  rw [List.isEmpty_iff.mp hempty]
                  exact List.nil_prefix
                · exact (List.cons_prefix_cons.mp (List.cons_prefix_cons.mp hwithin).2).2
              rw [(separable_radixDigits base).separated hdigits h]
        · rfl

theorem separable_decimalPart : Separable decimalPart := by
  have hwhole :=
    (separable_mantissaPart.followed separable_exponentPart).followed separable_suffixPart
  have hpart : ∀ cs, decimalPart cs = if (mantissaPart cs).isEmpty then [] else
      mantissaPart cs ++ exponentPart (cs.drop (mantissaPart cs).length) ++
        suffixPart (cs.drop (mantissaPart cs ++
          exponentPart (cs.drop (mantissaPart cs).length)).length) := by
    intro cs
    rw [decimalPart, List.length_append]
  refine ⟨fun cs => ?_, fun {s t gap} hwithin h => ?_⟩
  · rw [hpart]
    split
    · exact List.nil_prefix
    · exact hwhole.begins cs
  · have hmantissa : mantissaPart (s ++ t) <+: s := by
      rw [hpart] at hwithin
      split at hwithin
      · rename_i hempty
        rw [List.isEmpty_iff.mp hempty]
        exact List.nil_prefix
      · rw [List.append_assoc] at hwithin
        exact (List.prefix_append _ _).trans hwithin
    rw [hpart, hpart, separable_mantissaPart.separated hmantissa h]
    split
    · rfl
    · rename_i hne
      rw [hpart, if_neg hne] at hwithin
      have hsame := hwhole.separated hwithin h
      rwa [separable_mantissaPart.separated hmantissa h] at hsame

theorem separable_numberPart : Separable numberPart := by
  refine ⟨fun cs => ?_, fun {s t gap} hwithin h => ?_⟩
  · rw [numberPart]
    split
    · exact separable_decimalPart.begins cs
    · exact separable_radixPart.begins cs
  · have hradix : radixPart (s ++ t) <+: s := by
      rw [numberPart] at hwithin
      split at hwithin
      · rename_i hempty
        rw [List.isEmpty_iff.mp hempty]
        exact List.nil_prefix
      · exact hwithin
    rw [numberPart, numberPart, separable_radixPart.separated hradix h]
    split
    · rename_i hempty
      rw [numberPart, if_pos hempty] at hwithin
      exact separable_decimalPart.separated hwithin h
    · rfl

theorem isPart_numberPart : IsPart numberPart := separable_numberPart.isPart

end Lexeme

end DepsManifest
