import DepsManifest.Text.Basic
import Mathlib.Data.List.Basic
/-! # Where texts are cut

A text is cut at the first place where a separator stands, and nowhere if there is none
(`splitAtFirst?_eq_none_iff`). That is what the function does; what a reader of a written text needs
is the other direction. Whatever comes after it, the place is where the separator is put, if

  * it does not stand before, and
  * it cannot overlap itself, as `::` could with a colon right before it

(`splitAtFirst?_append_separator`). The second condition is stated as one on its first character:
that does not occur in the rest of it.

What follows the last mark of a text is the rest after it (`afterLast_append_mark`), or the whole
text if there is no mark (`afterLast_of_not_mem`).
-/
namespace DepsManifest.Text

theorem exists_run (p : Char → Bool) (cs : List Char) : ∃ run rest, cs = run ++ rest ∧
    (∀ c ∈ run, p c = true) ∧ ∀ c ∈ rest.head?, p c = false := by
  refine ⟨cs.takeWhile p, cs.dropWhile p, List.takeWhile_append_dropWhile.symm,
    List.all_eq_true.mp List.all_takeWhile, fun c hc => ?_⟩
  have hhead := List.head?_dropWhile_not p cs
  rwa [Option.mem_def.mp hc] at hhead

/-! ## Beginnings -/

theorem afterBeginning?_eq_some_iff {bs cs rest : List Char} :
    afterBeginning? bs cs = some rest ↔ cs = bs ++ rest := by
  induction bs generalizing cs with
  | nil =>
      have hall : afterBeginning? [] cs = some cs := by cases cs <;> rfl
      rw [hall, Option.some.injEq, List.nil_append]
  | cons b bs ih =>
      cases cs with
      | nil => exact iff_of_false nofun nofun
      | cons c cs =>
          rw [afterBeginning?, List.cons_append, List.cons.injEq]
          split
          · rename_i heq
            rw [ih, and_iff_right heq.symm]
          · rename_i hne
            exact iff_of_false nofun fun h => hne h.1.symm

theorem isSome_afterBeginning?_iff {bs cs : List Char} :
    (afterBeginning? bs cs).isSome = true ↔ bs <+: cs := by
  rw [Option.isSome_iff_exists]
  simp only [afterBeginning?_eq_some_iff]
  exact ⟨fun ⟨rest, h⟩ => ⟨rest, h.symm⟩, fun ⟨rest, h⟩ => ⟨rest, h.symm⟩⟩

theorem afterBeginning?_append (separator after : List Char) :
    afterBeginning? separator (separator ++ after) = some after :=
  afterBeginning?_eq_some_iff.mpr rfl

theorem afterBeginning?_eq_none_iff {bs cs : List Char} :
    afterBeginning? bs cs = none ↔ ¬ bs <+: cs := by
  rw [← isSome_afterBeginning?_iff, Option.not_isSome_iff_eq_none]

theorem afterBeginning?_of_ne {c d : Char} (h : c ≠ d) (separator cs : List Char) :
    afterBeginning? (c :: separator) (d :: cs) = none :=
  if_neg h

/-! ## The first separator -/

theorem splitAtFirst?_append {c : Char} {before : List Char} (h : c ∉ before)
    (separator after : List Char) :
    splitAtFirst? (c :: separator) (before ++ c :: separator ++ after) = some (before, after) := by
  induction before with
  | nil =>
      rw [List.nil_append, List.cons_append, splitAtFirst?, ← List.cons_append,
        afterBeginning?_append]
  | cons d before ih =>
      rw [List.mem_cons, not_or] at h
      obtain ⟨hne, hbefore⟩ := h
      rw [List.cons_append, List.cons_append, splitAtFirst?, afterBeginning?_of_ne hne, ih hbefore]
      rfl

theorem splitAtFirst?_eq_none {c : Char} {cs : List Char} (h : c ∉ cs) (separator : List Char) :
    splitAtFirst? (c :: separator) cs = none := by
  induction cs with
  | nil => rfl
  | cons d cs ih =>
      rw [List.mem_cons, not_or] at h
      rw [splitAtFirst?, afterBeginning?_of_ne h.1, ih h.2]
      rfl

theorem not_prefix_append_separator {c : Char} {separator before : List Char} (hc : c ∉ separator)
    (hne : before ≠ []) (h : ¬ c :: separator <+: before) (after : List Char) :
    ¬ c :: separator <+: before ++ (c :: separator ++ after) := by
  rintro ⟨rest, heq⟩
  rcases List.append_eq_append_iff.mp heq with ⟨within, hbefore, -⟩ | ⟨excess, hseparator, hexcess⟩
  · exact h ⟨within, hbefore.symm⟩
  · cases excess with
    | nil =>
        rw [List.append_nil] at hseparator
        exact h (hseparator ▸ List.prefix_refl _)
    | cons d excess =>
        -- what stands of the separator after the text begins with its first character
        obtain rfl : c = d := (List.cons.inj hexcess).1
        obtain ⟨e, before, rfl⟩ := List.exists_cons_of_ne_nil hne
        rw [List.cons_append, List.cons.injEq] at hseparator
        exact hc (hseparator.2 ▸ List.mem_append_right before List.mem_cons_self)

/-- A text is cut at a separator that does not stand before and cannot overlap itself. -/
theorem splitAtFirst?_append_separator {c : Char} {separator before : List Char}
    (hc : c ∉ separator) (h : ¬ c :: separator <:+: before) (after : List Char) :
    splitAtFirst? (c :: separator) (before ++ (c :: separator ++ after)) =
      some (before, after) := by
  induction before with
  | nil =>
      rw [List.nil_append, List.cons_append, splitAtFirst?, ← List.cons_append,
        afterBeginning?_append]
  | cons d before ih =>
      have hbegins : ¬ c :: separator <+: d :: (before ++ (c :: separator ++ after)) :=
        not_prefix_append_separator hc (List.cons_ne_nil d before) (fun h' => h h'.isInfix) after
      have hlater : ¬ c :: separator <:+: before :=
        fun h' => h (h'.trans (List.infix_cons List.infix_rfl))
      rw [List.cons_append, splitAtFirst?, afterBeginning?_eq_none_iff.mpr hbegins, ih hlater]
      rfl

theorem splitAtFirst?_eq_some {separator cs before after : List Char} (hne : separator ≠ [])
    (h : splitAtFirst? separator cs = some (before, after)) :
    cs = before ++ (separator ++ after) ∧ ¬ separator <:+: before := by
  induction cs generalizing before with
  | nil =>
      rw [splitAtFirst?, if_neg (mt List.isEmpty_iff.mp hne)] at h
      cases h
  | cons c cs ih =>
      rw [splitAtFirst?] at h
      cases hbegins : afterBeginning? separator (c :: cs) with
      | some rest =>
          rw [hbegins] at h
          cases h
          rw [List.nil_append]
          exact ⟨afterBeginning?_eq_some_iff.mp hbegins, mt List.infix_nil.mp hne⟩
      | none =>
          rw [hbegins] at h
          obtain ⟨⟨before', after'⟩, hlater, heq⟩ := Option.map_eq_some_iff.mp h
          cases heq
          obtain ⟨rfl, hnot⟩ := ih hlater
          refine ⟨rfl, fun hmem => ?_⟩
          rcases List.infix_cons_iff.mp hmem with hhere | hwithin
          · exact afterBeginning?_eq_none_iff.mp hbegins (hhere.trans (List.prefix_append _ _))
          · exact hnot hwithin

theorem splitAtFirst?_eq_none_iff {separator cs : List Char} :
    splitAtFirst? separator cs = none ↔ ¬ separator <:+: cs := by
  induction cs with
  | nil =>
      rw [splitAtFirst?, List.infix_nil, ← List.isEmpty_iff]
      split
      · rename_i hempty
        exact iff_of_false nofun fun h => h hempty
      · rename_i hempty
        exact iff_of_true rfl hempty
  | cons c cs ih =>
      rw [List.infix_cons_iff, not_or, ← afterBeginning?_eq_none_iff, splitAtFirst?]
      cases afterBeginning? separator (c :: cs) with
      | some rest => exact iff_of_false nofun fun h => nomatch h.1
      | none => rw [Option.map_eq_none_iff, ih, and_iff_right rfl]

/-! ## The last mark -/

theorem afterLast_of_not_mem {mark : Char} {cs : List Char} (h : mark ∉ cs) :
    afterLast mark cs = cs := by
  cases cs with
  | nil => rfl
  | cons c cs =>
      obtain ⟨hc, hcs⟩ := not_or.mp (mt List.mem_cons.mpr h)
      rw [afterLast, if_neg (Ne.symm hc), if_neg hcs]

theorem afterLast_append {mark : Char} {ds : List Char} (h : mark ∈ ds) (cs : List Char) :
    afterLast mark (cs ++ ds) = afterLast mark ds := by
  induction cs with
  | nil => rfl
  | cons c cs ih =>
      rw [List.cons_append, afterLast, if_pos (List.mem_append_right cs h), ite_self, ih]

/-- After a mark that is the last one stands what follows the last mark. -/
theorem afterLast_append_mark {mark : Char} {after : List Char} (h : mark ∉ after)
    (cs : List Char) : afterLast mark (cs ++ mark :: after) = after := by
  rw [afterLast_append List.mem_cons_self, afterLast, if_pos rfl, afterLast_of_not_mem h]

theorem exists_append_last {mark : Char} {cs : List Char} (h : mark ∈ cs) :
    ∃ before after, cs = before ++ mark :: after ∧ mark ∉ after := by
  obtain ⟨after, before, hcs, hafter⟩ := List.eq_append_cons_of_mem (List.mem_reverse.mpr h)
  refine ⟨before.reverse, after.reverse, ?_, mt List.mem_reverse.mp hafter⟩
  rw [← List.reverse_reverse cs, hcs, List.reverse_append, List.reverse_cons, List.append_assoc,
    List.singleton_append]

end DepsManifest.Text
