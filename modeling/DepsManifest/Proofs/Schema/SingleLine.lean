import DepsManifest.Proofs.Schema.Paths
import DepsManifest.Proofs.Text.Quoted
import DepsManifest.Proofs.Token.Literal
/-! # Mismatches on one line

A report is read line by line, so it matters what may bring a line break into it. Quoted texts and
printed values do not, whatever strings a value holds: a line break is printed as an escape
(`isLine_quoted`, `Value.isLine_repr`). Nor do the descriptions of shapes, which are made of words.

So a mismatch of a scope whose names are on one line is on one line in all its parts, and in the
message that is made of them (`Scope.isLine_of_mem_mismatches`). The names are the one thing that is
put in as it is, at the beginning of a path; those of a text are words.

Only the line feed counts here. A carriage return does not end a line of a report.
-/
namespace DepsManifest

/-! ## Texts -/

namespace Text

/-- A text without a line break. -/
def IsLine (s : String) : Prop := '\n' ∉ s.toList

instance (s : String) : Decidable (IsLine s) := inferInstanceAs (Decidable ('\n' ∉ s.toList))

@[simp]
theorem isLine_append {s t : String} : IsLine (s ++ t) ↔ IsLine s ∧ IsLine t := by
  rw [IsLine, String.toList_append, List.mem_append, not_or]
  rfl

theorem isLine_ofList {cs : List Char} : IsLine (String.ofList cs) ↔ '\n' ∉ cs := by
  rw [IsLine, String.toList_ofList]

theorem newline_not_mem_decimal (n : Nat) : '\n' ∉ decimal n :=
  fun h => by cases isDigit_of_mem_decimal h

@[simp]
theorem isLine_decimal (n : Nat) : IsLine (String.ofList (decimal n)) :=
  isLine_ofList.mpr (newline_not_mem_decimal n)

theorem newline_not_mem_hexadecimal (n : Nat) : '\n' ∉ hexadecimal n := by
  have hdigit : ∀ k < 16, '\n' ≠ Nat.digitChar k := by decide
  intro h
  obtain ⟨k, hk, heq⟩ := exists_of_mem_hexadecimal h
  exact hdigit k hk heq

theorem newline_not_mem_escaped (quote c : Char) : '\n' ∉ escaped quote c := by
  unfold escaped
  iterate 4
    split
    · decide
  rename_i hnewline
  split
  · simpa using Ne.symm hnewline
  split
  · simp [newline_not_mem_hexadecimal]
  · simpa using Ne.symm hnewline

/-- A quotation shows the line breaks of a text and has none. -/
@[simp]
theorem isLine_quoted (s : String) : IsLine (quoted s) := by
  have hbody : '\n' ∉ s.toList.flatMap (escaped '"') := by
    rw [List.mem_flatMap]
    rintro ⟨c, -, hc⟩
    exact newline_not_mem_escaped '"' c hc
  rw [quoted, isLine_ofList, quotedBy]
  simp [hbody]

end Text

open Text (IsLine isLine_append isLine_ofList)

/-! ## Values -/

namespace Value

theorem newline_not_mem_signedDecimal (i : Int) : '\n' ∉ Text.signedDecimal i := by
  unfold Text.signedDecimal
  split
  · simp [Text.newline_not_mem_decimal]
  · exact Text.newline_not_mem_decimal _

mutual

theorem newline_not_mem_literal : (v : Value) → '\n' ∉ v.literal
  | .null => by decide
  | .bool true => by decide
  | .bool false => by decide
  | .int i => newline_not_mem_signedDecimal i.toInt
  | .str s => newline_not_mem_literalString s.toList
  | .list items => by simp [literal, newline_not_mem_literalItems items]
  | .tuple [] => by decide
  | .tuple [item] => by simp [literal, newline_not_mem_literal item]
  | .tuple (first :: second :: rest) => by
      simp [literal, newline_not_mem_literalItems (first :: second :: rest)]
  | .dict entries => by simp [literal, newline_not_mem_literalEntries entries]

theorem newline_not_mem_literalItems : (items : List Value) → '\n' ∉ literalItems items
  | [] => by decide
  | [item] => newline_not_mem_literal item
  | first :: second :: rest => by
      simp [literalItems, newline_not_mem_literal first,
        newline_not_mem_literalItems (second :: rest)]

theorem newline_not_mem_literalEntries :
    (entries : List (Value × Value)) → '\n' ∉ literalEntries entries
  | [] => by decide
  | [(k, v)] => by simp [literalEntries, newline_not_mem_literal k, newline_not_mem_literal v]
  | (k, v) :: second :: rest => by
      simp [literalEntries, newline_not_mem_literal k, newline_not_mem_literal v,
        newline_not_mem_literalEntries (second :: rest)]

end

@[simp]
theorem isLine_repr (v : Value) : IsLine v.repr :=
  isLine_ofList.mpr v.newline_not_mem_literal

end Value

/-! ## Mismatches -/

namespace Mismatch

@[simp]
theorem isLine_describe (v : Value) : IsLine (describe v) := by
  have htypes : IsLine "list" ∧ IsLine "tuple" ∧ IsLine "dict" := by decide
  cases v with
  | list items => exact htypes.1
  | tuple items => exact htypes.2.1
  | dict entries => exact htypes.2.2
  | _ => exact Value.isLine_repr _

theorem isLine_keyPath {path : String} (hne : path ≠ "") (hpath : IsLine path) (key : Value) :
    IsLine (keyPath path key) := by
  have hbrackets : IsLine "[" ∧ IsLine "]" := by decide
  cases key with
  | str s => simp [keyPath, hne, hpath, hbrackets]
  | _ => simp [keyPath, hpath, hbrackets]

theorem isLine_indexPath {path : String} (hpath : IsLine path) (i : Nat) :
    IsLine (indexPath path i) := by
  have hbrackets : IsLine "[" ∧ IsLine "]" := by decide
  simp [indexPath, hpath, hbrackets]

/-- Every part of a mismatch is on one line. -/
structure OnOneLine (m : Mismatch) : Prop where
  path : IsLine m.path
  expected : IsLine m.expected
  actual : IsLine m.actual

theorem OnOneLine.message {m : Mismatch} (h : m.OnOneLine) : IsLine m.message := by
  have hpath : IsLine (if m.path = "" then "<root>" else m.path) := by
    split
    · decide
    · exact h.path
  have hwords : IsLine ": unknown key " ∧ IsLine ": missing required key of shape " ∧
      IsLine ": expected " ∧ IsLine ", got " := by decide
  unfold Mismatch.message
  cases m.kind <;> simp [hpath, h.expected, h.actual, hwords]

end Mismatch

namespace Shape

theorem isLine_describeFields {fields : List Field} (h : IsLine (describeFields fields)) :
    ∀ f ∈ fields, IsLine f.shape.description := by
  have hfield : ∀ f, IsLine (describeField f) → IsLine f.shape.description := by
    rintro ⟨name, required, shape⟩ h
    rw [describeField, isLine_append] at h
    exact h.2
  induction fields with
  | nil => exact nofun
  | cons f rest ih =>
      cases rest with
      | nil => exact List.forall_mem_singleton.mpr (hfield f h)
      | cons next rest =>
          rw [describeFields, isLine_append, isLine_append] at h
          · exact List.forall_mem_cons.mpr ⟨hfield f h.1.1, ih h.2⟩
          · exact List.cons_ne_nil next rest

theorem isLine_describeAlternatives {alternatives : List Shape}
    (h : IsLine (describeAlternatives alternatives)) :
    ∀ s ∈ alternatives, IsLine s.description := by
  induction alternatives with
  | nil => exact nofun
  | cons s rest ih =>
      cases rest with
      | nil => exact List.forall_mem_singleton.mpr h
      | cons next rest =>
          rw [describeAlternatives, isLine_append, isLine_append] at h
          · exact List.forall_mem_cons.mpr ⟨h.1.1, ih h.2⟩
          · exact List.cons_ne_nil next rest

theorem isLine_description_manifestFields :
    ∀ f ∈ manifestFields, IsLine f.shape.description := by
  decide +kernel

theorem Reports.onOneLine {s : Shape} {path : String} {m : Mismatch} (h : s.Reports path m)
    (hne : path ≠ "") (hpath : IsLine path) (hshape : IsLine s.description) : m.OnOneLine := by
  have hindex : ∀ {path}, path ≠ "" → ∀ i, Mismatch.indexPath path i ≠ "" :=
    fun hne i => (ValuePath.below_indexPath i).ne_empty hne
  have hkey : ∀ {path}, path ≠ "" → ∀ k, Mismatch.keyPath path k ≠ "" :=
    fun hne k => (ValuePath.below_keyPath hne k).ne_empty hne
  have hwords : IsLine "str key" ∧ IsLine "a known key" ∧ IsLine "nothing" := by decide
  induction h with
  | whole v => exact ⟨hpath, hshape, Mismatch.isLine_describe v⟩
  | length n => exact ⟨hpath, isLine_append.mpr ⟨hshape, by decide⟩,
      isLine_append.mpr ⟨Text.isLine_decimal n, by decide⟩⟩
  | key k => exact ⟨Mismatch.isLine_keyPath hne hpath k, hwords.1, Mismatch.isLine_describe k⟩
  | unknown k => exact ⟨Mismatch.isLine_keyPath hne hpath k, hwords.2.1, k.isLine_repr⟩
  | missing hf =>
      rw [description, isLine_append, isLine_append] at hshape
      exact ⟨Mismatch.isLine_keyPath hne hpath (.str _), isLine_describeFields hshape.1.2 _ hf,
        hwords.2.2⟩
  | item i _ ih =>
      rw [description, isLine_append, isLine_append] at hshape
      exact ih (hindex hne i) (Mismatch.isLine_indexPath hpath i) hshape.1.2
  | first _ ih =>
      simp only [description, isLine_append] at hshape
      exact ih (hindex hne 0) (Mismatch.isLine_indexPath hpath 0) hshape.1.1.1.2
  | second _ ih =>
      simp only [description, isLine_append] at hshape
      exact ih (hindex hne 1) (Mismatch.isLine_indexPath hpath 1) hshape.1.2
  | value k _ ih =>
      simp only [description, isLine_append] at hshape
      exact ih (hkey hne k) (Mismatch.isLine_keyPath hne hpath k) hshape.1.2
  | field k hf _ ih =>
      simp only [description, isLine_append] at hshape
      exact ih (hkey hne k) (Mismatch.isLine_keyPath hne hpath k)
        (isLine_describeFields hshape.1.2 _ hf)
  | alternative hs _ ih => exact ih hne hpath (isLine_describeAlternatives hshape _ hs)

end Shape

/-- The mismatches of a scope are on one line if its names are. -/
theorem Scope.isLine_of_mem_mismatches {s : Scope} {m : Mismatch}
    (hnames : ∀ name, s.contains name = true → name ≠ "" ∧ IsLine name) (h : m ∈ s.mismatches) :
    m.OnOneLine := by
  obtain ⟨name, hreports⟩ := exists_reports_of_mem_mismatches h
  cases hreports with
  | unknown hbound =>
      have hexpected : IsLine "a known key" := by decide
      exact ⟨(hnames name hbound).2, hexpected, Value.isLine_repr _⟩
  | field hbound hf hfield =>
      obtain ⟨hne, hname⟩ := hnames name hbound
      exact hfield.onOneLine hne hname (Shape.isLine_description_manifestFields _ hf)

end DepsManifest
