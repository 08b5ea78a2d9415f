import DepsManifest.Proofs.Json.Reading
/-! # Both layouts are read back

The compact and the indented text of a value spell it, so that either is read back as the value in
the form in which a reader sees it, also with blanks after it (`Json.read?_compact`,
`Json.read?_indented`). What this takes of the value is `Json.Readable`:

  * its numbers can be read back. A number of 64 bits can; one that is written with a point or an
    exponent needs an argument of its own, and is left to those who use such numbers;
  * its containers are not nested too deeply.

The two layouts are the same list of parts with commas between them. They differ in the blanks: the
compact layout has none, and the indented one has a line break and spaces before every element and
every member, and one space after the colon (`indentedItems_eq`, `indentedMembers_eq`). Each is
shown to be of the form that `Spells` asks for, and the induction is over the value.
-/
namespace DepsManifest.Json

/-- A value with numbers that can be read back, and with containers inside one another up to a
number. -/
inductive Readable : Nat → Json → Prop
  | null {d : Nat} : Readable d .null
  | bool {d : Nat} (b : Bool) : Readable d (.bool b)
  | num {d : Nat} {n : Number} : n.ReadBack → Readable d (.num n)
  | str {d : Nat} (s : String) : Readable d (.str s)
  | arr {d : Nat} {items : List Json} : (∀ j ∈ items, Readable d j) → Readable (d + 1) (.arr items)
  | obj {d : Nat} {members : List (String × Json)} : (∀ m ∈ members, Readable d m.2) →
      Readable (d + 1) (.obj members)

theorem joinWith_map_cons_cons {α : Type} (f : α → List Char) (a b : α) (l : List α) :
    Text.joinWith [','] ((a :: b :: l).map f) =
      f a ++ ',' :: Text.joinWith [','] ((b :: l).map f) :=
  joinWith_cons (List.cons_ne_nil _ _)

section Containers

variable {d : Nat} {text : Json → List Char} {after : List Char}

theorem spells_arr_map {items : List Json} (h : ∀ j ∈ items, Spells d j (text j))
    (hafter : Blank after) :
    Spells (d + 1) (.arr items)
      ('[' :: (Text.joinWith [','] (items.map text) ++ (after ++ [']']))) := by
  have hspells := Spells.arr (List.forall_mem_map (f := fun j => (j, text j)).mpr h) hafter
  have hvalues : (items.map fun j => (j, text j)).map (·.1) = items := by
    rw [List.map_map]
    exact List.map_id items
  rw [hvalues, List.map_map] at hspells
  exact hspells

/-- An object is spelled by its names and texts of its values. -/
theorem spells_obj_map {members : List (String × Json)} {before : List Char}
    (h : ∀ m ∈ members, Spells d m.2 (text m.2)) (hbefore : Blank before) (hafter : Blank after) :
    Spells (d + 1) (.obj members)
      ('\x7b' :: (Text.joinWith [','] (members.map fun m =>
        memberText before (m.1, m.2, text m.2)) ++ (after ++ ['\x7d']))) := by
  have hspells := Spells.obj (List.forall_mem_map
    (f := fun m : String × Json => (m.1, m.2, text m.2)).mpr h) hbefore hafter
  have hvalues : (members.map fun m => (m.1, m.2, text m.2)).map (fun e => (e.1, e.2.1)) =
      members := by
    rw [List.map_map]
    exact List.map_id members
  rw [hvalues, List.map_map] at hspells
  exact hspells

end Containers

/-! ## The compact layout -/

theorem compactItems_eq (items : List Json) :
    compactItems items = Text.joinWith [','] (items.map compactText) := by
  induction items with
  | nil => rfl
  | cons item items ih =>
      cases items with
      | nil => rfl
      | cons next items =>
          rw [joinWith_map_cons_cons, ← ih, compactItems]
          exact nofun

theorem compactMembers_eq (members : List (String × Json)) :
    compactMembers members =
      Text.joinWith [','] (members.map fun m => memberText [] (m.1, m.2, compactText m.2)) := by
  induction members with
  | nil => rfl
  | cons m members ih =>
      cases members with
      | nil => rfl
      | cons next members =>
          rw [joinWith_map_cons_cons, ← ih, compactMembers]
          · simp only [memberText, List.nil_append, List.append_assoc, List.cons_append]
          · exact List.cons_ne_nil next members

theorem Readable.spells_compact {d : Nat} {j : Json} (h : Readable d j) :
    Spells d j j.compactText := by
  induction h with
  | null => exact .null
  | bool b =>
      cases b with
      | true => exact .true
      | false => exact .false
  | num hn => exact .num hn
  | str s => exact .str s
  | @arr d items _ ih =>
      rw [compactText, compactItems_eq, List.cons_append]
      exact spells_arr_map ih (List.forall_mem_nil _)
  | @obj d members _ ih =>
      rw [compactText, compactMembers_eq, List.cons_append]
      exact spells_obj_map ih (List.forall_mem_nil _) (List.forall_mem_nil _)

/-- A value that can be read is read back from its compact text, whatever blanks follow. -/
theorem read?_compact {d : Nat} {j : Json} (h : Readable d j) (hd : d ≤ nestingLimit)
    {after : String} (hafter : Blank after.toList) :
    read? (j.compact ++ after) = some j.canonical := by
  rw [read?, compact, String.toList_append, String.toList_ofList]
  exact h.spells_compact.readChars? hd hafter

/-! ## The indented layout -/

theorem blank_lineStart (k : Nat) : Blank (lineStart k) := by
  intro c hc
  rcases List.mem_cons.mp hc with rfl | hc
  · rfl
  · rw [(List.mem_replicate.mp hc).2]
    rfl

theorem indentedItems_eq (k : Nat) (items : List Json) :
    indentedItems k items =
      Text.joinWith [','] (items.map fun j => lineStart k ++ indentedText k j) := by
  induction items with
  | nil => rfl
  | cons item items ih =>
      cases items with
      | nil => rfl
      | cons next items =>
          rw [joinWith_map_cons_cons, ← ih, indentedItems]
          exact nofun

theorem indentedMembers_eq (k : Nat) (members : List (String × Json)) :
    indentedMembers k members = Text.joinWith [',']
      (members.map fun m => memberText (lineStart k) (m.1, m.2, ' ' :: indentedText k m.2)) := by
  induction members with
  | nil => rfl
  | cons m members ih =>
      cases members with
      | nil => simp [indentedMembers, Text.joinWith, memberText]
      | cons next members =>
          rw [joinWith_map_cons_cons, ← ih, indentedMembers]
          · simp only [memberText, List.append_assoc, List.cons_append, List.nil_append]
          · exact List.cons_ne_nil next members

theorem Readable.spells_indented {d : Nat} {j : Json} (h : Readable d j) (k : Nat) :
    Spells d j (j.indentedText k) := by
  induction h generalizing k with
  | null => exact .null
  | bool b =>
      cases b with
      | true => exact .true
      | false => exact .false
  | num hn => exact .num hn
  | str s => exact .str s
  | @arr d items _ ih =>
      cases items with
      | nil => exact @Spells.arr d [] [] (List.forall_mem_nil _) (List.forall_mem_nil _)
      | cons item items =>
          rw [indentedText, indentedItems_eq, List.cons_append, List.cons_append, List.append_assoc]
          · exact spells_arr_map (fun j hj => .lead (blank_lineStart _) (ih j hj _))
              (blank_lineStart k)
          · exact nofun
  | @obj d members _ ih =>
      cases members with
      | nil =>
          exact @Spells.obj d [] [] [] (List.forall_mem_nil _) (List.forall_mem_nil _)
            (List.forall_mem_nil _)
      | cons m members =>
          rw [indentedText, indentedMembers_eq, List.cons_append, List.cons_append,
            List.append_assoc]
          · have hblank : Blank [' '] := List.forall_mem_singleton.mpr rfl
            exact @spells_obj_map d (fun j => ' ' :: indentedText (k + 1) j) _ _ _
              (fun m hm => .lead hblank (ih m hm (k + 1))) (blank_lineStart _) (blank_lineStart k)
          · exact nofun

/-- A value that can be read is read back from its indented text, whatever blanks follow. -/
theorem read?_indented {d : Nat} {j : Json} (h : Readable d j) (hd : d ≤ nestingLimit)
    {after : String} (hafter : Blank after.toList) :
    read? (j.indented ++ after) = some j.canonical := by
  rw [read?, indented, String.toList_append, String.toList_ofList]
  exact (h.spells_indented 0).readChars? hd hafter

end DepsManifest.Json
