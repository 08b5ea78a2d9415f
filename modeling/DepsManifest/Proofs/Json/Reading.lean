import DepsManifest.Proofs.Json.Scalars
/-! # JSON text is read back

What the reader makes of a text that the printer has written is the value with the members of every
object in order (`Json.canonical`). Between printing and reading stands a relation, of a value to
the texts that spell it (`Json.Spells`). It leaves open where blanks stand, so one proof serves for
both layouts and for blanks at the end; that either layout spells its value is left to the module on
round trips.

## The statement of the induction

A reader works from a text and leaves a rest, so the induction over `Spells` is about all rests
(`Spells.readsAs`). Not every rest will do: a number would take the digits that follow it. What can
come after any value is what can come after a number (`EndsNumber`), and a comma, a closing bracket
and a blank all can.

## Two bounds

  * `Spells` has an index for the containers inside one another, and the reader opens no more than
    `nestingLimit`. This bound is a matter of the format: a text that is nested more deeply is not
    read at all.
  * The reader also counts its steps, and is given two for each character of its text. A value takes
    fewer than that: each container, each element and each member takes a step of its own, and has a
    character of its own. This bound is never met.
-/
namespace DepsManifest.Json

/-! ## What a reader sees -/

mutual

/-- A value with the members of every object in the order of their names, each name once. -/
def canonical : Json → Json
  | .arr items => .arr (canonicalItems items)
  | .obj members => object (canonicalMembers members)
  | j => j

def canonicalItems : List Json → List Json
  | [] => []
  | item :: rest => canonical item :: canonicalItems rest

def canonicalMembers : List (String × Json) → List (String × Json)
  | [] => []
  | (name, value) :: rest => (name, canonical value) :: canonicalMembers rest

end

theorem canonicalItems_eq_map (items : List Json) : canonicalItems items = items.map canonical := by
  induction items with
  | nil => rfl
  | cons item items ih => rw [canonicalItems, ih, List.map_cons]

theorem canonicalMembers_eq_map (members : List (String × Json)) :
    canonicalMembers members = members.map fun m => (m.1, m.2.canonical) := by
  induction members with
  | nil => rfl
  | cons m members ih => rw [canonicalMembers, ih, List.map_cons]

/-! ## Texts of a value -/

/-- A text of blanks. -/
def Blank (cs : List Char) : Prop := ∀ c ∈ cs, isBlank c = true

/-- The text of a member, after blanks, given its name, its value and the text of that. -/
def memberText (before : List Char) (e : String × Json × List Char) : List Char :=
  before ++ (stringText e.1 ++ ':' :: e.2.2)

/-- A text spells a value that has containers inside one another up to a number. -/
inductive Spells : Nat → Json → List Char → Prop
  | null {d : Nat} : Spells d .null "null".toList
  | true {d : Nat} : Spells d (.bool true) "true".toList
  | false {d : Nat} : Spells d (.bool false) "false".toList
  | num {d : Nat} {n : Number} : n.ReadBack → Spells d (.num n) n.text
  | str {d : Nat} (s : String) : Spells d (.str s) (stringText s)
  | arr {d : Nat} {items : List (Json × List Char)} {after : List Char} :
      (∀ e ∈ items, Spells d e.1 e.2) → Blank after →
      Spells (d + 1) (.arr (items.map (·.1)))
        ('[' :: (Text.joinWith [','] (items.map (·.2)) ++ (after ++ [']'])))
  | obj {d : Nat} {members : List (String × Json × List Char)} {before after : List Char} :
      (∀ e ∈ members, Spells d e.2.1 e.2.2) → Blank before → Blank after →
      Spells (d + 1) (.obj (members.map fun e => (e.1, e.2.1)))
        ('\x7b' :: (Text.joinWith [','] (members.map (memberText before)) ++ (after ++ ['\x7d'])))
  | lead {d : Nat} {j : Json} {before cs : List Char} :
      Blank before → Spells d j cs → Spells d j (before ++ cs)

/-! ## Blanks -/

theorem skipBlanks_append {before : List Char} (h : Blank before) (cs : List Char) :
    skipBlanks (before ++ cs) = skipBlanks cs := List.dropWhile_append_of_pos h

theorem skipBlanks_cons {c : Char} (h : isBlank c = false) (cs : List Char) :
    skipBlanks (c :: cs) = c :: cs := List.dropWhile_cons_of_neg (by rw [h]; decide)

theorem skipBlanks_skipBlanks (cs : List Char) : skipBlanks (skipBlanks cs) = skipBlanks cs := by
  induction cs with
  | nil => rfl
  | cons c cs ih =>
      by_cases hc : isBlank c = true
      · have hskip : skipBlanks (c :: cs) = skipBlanks cs := List.dropWhile_cons_of_pos hc
        rw [hskip, ih]
      · rw [skipBlanks_cons (Bool.eq_false_iff.mpr hc), skipBlanks_cons (Bool.eq_false_iff.mpr hc)]

theorem readValue?_congr {steps depth : Nat} {cs cs' : List Char}
    (h : skipBlanks cs = skipBlanks cs') :
    readValue? steps depth cs = readValue? steps depth cs' := by
  cases steps with
  | zero => rfl
  | succ steps => rw [readValue?, readValue?, h]

theorem readItems?_congr {steps depth : Nat} {cs cs' : List Char}
    (h : skipBlanks cs = skipBlanks cs') :
    readItems? steps depth cs = readItems? steps depth cs' := by
  cases steps with
  | zero => rfl
  | succ steps => rw [readItems?, readItems?, readValue?_congr h]

theorem readMembers?_congr {steps depth : Nat} {cs cs' : List Char}
    (h : skipBlanks cs = skipBlanks cs') :
    readMembers? steps depth cs = readMembers? steps depth cs' := by
  cases steps with
  | zero => rfl
  | succ steps => rw [readMembers?, readMembers?, h]

/-! ## Scalars -/

theorem LeadsNumber.not_isBlank {c : Char} (h : LeadsNumber c) : isBlank c = false := by
  simp [isBlank, h.ne (d := ' ') (by decide) rfl, h.ne (d := '\n') (by decide) rfl,
    h.ne (d := '\t') (by decide) rfl, h.ne (d := '\r') (by decide) rfl]

theorem readValue?_num {steps depth : Nat} {n : Number} (hn : n.ReadBack) {rest : List Char}
    (hrest : EndsNumber rest) :
    readValue? (steps + 1) depth (n.text ++ rest) = some (.num n, rest) := by
  obtain ⟨c, cs, htext, hc⟩ := hn.lead
  have hskip : skipBlanks (n.text ++ rest) = n.text ++ rest := by
    rw [htext]
    exact skipBlanks_cons hc.not_isBlank _
  rw [readValue?, hskip]
  split
  all_goals first
    | rename_i heq
      rw [htext] at heq
      obtain ⟨hcons, -⟩ := List.cons.inj heq
      exact absurd hcons (hc.ne (by decide) rfl)
    | rw [hn.read rest hrest]
      rfl

theorem readValue?_str {steps depth : Nat} (s : String) (rest : List Char) :
    readValue? (steps + 1) depth (stringText s ++ rest) = some (.str s, rest) := by
  obtain ⟨tail, htext, hread⟩ := stringText_eq s rest
  rw [htext, readValue?, skipBlanks_cons rfl]
  simp only [hread, Option.map_some, String.ofList_toList]

/-! ## Containers -/

theorem endsNumber_comma (rest : List Char) : EndsNumber (',' :: rest) := by
  rintro _ ⟨⟩
  decide

theorem EndsNumber.blank_append {after rest : List Char} (hrest : EndsNumber rest)
    (hafter : Blank after) : EndsNumber (after ++ rest) := by
  cases after with
  | nil => exact hrest
  | cons c after =>
      rintro _ ⟨⟩
      have hblank : isBlank c = true := hafter c List.mem_cons_self
      simp only [isBlank, Bool.or_eq_true, decide_eq_true_eq] at hblank
      rcases hblank with ((rfl | rfl) | rfl) | rfl
      all_goals decide

theorem endsNumber_bracket (rest : List Char) : EndsNumber (']' :: rest) := by
  rintro _ ⟨⟩
  decide

theorem endsNumber_brace (rest : List Char) : EndsNumber ('\x7d' :: rest) := by
  rintro _ ⟨⟩
  decide

/-- What it takes to read a text as a value that is at its beginning. -/
def ReadsAs (d : Nat) (j : Json) (cs : List Char) : Prop :=
  ∀ steps rest, 2 * cs.length ≤ steps + 1 → EndsNumber rest → ∀ depth ≥ d,
    readValue? steps depth (cs ++ rest) = some (j.canonical, rest)

theorem skipBlanks_ne_bracket {steps depth : Nat} {cs : List Char} {r : List Json × List Char}
    (h : readItems? steps depth cs = some r) (rest : List Char) : skipBlanks cs ≠ ']' :: rest := by
  intro hskip
  cases steps with
  | zero => cases h
  | succ steps =>
      cases steps with
      | zero => cases h
      | succ steps =>
          rw [readItems?, readValue?, hskip] at h
          cases h

theorem skipBlanks_ne_brace {steps depth : Nat} {cs : List Char}
    {r : List (String × Json) × List Char} (h : readMembers? steps depth cs = some r)
    (rest : List Char) : skipBlanks cs ≠ '\x7d' :: rest := by
  intro hskip
  cases steps with
  | zero => cases h
  | succ steps =>
      rw [readMembers?, hskip] at h
      cases h

theorem joinWith_cons {s : List Char} {texts : List (List Char)} (h : texts ≠ []) :
    Text.joinWith [','] (s :: texts) = s ++ ',' :: Text.joinWith [','] texts := by
  cases texts with
  | nil => exact absurd rfl h
  | cons t texts =>
      rw [Text.joinWith, List.append_assoc]
      rfl

section Items

variable {d depth : Nat} {after : List Char}

theorem readItems?_join (hafter : Blank after) (hdepth : d ≤ depth)
    {items : List (Json × List Char)} (hitems : ∀ e ∈ items, ReadsAs d e.1 e.2) (hne : items ≠ [])
    {steps : Nat} (hsteps : 2 * (Text.joinWith [','] (items.map (·.2))).length + 2 ≤ steps)
    (rest : List Char) :
    readItems? steps depth (Text.joinWith [','] (items.map (·.2)) ++ (after ++ ']' :: rest)) =
      some (items.map (·.1.canonical), rest) := by
  induction items generalizing steps with
  | nil => exact absurd rfl hne
  | cons e items ih =>
      obtain ⟨hfirst, hrest⟩ := List.forall_mem_cons.mp hitems
      obtain ⟨steps, rfl⟩ := Nat.exists_eq_add_of_le' (Nat.le_trans (by omega : 1 ≤ _) hsteps)
      by_cases hlast : items = []
      · subst hlast
        have hread := hfirst steps (after ++ ']' :: rest)
          (by simp only [List.map_cons, List.map_nil, Text.joinWith] at hsteps; omega)
          ((endsNumber_bracket rest).blank_append hafter) depth hdepth
        have hskip : skipBlanks (after ++ ']' :: rest) = ']' :: rest := by
          rw [skipBlanks_append hafter, skipBlanks_cons rfl]
        simp only [List.map_cons, List.map_nil, Text.joinWith]
        rw [readItems?, hread]
        simp only [Option.bind_eq_bind, Option.bind_some, hskip]
        rfl
      · have htexts : items.map (·.2) ≠ [] := by simpa using hlast
        rw [List.map_cons, joinWith_cons htexts, List.length_append, List.length_cons] at hsteps
        have hread := hfirst steps
          (',' :: (Text.joinWith [','] (items.map (·.2)) ++ (after ++ ']' :: rest)))
          (by omega) (endsNumber_comma _) depth hdepth
        rw [List.map_cons, joinWith_cons htexts, List.append_assoc, List.cons_append, readItems?,
          hread]
        have hmore := ih hrest hlast (Nat.le_of_lt_succ (Nat.lt_of_lt_of_le (by omega) hsteps))
        simp only [Option.bind_eq_bind, Option.bind_some, skipBlanks_cons (c := ',') rfl, hmore]
        rfl

theorem skipBlanks_memberText {before : List Char} (hbefore : Blank before)
    (e : String × Json × List Char) (rest : List Char) :
    ∃ tail, skipBlanks (memberText before e ++ rest) = '"' :: tail ∧
      readString? tail = some (e.1.toList, ':' :: (e.2.2 ++ rest)) := by
  obtain ⟨tail, htext, hread⟩ := stringText_eq e.1 (':' :: (e.2.2 ++ rest))
  refine ⟨tail, ?_, hread⟩
  have hmember : memberText before e ++ rest =
      before ++ (stringText e.1 ++ ':' :: (e.2.2 ++ rest)) := by
    simp [memberText]
  rw [hmember, skipBlanks_append hbefore, htext, skipBlanks_cons rfl]

theorem readMembers?_join {before : List Char} (hbefore : Blank before) (hafter : Blank after)
    (hdepth : d ≤ depth) {members : List (String × Json × List Char)}
    (hmembers : ∀ e ∈ members, ReadsAs d e.2.1 e.2.2) (hne : members ≠ []) {steps : Nat}
    (hsteps : 2 * (Text.joinWith [','] (members.map (memberText before))).length + 2 ≤ steps)
    (rest : List Char) :
    readMembers? steps depth
        (Text.joinWith [','] (members.map (memberText before)) ++ (after ++ '\x7d' :: rest)) =
      some (members.map fun e => (e.1, e.2.1.canonical), rest) := by
  induction members generalizing steps with
  | nil => exact absurd rfl hne
  | cons e members ih =>
      obtain ⟨hfirst, hrest⟩ := List.forall_mem_cons.mp hmembers
      obtain ⟨steps, rfl⟩ := Nat.exists_eq_add_of_le' (Nat.le_trans (by omega : 1 ≤ _) hsteps)
      have hlength : e.2.2.length ≤ (memberText before e).length := by
        simp only [memberText, List.length_append, List.length_cons]
        omega
      by_cases hlast : members = []
      · subst hlast
        simp only [List.map_cons, List.map_nil, Text.joinWith] at hsteps ⊢
        have hread := hfirst steps (after ++ '\x7d' :: rest) (by omega)
          ((endsNumber_brace rest).blank_append hafter) depth hdepth
        have hskip : skipBlanks (after ++ '\x7d' :: rest) = '\x7d' :: rest := by
          rw [skipBlanks_append hafter, skipBlanks_cons rfl]
        obtain ⟨tail, hquote, hname⟩ := skipBlanks_memberText hbefore e (after ++ '\x7d' :: rest)
        rw [readMembers?, hquote]
        simp only [hname, Option.bind_eq_bind, Option.bind_some, skipBlanks_cons (c := ':') rfl,
          hread, hskip, String.ofList_toList]
        rfl
      · have htexts : members.map (memberText before) ≠ [] := by simpa using hlast
        rw [List.map_cons, joinWith_cons htexts, List.length_append, List.length_cons] at hsteps
        rw [List.map_cons, joinWith_cons htexts, List.append_assoc, List.cons_append]
        have hread := hfirst steps
          (',' :: (Text.joinWith [','] (members.map (memberText before)) ++
            (after ++ '\x7d' :: rest)))
          (by omega) (endsNumber_comma _) depth hdepth
        obtain ⟨tail, hquote, hname⟩ := skipBlanks_memberText hbefore e
          (',' :: (Text.joinWith [','] (members.map (memberText before)) ++
            (after ++ '\x7d' :: rest)))
        have hmore := ih hrest hlast (Nat.le_of_lt_succ (Nat.lt_of_lt_of_le (by omega) hsteps))
        rw [readMembers?, hquote]
        simp only [hname, Option.bind_eq_bind, Option.bind_some, skipBlanks_cons (c := ':') rfl,
          hread, skipBlanks_cons (c := ',') rfl, hmore, String.ofList_toList]
        rfl

theorem readValue?_arr (hafter : Blank after) (hdepth : d + 1 ≤ depth)
    {items : List (Json × List Char)} (hitems : ∀ e ∈ items, ReadsAs d e.1 e.2) {steps : Nat}
    (hsteps : 2 * (Text.joinWith [','] (items.map (·.2))).length + 2 ≤ steps) (rest : List Char) :
    readValue? (steps + 1) depth
        ('[' :: (Text.joinWith [','] (items.map (·.2)) ++ (after ++ ']' :: rest))) =
      some (.arr (items.map (·.1.canonical)), rest) := by
  obtain ⟨depth, rfl⟩ := Nat.exists_eq_add_of_le' (Nat.le_trans (by omega : 1 ≤ _) hdepth)
  rw [readValue?, skipBlanks_cons rfl]
  by_cases hempty : items = []
  · subst hempty
    have hskip : skipBlanks (after ++ ']' :: rest) = ']' :: rest := by
      rw [skipBlanks_append hafter, skipBlanks_cons rfl]
    simp only [List.map_nil, Text.joinWith, List.nil_append, hskip]
  · have hread := readItems?_join hafter (Nat.le_of_succ_le_succ hdepth) hitems hempty hsteps rest
    rw [← readItems?_congr (skipBlanks_skipBlanks _)] at hread
    simp only
    split
    · rename_i heq
      rw [heq] at hread
      exact absurd (skipBlanks_cons rfl _) (skipBlanks_ne_bracket hread _)
    · rw [hread]
      rfl

theorem readValue?_obj {before : List Char} (hbefore : Blank before) (hafter : Blank after)
    (hdepth : d + 1 ≤ depth) {members : List (String × Json × List Char)}
    (hmembers : ∀ e ∈ members, ReadsAs d e.2.1 e.2.2) {steps : Nat}
    (hsteps : 2 * (Text.joinWith [','] (members.map (memberText before))).length + 2 ≤ steps)
    (rest : List Char) :
    readValue? (steps + 1) depth
        ('\x7b' :: (Text.joinWith [','] (members.map (memberText before)) ++
          (after ++ '\x7d' :: rest))) =
      some (object (members.map fun e => (e.1, e.2.1.canonical)), rest) := by
  obtain ⟨depth, rfl⟩ := Nat.exists_eq_add_of_le' (Nat.le_trans (by omega : 1 ≤ _) hdepth)
  rw [readValue?, skipBlanks_cons rfl]
  by_cases hempty : members = []
  · subst hempty
    have hskip : skipBlanks (after ++ '\x7d' :: rest) = '\x7d' :: rest := by
      rw [skipBlanks_append hafter, skipBlanks_cons rfl]
    simp only [List.map_nil, Text.joinWith, List.nil_append, hskip]
    rfl
  · have hread := readMembers?_join hbefore hafter (Nat.le_of_succ_le_succ hdepth) hmembers hempty
      hsteps rest
    rw [← readMembers?_congr (skipBlanks_skipBlanks _)] at hread
    simp only
    split
    · rename_i heq
      rw [heq] at hread
      exact absurd (skipBlanks_cons rfl _) (skipBlanks_ne_brace hread _)
    · rw [hread]
      rfl

end Items

/-- A text that spells a value is read as it, whatever follows that does not go on with a number. -/
theorem Spells.readsAs {d : Nat} {j : Json} {cs : List Char} (h : Spells d j cs) :
    ReadsAs d j cs := by
  have hpos : ∀ {n steps : Nat}, 2 * (n + 1) ≤ steps + 1 → ∃ s, steps = s + 1 := by
    intro n steps hsteps
    exact Nat.exists_eq_add_of_le' (by omega)
  induction h with
  | null =>
      intro steps rest hsteps _ depth _
      obtain ⟨steps, rfl⟩ := hpos hsteps
      rfl
  | true =>
      intro steps rest hsteps _ depth _
      obtain ⟨steps, rfl⟩ := hpos hsteps
      rfl
  | false =>
      intro steps rest hsteps _ depth _
      obtain ⟨steps, rfl⟩ := hpos hsteps
      rfl
  | num hn =>
      intro steps rest hsteps hrest depth _
      obtain ⟨c, cs, htext, -⟩ := hn.lead
      rw [htext, List.length_cons] at hsteps
      obtain ⟨steps, rfl⟩ := hpos hsteps
      exact readValue?_num hn hrest
  | str s =>
      intro steps rest hsteps _ depth _
      obtain ⟨steps, rfl⟩ := hpos hsteps
      exact readValue?_str s rest
  | @arr d items after _ hafter ih =>
      intro steps rest hsteps _ depth hdepth
      obtain ⟨steps, rfl⟩ := hpos hsteps
      simp only [List.length_cons, List.length_append] at hsteps
      rw [List.cons_append, List.append_assoc, List.append_assoc, canonical, canonicalItems_eq_map,
        List.map_map]
      exact readValue?_arr hafter hdepth ih (by omega) rest
  | @obj d members before after _ hbefore hafter ih =>
      intro steps rest hsteps _ depth hdepth
      obtain ⟨steps, rfl⟩ := hpos hsteps
      simp only [List.length_cons, List.length_append] at hsteps
      rw [List.cons_append, List.append_assoc, List.append_assoc, canonical,
        canonicalMembers_eq_map, List.map_map]
      exact readValue?_obj hbefore hafter hdepth ih (by omega) rest
  | @lead d j before cs hbefore _ ih =>
      intro steps rest hsteps hrest depth hdepth
      rw [List.length_append] at hsteps
      rw [List.append_assoc, readValue?_congr (skipBlanks_append hbefore _)]
      exact ih steps rest (by omega) hrest depth hdepth

/-- A text that spells a value is read as the value in the form in which a reader sees it. -/
theorem Spells.readChars? {d : Nat} {j : Json} {cs : List Char} (h : Spells d j cs)
    (hd : d ≤ nestingLimit) {after : List Char} (hafter : Blank after) :
    Json.readChars? (cs ++ after) = some j.canonical := by
  have hends : EndsNumber after := by
    rw [← List.append_nil after]
    exact EndsNumber.blank_append nofun hafter
  have hread := h.readsAs (2 * (cs ++ after).length + 2) after
    (by rw [List.length_append]; omega) hends nestingLimit hd
  have hskip : skipBlanks after = [] := by
    rw [← List.append_nil after, skipBlanks_append hafter]
    rfl
  rw [Json.readChars?, hread]
  simp only [hskip, List.isEmpty_nil, if_true]

end DepsManifest.Json
