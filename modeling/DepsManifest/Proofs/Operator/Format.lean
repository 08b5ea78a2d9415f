import DepsManifest.Operator.Format
import DepsManifest.Proofs.Except
import DepsManifest.Proofs.Text.Digits
import DepsManifest.Proofs.Text.Splitting
/-! # Format texts part by part

A format text spells its parts one after the other (`Spells`), and arguments fill the parts in one
after the other (`Fills`): a directive with a key looks up its argument, any other takes the next.
Both relations are said without the readers. A text is formatted exactly if it spells parts that the
arguments fill in, and if none is left over unless they come from a dict (`format_eq_ok_iff`).

## What follows from it

`Format.format_compositional` has four parts, and each is a fact about the two relations:

  * texts that are put together are formatted with the arguments of both, one after the other;
  * the arguments of a tuple are taken from the first to the last by the directives of the text, one
    by each, and none is left;
  * texts that only look up keys are formatted by themselves, wherever they stand;
  * a text with all percent signs doubled is formatted as what it was.

## Directives

That a directive is told apart from what follows it is the main point. A percent sign is followed by
a key in parentheses or by none, by flags as long as there are flags, by digits as long as there are
digits, and by one character, the conversion, which ends it whatever comes then (`Directive.read`,
`readDirective_eq_ok`). `Field` says what it takes to cut flags, digits and conversion apart: the
width does not begin with a flag, nor the conversion if there is no width. So a zero in front of the
digits is a flag.

The digits may spell any number. The width is that number modulo `2 ^ 64` (`readWidth_append`),
since it is accumulated in a number of the machine, digit by digit.

A failure is not described here: nothing is said of which of several failures is reported.
-/
namespace DepsManifest.Format

/-! ## What a format text spells -/

def isFlag (c : Char) : Bool := ['-', '0', ' ', '+', '#'].contains c

/-- `Closes depth cs`: a text closes some parentheses that are open before it and all that it opens.
-/
inductive Closes : Nat → List Char → Prop
  | nil : Closes 0 []
  | opening {depth : Nat} {cs : List Char} (h : Closes (depth + 1) cs) : Closes depth ('(' :: cs)
  | closing {depth : Nat} {cs : List Char} (h : Closes depth cs) : Closes (depth + 1) (')' :: cs)
  | other {depth : Nat} {c : Char} {cs : List Char} (hopen : c ≠ '(') (hclose : c ≠ ')')
      (h : Closes depth cs) : Closes depth (c :: cs)

/-- Flags, a width and a conversion, as they are told apart: the width does not begin with a flag,
nor the conversion if there is no width. -/
structure Field (flags width : List Char) (conversion : Char) : Prop where
  all_flags : ∀ c ∈ flags, isFlag c = true
  all_digits : ∀ c ∈ width, c.isDigit = true
  begins : ∀ c ∈ (width ++ [conversion]).head?, isFlag c = false
  ends : conversion.isDigit = false

/-- The layout that flags and a width ask for. -/
def fieldLayout (flags width : List Char) : Layout :=
  ⟨flags.contains '-', flags.contains '0', .ofNat (Nat.ofDigitChars 10 width 0)⟩

/-- `Directive own part`: what follows a percent sign, and the part that both spell. -/
inductive Directive : List Char → Part → Prop
  | percent {flags width : List Char} (h : Field flags width '%') :
      Directive (flags ++ (width ++ ['%'])) (.plain '%')
  | next {flags width : List Char} {conversion : Char} (h : Field flags width conversion)
      (hpercent : conversion ≠ '%') (hparen : conversion = '(' → flags ++ width ≠ []) :
      Directive (flags ++ (width ++ [conversion]))
        (.directive none (fieldLayout flags width) conversion)
  | keyed {key flags width : List Char} {conversion : Char} (hkey : Closes 0 key)
      (h : Field flags width conversion) :
      Directive ('(' :: (key ++ ')' :: (flags ++ (width ++ [conversion]))))
        (.directive (some (String.ofList key)) (fieldLayout flags width) conversion)

/-- `Spells text ps`: the parts of a format text, from its first character to its last. -/
inductive Spells : List Char → List Part → Prop
  | nil : Spells [] []
  | plain {c : Char} {text : List Char} {ps : List Part} (hc : c ≠ '%') (h : Spells text ps) :
      Spells (c :: text) (.plain c :: ps)
  | directive {own text : List Char} {part : Part} {ps : List Part} (hpart : Directive own part)
      (h : Spells text ps) : Spells ('%' :: (own ++ text)) (part :: ps)

theorem Spells.append {text text' : List Char} {ps ps' : List Part} (h : Spells text ps)
    (h' : Spells text' ps') : Spells (text ++ text') (ps ++ ps') := by
  induction h with
  | nil => exact h'
  | plain hc _ ih => exact .plain hc ih
  | directive hpart _ ih =>
      rw [List.cons_append, List.append_assoc]
      exact .directive hpart ih

theorem spells_doubled (s : List Char) : Spells (Text.replace '%' ['%', '%'] s) (s.map .plain) := by
  induction s with
  | nil => exact .nil
  | cons c s ih =>
      by_cases hc : c = '%'
      · subst hc
        have hfield : Field [] [] '%' := ⟨nofun, nofun, by rintro _ ⟨⟩; rfl, rfl⟩
        exact .directive (.percent hfield) ih
      · have hreplace : Text.replace '%' ['%', '%'] (c :: s) =
            c :: Text.replace '%' ['%', '%'] s := by
          rw [Text.replace, List.flatMap_cons, if_neg hc]
          rfl
        rw [hreplace]
        exact .plain hc ih

/-! ## Reading a directive -/

theorem readKey?_eq_some_iff {depth : Nat} {cs key rest : List Char} :
    readKey? depth cs = some (key, rest) ↔ Closes depth key ∧ cs = key ++ ')' :: rest := by
  constructor
  · intro h
    fun_induction readKey? depth cs generalizing key with
    | case1 => cases h
    | case2 depth cs ih =>
        obtain ⟨⟨k, r⟩, hr, heq⟩ := Option.map_eq_some_iff.mp h
        cases heq
        obtain ⟨hcloses, rfl⟩ := ih hr
        exact ⟨.opening hcloses, rfl⟩
    | case3 cs =>
        cases h
        exact ⟨.nil, rfl⟩
    | case4 cs depth ih =>
        obtain ⟨⟨k, r⟩, hr, heq⟩ := Option.map_eq_some_iff.mp h
        cases heq
        obtain ⟨hcloses, rfl⟩ := ih hr
        exact ⟨.closing hcloses, rfl⟩
    | case5 depth c cs hopen hclose ih =>
        obtain ⟨⟨k, r⟩, hr, heq⟩ := Option.map_eq_some_iff.mp h
        cases heq
        obtain ⟨hcloses, rfl⟩ := ih hr
        exact ⟨.other hopen hclose hcloses, rfl⟩
  · rintro ⟨h, rfl⟩
    induction h with
    | nil => rfl
    | opening _ ih => rw [List.cons_append, readKey?, ih, Option.map_some]
    | closing _ ih => rw [List.cons_append, readKey?, ih, Option.map_some]
    | other hopen hclose _ ih =>
        rw [List.cons_append, readKey?, ih, Option.map_some]
        · exact hopen
        · exact hclose

theorem readFlags_cons {c : Char} (hc : isFlag c = true) (l : Layout) (cs : List Char) :
    readFlags l (c :: cs) =
      readFlags ⟨l.leftAlign || '-' == c, l.zeroPad || '0' == c, l.width⟩ cs := by
  obtain ⟨leftAlign, zeroPad, width⟩ := l
  simp only [isFlag, List.contains_cons, List.contains_nil, Bool.or_false, Bool.or_eq_true,
    beq_iff_eq] at hc
  rcases hc with rfl | rfl | rfl | rfl | rfl <;> simp [readFlags]

theorem readFlags_of_not {cs : List Char} (h : ∀ c ∈ cs.head?, isFlag c = false) (l : Layout) :
    readFlags l cs = (l, cs) := by
  cases cs with
  | nil =>
      rw [readFlags]
      all_goals exact nofun
  | cons c cs =>
      have hc : isFlag c = false := h c rfl
      rw [readFlags]
      all_goals
        rintro _ ⟨⟩
        cases hc

theorem readFlags_append {flags rest : List Char} (hflags : ∀ c ∈ flags, isFlag c = true)
    (hrest : ∀ c ∈ rest.head?, isFlag c = false) (l : Layout) : readFlags l (flags ++ rest) =
      (⟨l.leftAlign || flags.contains '-', l.zeroPad || flags.contains '0', l.width⟩, rest) := by
  induction flags generalizing l with
  | nil =>
      rw [List.nil_append, readFlags_of_not hrest, List.contains_nil, List.contains_nil,
        Bool.or_false, Bool.or_false]
  | cons c flags ih =>
      obtain ⟨hc, hlater⟩ := List.forall_mem_cons.mp hflags
      rw [List.cons_append, readFlags_cons hc, ih hlater, List.contains_cons, List.contains_cons,
        Bool.or_assoc, Bool.or_assoc]

/-- A width is read up to the first character that is no digit. -/
theorem readWidth_append {width rest : List Char} (hwidth : ∀ c ∈ width, c.isDigit = true)
    (hrest : ∀ c ∈ rest.head?, c.isDigit = false) (leftAlign zeroPad : Bool) (n : Nat) :
    readWidth ⟨leftAlign, zeroPad, .ofNat n⟩ (width ++ rest) =
      (⟨leftAlign, zeroPad, .ofNat (Nat.ofDigitChars 10 width n)⟩, rest) := by
  induction width generalizing n with
  | nil =>
      cases rest with
      | nil => rfl
      | cons c rest =>
          cases hvalue : Text.digitValue? 10 c with
          | none => rw [List.nil_append, readWidth, hvalue]; rfl
          | some value =>
              have hdigit := Text.isDigit_of_digitValue? hvalue
              rw [hrest c rfl] at hdigit
              cases hdigit
  | cons c width ih =>
      obtain ⟨hc, hlater⟩ := List.forall_mem_cons.mp hwidth
      have hnext : ∀ d, (UInt64.ofNat n * 10 + .ofNat d : UInt64) = .ofNat (10 * n + d) := by
        intro d
        rw [Nat.mul_comm, UInt64.ofNat_add, UInt64.ofNat_mul]
        rfl
      rw [List.cons_append, readWidth, Text.digitValue?_of_isDigit hc]
      dsimp only
      rw [hnext, ih hlater, Nat.ofDigitChars_cons]

theorem head?_append_cons (cs : List Char) (c : Char) (rest : List Char) :
    (cs ++ c :: rest).head? = (cs ++ [c]).head? := by
  cases cs with
  | nil => rfl
  | cons d cs => rfl

/-- The directive that its conversion ends, and the rest. -/
def readEnding (key : Option String) (layout : Layout) :
    List Char → Except Failure (Part × List Char)
  | [] => .error .incompleteDirective
  | c :: cs =>
    if c = '%' ∧ key = none then .ok (.plain '%', cs) else .ok (.directive key layout c, cs)

theorem readConversion_run {flags width ending : List Char} (hflags : ∀ c ∈ flags, isFlag c = true)
    (hwidth : ∀ c ∈ width, c.isDigit = true)
    (hbegins : ∀ c ∈ (width ++ ending).head?, isFlag c = false)
    (hends : ∀ c ∈ ending.head?, c.isDigit = false) (key : Option String) :
    readConversion key (flags ++ (width ++ ending)) =
      readEnding key (fieldLayout flags width) ending := by
  have hflags := readFlags_append hflags hbegins {}
  have hwidth : readWidth ⟨flags.contains '-', flags.contains '0', 0⟩ (width ++ ending) =
      (fieldLayout flags width, ending) := readWidth_append hwidth hends _ _ 0
  rw [readConversion, hflags]
  dsimp only
  rw [Bool.false_or, Bool.false_or, hwidth]
  cases ending with
  | nil => rfl
  | cons c rest => rfl

theorem readConversion_append {flags width : List Char} {conversion : Char}
    (h : Field flags width conversion) (key : Option String) (rest : List Char) :
    readConversion key (flags ++ (width ++ conversion :: rest)) =
      .ok (if conversion = '%' ∧ key = none then .plain '%'
        else .directive key (fieldLayout flags width) conversion, rest) := by
  have hbegins : ∀ c ∈ (width ++ conversion :: rest).head?, isFlag c = false := by
    rw [head?_append_cons]
    exact h.begins
  have hends : ∀ c ∈ (conversion :: rest).head?, c.isDigit = false := by
    rintro _ ⟨⟩
    exact h.ends
  rw [readConversion_run h.all_flags h.all_digits hbegins hends, readEnding]
  split
  · rfl
  · rfl

theorem readConversion_eq_ok {key : Option String} {cs rest : List Char} {part : Part}
    (h : readConversion key cs = .ok (part, rest)) : ∃ flags width conversion,
      Field flags width conversion ∧ cs = flags ++ (width ++ conversion :: rest) := by
  obtain ⟨flags, after, rfl, hflags, hafter⟩ := Text.exists_run isFlag cs
  obtain ⟨width, ending, rfl, hwidth, hending⟩ := Text.exists_run Char.isDigit after
  rw [readConversion_run hflags hwidth hafter hending] at h
  cases ending with
  | nil => cases h
  | cons conversion ending =>
      refine ⟨flags, width, conversion, ⟨hflags, hwidth, ?_, hending conversion rfl⟩, ?_⟩
      · rwa [head?_append_cons] at hafter
      · rw [readEnding] at h
        split at h
        · cases h
          rfl
        · cases h
          rfl

theorem Field.head_ne {flags width : List Char} {conversion : Char}
    (h : Field flags width conversion) (hparen : conversion = '(' → flags ++ width ≠ [])
    (rest : List Char) :
    (flags ++ (width ++ conversion :: rest)).head? ≠ some '(' := by
  intro hhead
  cases flags with
  | cons c flags =>
      obtain rfl : c = '(' := Option.some.inj hhead
      cases h.all_flags '(' List.mem_cons_self
  | nil =>
      cases width with
      | cons c width =>
          obtain rfl : c = '(' := Option.some.inj hhead
          cases h.all_digits '(' List.mem_cons_self
      | nil => exact hparen (Option.some.inj hhead) rfl

theorem readKeyPart_of_ne {cs : List Char} (h : cs.head? ≠ some '(') :
    readKeyPart cs = .ok (none, cs) := by
  rw [readKeyPart]
  rintro cs' rfl
  exact h rfl

theorem readKeyPart_key {key : List Char} (h : Closes 0 key) (rest : List Char) :
    readKeyPart ('(' :: (key ++ ')' :: rest)) = .ok (some (String.ofList key), rest) := by
  rw [readKeyPart, readKey?_eq_some_iff.mpr ⟨h, rfl⟩]

theorem append_field (flags width : List Char) (conversion : Char) (rest : List Char) :
    flags ++ (width ++ [conversion]) ++ rest = flags ++ (width ++ conversion :: rest) := by
  rw [List.append_assoc, List.append_assoc, List.singleton_append]

/-- What is read as a directive is one. -/
theorem readDirective_eq_ok {cs rest : List Char} {part : Part}
    (h : readDirective cs = .ok (part, rest)) : ∃ own, Directive own part ∧ cs = own ++ rest := by
  obtain ⟨⟨key, after⟩, hkey, hconversion⟩ := bind_eq_ok.mp h
  replace hconversion : readConversion key after = .ok (part, rest) := hconversion
  obtain ⟨flags, width, conversion, hfield, rfl⟩ := readConversion_eq_ok hconversion
  rw [readConversion_append hfield] at hconversion
  unfold readKeyPart at hkey
  split at hkey
  · split at hkey
    · rename_i hread
      cases hkey
      obtain ⟨hcloses, rfl⟩ := readKey?_eq_some_iff.mp hread
      cases hconversion
      rw [if_neg fun h => Option.some_ne_none _ h.2]
      refine ⟨_, .keyed hcloses hfield, ?_⟩
      rw [List.cons_append, List.append_assoc, List.cons_append, append_field]
    · cases hkey
  · rename_i hparen
    cases hkey
    cases hconversion
    refine ⟨flags ++ (width ++ [conversion]), ?_, (append_field _ _ _ _).symm⟩
    by_cases hpercent : conversion = '%'
    · subst hpercent
      exact .percent hfield
    · rw [if_neg fun h => hpercent h.1]
      refine .next hfield hpercent fun hconversion hnone => ?_
      obtain ⟨rfl, rfl⟩ := List.append_eq_nil_iff.mp hnone
      subst hconversion
      exact hparen rest rfl

/-- A directive is read up to its end, whatever comes then. -/
theorem Directive.read {own : List Char} {part : Part} (h : Directive own part) (rest : List Char) :
    readDirective (own ++ rest) = .ok (part, rest) := by
  cases h with
  | percent h =>
      have hhead := h.head_ne (fun heq => absurd heq (by decide)) rest
      rw [append_field, readDirective, readKeyPart_of_ne hhead, ok_bind]
      exact readConversion_append h none rest
  | next h hpercent hparen =>
      rw [append_field, readDirective, readKeyPart_of_ne (h.head_ne hparen rest), ok_bind]
      refine (readConversion_append h none rest).trans ?_
      rw [if_neg fun heq => hpercent heq.1]
  | keyed hkey h =>
      rw [List.cons_append, List.append_assoc, List.cons_append, append_field, readDirective,
        readKeyPart_key hkey, ok_bind]
      refine (readConversion_append h _ rest).trans ?_
      rw [if_neg fun heq => Option.some_ne_none _ heq.2]

/-! ## Reading the parts -/

theorem parts_plain {c : Char} (h : c ≠ '%') (cs : List Char) :
    parts (c :: cs) = (.plain c :: (parts cs).1, (parts cs).2) := by
  rw [parts, if_neg h]

theorem parts_directive {cs rest : List Char} {part : Part}
    (h : readDirective cs = .ok (part, rest)) :
    parts ('%' :: cs) = (part :: (parts rest).1, (parts rest).2) := by
  rw [parts, if_pos rfl]
  split
  · rename_i hread
    cases h.symm.trans hread
  · rename_i hread
    cases h.symm.trans hread
    rfl

theorem parts_error {cs : List Char} {failure : Failure} (h : readDirective cs = .error failure) :
    parts ('%' :: cs) = ([], some failure) := by
  rw [parts, if_pos rfl]
  split
  · rename_i hread
    cases h.symm.trans hread
    rfl
  · rename_i hread
    cases h.symm.trans hread

/-- The parts of a format text are those that it spells. -/
theorem parts_eq_iff {cs : List Char} {ps : List Part} : parts cs = (ps, none) ↔ Spells cs ps := by
  constructor
  · intro h
    induction hn : cs.length using Nat.strongRecOn generalizing cs ps with
    | ind n ih =>
        subst hn
        cases cs with
        | nil =>
            rw [parts] at h
            cases h
            exact .nil
        | cons c cs =>
            by_cases hc : c = '%'
            · subst hc
              cases hread : readDirective cs with
              | error failure =>
                  rw [parts_error hread] at h
                  cases h
              | ok read =>
                  obtain ⟨part, rest⟩ := read
                  rw [parts_directive hread] at h
                  obtain ⟨rfl, hnone⟩ := Prod.mk.inj h
                  have hshorter : rest.length < ('%' :: cs).length :=
                    Nat.lt_succ_of_lt (readDirective_length hread)
                  obtain ⟨own, hpart, rfl⟩ := readDirective_eq_ok hread
                  exact .directive hpart (ih rest.length hshorter (Prod.ext rfl hnone) rfl)
            · rw [parts_plain hc] at h
              obtain ⟨rfl, hnone⟩ := Prod.mk.inj h
              exact .plain hc (ih cs.length (Nat.lt_succ_self _) (Prod.ext rfl hnone) rfl)
  · intro h
    induction h with
    | nil => rw [parts]
    | plain hc _ ih => rw [parts_plain hc, ih]
    | directive hpart _ ih => rw [parts_directive (hpart.read _), ih]

/-! ## Filling parts in -/

/-- `Fills mapping ps taken out`: the text that parts become. A directive without a key takes the
next argument, one with a key takes none of them. -/
inductive Fills (mapping : Option Dict) : List Part → List Value → List Char → Prop
  | nil : Fills mapping [] [] []
  | plain {c : Char} {ps : List Part} {taken : List Value} {out : List Char}
      (h : Fills mapping ps taken out) : Fills mapping (.plain c :: ps) taken (c :: out)
  | next {layout : Layout} {conversion : Char} {v : Value} {piece : List Char} {ps : List Part}
      {taken : List Value} {out : List Char} (hpiece : convert layout conversion v = .ok piece)
      (h : Fills mapping ps taken out) :
      Fills mapping (.directive none layout conversion :: ps) (v :: taken) (piece ++ out)
  | keyed {d : Dict} {key : String} {layout : Layout} {conversion : Char} {v : Value}
      {piece : List Char} {ps : List Part} {taken : List Value} {out : List Char}
      (hd : mapping = some d) (hv : d.getString? key = some v)
      (hpiece : convert layout conversion v = .ok piece) (h : Fills mapping ps taken out) :
      Fills mapping (.directive (some key) layout conversion :: ps) taken (piece ++ out)

variable {mapping : Option Dict} {ps ps' : List Part} {taken taken' : List Value}
    {out out' : List Char}

theorem Fills.append (h : Fills mapping ps taken out) (h' : Fills mapping ps' taken' out') :
    Fills mapping (ps ++ ps') (taken ++ taken') (out ++ out') := by
  induction h with
  | nil => exact h'
  | plain _ ih => exact .plain ih
  | next hpiece _ ih =>
      rw [List.append_assoc]
      exact .next hpiece ih
  | keyed hd hv hpiece _ ih =>
      rw [List.append_assoc]
      exact .keyed hd hv hpiece ih

theorem fills_plain (s : List Char) : Fills mapping (s.map .plain) [] s := by
  induction s with
  | nil => exact .nil
  | cons c s ih => exact .plain ih

/-- Whether a part takes an argument or looks one up. -/
def Part.isDirective : Part → Bool
  | .plain _ => false
  | .directive _ _ _ => true

/-- Whether a part is plain or looks its argument up. -/
def Part.takesNone : Part → Bool
  | .directive none _ _ => false
  | _ => true

theorem Fills.length_eq (h : Fills none ps taken out) :
    taken.length = ps.countP Part.isDirective := by
  induction h with
  | nil => rfl
  | plain _ ih => rw [List.countP_cons_of_neg Bool.false_ne_true, ih]
  | next _ _ ih => rw [List.countP_cons_of_pos rfl, List.length_cons, ih]
  | keyed hd _ _ _ _ => cases hd

theorem Fills.taken_eq_nil (h : Fills mapping ps taken out)
    (hps : ∀ part ∈ ps, part.takesNone = true) : taken = [] := by
  induction h with
  | nil => rfl
  | plain _ ih => exact ih (List.forall_mem_cons.mp hps).2
  | next _ _ _ => cases (List.forall_mem_cons.mp hps).1
  | keyed _ _ _ _ ih => exact ih (List.forall_mem_cons.mp hps).2

theorem expand_cons_eq_ok {part : Part} {a left : Arguments} :
    expand (part :: ps) a = .ok (out, left) ↔ ∃ piece a' more, part.expand a = .ok (piece, a') ∧
      expand ps a' = .ok (more, left) ∧ out = piece ++ more := by
  rw [expand, bind_eq_ok]
  constructor
  · rintro ⟨⟨piece, a'⟩, hpiece, hrest⟩
    obtain ⟨⟨more, left'⟩, hmore, hresult⟩ := bind_eq_ok.mp hrest
    cases hresult
    exact ⟨piece, a', more, hpiece, hmore, rfl⟩
  · rintro ⟨piece, a', more, hpiece, hmore, rfl⟩
    exact ⟨(piece, a'), hpiece, bind_eq_ok.mpr ⟨(more, left), hmore, rfl⟩⟩

theorem expand_directive_eq_ok {key : Option String} {layout : Layout} {conversion : Char}
    {piece : List Char} {a a' : Arguments} :
    (Part.directive key layout conversion).expand a = .ok (piece, a') ↔
      ∃ v, a.take key = .ok (v, a') ∧ convert layout conversion v = .ok piece := by
  rw [Part.expand, bind_eq_ok]
  constructor
  · rintro ⟨⟨v, a''⟩, htake, hrest⟩
    obtain ⟨text, hconvert, hresult⟩ := bind_eq_ok.mp hrest
    cases hresult
    exact ⟨v, htake, hconvert⟩
  · rintro ⟨v, htake, hconvert⟩
    exact ⟨(v, a'), htake, bind_eq_ok.mpr ⟨piece, hconvert, rfl⟩⟩

theorem take_none_eq_ok {v : Value} {a a' : Arguments} :
    a.take none = .ok (v, a') ↔ a = ⟨v :: a'.positional, a'.mapping⟩ := by
  obtain ⟨positional, mapping⟩ := a
  rw [Arguments.take]
  cases positional with
  | nil => exact ⟨nofun, nofun⟩
  | cons first rest =>
      constructor
      · rintro ⟨⟩
        rfl
      · rintro ⟨⟩
        rfl

theorem take_some_eq_ok {key : String} {v : Value} {a a' : Arguments} :
    a.take (some key) = .ok (v, a') ↔
      a' = a ∧ ∃ d, a.mapping = some d ∧ d.getString? key = some v := by
  obtain ⟨positional, mapping⟩ := a
  rw [Arguments.take]
  cases mapping with
  | none =>
      refine ⟨nofun, ?_⟩
      rintro ⟨-, d, hd, -⟩
      cases hd
  | some d =>
      dsimp only
      cases hv : d.getString? key with
      | none =>
          refine ⟨nofun, ?_⟩
          rintro ⟨-, d', hd, hv'⟩
          cases hd
          cases hv.symm.trans hv'
      | some value =>
          constructor
          · rintro ⟨⟩
            exact ⟨rfl, d, rfl, hv⟩
          · rintro ⟨rfl, d', hd, hv'⟩
            cases hd
            cases hv.symm.trans hv'
            rfl

/-- Parts are expanded exactly if some of the arguments fill them in, and the others are left. -/
theorem expand_eq_ok_iff {a left : Arguments} : expand ps a = .ok (out, left) ↔
    ∃ taken, Fills left.mapping ps taken out ∧ a = ⟨taken ++ left.positional, left.mapping⟩ := by
  induction ps generalizing a out with
  | nil =>
      constructor
      · rintro ⟨⟩
        exact ⟨[], .nil, rfl⟩
      · rintro ⟨taken, h, rfl⟩
        cases h
        rfl
  | cons part ps ih =>
      rw [expand_cons_eq_ok]
      cases part with
      | plain c =>
          constructor
          · rintro ⟨piece, a', more, ⟨⟩, hmore, rfl⟩
            obtain ⟨taken, h, ha⟩ := ih.mp hmore
            exact ⟨taken, .plain h, ha⟩
          · rintro ⟨taken, h, rfl⟩
            cases h with
            | plain h => exact ⟨[c], _, _, rfl, ih.mpr ⟨taken, h, rfl⟩, rfl⟩
      | directive key layout conversion =>
          constructor
          · rintro ⟨piece, a', more, hpiece, hmore, rfl⟩
            obtain ⟨taken, h, rfl⟩ := ih.mp hmore
            obtain ⟨v, htake, hconvert⟩ := expand_directive_eq_ok.mp hpiece
            cases key with
            | none => exact ⟨v :: taken, .next hconvert h, take_none_eq_ok.mp htake⟩
            | some key =>
                obtain ⟨rfl, d, hd, hv⟩ := take_some_eq_ok.mp htake
                exact ⟨taken, .keyed hd hv hconvert h, rfl⟩
          · rintro ⟨taken, h, rfl⟩
            cases h with
            | next hconvert h =>
                refine ⟨_, _, _, expand_directive_eq_ok.mpr ⟨_, take_none_eq_ok.mpr ?_, hconvert⟩,
                  ih.mpr ⟨_, h, rfl⟩, rfl⟩
                rfl
            | keyed hd hv hconvert h =>
                exact ⟨_, _, _, expand_directive_eq_ok.mpr ⟨_, take_some_eq_ok.mpr ⟨rfl, _, hd, hv⟩,
                  hconvert⟩, ih.mpr ⟨_, h, rfl⟩, rfl⟩

/-! ## Formatting -/

/-- A text is formatted exactly if it spells parts that the arguments fill in, and without a dict
all of them are taken. -/
theorem format_eq_ok_iff {text : List Char} {value : Value} : format text value = .ok out ↔
    ∃ ps taken rest, Spells text ps ∧ Fills (Arguments.of value).mapping ps taken out ∧
      (Arguments.of value).positional = taken ++ rest ∧
      ((Arguments.of value).mapping = none → rest = []) := by
  rw [format, bind_eq_ok]
  generalize Arguments.of value = a
  constructor
  · rintro ⟨⟨out', left⟩, hexpand, hresult⟩
    obtain ⟨taken, hfills, rfl⟩ := expand_eq_ok_iff.mp hexpand
    cases hfailure : (parts text).2 with
    | some failure =>
        rw [hfailure] at hresult
        cases hresult
    | none =>
        have hspells : Spells text (parts text).1 := parts_eq_iff.mp (Prod.ext rfl hfailure)
        rw [hfailure] at hresult
        dsimp only at hresult
        split at hresult
        · cases hresult
        · rename_i hnone
          cases hresult
          refine ⟨_, taken, left.positional, hspells, hfills, rfl, fun hmapping => ?_⟩
          simpa [show left.mapping = none from hmapping] using hnone
  · rintro ⟨ps, taken, rest, hspells, hfills, hpositional, hall⟩
    obtain ⟨positional, mapping⟩ := a
    dsimp only at hfills hpositional hall
    subst hpositional
    rw [parts_eq_iff.mpr hspells]
    refine ⟨(out, ⟨rest, mapping⟩), expand_eq_ok_iff.mpr ⟨taken, hfills, rfl⟩, if_neg ?_⟩
    cases mapping with
    | none =>
        rw [hall rfl]
        exact Bool.false_ne_true
    | some d => exact Bool.false_ne_true

theorem format_tuple_eq_ok_iff {text : List Char} {items : List Value} :
    format text (.tuple items) = .ok out ↔ ∃ ps, Spells text ps ∧ Fills none ps items out := by
  rw [format_eq_ok_iff]
  constructor
  · rintro ⟨ps, taken, rest, hspells, hfills, hpositional, hall⟩
    obtain rfl := hall rfl
    rw [List.append_nil] at hpositional
    cases hpositional
    exact ⟨ps, hspells, hfills⟩
  · rintro ⟨ps, hspells, hfills⟩
    exact ⟨ps, items, [], hspells, hfills, (List.append_nil items).symm, fun _ => rfl⟩

theorem format_dict_eq_ok_iff {text : List Char} {entries : List (Value × Value)}
    (hspells : Spells text ps) (hps : ∀ part ∈ ps, part.takesNone = true) :
    format text (.dict entries) = .ok out ↔ Fills (some ⟨entries⟩) ps [] out := by
  rw [format_eq_ok_iff]
  constructor
  · rintro ⟨ps', taken, rest, hspells', hfills, -, -⟩
    have hsame := (parts_eq_iff.mpr hspells').symm.trans (parts_eq_iff.mpr hspells)
    cases hsame
    obtain rfl := hfills.taken_eq_nil hps
    exact hfills
  · intro hfills
    exact ⟨ps, [], _, hspells, hfills, rfl, nofun⟩

/-- Formatting goes part by part. Texts that are put together are formatted with the arguments of
both. The arguments of a tuple are taken from the first to the last by the directives of the text,
one by each. Texts that only look up keys are formatted by themselves. And a text with all percent
signs doubled is formatted as what it was. -/
theorem format_compositional :
    (∀ f f' items items' r r', format f (.tuple items) = .ok r →
      format f' (.tuple items') = .ok r' →
      format (f ++ f') (.tuple (items ++ items')) = .ok (r ++ r')) ∧
    (∀ f items r, format f (.tuple items) = .ok r → ∃ ps, Spells f ps ∧ Fills none ps items r ∧
      items.length = ps.countP Part.isDirective) ∧
    (∀ f f' ps ps' entries r r', Spells f ps → Spells f' ps' →
      (∀ part ∈ ps ++ ps', part.takesNone = true) →
      format f (.dict entries) = .ok r → format f' (.dict entries) = .ok r' →
      format (f ++ f') (.dict entries) = .ok (r ++ r')) ∧
    ∀ s, format (Text.replace '%' ['%', '%'] s) (.tuple []) = .ok s := by
  refine ⟨?_, ?_, ?_, ?_⟩
  · intro f f' items items' r r' h h'
    obtain ⟨ps, hspells, hfills⟩ := format_tuple_eq_ok_iff.mp h
    obtain ⟨ps', hspells', hfills'⟩ := format_tuple_eq_ok_iff.mp h'
    exact format_tuple_eq_ok_iff.mpr ⟨ps ++ ps', hspells.append hspells', hfills.append hfills'⟩
  · intro f items r h
    obtain ⟨ps, hspells, hfills⟩ := format_tuple_eq_ok_iff.mp h
    exact ⟨ps, hspells, hfills, hfills.length_eq⟩
  · intro f f' ps ps' entries r r' hspells hspells' hps h h'
    obtain ⟨hfirst, hsecond⟩ := List.forall_mem_append.mp hps
    have hfills := (format_dict_eq_ok_iff hspells hfirst).mp h
    have hfills' := (format_dict_eq_ok_iff hspells' hsecond).mp h'
    exact (format_dict_eq_ok_iff (hspells.append hspells') hps).mpr (hfills.append hfills')
  · intro s
    exact format_tuple_eq_ok_iff.mpr ⟨_, spells_doubled s, fills_plain s⟩

theorem format_compositional_padded :
    format ("%s=".toList ++ "%03d%%".toList) (.tuple ([.str "x"] ++ [.int 7])) =
      .ok ("x=".toList ++ "007%".toList) ∧
    (∃ ps, Spells "%03d%%".toList ps ∧ Fills none ps [.int 7] "007%".toList ∧
      1 = ps.countP Part.isDirective) ∧
    format ("%(a)s%%".toList ++ "%(b)x".toList)
      (.dict [(.str "a", .str "x"), (.str "b", .int 31)]) = .ok ("x%".toList ++ "1f".toList) ∧
    format (Text.replace '%' ['%', '%'] "5%s%".toList) (.tuple []) = .ok "5%s%".toList := by
  obtain ⟨htuple, hcount, hdict, hdoubled⟩ := format_compositional
  have hnext : format "%s=".toList (.tuple [.str "x"]) = .ok "x=".toList := by decide +kernel
  have hpadded : format "%03d%%".toList (.tuple [.int 7]) = .ok "007%".toList := by decide +kernel
  have hspells : Spells "%(a)s%%".toList [.directive (some "a") {} 's', .plain '%'] :=
    parts_eq_iff.mp (by decide +kernel)
  have hspells' : Spells "%(b)x".toList [.directive (some "b") {} 'x'] :=
    parts_eq_iff.mp (by decide +kernel)
  refine ⟨htuple _ _ _ _ _ _ hnext hpadded, hcount _ _ _ hpadded, ?_, hdoubled _⟩
  exact hdict _ _ _ _ _ _ _ hspells hspells' (by decide) (by decide +kernel) (by decide +kernel)

end DepsManifest.Format
