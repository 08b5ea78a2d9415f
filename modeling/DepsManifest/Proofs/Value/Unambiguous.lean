import DepsManifest.Proofs.Text.Digits
import DepsManifest.Proofs.Value.Literal
/-! # Printed forms are unambiguous

Two values that are printed alike are the same value (`repr_inj`), also if they hold whole numbers,
whose printed forms denote nothing, or keys that are lists and dicts. The proof reads both printed
forms from the left: the first character tells the type (`type?_lead`), a string ends at its closing
quote, a number before what is no digit, and a container where its parts do. So each form can be
taken off the beginning of a text (`detachable_literal`), if only what follows is nothing or what
can follow a value inside a container (`Ends`).
-/
namespace DepsManifest

/-- The characters that can follow a printed value inside a container. -/
def followers : List Char := [',', ':', ')', ']', '\x7d']

/-- What can follow a printed value inside a container, or at the end. -/
def Ends (rest : List Char) : Prop := ∀ c ∈ rest.head?, c ∈ followers

theorem Ends.not_isDigit {rest : List Char} (h : Ends rest) :
    ∀ c ∈ rest.head?, c.isDigit = false := by
  have hfollowers : ∀ c ∈ followers, c.isDigit = false := by simp [followers, Char.isDigit]
  exact fun c hc => hfollowers c (h c hc)

theorem Ends.not_isQuote {rest : List Char} (h : Ends rest) :
    ∀ c ∈ rest.head?, Literal.isQuote c = false := by
  have hfollowers : ∀ c ∈ followers, Literal.isQuote c = false := by
    simp [followers, Literal.isQuote]
  exact fun c hc => hfollowers c (h c hc)

theorem ends_nil : Ends [] := nofun

theorem ends_cons {c : Char} (hc : c ∈ followers) (rest : List Char) : Ends (c :: rest) := by
  rintro _ ⟨⟩
  exact hc

/-- A text that a printer makes of something can be taken off the beginning of a text. -/
def Detachable {α : Type} (print : α → List Char) (x : α) : Prop :=
  ∀ y {r r' : List Char}, Ends r → Ends r' → print x ++ r = print y ++ r' → x = y ∧ r = r'

namespace Value

/-! ## The first character -/

/-- The type of the values whose printed form begins with a character. -/
def type? (lead : Char) : Option String :=
  if lead = 'N' then some "NoneType"
  else if lead = 'T' ∨ lead = 'F' then some "bool"
  else if lead = '-' ∨ lead.isDigit then some "int"
  else if Literal.isQuote lead then some "str"
  else if lead = '[' then some "list"
  else if lead = '(' then some "tuple"
  else if lead = '\x7b' then some "dict"
  else none

/-- The first character of a printed form tells the type of the value. -/
theorem type?_lead (v : Value) : ∃ c cs, v.literal = c :: cs ∧ type? c = some v.typeName := by
  cases v with
  | null => exact ⟨_, _, rfl, rfl⟩
  | bool b =>
      cases b with
      | false => exact ⟨_, _, rfl, rfl⟩
      | true => exact ⟨_, _, rfl, rfl⟩
  | int i =>
      rw [literal, Text.signedDecimal]
      split
      · exact ⟨'-', _, rfl, rfl⟩
      · obtain ⟨c, cs, hc, hdigit⟩ := Text.exists_decimal_eq_cons i.toInt.natAbs
        refine ⟨c, cs, hc, ?_⟩
        have hnot : ∀ d : Char, d.isDigit = false → c ≠ d := by
          rintro d hd rfl
          rw [hd] at hdigit
          cases hdigit
        simp [type?, hdigit, hnot 'N' rfl, hnot 'T' rfl, hnot 'F' rfl, typeName]
  | str s =>
      refine ⟨_, _, rfl, ?_⟩
      rcases eq_quotes_of_isQuote (isQuote_quoteFor s.toList) with h | h
      · rw [h]
        rfl
      · rw [h]
        rfl
  | list items => exact ⟨_, _, rfl, rfl⟩
  | tuple items =>
      rcases items with _ | ⟨item, _ | ⟨second, rest⟩⟩
      · exact ⟨_, _, rfl, rfl⟩
      · exact ⟨_, _, rfl, rfl⟩
      · exact ⟨_, _, rfl, rfl⟩
  | dict entries => exact ⟨_, _, rfl, rfl⟩

/-- Values whose printed forms begin alike are of one type. -/
theorem typeName_eq_of_literal_append {v w : Value} {r r' : List Char}
    (h : v.literal ++ r = w.literal ++ r') : v.typeName = w.typeName := by
  obtain ⟨c, cs, hv, hc⟩ := type?_lead v
  obtain ⟨d, ds, hw, hd⟩ := type?_lead w
  rw [hv, hw, List.cons_append, List.cons_append, List.cons.injEq] at h
  rw [h.1, hd] at hc
  exact (Option.some.inj hc).symm

/-- A printed value does not begin with a character that values of other types begin with. -/
theorem literal_append_ne_of_type? {v : Value} {c : Char} (hc : type? c ≠ some v.typeName)
    (r r' : List Char) : v.literal ++ r ≠ c :: r' := by
  obtain ⟨d, ds, hv, hd⟩ := type?_lead v
  rw [hv]
  rintro ⟨⟩
  exact hc hd

theorem literal_append_ne {c : Char} (hc : type? c = none) (v : Value) (r r' : List Char) :
    v.literal ++ r ≠ c :: r' := by
  refine literal_append_ne_of_type? ?_ r r'
  rw [hc]
  exact (Option.some_ne_none _).symm

/-! ## Strings -/

theorem literalString_append_inj {s t r r' : List Char}
    (hr : ∀ c ∈ r.head?, Literal.isQuote c = false)
    (hr' : ∀ c ∈ r'.head?, Literal.isQuote c = false)
    (h : literalString s ++ r = literalString t ++ r') : s = t ∧ r = r' := by
  have hform : ∀ u q, literalString u ++ q =
      quoteFor u :: (u.flatMap (literalChar (quoteFor u)) ++ quoteFor u :: q) := by
    intro u q
    simp [literalString]
  have hparts := h
  rw [hform, hform, List.cons.injEq] at hparts
  have hlexeme := at?_literalString s hr
  rw [hparts.2, hparts.1, at?_literalString t hr', Except.ok.injEq, Lexeme.mk.injEq,
    LexemeKind.literal.injEq] at hlexeme
  have hst : s = t := (String.ofList_injective hlexeme.1.2).symm
  rw [hst] at h
  exact ⟨hst, List.append_cancel_left h⟩

/-! ## Parts with commas between them -/

section Joined

variable {α : Type} {print : α → List Char}

/-- Printed parts with commas between them. -/
def joined (print : α → List Char) : List α → List Char
  | [] => []
  | x :: rest => print x ++ rest.flatMap fun y => [',', ' '] ++ print y

variable {close : Char} (hclose : close ∈ followers) (hcomma : close ≠ ',')

include hclose hcomma

/-- The parts after the first can be taken off one by one, up to a closing bracket. -/
theorem flatMap_append_inj {xs ys : List α} (ih : ∀ x ∈ xs, Detachable print x) {r r' : List Char}
    (h : (xs.flatMap fun x => [',', ' '] ++ print x) ++ close :: r =
      (ys.flatMap fun y => [',', ' '] ++ print y) ++ close :: r') : xs = ys ∧ r = r' := by
  have hends : ∀ (zs : List α) (q : List Char),
      Ends ((zs.flatMap fun z => [',', ' '] ++ print z) ++ close :: q) := by
    intro zs q
    cases zs with
    | nil => exact ends_cons hclose q
    | cons z zs => exact ends_cons List.mem_cons_self _
  induction xs generalizing ys with
  | nil =>
      cases ys with
      | nil => exact ⟨rfl, (List.cons.inj h).2⟩
      | cons y ys => exact absurd (List.cons.inj h).1 hcomma
  | cons x xs ihxs =>
      cases ys with
      | nil => exact absurd (List.cons.inj h).1.symm hcomma
      | cons y ys =>
          simp only [List.flatMap_cons, List.cons_append, List.nil_append, List.append_assoc,
            List.cons.injEq, true_and] at h
          obtain ⟨rfl, hrest⟩ := ih x List.mem_cons_self y (hends xs r) (hends ys r') h
          obtain ⟨rfl, hr⟩ := ihxs (fun x' hx' => ih x' (List.mem_cons_of_mem x hx')) hrest
          exact ⟨rfl, hr⟩

/-- The parts of a container can be taken off, if none begins as the container ends. -/
theorem joined_append_inj (hlead : ∀ x r r', print x ++ r ≠ close :: r') {xs ys : List α}
    (ih : ∀ x ∈ xs, Detachable print x) {r r' : List Char}
    (h : joined print xs ++ close :: r = joined print ys ++ close :: r') : xs = ys ∧ r = r' := by
  cases xs with
  | nil =>
      cases ys with
      | nil => exact ⟨rfl, (List.cons.inj h).2⟩
      | cons y ys =>
          rw [joined, joined, List.append_assoc] at h
          exact absurd h.symm (hlead y _ r)
  | cons x xs =>
      cases ys with
      | nil =>
          rw [joined, joined, List.append_assoc] at h
          exact absurd h (hlead x _ r')
      | cons y ys =>
          -- With a comma before the first part too, all parts are alike.
          refine flatMap_append_inj hclose hcomma ih ?_
          simpa [joined] using h

end Joined

theorem literalItems_eq_joined (items : List Value) :
    literalItems items = joined literal items := by
  cases items with
  | nil => rfl
  | cons item rest => exact literalItems_cons item rest

/-- The printed form of an entry of a dict. -/
def literalEntry (e : Value × Value) : List Char := e.1.literal ++ [':', ' '] ++ e.2.literal

theorem literalEntries_eq_joined (entries : List (Value × Value)) :
    literalEntries entries = joined literalEntry entries := by
  cases entries with
  | nil => rfl
  | cons entry rest => exact literalEntries_cons entry rest

theorem detachable_literalEntry {e : Value × Value} (hkey : Detachable literal e.1)
    (hvalue : Detachable literal e.2) : Detachable literalEntry e := by
  intro e' r r' hr hr' h
  simp only [literalEntry, List.append_assoc, List.cons_append, List.nil_append] at h
  have hcolon : ∀ q, Ends (':' :: q) := ends_cons (by decide)
  obtain ⟨hkeys, hrest⟩ := hkey e'.1 (hcolon _) (hcolon _) h
  simp only [List.cons.injEq, true_and] at hrest
  obtain ⟨hvalues, hends⟩ := hvalue e'.2 hr hr' hrest
  exact ⟨Prod.ext hkeys hvalues, hends⟩

/-! ## Tuples -/

/-- What follows the first element of a printed tuple. -/
def tupleTail : List Value → List Char
  | [] => [',', ')']
  | rest => (rest.flatMap fun v => [',', ' '] ++ v.literal) ++ [')']

theorem literal_tuple_cons (item : Value) (rest : List Value) :
    literal (.tuple (item :: rest)) = '(' :: (item.literal ++ tupleTail rest) := by
  cases rest with
  | nil => rfl
  | cons second rest =>
      rw [literal]
      · rw [literalItems_cons, tupleTail]
        · simp only [List.cons_append, List.append_assoc]
        · exact List.cons_ne_nil second rest
      · exact fun _ h => by cases h

theorem tupleTail_append_inj {xs ys : List Value} (ih : ∀ x ∈ xs, Detachable literal x)
    {r r' : List Char} (h : tupleTail xs ++ r = tupleTail ys ++ r') : xs = ys ∧ r = r' := by
  cases xs with
  | nil =>
      cases ys with
      | nil => exact ⟨rfl, List.append_cancel_left h⟩
      | cons y ys => cases h
  | cons x xs =>
      cases ys with
      | nil => cases h
      | cons y ys =>
          have hclose : ')' ∈ followers := by decide
          refine flatMap_append_inj hclose (by decide) ih ?_
          simpa only [tupleTail, List.append_assoc, List.singleton_append] using h

theorem ends_tupleTail (xs : List Value) (r : List Char) : Ends (tupleTail xs ++ r) := by
  cases xs with
  | nil => exact ends_cons (by decide) _
  | cons x xs => exact ends_cons (by decide) _

theorem tuple_append_inj {xs ys : List Value} (ih : ∀ x ∈ xs, Detachable literal x)
    {r r' : List Char} (h : literal (.tuple xs) ++ r = literal (.tuple ys) ++ r') :
    xs = ys ∧ r = r' := by
  have hlead : ∀ (v : Value) (q q' : List Char), v.literal ++ q ≠ ')' :: q' := literal_append_ne rfl
  cases xs with
  | nil =>
      cases ys with
      | nil => exact ⟨rfl, List.append_cancel_left h⟩
      | cons y ys =>
          rw [literal_tuple_cons, List.cons_append, List.append_assoc] at h
          exact absurd (List.cons.inj h).2.symm (hlead y _ _)
  | cons x xs =>
      cases ys with
      | nil =>
          rw [literal_tuple_cons, List.cons_append, List.append_assoc] at h
          exact absurd (List.cons.inj h).2 (hlead x _ _)
      | cons y ys =>
          rw [literal_tuple_cons, literal_tuple_cons, List.cons_append, List.cons_append,
            List.append_assoc, List.append_assoc] at h
          obtain ⟨rfl, hrest⟩ := ih x List.mem_cons_self y (ends_tupleTail xs r)
            (ends_tupleTail ys r') (List.cons.inj h).2
          obtain ⟨rfl, hr⟩ :=
            tupleTail_append_inj (fun x' hx' => ih x' (List.mem_cons_of_mem x hx')) hrest
          exact ⟨rfl, hr⟩

/-! ## All values -/

theorem list_append_inj {xs ys : List Value} (ih : ∀ x ∈ xs, Detachable literal x)
    {r r' : List Char} (h : literal (.list xs) ++ r = literal (.list ys) ++ r') :
    xs = ys ∧ r = r' := by
  simp only [literal, literalItems_eq_joined, List.cons_append, List.append_assoc, List.nil_append,
    List.cons.injEq, true_and] at h
  exact joined_append_inj (by decide) (by decide) (literal_append_ne rfl) ih h

theorem dict_append_inj {xs ys : List (Value × Value)} (ih : ∀ e ∈ xs, Detachable literalEntry e)
    {r r' : List Char} (h : literal (.dict xs) ++ r = literal (.dict ys) ++ r') :
    xs = ys ∧ r = r' := by
  have hlead : ∀ (e : Value × Value) (q q' : List Char), literalEntry e ++ q ≠ '\x7d' :: q' := by
    intro e q q'
    rw [literalEntry, List.append_assoc, List.append_assoc]
    exact literal_append_ne rfl e.1 _ q'
  simp only [literal, literalEntries_eq_joined, List.cons_append, List.append_assoc,
    List.nil_append, List.cons.injEq, true_and] at h
  exact joined_append_inj (by decide) (by decide) hlead ih h

theorem bool_append_inj {b b' : Bool} {r r' : List Char}
    (h : literal (.bool b) ++ r = literal (.bool b') ++ r') : b = b' ∧ r = r' := by
  cases b with
  | false =>
      cases b' with
      | false => exact ⟨rfl, List.append_cancel_left h⟩
      | true => cases h
  | true =>
      cases b' with
      | false => cases h
      | true => exact ⟨rfl, List.append_cancel_left h⟩

mutual

/-- A printed value can be taken off the beginning of a text. -/
theorem detachable_literal : (v : Value) → Detachable literal v
  | .null => by
      intro w r r' _ _ h
      have htype := typeName_eq_of_literal_append h
      cases w with
      | null => exact ⟨rfl, List.append_cancel_left h⟩
      | _ => simp [typeName] at htype
  | .bool b => by
      intro w r r' _ _ h
      have htype := typeName_eq_of_literal_append h
      cases w with
      | bool b' => exact (bool_append_inj h).imp_left (congrArg Value.bool)
      | _ => simp [typeName] at htype
  | .int i => by
      intro w r r' hr hr' h
      have htype := typeName_eq_of_literal_append h
      cases w with
      | int j =>
          obtain ⟨hij, hrest⟩ := Text.signedDecimal_append_inj hr.not_isDigit hr'.not_isDigit h
          exact ⟨congrArg Value.int (Int64.toInt_inj.mp hij), hrest⟩
      | _ => simp [typeName] at htype
  | .str s => by
      intro w r r' hr hr' h
      have htype := typeName_eq_of_literal_append h
      cases w with
      | str t =>
          obtain ⟨hst, hrest⟩ := literalString_append_inj hr.not_isQuote hr'.not_isQuote h
          exact ⟨congrArg Value.str (String.toList_injective hst), hrest⟩
      | _ => simp [typeName] at htype
  | .list xs => by
      intro w r r' _ _ h
      have htype := typeName_eq_of_literal_append h
      cases w with
      | list ys => exact (list_append_inj (detachable_items xs) h).imp_left (congrArg Value.list)
      | _ => simp [typeName] at htype
  | .tuple xs => by
      intro w r r' _ _ h
      have htype := typeName_eq_of_literal_append h
      cases w with
      | tuple ys => exact (tuple_append_inj (detachable_items xs) h).imp_left (congrArg Value.tuple)
      | _ => simp [typeName] at htype
  | .dict xs => by
      intro w r r' _ _ h
      have htype := typeName_eq_of_literal_append h
      cases w with
      | dict ys => exact (dict_append_inj (detachable_entries xs) h).imp_left (congrArg Value.dict)
      | _ => simp [typeName] at htype

theorem detachable_items : (items : List Value) → ∀ x ∈ items, Detachable literal x
  | [] => List.forall_mem_nil _
  | v :: rest => List.forall_mem_cons.mpr ⟨detachable_literal v, detachable_items rest⟩

theorem detachable_entries :
    (entries : List (Value × Value)) → ∀ e ∈ entries, Detachable literalEntry e
  | [] => List.forall_mem_nil _
  | (k, v) :: rest => List.forall_mem_cons.mpr
      ⟨detachable_literalEntry (detachable_literal k) (detachable_literal v),
      detachable_entries rest⟩

end

/-- Values are told apart by their printed forms. -/
theorem repr_inj {v w : Value} (h : v.repr = w.repr) : v = w := by
  have hliteral : v.literal = w.literal := String.ofList_injective h
  refine (v.detachable_literal w ends_nil ends_nil ?_).1
  rw [hliteral]

end Value

end DepsManifest
