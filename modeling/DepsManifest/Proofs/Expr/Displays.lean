import DepsManifest.Proofs.Expr.Reading
import DepsManifest.Proofs.Expr.Starting
/-! # Atoms, displays and calls are readable

An expression is readable (`Expr.Readable`) if its written tokens are read as it, whatever follows
them that it cannot go on with. This module has the expressions that stand by themselves or that
brackets hold together; each is readable if its parts are.

  * **Atoms** — a string literal and a name. The one thing that must not follow a literal is another
    literal, as the two would be joined (`readable_atom`).
  * **Displays** — the items between two brackets are read in one way, whatever they are
    (`afterCommas_items`): what follows an item is a comma or the closing bracket, and no item goes
    on with either (`EndsItem`). A tuple is in parentheses always, and one with a single item has a
    comma after it; what begins in braces with a key and a colon is a dict.
  * **Calls** — a call is what the loop over trailers makes of its callee, so its callee is read
    with the call as a trailer behind it. An argument that begins with a name and an equals sign
    would be read as a keyword argument; no written expression does, as none has an equals sign in
    it (`atKeywordArgument_eq_false`).

Every list of items comes with a bound for its tokens, the depth of the grammar that reads them. The
depth goes down by one at each bracket, and there are always fewer tokens inside than outside.
-/
namespace DepsManifest

open Parse Token Lexeme

namespace Expr

variable {line : Nat}

/-! ## Atoms -/

theorem literals_eq_nil {ts : List Token} (h : Stops 15 ts) : Grammar.literals ts = ([], ts) := by
  refine Grammar.literals_of_not_literal fun kind text hkind => ?_
  exact absurd (h 15 (by rw [hkind]; rfl)) (Nat.lt_irrefl 15)

/-- An atom is readable if it is read whatever follows it but another literal. -/
theorem readable_atom {e : Expr} (hlevel : e.level = 14) (hstarts : Starts 14 (kinds e.written))
    (h : ∀ n ts rest, Spell line ts (kinds e.written) → ts.length ≤ n → Stops 15 rest →
      (grammar n).atom (ts ++ rest) = .ok (e.onLine line, rest)) : Readable line e := by
  refine readable_of_level hlevel hstarts fun n ts rest r hts hn hstops hr => ?_
  cases hr
  exact h n ts rest hts hn hstops

theorem readable_str (l : Nat) (text : String) : Readable line (.str l text) := by
  refine readable_atom rfl ⟨.literal .text text, [], 14, rfl, rfl, Nat.le_refl 14⟩ ?_
  intro n ts rest hts _ hstops
  have hspell : Spell line ts [.literal .text text] := hts
  obtain ⟨column, us, rfl, hus⟩ := hspell.eq_cons
  obtain rfl := hus.eq_nil
  show (grammar n).atom (⟨.literal .text text, line, column⟩ :: rest) = _
  simp only [Grammar.atom, current_cons, Grammar.literals, literals_eq_nil hstops,
    Grammar.joinLiterals]
  simp [String.join]
  rfl

theorem startLevel?_name {n : String} (h : IsIdentifier n) :
    startLevel? (.name n) = some 14 := by
  have hnot : n ≠ "not" := by
    rintro rfl
    exact h.not_keyword (by decide)
  have hkeyword : keywords.contains n = false := h.contains_eq_false (List.Subset.refl _)
  simp only [startLevel?, hnot, hkeyword, if_false, Bool.false_eq_true]

theorem atom_name (g : Grammar) {n : String} (h : IsIdentifier n) (line column : Nat)
    (rest : List Token) : g.atom (⟨.name n, line, column⟩ :: rest) = .ok (.name line n, rest) := by
  have hkeyword : keywords.contains n = false := h.contains_eq_false (List.Subset.refl _)
  simp only [Grammar.atom, current_cons, hkeyword, Bool.false_eq_true, if_false]
  rfl

theorem readable_name (l : Nat) {n : String} (h : IsIdentifier n) :
    Readable line (.name l n) := by
  have hkinds : kinds (Expr.name l n).written = [.name n] := kinds_ofName n []
  refine readable_atom rfl ?_ ?_
  · rw [hkinds]
    exact ⟨.name n, [], 14, rfl, startLevel?_name h, Nat.le_refl 14⟩
  · intro m ts rest hts _ hstops
    rw [hkinds] at hts
    obtain ⟨column, us, rfl, hus⟩ := hts.eq_cons
    obtain rfl := hus.eq_nil
    exact atom_name (grammar m) h line column rest

/-! ## Items with commas between them -/

/-- What can follow an item: an operator that goes on with no expression, and assigns nothing. -/
def EndsItem (ts : List Token) : Prop :=
  ∃ o, (current ts).kind = .op o ∧ opLevel? o = none ∧ o ≠ .assign

theorem EndsItem.stops {ts : List Token} (h : EndsItem ts) (level : Nat) : Stops level ts := by
  obtain ⟨o, hkind, hlevel, -⟩ := h
  intro l hl
  rw [hkind] at hl
  exact absurd (hlevel.symm.trans hl) (nofun)

theorem EndsItem.not_keyword {ts : List Token} (h : EndsItem ts) (keyword : String) :
    atKeyword keyword ts = false := by
  obtain ⟨o, hkind, -, -⟩ := h
  rw [atKeyword, hkind]
  rfl

theorem endsItem_comma (line column : Nat) (ts : List Token) :
    EndsItem (⟨.op .comma, line, column⟩ :: ts) := ⟨.comma, rfl, rfl, nofun⟩

theorem endsItem_close {close : Op} (h : close.closesGroup = true) (line column : Nat)
    (ts : List Token) : EndsItem (⟨.op close, line, column⟩ :: ts) := by
  refine ⟨close, rfl, ?_, ?_⟩
  · cases close <;> first | rfl | cases h
  · rintro rfl
    cases h

theorem startLevel?_close {close : Op} (h : close.closesGroup = true) :
    startLevel? (.op close) = none := by
  cases close <;> first | rfl | cases h

/-- Items after commas up to a closing bracket are read as they are spelled. -/
theorem afterCommas_items {α β : Type} {item : Parse α} {spelled : β → List TokenKind}
    {value : β → α} {parts : List β} {close : Op} (hclose : close.closesGroup = true) {m : Nat}
    (hstarts : ∀ b ∈ parts, Starts 0 (spelled b))
    (hitem : ∀ b ∈ parts, ∀ ts after, Spell line ts (spelled b) → ts.length ≤ m → EndsItem after →
      item (ts ++ after) = .ok (value b, after))
    {ts : List Token} (hts : Spell line ts (parts.flatMap fun b => .op .comma :: spelled b))
    (hm : ts.length ≤ m) (column : Nat) (rest : List Token) :
    EndsItem (ts ++ ⟨.op close, line, column⟩ :: rest) ∧
      afterCommas (atOp close) item (ts ++ ⟨.op close, line, column⟩ :: rest) =
        .ok (parts.map value, ⟨.op close, line, column⟩ :: rest) := by
  have hdone : (current (⟨.op close, line, column⟩ :: rest)).kind ≠ .op .comma := by
    intro heq
    cases heq
    cases hclose
  have hread : ∀ b ∈ parts, ∀ us after, Spell line us (spelled b) → us.length ≤ m →
      EndsItem after →
      atOp close (us ++ after) = false ∧ item (us ++ after) = .ok (value b, after) := by
    intro b hb us after hus hlength hafter
    have hne := (hstarts b hb).kind_ne hus after (startLevel?_close hclose)
    exact ⟨by simpa [atOp] using hne, hitem b hb us after hus hlength hafter⟩
  exact afterCommas_flatMap hdone (endsItem_close hclose _ _ _) (endsItem_comma line) hread hts hm

theorem sequenceRest_items {items : List Expr} (h : ∀ e ∈ items, Readable line e) {close : Op}
    (hclose : close.closesGroup = true) {m : Nat} {ts : List Token}
    (hts : Spell line ts (items.flatMap fun e => .op .comma :: kinds e.written))
    (hm : ts.length ≤ m) (first : Expr) (column : Nat) (rest : List Token) :
    EndsItem (ts ++ ⟨.op close, line, column⟩ :: rest) ∧
      (grammar (m + 1)).sequenceRest first close (ts ++ ⟨.op close, line, column⟩ :: rest) =
        .ok (first :: items.map (onLine line), rest) := by
  have hstarts : ∀ e ∈ items, Starts 0 (kinds e.written) := fun e he =>
    (h e he).starts.mono (Nat.zero_le _)
  have hitem : ∀ e ∈ items, ∀ us after, Spell line us (kinds e.written) → us.length ≤ m →
      EndsItem after → (grammar (m + 1)).testOrStar (us ++ after) = .ok (e.onLine line, after) :=
    fun e he us after hus hlength hafter => (h e he).testOrStar hus hlength (hafter.stops 0)
  obtain ⟨hends, hread⟩ := afterCommas_items hclose hstarts hitem hts hm column rest
  refine ⟨hends, ?_⟩
  simp only [Grammar.sequenceRest, hread, ok_bind, expectOp_cons]
  rfl

theorem kinds_flatMap {α : Type} (f : α → List Lexeme) (parts : List α) :
    kinds (parts.flatMap f) = parts.flatMap fun part => kinds (f part) := by
  induction parts with
  | nil => rfl
  | cons part parts ih => rw [List.flatMap_cons, List.flatMap_cons, kinds_append, ih]

theorem kinds_listed {α : Type} (f : α → List Lexeme) (first : α) (rest : List α) :
    kinds (listed ((first :: rest).map f)) =
      kinds (f first) ++ rest.flatMap fun part => .op .comma :: kinds (f part) := by
  show kinds (f first ++ (rest.map f).flatMap ([ofOp .comma, space] ++ ·)) = _
  rw [kinds_append, kinds_flatMap, List.flatMap_map]
  rfl

/-! ## Displays -/

theorem rebuildAll_onLine (items : List Expr) :
    rebuildAll (fun _ => line) (fun _ n => .name line n) items = items.map (onLine line) :=
  rebuildAll_eq_map _ _ items

theorem readable_list (l : Nat) {items : List Expr} (h : ∀ e ∈ items, Readable line e) :
    Readable line (.list l items) := by
  refine readable_atom rfl ⟨.op .leftBracket, _, 14, rfl, rfl, Nat.le_refl 14⟩ ?_
  intro n ts rest hts hn _
  rw [written, writtenAll_eq_map, kinds_bracketed] at hts
  obtain ⟨first, us, last, hus, hlength, heq⟩ := hts.eq_bracketed
  obtain ⟨m, rfl⟩ : ∃ k, n = k + 1 := ⟨n - 1, by omega⟩
  rw [heq]
  show (grammar (m + 1)).bracketed line (us ++ ⟨.op .rightBracket, line, last⟩ :: rest) = _
  cases items with
  | nil =>
      obtain rfl := hus.eq_nil
      simp only [List.nil_append, Grammar.bracketed, skipOp?_cons]
      rfl
  | cons e items =>
      rw [kinds_listed] at hus
      obtain ⟨vs, ws, rfl, hvs, hws⟩ := hus.eq_append
      rw [List.length_append] at hlength
      have hvsLength : vs.length ≤ m := by omega
      have hwsLength : ws.length ≤ m := by omega
      have he := h e List.mem_cons_self
      obtain ⟨hends, hseq⟩ := sequenceRest_items (fun e he => h e (List.mem_cons_of_mem _ he))
        (show Op.rightBracket.closesGroup = true from rfl) hws hwsLength (e.onLine line) last rest
      have hfirst := he.testOrStar hvs hvsLength (hends.stops 0)
      have hclose := he.starts.kind_ne hvs (ws ++ ⟨.op .rightBracket, line, last⟩ :: rest)
        (show startLevel? (.op .rightBracket) = none from rfl)
      rw [List.append_assoc]
      simp only [Grammar.bracketed, skipOp?_eq_none hclose, hfirst, ok_bind,
        hends.not_keyword "for", Bool.false_eq_true, if_false, hseq]
      show Except.ok (list line _, rest) = _
      rw [← List.map_cons, ← rebuildAll_onLine]
      rfl

theorem parenthesized_tuple {e : Expr} (he : Readable line e) {m : Nat} {us : List Token}
    (hus : Spell line us (kinds e.written)) (hm : us.length ≤ m) {after rest : List Token}
    {items : List Expr} (hends : EndsItem after) (hopen : (current after).kind ≠ .op .rightParen)
    (hseq : (grammar (m + 1)).sequenceRest (e.onLine line) .rightParen after = .ok (items, rest)) :
    (grammar (m + 1)).parenthesized line (us ++ after) = .ok (.tuple line items, rest) := by
  have hfirst := he.testOrStar hus hm (hends.stops 0)
  have hclose := he.starts.kind_ne hus after
    (show startLevel? (.op .rightParen) = none from rfl)
  exact Grammar.parenthesized_tuple hclose hfirst (hends.not_keyword "for") hopen hseq

theorem readable_tuple (l : Nat) {items : List Expr} (h : ∀ e ∈ items, Readable line e) :
    Readable line (.tuple l items) := by
  refine readable_atom rfl ⟨.op .leftParen, _, 14, rfl, rfl, Nat.le_refl 14⟩ ?_
  intro n ts rest hts hn _
  rw [written, writtenAll_eq_map, kinds_bracketed] at hts
  obtain ⟨first, us, last, hus, hlength, heq⟩ := hts.eq_bracketed
  obtain ⟨m, rfl⟩ : ∃ k, n = k + 1 := ⟨n - 1, by omega⟩
  rw [heq]
  show (grammar (m + 1)).parenthesized line (us ++ ⟨.op .rightParen, line, last⟩ :: rest) = _
  rcases items with _ | ⟨e, _ | ⟨f, items⟩⟩
  · obtain rfl := hus.eq_nil
    simp only [List.nil_append, Grammar.parenthesized, skipOp?_cons]
    rfl
  · have hspell : Spell line us (kinds (e.written ++ [ofOp .comma])) := hus
    rw [kinds_append] at hspell
    obtain ⟨vs, ws, rfl, hvs, hws⟩ := hspell.eq_append
    obtain ⟨column, xs, rfl, hxs⟩ := hws.eq_cons
    obtain rfl := hxs.eq_nil
    rw [List.length_append] at hlength
    have hopen : (⟨.op .comma, line, column⟩ : Token).kind ≠ .op .rightParen := by
      simp
    have hseq : (grammar (m + 1)).sequenceRest (e.onLine line) .rightParen
        (⟨.op .comma, line, column⟩ :: ⟨.op .rightParen, line, last⟩ :: rest) =
        .ok ([e.onLine line], rest) := by
      rw [Grammar.sequenceRest, afterCommas_stop rfl]
      simp only [ok_bind, expectOp_cons]
      rfl
    rw [List.append_assoc]
    exact parenthesized_tuple (h e List.mem_cons_self) hvs (by omega) (endsItem_comma _ _ _)
      hopen hseq
  · have hspell : Spell line us (kinds (listed ((e :: f :: items).map (writtenAt 0)))) := hus
    rw [kinds_listed] at hspell
    obtain ⟨vs, ws, rfl, hvs, hws⟩ := hspell.eq_append
    rw [List.length_append] at hlength
    have hwsLength : ws.length ≤ m := by omega
    obtain ⟨hends, hseq⟩ := sequenceRest_items (fun e he => h e (List.mem_cons_of_mem _ he))
      (show Op.rightParen.closesGroup = true from rfl) hws hwsLength (e.onLine line) last rest
    have hopen : (current (ws ++ ⟨.op .rightParen, line, last⟩ :: rest)).kind ≠
        .op .rightParen := by
      obtain ⟨column, xs, rfl, -⟩ := hws.eq_cons
      simp [current]
    rw [List.append_assoc, parenthesized_tuple (h e List.mem_cons_self) hvs (by omega) hends
      hopen hseq, ← List.map_cons, ← rebuildAll_onLine]
    rfl

/-- The tokens of an entry of a dict display. -/
def entryKinds (entry : Expr × Expr) : List TokenKind :=
  kinds entry.1.written ++ .op .colon :: kinds entry.2.written

theorem spell_entry {entry : Expr × Expr} {us : List Token} (h : Spell line us (entryKinds entry)) :
    ∃ vs column ws, us = vs ++ ⟨.op .colon, line, column⟩ :: ws ∧
      Spell line vs (kinds entry.1.written) ∧ Spell line ws (kinds entry.2.written) := by
  obtain ⟨vs, xs, rfl, hvs, hxs⟩ := h.eq_append
  obtain ⟨column, ws, rfl, hws⟩ := hxs.eq_cons
  exact ⟨vs, column, ws, rfl, hvs, hws⟩

theorem endsItem_colon (line column : Nat) (ts : List Token) :
    EndsItem (⟨.op .colon, line, column⟩ :: ts) := ⟨.colon, rfl, rfl, nofun⟩

theorem dictItem_entry {entry : Expr × Expr} (hkey : Readable line entry.1)
    (hvalue : Readable line entry.2) {m : Nat} {us after : List Token}
    (hus : Spell line us (entryKinds entry)) (hm : us.length ≤ m) (hends : EndsItem after) :
    (grammar (m + 1)).dictItem (us ++ after) =
      .ok (.entry (entry.1.onLine line) (entry.2.onLine line), after) := by
  obtain ⟨vs, column, ws, rfl, hvs, hws⟩ := spell_entry hus
  simp only [List.length_append, List.length_cons] at hm
  have hvsLength : vs.length ≤ m := by omega
  have hwsLength : ws.length ≤ m := by omega
  have hcolon := endsItem_colon line column (ws ++ after)
  have hstar := hkey.starts.kind_ne hvs (⟨.op .colon, line, column⟩ :: (ws ++ after))
    (show startLevel? (.op .doubleStar) = none from rfl)
  rw [List.append_assoc, List.cons_append]
  simp only [Grammar.dictItem, skipOp?_eq_none hstar, hkey.test hvs hvsLength (hcolon.stops 0),
    ok_bind, expectOp_cons, hvalue.test hws hwsLength (hends.stops 0)]
  rfl

theorem braced_entry {entry : Expr × Expr} (hkey : Readable line entry.1)
    (hvalue : Readable line entry.2) {m : Nat} {us after : List Token}
    (hus : Spell line us (entryKinds entry)) (hm : us.length ≤ m) (hends : EndsItem after) :
    (grammar (m + 1)).braced line (us ++ after) =
      (grammar (m + 1)).dictRest line (.entry (entry.1.onLine line) (entry.2.onLine line))
        after := by
  obtain ⟨vs, column, ws, rfl, hvs, hws⟩ := spell_entry hus
  simp only [List.length_append, List.length_cons] at hm
  have hvsLength : vs.length ≤ m := by omega
  have hwsLength : ws.length ≤ m := by omega
  have hcolon := endsItem_colon line column (ws ++ after)
  have hclose := hkey.starts.kind_ne hvs (⟨.op .colon, line, column⟩ :: (ws ++ after))
    (show startLevel? (.op .rightBrace) = none from rfl)
  have hstar := hkey.starts.kind_ne hvs (⟨.op .colon, line, column⟩ :: (ws ++ after))
    (show startLevel? (.op .doubleStar) = none from rfl)
  rw [List.append_assoc, List.cons_append]
  simp only [Grammar.braced, skipOp?_eq_none hclose, skipOp?_eq_none hstar,
    hkey.testOrStar hvs hvsLength (hcolon.stops 0), ok_bind, skipOp?_cons, Grammar.dictAfterKey,
    hvalue.test hws hwsLength (hends.stops 0), hends.not_keyword "for", Bool.false_eq_true,
    if_false]

theorem dictRest_entries {entries : List (Expr × Expr)}
    (hkeys : ∀ entry ∈ entries, Readable line entry.1)
    (hvalues : ∀ entry ∈ entries, Readable line entry.2) {m : Nat} {ts : List Token}
    (hts : Spell line ts (entries.flatMap fun entry => .op .comma :: entryKinds entry))
    (hm : ts.length ≤ m) (first : DictItem) (column : Nat) (rest : List Token) :
    EndsItem (ts ++ ⟨.op .rightBrace, line, column⟩ :: rest) ∧
      (grammar (m + 1)).dictRest line first (ts ++ ⟨.op .rightBrace, line, column⟩ :: rest) =
        .ok (.dict line (first ::
          entries.map fun entry => .entry (entry.1.onLine line) (entry.2.onLine line)), rest) := by
  have hstarts : ∀ entry ∈ entries, Starts 0 (entryKinds entry) := fun entry he =>
    ((hkeys entry he).starts.mono (Nat.zero_le _)).append _
  have hitem : ∀ entry ∈ entries, ∀ us after, Spell line us (entryKinds entry) → us.length ≤ m →
      EndsItem after → (grammar (m + 1)).dictItem (us ++ after) =
        .ok (.entry (entry.1.onLine line) (entry.2.onLine line), after) :=
    fun entry he us after hus hlength hafter =>
      dictItem_entry (hkeys entry he) (hvalues entry he) hus hlength hafter
  obtain ⟨hends, hread⟩ := afterCommas_items
    (show Op.rightBrace.closesGroup = true from rfl) hstarts hitem hts hm column rest
  refine ⟨hends, ?_⟩
  simp only [Grammar.dictRest, hread, ok_bind, expectOp_cons]
  rfl

theorem rebuildItems_entries (entries : List (Expr × Expr)) :
    rebuildItems (fun _ => line) (fun _ n => .name line n)
      (entries.map fun entry => .entry entry.1 entry.2) =
      entries.map fun entry => .entry (entry.1.onLine line) (entry.2.onLine line) := by
  induction entries with
  | nil => rfl
  | cons entry entries ih => rw [List.map_cons, rebuildItems, ih, List.map_cons, onLine]

theorem readable_dict (l : Nat) {entries : List (Expr × Expr)}
    (hkeys : ∀ entry ∈ entries, Readable line entry.1)
    (hvalues : ∀ entry ∈ entries, Readable line entry.2) :
    Readable line (.dict l (entries.map fun entry => .entry entry.1 entry.2)) := by
  refine readable_atom rfl ⟨.op .leftBrace, _, 14, rfl, rfl, Nat.le_refl 14⟩ ?_
  intro n ts rest hts hn _
  rw [written, writtenItems_entries, kinds_bracketed] at hts
  obtain ⟨first, us, last, hus, hlength, heq⟩ := hts.eq_bracketed
  obtain ⟨m, rfl⟩ : ∃ k, n = k + 1 := ⟨n - 1, by omega⟩
  rw [heq]
  show (grammar (m + 1)).braced line (us ++ ⟨.op .rightBrace, line, last⟩ :: rest) = _
  cases entries with
  | nil =>
      obtain rfl := hus.eq_nil
      simp only [List.nil_append, Grammar.braced, skipOp?_cons]
      rfl
  | cons entry entries =>
      have hentry : ∀ entry : Expr × Expr, kinds (entry.1.writtenAt 0 ++ [ofOp .colon, space] ++
          entry.2.writtenAt 0) = entryKinds entry := by
        intro entry
        simp only [entryKinds, writtenAt_zero, kinds_append, List.append_assoc]
        rfl
      rw [kinds_listed] at hus
      simp only [hentry] at hus
      obtain ⟨vs, ws, rfl, hvs, hws⟩ := hus.eq_append
      rw [List.length_append] at hlength
      have hvsLength : vs.length ≤ m := by omega
      have hwsLength : ws.length ≤ m := by omega
      obtain ⟨hends, hrest⟩ := dictRest_entries
        (fun entry he => hkeys entry (List.mem_cons_of_mem _ he))
        (fun entry he => hvalues entry (List.mem_cons_of_mem _ he)) hws hwsLength
        (.entry (entry.1.onLine line) (entry.2.onLine line)) last rest
      rw [List.append_assoc, braced_entry (hkeys entry List.mem_cons_self)
        (hvalues entry List.mem_cons_self) hvs hvsLength hends, hrest, onLine, rebuild,
        rebuildItems_entries]
      rfl

/-! ## Calls -/

theorem atKeywordArgument_eq_false {us after : List Token} {ks : List TokenKind}
    (hus : Spell line us ks) (hne : us ≠ []) (hassign : .op .assign ∉ ks) (hends : EndsItem after) :
    Grammar.atKeywordArgument (us ++ after) = false := by
  have hsecond : ∀ t vs, us ++ after = t :: vs → (current vs).kind ≠ .op .assign := by
    intro t vs heq
    rcases us with _ | ⟨_, _ | ⟨u, us⟩⟩
    · exact absurd rfl hne
    · obtain ⟨-, rfl⟩ := List.cons.inj heq
      obtain ⟨o, hkind, -, ho⟩ := hends
      show (current after).kind ≠ .op .assign
      rw [hkind]
      rintro ⟨⟩
      exact ho rfl
    · obtain ⟨-, rfl⟩ := List.cons.inj heq
      intro hkind
      have hmem := hus.kind_mem (show u ∈ _ :: u :: us by simp)
      exact hassign (hkind ▸ hmem)
  unfold Grammar.atKeywordArgument
  split
  case h_1 heq => exact absurd rfl (hsecond _ _ heq)
  case h_2 => rfl

theorem argument_positional {e : Expr} (h : Readable line e)
    (hassign : .op .assign ∉ kinds e.written) {m : Nat} {us after : List Token}
    (hus : Spell line us (kinds e.written)) (hm : us.length ≤ m) (hends : EndsItem after) :
    (grammar (m + 1)).argument (us ++ after) = .ok (.positional (e.onLine line), after) := by
  have hstar := h.starts.kind_ne hus after (show startLevel? (.op .star) = none from rfl)
  have hdoubleStar := h.starts.kind_ne hus after
    (show startLevel? (.op .doubleStar) = none from rfl)
  have hne : us ≠ [] := by
    rintro rfl
    obtain ⟨k, ks, start, hks, -, -⟩ := h.starts
    rw [hks] at hus
    cases hus
  simp only [Grammar.argument, skipOp?_eq_none hstar, skipOp?_eq_none hdoubleStar,
    atKeywordArgument_eq_false hus hne hassign hends, Bool.false_eq_true, if_false,
    h.test hus hm (hends.stops 0), ok_bind, hends.not_keyword "for"]
  rfl

theorem arguments_positional {arguments : List Expr} (h : ∀ e ∈ arguments, Readable line e)
    (hassign : ∀ e ∈ arguments, .op .assign ∉ kinds e.written) {m : Nat} {us : List Token}
    (hus : Spell line us (kinds (listed (arguments.map (writtenAt 0))))) (hm : us.length ≤ m)
    (last : Nat) (rest : List Token) :
    (grammar (m + 1)).arguments (us ++ ⟨.op .rightParen, line, last⟩ :: rest) =
      .ok (arguments.map fun e => .positional (e.onLine line), rest) := by
  cases arguments with
  | nil =>
      obtain rfl := hus.eq_nil
      simp only [List.nil_append, Grammar.arguments, skipOp?_cons]
      rfl
  | cons e arguments =>
      rw [kinds_listed] at hus
      obtain ⟨vs, ws, rfl, hvs, hws⟩ := hus.eq_append
      rw [List.length_append] at hm
      have hvsLength : vs.length ≤ m := by omega
      have hwsLength : ws.length ≤ m := by omega
      have hstarts : ∀ e ∈ arguments, Starts 0 (kinds e.written) := fun e he =>
        (h e (List.mem_cons_of_mem _ he)).starts.mono (Nat.zero_le _)
      obtain ⟨hends, hmore⟩ := afterCommas_items
        (show Op.rightParen.closesGroup = true from rfl) hstarts
        (fun e he us after hus hlength hafter =>
          argument_positional (h e (List.mem_cons_of_mem _ he))
            (hassign e (List.mem_cons_of_mem _ he)) hus hlength hafter) hws hwsLength last rest
      have he := h e List.mem_cons_self
      have hfirst := argument_positional he (hassign e List.mem_cons_self) hvs hvsLength hends
      have hclose := he.starts.kind_ne hvs (ws ++ ⟨.op .rightParen, line, last⟩ :: rest)
        (show startLevel? (.op .rightParen) = none from rfl)
      rw [List.append_assoc]
      simp only [Grammar.arguments, skipOp?_eq_none hclose, hfirst, ok_bind, hmore, expectOp_cons]
      rfl

theorem applyTrailer_positional (callee : Expr) (arguments : List Expr) :
    Grammar.applyTrailer callee (.call (arguments.map .positional)) =
      .call callee.line callee arguments [] none none := by
  have hpositionals : Grammar.positionals (arguments.map .positional) = arguments := by
    simp [Grammar.positionals, List.filterMap_map]
  have hnamed : Grammar.namedArguments (arguments.map .positional) = [] := by
    simp [Grammar.namedArguments, List.filterMap_map]
  have hsequence : Grammar.lastSequence? (arguments.map .positional) = none := by
    simp [Grammar.lastSequence?, List.filterMap_map]
  have hmapping : Grammar.lastMapping? (arguments.map .positional) = none := by
    simp [Grammar.lastMapping?, List.filterMap_map]
  rw [Grammar.applyTrailer, hpositionals, hnamed, hsequence, hmapping]

theorem onLine_call (l : Nat) (callee : Expr) (arguments : List Expr) :
    (Expr.call l callee arguments [] none none).onLine line =
      .call line (callee.onLine line) (arguments.map (onLine line)) [] none none := by
  rw [← rebuildAll_onLine]
  cases callee <;> rfl

theorem readable_call (l : Nat) {callee : Expr} {arguments : List Expr}
    (hcallee : Readable line callee) (harguments : ∀ e ∈ arguments, Readable line e)
    (hassign : ∀ e ∈ arguments, .op .assign ∉ kinds e.written) :
    Readable line (.call l callee arguments [] none none) := by
  have hkinds : kinds (Expr.call l callee arguments [] none none).written =
      callee.kindsAt 13 ++ (.op .leftParen ::
        (kinds (listed (arguments.map (writtenAt 0))) ++ [.op .rightParen])) := by
    rw [written, kinds_append, kinds_bracketed, writtenAll_eq_map]
    rfl
  have hstarts : Starts 13 (kinds (Expr.call l callee arguments [] none none).written) := by
    rw [hkinds]
    exact (hcallee.startsAt (show 13 ≤ 14 by decide)).append _
  refine readable_of_level rfl hstarts fun n ts rest r hts hn hstops hr => ?_
  rw [hkinds] at hts
  obtain ⟨us, vs, rfl, hus, hvs⟩ := hts.eq_append
  obtain ⟨first, ws, last, hws, hlength, heq⟩ := hvs.eq_bracketed
  rw [List.length_append] at hn
  obtain ⟨m, rfl⟩ : ∃ k, n = k + 1 := ⟨n - 1, by omega⟩
  have hwsLength : ws.length ≤ m := by omega
  have hread := arguments_positional harguments hassign hws hwsLength last rest
  have htrailer : (grammar (m + 1)).trailer
      (⟨.op .leftParen, line, first⟩ :: (ws ++ ⟨.op .rightParen, line, last⟩ :: rest)) =
      .ok (some (.call ((arguments.map (onLine line)).map .positional), rest)) := by
    simp only [Grammar.trailer, current_cons, List.tail_cons, hread, ok_bind, List.map_map]
    rfl
  have hstops' : Stops 14
      (⟨.op .leftParen, line, first⟩ :: (ws ++ ⟨.op .rightParen, line, last⟩ :: rest)) := by
    intro l hl
    cases hl
    decide
  rw [List.append_assoc, heq]
  refine hcallee.readsAt (show 13 ≤ 14 by decide) (m + 1) us _ r hus (by omega) hstops' ?_
  refine Grammar.primaryRest_more htrailer ?_ ?_
  · simp only [List.length_cons, List.length_append]
    omega
  · rw [applyTrailer_positional, line_onLine, ← onLine_call]
    exact hr

end Expr

end DepsManifest
