import DepsManifest.Proofs.Expr.Texts
/-! # The lines of nodes

The line of a node is given by its text (`Expr.HasText`). It is that of the first token of its text,
or of a token before which only opening parentheses stand in its text (`Expr.HasText.begins`); if
the first token is no parenthesis, it is that of the first token (`Expr.HasText.line_eq`). Both
cases occur: `a + b` stands on the line of `a`, and so does `(a) + b`, whose text begins with the
parenthesis.

## All nodes of a source

A text that is read gives a node for the whole of it. That every node inside has a text inside is
`Expr.StandsIn.of_occursIn`, and its proof goes down from a node to its parts:

  * every part of a node is among the parts of its layout (`Expr.Layout.mem_nodes_of_isPartOf`).
    Here is the one case for each kind of node;
  * what is among the parts of a text has a text within it (`Fits.standsIn`).

The tuple of several indices has no text of its own, but it stands in the source all the same, with
the bracket before it (`HasIndexText`).
-/
namespace DepsManifest

open TextPart

/-! ## Where a line begins -/

/-- A line is that of the first token of a text, or of one before which only opening parentheses
stand. -/
def Begins (text : List Token) (line : Nat) : Prop :=
  ∃ parens t rest, text = parens ++ t :: rest ∧ (∀ p ∈ parens, p.kind = .op .leftParen) ∧
    line = t.line

theorem begins_current {text : List Token} (h : text ≠ []) :
    Begins text (Parse.current text).line := by
  obtain ⟨t, rest, rfl⟩ := List.exists_cons_of_ne_nil h
  exact ⟨[], t, rest, rfl, List.forall_mem_nil _, rfl⟩

theorem Begins.append {text : List Token} {line : Nat} (h : Begins text line) (more : List Token) :
    Begins (text ++ more) line := by
  obtain ⟨parens, t, rest, rfl, hparens, hline⟩ := h
  exact ⟨parens, t, rest ++ more, by simp, hparens, hline⟩

theorem Begins.cons {t : Token} {text : List Token} {line : Nat} (h : Begins text line)
    (ht : t.kind = .op .leftParen) : Begins (t :: text) line := by
  obtain ⟨parens, u, rest, rfl, hparens, hline⟩ := h
  exact ⟨t :: parens, u, rest, rfl, List.forall_mem_cons.mpr ⟨ht, hparens⟩, hline⟩

namespace Expr

theorem begins_lineIn {e : Expr} {text : List Token} {parts : List TextPart} (hne : text ≠ [])
    (hfirst : ∀ o more, parts = .operand o :: more → Begins text o.line) :
    Begins text (e.lineIn text parts) := by
  unfold Expr.lineIn
  split
  · exact begins_current hne
  · exact begins_current hne
  · exact hfirst _ _ rfl
  · exact begins_current hne

end Expr

theorem Fits.begins {text : List Token} {parts : List TextPart} (h : Fits text parts) {e : Expr}
    {more : List TextPart} (hparts : parts = .operand e :: more) : Begins text e.line := by
  induction h generalizing e more with
  | nil => cases hparts
  | token => cases hparts
  | @node _ _ _ _ vs hlayout hinner hline _ ih =>
      cases hparts
      rw [hline]
      have hne := hinner.ne_nil hlayout.ne_nil
      exact (Expr.begins_lineIn hne fun o more => ih).append vs
  | parens ht _ _ _ ih =>
      cases hparts
      rw [List.cons_append]
      exact ((ih rfl).append _).cons ht
  | loose => cases hparts
  | bare => cases hparts
  | index => cases hparts
  | indices => cases hparts

/-! ## Nodes in a source -/

namespace Expr

/-- The tokens are a bracket and the text of a tuple of several indices, which stands on the line of
the bracket. -/
def HasIndexText (e : Expr) (text : List Token) : Prop :=
  ∃ t items trailing rest, e = .tuple t.line items ∧ text = t :: rest ∧ t.kind = .op .leftBracket ∧
    items ≠ [] ∧ (items.length = 1 → trailing = true) ∧ Fits rest (operands items trailing)

theorem HasText.begins {e : Expr} {text : List Token} (h : e.HasText text) :
    Begins text e.line := by
  obtain ⟨parts, hlayout, hfits, hline⟩ := h
  rw [hline]
  have hne : parts ≠ [] := hlayout.elim Layout.ne_nil BareLayout.ne_nil
  exact begins_lineIn (hfits.ne_nil hne) fun o more => hfits.begins

/-- A node whose text does not begin with a parenthesis stands on the line of its first token. -/
theorem HasText.line_eq {e : Expr} {text : List Token} (h : e.HasText text)
    (hfirst : (Parse.current text).kind ≠ .op .leftParen) :
    e.line = (Parse.current text).line := by
  obtain ⟨parens, t, rest, rfl, hparens, hline⟩ := h.begins
  cases parens with
  | nil => exact hline
  | cons p parens => exact absurd (hparens p List.mem_cons_self) hfirst

/-- A part of a source is the text of a node, and gives its line. -/
def StandsIn (e : Expr) (source : List Token) : Prop :=
  ∃ text, text <:+: source ∧ (e.HasText text ∧ Begins text e.line ∨ e.HasIndexText text)

theorem StandsIn.mono {e : Expr} {text source : List Token} (h : e.StandsIn text)
    (hwithin : text <:+: source) : e.StandsIn source := by
  obtain ⟨inner, hinner, htext⟩ := h
  exact ⟨inner, hinner.trans hwithin, htext⟩

theorem HasText.standsIn {e : Expr} {text : List Token} (h : e.HasText text) : e.StandsIn text :=
  ⟨text, List.infix_refl text, .inl ⟨h, h.begins⟩⟩

theorem HasIndexText.standsIn {e : Expr} {text : List Token} (h : e.HasIndexText text) :
    e.StandsIn text :=
  ⟨text, List.infix_refl text, .inr h⟩

end Expr

/-! ## Parts of a layout -/

namespace TextPart

def nodes (parts : List TextPart) : List Expr := parts.filterMap node?

theorem mem_nodes {parts : List TextPart} {p : TextPart} {e : Expr} (h : p ∈ parts)
    (hp : p.node? = some e) : e ∈ nodes parts := List.mem_filterMap.mpr ⟨p, h, hp⟩

theorem mem_nodes_cons {p : TextPart} {parts : List TextPart} {e : Expr} :
    e ∈ nodes (p :: parts) ↔ p.node? = some e ∨ e ∈ nodes parts := by
  simp [nodes]

theorem mem_nodes_of_subset {parts more : List TextPart} {e : Expr} (h : e ∈ nodes parts)
    (hsub : parts ⊆ more) : e ∈ nodes more := by
  obtain ⟨p, hp, he⟩ := List.mem_filterMap.mp h
  exact mem_nodes (hsub hp) he

theorem mem_nodes_listed {items : List (List TextPart)} {item : List TextPart} {e : Expr}
    (h : item ∈ items) (he : e ∈ nodes item) (trailing : Bool) :
    e ∈ nodes (listed items trailing) := by
  refine mem_nodes_of_subset he fun p hp => ?_
  cases items with
  | nil => cases h
  | cons first rest =>
      rcases List.mem_cons.mp h with rfl | hrest
      · exact List.mem_append_left _ hp
      · refine List.mem_append_right _ (List.mem_append_left _ (List.mem_flatMap.mpr ?_))
        exact ⟨item, hrest, List.mem_cons_of_mem _ hp⟩

theorem mem_nodes_operands {items : List Expr} {e : Expr} (h : e ∈ items) (trailing : Bool) :
    e ∈ nodes (operands items trailing) :=
  mem_nodes_listed (List.mem_map_of_mem h) (mem_nodes List.mem_cons_self rfl) trailing

theorem mem_nodes_enclosed {inner : List TextPart} {e : Expr} (h : e ∈ nodes inner) (o c : Op) :
    e ∈ nodes (enclosed o inner c) :=
  mem_nodes_of_subset h fun _ hp => List.mem_cons_of_mem _ (List.mem_append_left _ hp)

end TextPart

namespace Expr

open Parse.Grammar

theorem not_isPartOf_of_joinLiterals {line : Nat} {literals : List (LiteralKind × String)}
    {e s : Expr} (h : joinLiterals line literals = .ok e) : ¬ s.IsPartOf e := by
  rintro ⟨f, rfl⟩
  unfold joinLiterals at h
  dsimp only at h
  split at h
  · split at h
    · cases f <;> cases h
    · cases h
  · split at h <;> cases f <;> cases h

theorem mem_nodes_comprehension {line : Nat} {kind : ComprehensionKind} {element s : Expr}
    {value : Option Expr} {clauses : List Clause}
    (h : s.IsPartOf (.comprehension line kind element value clauses)) :
    s ∈ nodes (comprehensionParts element value clauses) := by
  have mem_clauses {c : Clause} (hc : c ∈ clauses) {p : TextPart} (hp : p ∈ c.parts)
      (hs : p.node? = some s) : s ∈ nodes (comprehensionParts element value clauses) :=
    mem_nodes (List.mem_cons_of_mem _
      (List.mem_append_right _ (List.mem_flatMap.mpr ⟨c, hc, hp⟩))) hs
  obtain ⟨f, hf⟩ := h
  cases f <;> cases hf
  case element => exact mem_nodes List.mem_cons_self rfl
  case elementValue => exact mem_nodes (p := .operand s) (by simp [comprehensionParts]) rfl
  case clauseTarget =>
    exact mem_clauses List.mem_append_cons_self (p := .loose s) (by simp [Clause.parts]) rfl
  case clauseIterable =>
    exact mem_clauses List.mem_append_cons_self (p := .operand s) (by simp [Clause.parts]) rfl
  case clauseCondition =>
    exact mem_clauses List.mem_append_cons_self (p := .operand s) (by simp [Clause.parts]) rfl

theorem exists_argument {arguments : List Argument} {callee s : Expr} {line : Nat}
    (h : s.IsPartOf (.call line callee (positionals arguments) (namedArguments arguments)
      (lastSequence? arguments) (lastMapping? arguments))) :
    s = callee ∨ ∃ a ∈ arguments, s ∈ nodes a.parts := by
  generalize hpositionals : positionals arguments = values at h
  generalize hnamed : namedArguments arguments = named at h
  generalize hsequence : lastSequence? arguments = sequence at h
  generalize hmapping : lastMapping? arguments = mapping at h
  obtain ⟨f, hf⟩ := h
  cases f <;> cases hf
  case callee => exact .inl rfl
  case argument =>
    have hmem : s ∈ positionals arguments := hpositionals ▸ List.mem_append_cons_self
    obtain ⟨a, ha, heq⟩ := List.mem_filterMap.mp hmem
    cases a <;> cases heq
    exact .inr ⟨_, ha, List.mem_singleton_self s⟩
  case keywordValue name _ =>
    have hmem : .mk name s ∈ namedArguments arguments := hnamed ▸ List.mem_append_cons_self
    obtain ⟨a, ha, heq⟩ := List.mem_filterMap.mp hmem
    cases a <;> cases heq
    exact .inr ⟨_, ha, List.mem_singleton_self s⟩
  case sequenceValue =>
    obtain ⟨a, ha, heq⟩ := List.mem_filterMap.mp (List.mem_of_getLast? hsequence)
    cases a <;> cases heq
    exact .inr ⟨_, ha, List.mem_singleton_self s⟩
  case mappingValue =>
    obtain ⟨a, ha, heq⟩ := List.mem_filterMap.mp (List.mem_of_getLast? hmapping)
    cases a <;> cases heq
    exact .inr ⟨_, ha, List.mem_singleton_self s⟩

/-- Every part of a node is among the nodes of its layout. -/
theorem Layout.mem_nodes_of_isPartOf {e s : Expr} {parts : List TextPart} (h : e.Layout parts)
    (hs : s.IsPartOf e) : s ∈ nodes parts := by
  cases h with
  | literals _ hjoin => exact absurd hs (not_isPartOf_of_joinLiterals hjoin)
  | call _ callee arguments trailing =>
      rcases exists_argument hs with rfl | ⟨a, ha, hmem⟩
      · exact mem_nodes List.mem_cons_self rfl
      · have hlisted : s ∈ nodes (listed (arguments.map Argument.parts) trailing) :=
          mem_nodes_listed (List.mem_map_of_mem ha) hmem trailing
        exact mem_nodes_of_subset (mem_nodes_enclosed hlisted .leftParen .rightParen)
          (List.subset_cons_self _ _)
  | comprehension => exact mem_nodes_enclosed (mem_nodes_comprehension hs) _ _
  | dict _ items trailing =>
      have mem_items {item : DictItem} (hitem : item ∈ items) (hs : s ∈ nodes item.parts) :
          s ∈ nodes
            (enclosed .leftBrace (listed (items.map DictItem.parts) trailing) .rightBrace) :=
        mem_nodes_enclosed (mem_nodes_listed (List.mem_map_of_mem hitem) hs trailing) _ _
      obtain ⟨f, hf⟩ := hs
      cases f <;> cases hf
      all_goals
        refine mem_items List.mem_append_cons_self (mem_nodes (p := .operand s) ?_ rfl)
        simp [DictItem.parts]
  | tuple | list | set =>
      obtain ⟨f, hf⟩ := hs
      cases f <;> cases hf
      exact mem_nodes_enclosed (mem_nodes_operands List.mem_append_cons_self _) _ _
  | boolean _ _ first rest =>
      have hmem : s ∈ first :: rest := by
        generalize hoperands : first :: rest = operands at hs
        obtain ⟨f, hf⟩ := hs
        cases f <;> cases hf
        exact List.mem_append_cons_self
      refine mem_nodes (p := .operand s) ?_ rfl
      rcases List.mem_cons.mp hmem with rfl | hrest
      · exact List.mem_cons_self
      · refine List.mem_cons_of_mem _ (List.mem_flatMap.mpr ⟨s, hrest, ?_⟩)
        exact List.mem_cons_of_mem _ List.mem_cons_self
  | subscript =>
      obtain ⟨f, hf⟩ := hs
      cases f <;> cases hf
      · exact mem_nodes List.mem_cons_self rfl
      · exact mem_nodes (List.mem_cons_of_mem _ List.mem_cons_self) rfl
  | _ =>
      obtain ⟨f, hf⟩ := hs
      cases f <;> cases hf
      all_goals exact mem_nodes (p := .operand s) (by simp) rfl

theorem BareLayout.mem_nodes_of_isPartOf {e s : Expr} {parts : List TextPart}
    (h : e.BareLayout parts) (hs : s.IsPartOf e) : s ∈ nodes parts := by
  cases h with
  | generator => exact mem_nodes_comprehension hs
  | tuple =>
      obtain ⟨f, hf⟩ := hs
      cases f <;> cases hf
      exact mem_nodes_operands List.mem_append_cons_self _

end Expr

/-! ## From a node to its parts -/

theorem infix_between (t : Token) (us : List Token) (u : Token) (vs : List Token) :
    us <:+: t :: us ++ u :: vs := List.infix_append [t] us (u :: vs)

theorem infix_after (t : Token) (us : List Token) (u : Token) (vs : List Token) :
    vs <:+: t :: us ++ u :: vs :=
  ((List.suffix_cons u vs).trans (List.suffix_append (t :: us) (u :: vs))).isInfix

theorem Fits.standsIn {text : List Token} {parts : List TextPart} (h : Fits text parts) {e : Expr}
    (he : e ∈ nodes parts) : e.StandsIn text := by
  induction h with
  | nil => cases he
  | @token t us _ _ ih => exact (ih he).mono (List.suffix_cons t us).isInfix
  | @node _ inner _ us vs hlayout hinner hline _ _ ih =>
      rcases mem_nodes_cons.mp he with hfirst | he
      · cases hfirst
        have htext : e.HasText us := ⟨inner, .inl hlayout, hinner, hline⟩
        exact htext.standsIn.mono (List.prefix_append us vs).isInfix
      · exact (ih he).mono (List.suffix_append us vs).isInfix
  | loose _ ih => exact ih he
  | @bare _ inner _ us vs hlayout hinner hline _ _ ih =>
      rcases mem_nodes_cons.mp he with hfirst | he
      · cases hfirst
        have htext : e.HasText us := ⟨inner, .inr hlayout, hinner, hline⟩
        exact htext.standsIn.mono (List.prefix_append us vs).isInfix
      · exact (ih he).mono (List.suffix_append us vs).isInfix
  | @parens t u _ _ us vs _ _ _ _ ihinner ih =>
      rcases mem_nodes_cons.mp he with hfirst | he
      · exact (ihinner (mem_nodes_cons.mpr (.inl hfirst))).mono (infix_between t us u vs)
      · exact (ih he).mono (infix_after t us u vs)
  | @index t u _ _ us vs _ _ _ _ ihinner ih =>
      rcases mem_nodes_cons.mp he with hfirst | he
      · exact (ihinner (mem_nodes_cons.mpr (.inl hfirst))).mono (infix_between t us u vs)
      · exact (ih he).mono (infix_after t us u vs)
  | @indices t u items trailing _ us vs ht _ hne htrailing hitems _ _ ih =>
      rcases mem_nodes_cons.mp he with hfirst | he
      · cases hfirst
        have htext : Expr.HasIndexText _ (t :: us) :=
          ⟨t, items, trailing, us, rfl, rfl, ht, hne, htrailing, hitems⟩
        exact htext.standsIn.mono (List.prefix_append (t :: us) (u :: vs)).isInfix
      · exact (ih he).mono (infix_after t us u vs)

namespace Expr

theorem StandsIn.of_isPartOf {e s : Expr} {source : List Token} (h : e.StandsIn source)
    (hs : s.IsPartOf e) : s.StandsIn source := by
  obtain ⟨text, hwithin, htext⟩ := h
  refine StandsIn.mono ?_ hwithin
  rcases htext with ⟨⟨parts, hlayout, hfits, -⟩, -⟩ |
    ⟨t, items, trailing, rest, rfl, rfl, -, -, -, hfits⟩
  · rcases hlayout with hlayout | hlayout
    · exact hfits.standsIn (hlayout.mem_nodes_of_isPartOf hs)
    · exact hfits.standsIn (hlayout.mem_nodes_of_isPartOf hs)
  · obtain ⟨f, hf⟩ := hs
    cases f <;> cases hf
    have hstands := hfits.standsIn (mem_nodes_operands List.mem_append_cons_self trailing)
    exact hstands.mono (List.suffix_cons t rest).isInfix

/-- What occurs in a node of a source stands in the source as well. -/
theorem StandsIn.of_occursIn {e s : Expr} {source : List Token} (h : e.StandsIn source)
    (hs : s.OccursIn e) : s.StandsIn source := by
  obtain ⟨c, rfl⟩ := hs
  induction c with
  | nil => exact h
  | cons f c ih => exact ih (h.of_isPartOf ⟨f, rfl⟩)

end Expr

end DepsManifest
