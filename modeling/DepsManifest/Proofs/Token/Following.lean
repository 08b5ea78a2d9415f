import DepsManifest.Proofs.Token.Lines
import DepsManifest.Proofs.Token.Parse
/-! # Reading within a line

A reader of what stands within a logical line cannot see beyond the end of the line, as no token
that it takes ends one. So where it succeeds it succeeds on the same line with other lines after it,
or with a closing parenthesis there, and leaves the same rest of the line (`Parse.Alike`). The
result may be another only in line numbers, and how is a function of the result. Nothing is said
about readers that fail.

## Putting readers together

Readers that are alike are put together to readers that are alike: in sequence (`Refines.read`), one
after the other as often as one comes next (`Alike.many`), after commas (`Alike.afterCommas`), and
behind an operator or a keyword. So a proof about a production follows its text. Single tokens are
taken by lemmas of the same form: an operator, or a keyword, comes next in both lists or in neither
(`OnLine.skipOp?`, `OnLine.skipKeyword?`).

## The two ends of a line

A closing parenthesis is all that is not alike for both ends of a line (`OnLine.apply_kind`): one
list has it where the other one has the end. Three things follow from that:

  * a reader of a closing parenthesis has a lemma of its own (`OnLine.skipRightParen?`);
  * a reader that needs a token fails at the end of a line (`FailsAtLineEnd`), and what it does
    before a parenthesis is of no interest;
  * a list that stops before a parenthesis goes on at the end of the line instead, but only to fail
    there (`StopsAlike`).
-/
namespace DepsManifest

/-! ## Computations -/

/-- Where a computation has a result, another one has a related result. -/
def Refines {ε α β : Type} (R : α → β → Prop) (x : Except ε α) (y : Except ε β) : Prop :=
  ∀ a, x = .ok a → ∃ b, y = .ok b ∧ R a b

section

variable {ε α β γ δ : Type} {R : α → β → Prop} {S : γ → δ → Prop}

theorem refines_ok {a : α} {b : β} (h : R a b) :
    Refines R (.ok a : Except ε α) (.ok b : Except ε β) := by
  intro a' ha'
  cases ha'
  exact ⟨b, rfl, h⟩

theorem refines_error (e : ε) (y : Except ε β) : Refines R (.error e) y := by
  intro a ha
  cases ha

theorem refines_of_fails {x : Except ε α} (h : ∀ a, x ≠ .ok a) (y : Except ε β) : Refines R x y :=
  fun a ha => absurd ha (h a)

theorem refines_bind_of_fails {x : Except ε α} (h : ∀ a, x ≠ .ok a) (k : α → Except ε γ)
    (y : Except ε δ) : Refines S (x >>= k) y := by
  intro c hc
  obtain ⟨a, ha, -⟩ := bind_eq_ok.mp hc
  exact absurd ha (h a)

theorem Refines.bind {x : Except ε α} {y : Except ε β} {k : α → Except ε γ} {l : β → Except ε δ}
    (h : Refines R x y) (hk : ∀ a b, R a b → Refines S (k a) (l b)) :
    Refines S (x >>= k) (y >>= l) := by
  intro c hc
  obtain ⟨a, ha, hka⟩ := bind_eq_ok.mp hc
  obtain ⟨b, hb, hab⟩ := h a ha
  obtain ⟨d, hd, hcd⟩ := hk a b hab c hka
  exact ⟨d, bind_eq_ok.mpr ⟨b, hb, hd⟩, hcd⟩

end

namespace Parse

open Token

/-! ## Readers -/

section

variable {α β : Type} (lines : Nat → Nat)

/-- Two results are one but for the line numbers, and what is left is the same line. -/
structure ReadAlike (later later' : List Token) (φ : α → β) (r : α × List Token)
    (r' : β × List Token) : Prop where
  value : r'.1 = φ r.1
  rest : OnLine lines later later' r.2 r'.2

/-- Within a line, what one reader reads another reads as well, and to the same place. -/
def Alike (φ : α → β) (p : Parse α) (p' : Parse β) : Prop :=
  ∀ ⦃later later' ts ts' : List Token⦄, OnLine lines later later' ts ts' →
    Refines (ReadAlike lines later later' φ) (p ts) (p' ts')

/-- The same for readers of what need not come next. -/
def AlikeIf (φ : α → β) (p : ParseIf α) (p' : ParseIf β) : Prop :=
  ∀ ⦃later later' ts ts' : List Token⦄, OnLine lines later later' ts ts' →
    Refines (Option.Rel (ReadAlike lines later later' φ)) (p ts) (p' ts')

/-- A reader that reads nothing at the end of a line. -/
def FailsAtLineEnd (p : Parse α) : Prop :=
  ∀ ts, (current ts).kind = .newline → ∀ r, p ts ≠ .ok r

variable {lines} {later later' : List Token} {φ : α → β}

theorem readAlike {a : α} {b : β} {us us' : List Token} (hvalue : b = φ a)
    (hrest : OnLine lines later later' us us') :
    Refines (ReadAlike lines later later' φ) (.ok (a, us) : Except (Located SyntaxFault) _)
      (.ok (b, us')) :=
  refines_ok ⟨hvalue, hrest⟩

end

end Parse

/-- What is read is read alike, and then what comes after it. -/
theorem Refines.read {α β γ δ : Type} {lines : Nat → Nat} {later later' : List Token}
    {φ : α → β} {S : γ → δ → Prop} {x : Except (Located SyntaxFault) (α × List Token)}
    {y : Except (Located SyntaxFault) (β × List Token)}
    {k : α × List Token → Except (Located SyntaxFault) γ}
    {l : β × List Token → Except (Located SyntaxFault) δ}
    (h : Refines (Parse.ReadAlike lines later later' φ) x y)
    (hk : ∀ a us us', Token.OnLine lines later later' us us' →
      Refines S (k (a, us)) (l (φ a, us'))) : Refines S (x >>= k) (y >>= l) := by
  refine h.bind ?_
  rintro ⟨a, us⟩ ⟨b, us'⟩ ⟨hvalue, hrest⟩
  cases hvalue
  exact hk a us us' hrest

/-! ## Single tokens -/

namespace Token.OnLine

open Parse

variable {lines : Nat → Nat} {later later' ts ts' : List Token}

/-- Two lists on a line go on with the same token, or the line ends in both. -/
theorem cases_current (h : OnLine lines later later' ts ts') :
    ((current ts).kind ≠ .newline ∧ (current ts').kind = (current ts).kind ∧
      (current ts').line = lines (current ts).line ∧ OnLine lines later later' ts.tail ts'.tail) ∨
    ((current ts).kind = .newline ∧ ts = later ∧ ts' = later') := by
  cases h with
  | lineEnd hclose => exact .inr ⟨hclose.newline, rfl, rfl⟩
  | token line column column' hnewline hend h => exact .inl ⟨hnewline, rfl, rfl, h⟩

/-- What is the same for the end of a line and for a closing parenthesis is the same in both. -/
theorem apply_kind (h : OnLine lines later later' ts ts') {β : Type} {f : TokenKind → β}
    (hf : f (.op .rightParen) = f .newline) : f (current ts').kind = f (current ts).kind := by
  rcases h.cases_current with ⟨-, hkind, -⟩ | ⟨hkind, rfl, rfl⟩
  · rw [hkind]
  · rcases h.closes.kind with hkind' | hkind'
    · rw [hkind, hkind']
    · rw [hkind, hkind', hf]

theorem kind_current (h : OnLine lines later later' ts ts') {kind : TokenKind}
    (hkind : (current ts).kind = kind) (hne : kind ≠ .newline) : (current ts').kind = kind := by
  rcases h.cases_current with ⟨-, hsame, -⟩ | ⟨hend, -⟩
  · exact hsame.trans hkind
  · exact absurd (hkind.symm.trans hend) hne

theorem line_current (h : OnLine lines later later' ts ts') {kind : TokenKind}
    (hkind : (current ts).kind = kind) (hne : kind ≠ .newline) :
    (current ts').line = lines (current ts).line := by
  rcases h.cases_current with ⟨-, -, hline, -⟩ | ⟨hend, -⟩
  · exact hline
  · exact absurd (hkind.symm.trans hend) hne

theorem tail (h : OnLine lines later later' ts ts') {kind : TokenKind}
    (hkind : (current ts).kind = kind) (hne : kind ≠ .newline) :
    OnLine lines later later' ts.tail ts'.tail := by
  rcases h.cases_current with ⟨-, -, -, htail⟩ | ⟨hend, -⟩
  · exact htail
  · exact absurd (hkind.symm.trans hend) hne

theorem atOp_eq (h : OnLine lines later later' ts ts') (op : Op) (hop : op ≠ .rightParen) :
    atOp op ts' = atOp op ts := by
  refine h.apply_kind (f := (· == .op op)) ?_
  rw [beq_eq_false_iff_ne.mpr fun heq => hop (TokenKind.op.inj heq).symm]
  rfl

theorem atKeyword_eq (h : OnLine lines later later' ts ts') (keyword : String) :
    atKeyword keyword ts' = atKeyword keyword ts :=
  h.apply_kind (f := (· == .name keyword)) rfl

theorem kind_of_atOp {op : Op} (hop : atOp op ts = true) : (current ts).kind = .op op := by
  rwa [atOp, beq_iff_eq] at hop

theorem kind_of_atKeyword {keyword : String} (hkeyword : atKeyword keyword ts = true) :
    (current ts).kind = .name keyword := by
  rwa [atKeyword, beq_iff_eq] at hkeyword

theorem tail_of_atOp (h : OnLine lines later later' ts ts') {op : Op} (hop : atOp op ts = true) :
    OnLine lines later later' ts.tail ts'.tail :=
  h.tail (kind_of_atOp hop) nofun

theorem tail_of_atKeyword (h : OnLine lines later later' ts ts') {keyword : String}
    (hkeyword : atKeyword keyword ts = true) : OnLine lines later later' ts.tail ts'.tail :=
  h.tail (kind_of_atKeyword hkeyword) nofun

theorem skipOp? (h : OnLine lines later later' ts ts') (op : Op) (hop : op ≠ .rightParen) :
    Parse.skipOp? op ts = none ∧ Parse.skipOp? op ts' = none ∨
      ∃ us us', Parse.skipOp? op ts = some us ∧ Parse.skipOp? op ts' = some us' ∧
        (current ts').line = lines (current ts).line ∧ OnLine lines later later' us us' := by
  unfold Parse.skipOp?
  rw [h.atOp_eq op hop]
  split
  · rename_i hat
    exact .inr ⟨_, _, rfl, rfl, h.line_current (kind_of_atOp hat) nofun, h.tail_of_atOp hat⟩
  · exact .inl ⟨rfl, rfl⟩

theorem skipKeyword? (h : OnLine lines later later' ts ts') (keyword : String) :
    Parse.skipKeyword? keyword ts = none ∧ Parse.skipKeyword? keyword ts' = none ∨
      ∃ us us', Parse.skipKeyword? keyword ts = some us ∧
        Parse.skipKeyword? keyword ts' = some us' ∧
        (current ts').line = lines (current ts).line ∧ OnLine lines later later' us us' := by
  unfold Parse.skipKeyword?
  rw [h.atKeyword_eq]
  split
  · rename_i hat
    exact .inr ⟨_, _, rfl, rfl, h.line_current (kind_of_atKeyword hat) nofun,
      h.tail_of_atKeyword hat⟩
  · exact .inl ⟨rfl, rfl⟩

/-- A closing parenthesis comes next in both or in neither, unless the line ends. -/
theorem skipRightParen? (h : OnLine lines later later' ts ts') :
    (Parse.skipOp? .rightParen ts = none ∧ (current ts).kind = .newline) ∨
      (Parse.skipOp? .rightParen ts = none ∧ Parse.skipOp? .rightParen ts' = none) ∨
      ∃ us us', Parse.skipOp? .rightParen ts = some us ∧
        Parse.skipOp? .rightParen ts' = some us' ∧ OnLine lines later later' us us' := by
  rcases h.cases_current with ⟨-, hkind, -, htail⟩ | ⟨hend, -⟩
  · refine .inr ?_
    unfold Parse.skipOp? atOp
    rw [hkind]
    split
    · exact .inr ⟨_, _, rfl, rfl, htail⟩
    · exact .inl ⟨rfl, rfl⟩
  · exact .inl ⟨skipOp?_eq_none (by rw [hend]; exact nofun), hend⟩

theorem expectOp (h : OnLine lines later later' ts ts') (op : Op) :
    Refines (OnLine lines later later') (Parse.expectOp op ts) (Parse.expectOp op ts') := by
  unfold Parse.expectOp
  split
  · rename_i hat
    have hkind := h.kind_current (kind_of_atOp hat) nofun
    rw [atOp, hkind, beq_self_eq_true, if_pos rfl]
    exact refines_ok (h.tail_of_atOp hat)
  · exact refines_error _ _

theorem expectKeyword (h : OnLine lines later later' ts ts') (keyword : String) :
    Refines (OnLine lines later later') (Parse.expectKeyword keyword ts)
      (Parse.expectKeyword keyword ts') := by
  unfold Parse.expectKeyword
  rw [h.atKeyword_eq]
  split
  · rename_i hkeyword
    exact refines_ok (h.tail_of_atKeyword hkeyword)
  · exact refines_error _ _

theorem atLineEnd_eq (h : OnLine lines later later' ts ts')
    (hnl : (current later').kind = .newline) : atLineEnd ts' = atLineEnd ts := by
  rcases h.cases_current with ⟨-, hkind, -⟩ | ⟨hend, rfl, rfl⟩
  · rw [atLineEnd, atLineEnd, hkind]
  · rw [atLineEnd, atLineEnd, hend, hnl]

theorem eq_of_atLineEnd (h : OnLine lines later later' ts ts') (hend : atLineEnd ts = true) :
    ts = later ∧ ts' = later' := by
  cases h with
  | lineEnd hclose => exact ⟨rfl, rfl⟩
  | token line column column' hnewline hkind h =>
      rw [atLineEnd, current_cons, Bool.or_eq_true, beq_iff_eq, beq_iff_eq] at hend
      exact absurd hend (not_or.mpr ⟨hnewline, hkind⟩)

end Token.OnLine

namespace Parse

open Token

variable {lines : Nat → Nat}

theorem FailsAtLineEnd.alike {α β : Type} {φ : α → β} {p : Parse α} {p' : Parse β}
    (hfails : FailsAtLineEnd p)
    (h : ∀ ⦃later later' ts ts'⦄, OnLine lines later later' ts ts' →
      (current ts').line = lines (current ts).line →
      Refines (ReadAlike lines later later' φ) (p ts) (p' ts')) : Alike lines φ p p' := by
  intro later later' ts ts' hts
  rcases hts.cases_current with ⟨-, -, hline, -⟩ | ⟨hend, -⟩
  · exact h hts hline
  · exact refines_of_fails (hfails ts hend) _

theorem alike_name : Alike lines id name name := by
  intro later later' ts ts' h
  unfold name
  split
  · rename_i n hkind
    rw [h.kind_current hkind nofun]
    dsimp only
    split
    · exact refines_error _ _
    · exact readAlike rfl (h.tail hkind nofun)
  · exact refines_error _ _

/-! ## Repetition -/

section

variable {α β : Type} {φ : α → β}

theorem AlikeIf.manyUpTo {next : ParseIf α} {next' : ParseIf β} (h : AlikeIf lines φ next next')
    {n m : Nat} (hle : n ≤ m) :
    Alike lines (List.map φ) (manyUpTo next n) (manyUpTo next' m) := by
  induction n generalizing m with
  | zero =>
      intro later later' ts ts' hts
      exact refines_error _ _
  | succ n ih =>
      intro later later' ts ts' hts
      obtain ⟨m, rfl⟩ : ∃ k, m = k + 1 := ⟨m - 1, by omega⟩
      rw [Parse.manyUpTo, Parse.manyUpTo]
      refine (h hts).bind fun found found' hfound => ?_
      cases hfound with
      | none => exact readAlike rfl hts
      | some hread =>
          rename_i r r'
          obtain ⟨a, us⟩ := r
          obtain ⟨b, us'⟩ := r'
          obtain ⟨hvalue, hus⟩ := hread
          cases hvalue
          refine (ih (Nat.le_of_succ_le_succ hle) hus).read fun more vs vs' hvs => ?_
          exact readAlike rfl hvs

/-- Pieces that are read alike are read alike one after another. -/
theorem AlikeIf.many {next : ParseIf α} {next' : ParseIf β} (h : AlikeIf lines φ next next') :
    Alike lines (List.map φ) (many next) (many next') := by
  intro later later' ts ts' hts
  exact h.manyUpTo (Nat.succ_le_succ hts.length_le) hts

/-- Lists stop alike within a line, unless one goes on where it has no item. -/
def StopsAlike (lines : Nat → Nat) (item : Parse α) (stop stop' : List Token → Bool) : Prop :=
  ∀ ⦃later later' ts ts' : List Token⦄, OnLine lines later later' ts ts' →
    stop' ts' = stop ts ∨ (stop ts = false ∧ ∀ r, item ts ≠ .ok r)

theorem stopsAlike_atOp (item : Parse α) (op : Op) (hop : op ≠ .rightParen) :
    StopsAlike lines item (atOp op) (atOp op) :=
  fun _ _ _ _ hts => .inl (hts.atOp_eq op hop)

theorem FailsAtLineEnd.stopsAlike {item : Parse α} (h : FailsAtLineEnd item) (op : Op) :
    StopsAlike lines item (atOp op) (atOp op) := by
  intro later later' ts ts' hts
  rcases hts.cases_current with ⟨-, hkind, -⟩ | ⟨hend, -⟩
  · refine .inl ?_
    rw [atOp, atOp, hkind]
  · refine .inr ⟨?_, h ts hend⟩
    rw [atOp, hend]
    rfl

theorem Alike.afterCommasUpTo {item : Parse α} {item' : Parse β} (h : Alike lines φ item item')
    {stop stop' : List Token → Bool} (hstop : StopsAlike lines item stop stop') {n m : Nat}
    (hle : n ≤ m) :
    Alike lines (List.map φ) (afterCommasUpTo stop item n) (afterCommasUpTo stop' item' m) := by
  induction n generalizing m with
  | zero =>
      intro later later' ts ts' hts
      exact refines_error _ _
  | succ n ih =>
      intro later later' ts ts' hts
      obtain ⟨m, rfl⟩ : ∃ k, m = k + 1 := ⟨m - 1, by omega⟩
      rw [Parse.afterCommasUpTo, Parse.afterCommasUpTo]
      rcases hts.skipOp? .comma (by decide) with ⟨h1, h2⟩ | ⟨us, us', h1, h2, -, hus⟩
      · rw [h1, h2]
        exact readAlike rfl hts
      · rw [h1, h2]
        dsimp only
        rcases hstop hus with hsame | ⟨hgoesOn, hfails⟩
        · rw [hsame]
          split
          · exact readAlike rfl hus
          · refine (h hus).read fun first vs vs' hvs => ?_
            refine (ih (Nat.le_of_succ_le_succ hle) hvs).read fun more ws ws' hws => ?_
            exact readAlike rfl hws
        · rw [hgoesOn, if_neg Bool.false_ne_true]
          exact refines_bind_of_fails hfails _ _

/-- Items that are read alike are read alike after commas. -/
theorem Alike.afterCommas {item : Parse α} {item' : Parse β} (h : Alike lines φ item item')
    {stop stop' : List Token → Bool} (hstop : StopsAlike lines item stop stop') :
    Alike lines (List.map φ) (afterCommas stop item) (afterCommas stop' item') := by
  intro later later' ts ts' hts
  exact h.afterCommasUpTo hstop (Nat.succ_le_succ hts.length_le) hts

theorem Alike.afterOp {item : Parse α} {item' : Parse β} (h : Alike lines φ item item') (op : Op)
    (hop : op ≠ .rightParen) : AlikeIf lines φ (afterOp op item) (afterOp op item') := by
  intro later later' ts ts' hts
  unfold Parse.afterOp
  rcases hts.skipOp? op hop with ⟨h1, h2⟩ | ⟨us, us', h1, h2, -, hus⟩
  · rw [h1, h2]
    exact refines_ok .none
  · rw [h1, h2]
    refine (h hus).bind fun r r' hread => ?_
    exact refines_ok (.some hread)

theorem Alike.afterKeyword {item : Parse α} {item' : Parse β} (h : Alike lines φ item item')
    (keyword : String) :
    AlikeIf lines φ (afterKeyword keyword item) (afterKeyword keyword item') := by
  intro later later' ts ts' hts
  unfold Parse.afterKeyword
  rcases hts.skipKeyword? keyword with ⟨h1, h2⟩ | ⟨us, us', h1, h2, -, hus⟩
  · rw [h1, h2]
    exact refines_ok .none
  · rw [h1, h2]
    refine (h hus).bind fun r r' hread => ?_
    exact refines_ok (.some hread)

end

end Parse

end DepsManifest
