import DepsManifest.Proofs.Evaluation.Extension
import DepsManifest.Proofs.Evaluation.Module
import DepsManifest.Proofs.Statement.Following
/-! # Manifests one after the other

What does a text mean after another one? `Module.text_append_newline` says it for any two texts with
a line break between them:

  * **reading** — if both are modules, the whole is the statements of the first and then those of
    the second, further down by the lines of the first. The exception is a first text that ends with
    a statement that has a block, since an indented beginning of the second would belong to that
    block;
  * **executing** — if both can be executed and share no name, the whole defines what both define,
    the second further down;
  * **sharing a name** — if they share one, the whole is a fault: the first statement of the second
    text for a name of the first is a duplicate, at its line in the whole.

## The way of the proof

The statements of the second text are moved (`Statement.moved`), and a moved statement binds what it
bound, but for the line that is recorded (`Binds.moved`, `execute_moved`). So the second text after
the first is executed as it is on its own, with what it binds put beside what is bound already,
statement by statement: to the end if no name is shared (`executeFrom_apart`), and otherwise up to
the first name that is bound already (`executeFrom_duplicate`).

The second and third part need no condition on blocks: a text that can be executed has no statement
with a block (`hasBlock_eq_false`). The functions are the same for both texts; what a manifest sets
in its own variables is not looked at here.
-/
namespace DepsManifest

/-- A binding whose line is replaced. -/
def Binding.moved (lines : Nat → Nat) (b : Binding) : Binding := ⟨b.value, b.line.map lines⟩

namespace Scope

def moved (lines : Nat → Nat) (s : Scope) : Scope := ⟨s.bindings.map (Binding.moved lines)⟩

def union (s other : Scope) : Scope := ⟨s.bindings.union other.bindings⟩

variable {lines : Nat → Nat} (s other : Scope)

theorem contains_union (name : String) :
    (s.union other).contains name = (other.contains name || s.contains name) := by
  rw [contains, NameMap.contains, union, NameMap.get?_union, Option.isSome_or]
  rfl

theorem contains_moved (name : String) : (s.moved lines).contains name = s.contains name := by
  rw [contains, NameMap.contains, moved, NameMap.get?_map, Option.isSome_map]
  rfl

theorem union_insert_moved (name : String) (b : Binding) :
    s.union (moved lines ⟨other.bindings.insert name b⟩) =
      ⟨(s.union (other.moved lines)).bindings.insert name (b.moved lines)⟩ := by
  refine congrArg Scope.mk (NameMap.ext_get? fun n => ?_)
  simp only [moved, union, NameMap.get?_insert, NameMap.get?_union, NameMap.get?_map]
  split <;> rfl

theorem get?_eq_none_iff_contains {s : Scope} {name : String} :
    s.get? name = none ↔ s.contains name = false := by
  rw [Module.get?_eq_none_iff, contains, NameMap.contains, Option.isSome_eq_false_iff,
    Option.isNone_iff_eq_none]

end Scope

/-! ## Single statements further down -/

namespace Statement

variable {fs : Functions} {lines : Nat → Nat} {s : Statement}

@[simp] theorem line_moved : (s.moved lines).line = lines s.line := by
  cases s <;> rfl

theorem assignment_moved {name : String} {e : Expr} (h : s.assignment = .ok (name, e)) :
    (s.moved lines).assignment = .ok (name, e.moved lines) := by
  unfold assignment at h
  split at h
  · cases h
    rfl
  · cases h
  · cases h
  · cases h

theorem hasBlock_of_assignment {name : String} {e : Expr} (h : s.assignment = .ok (name, e)) :
    s.hasBlock = false := by
  cases s with
  | compound line keyword => cases h
  | _ => rfl

/-- A statement binds the same name to the same value on other lines. -/
theorem Binds.moved {name : String} {b : Binding} (h : s.Binds fs (name, b)) :
    (s.moved lines).Binds fs (name, b.moved lines) := by
  obtain ⟨e, v, hassign, hv, hb⟩ := h
  dsimp only at hassign hv hb
  subst hb
  refine ⟨e.moved lines, v, assignment_moved hassign, ?_, ?_⟩
  · exact Expr.evaluate_moved (.refl fs) (.inl rfl) hv
  · rw [line_moved]
    rfl

theorem Binds.execute_eq_duplicate {name : String} {b : Binding} (h : s.Binds fs (name, b))
    {scope : Scope} (hbound : scope.contains name = true) :
    s.execute fs scope = .error ⟨s.line, .duplicate name⟩ := by
  obtain ⟨e, v, hassign, hv, -⟩ := h
  obtain ⟨bound, hbound⟩ := Option.isSome_iff_exists.mp hbound
  have hget : scope.get? name = some bound.value := by
    rw [Scope.get?, hbound]
    rfl
  dsimp only at hassign hv
  simp only [execute, hassign, hv, Scope.bind, hget]

/-- A statement that can be executed can be executed on other lines and where other names are bound.
-/
theorem execute_moved {scope scope' other : Scope} (h : s.execute fs scope = .ok scope')
    (hnew : ∀ name, s.target? = some name → other.contains name = false) :
    (s.moved lines).execute fs (other.union (scope.moved lines)) =
      .ok (other.union (scope'.moved lines)) := by
  obtain ⟨⟨name, b⟩, hbinds, hfree, rfl⟩ := execute_eq_ok_iff.mp h
  refine execute_eq_ok_iff.mpr ⟨(name, b.moved lines), hbinds.moved, ?_, ?_⟩
  · rw [Scope.get?_eq_none_iff_contains, Scope.contains_union, Scope.contains_moved,
      hnew name hbinds.target?_eq, Scope.get?_eq_none_iff_contains.mp hfree]
    rfl
  · exact other.union_insert_moved scope name b

end Statement

/-! ## Statements after others -/

namespace Module

variable {fs : Functions} {lines : Nat → Nat}

theorem executeFrom_append (scope : Scope) (before after : List Statement) :
    executeFrom fs scope (before ++ after) =
      executeFrom fs scope before >>= fun scope => executeFrom fs scope after := by
  induction before generalizing scope with
  | nil => rfl
  | cons s before ih =>
      rw [List.cons_append, executeFrom, executeFrom]
      cases s.execute fs scope with
      | error fault => rfl
      | ok scope' => exact ih scope'

/-- Statements that can be executed can be executed on other lines and where other names are bound.
-/
theorem executeFrom_moved {statements : List Statement} {scope scope' other : Scope}
    (h : executeFrom fs scope statements = .ok scope')
    (hnew : ∀ s ∈ statements, ∀ name, s.target? = some name → other.contains name = false) :
    executeFrom fs (other.union (scope.moved lines)) (statements.map (Statement.moved lines)) =
      .ok (other.union (scope'.moved lines)) := by
  induction statements generalizing scope with
  | nil =>
      cases h
      rfl
  | cons s statements ih =>
      obtain ⟨hfirst, hrest⟩ := List.forall_mem_cons.mp hnew
      obtain ⟨next, hs, hstatements⟩ := bind_eq_ok.mp h
      exact bind_eq_ok.mpr ⟨_, Statement.execute_moved hs hfirst, ih hstatements hrest⟩

variable {m : Module} {scope other : Scope}

theorem executeFrom_apart (h : m.execute fs = .ok scope)
    (hapart : ∀ name, other.contains name = true → scope.contains name = false) :
    executeFrom fs other (m.body.map (Statement.moved lines)) =
      .ok (other.union (scope.moved lines)) := by
  refine executeFrom_moved h fun s hs name htarget => ?_
  obtain ⟨b, -, hget⟩ := exists_get?_of_target? h hs htarget
  rw [Bool.eq_false_iff]
  intro hbound
  have hfree := hapart name hbound
  rw [Scope.contains, NameMap.contains, hget] at hfree
  cases hfree

theorem exists_find?_of_contains (h : m.execute fs = .ok scope) {name : String}
    (hother : other.contains name = true) (hscope : scope.contains name = true) :
    ∃ s shared, (m.body.find? fun s => s.target?.any other.contains) = some s ∧
      s.target? = some shared := by
  obtain ⟨b, hb⟩ := Option.isSome_iff_exists.mp hscope
  obtain ⟨u, hu, hbinds⟩ := exists_binds h hb
  have hsome : (m.body.find? fun s => s.target?.any other.contains).isSome := by
    refine List.find?_isSome.mpr ⟨u, hu, ?_⟩
    rw [hbinds.target?_eq]
    exact hother
  obtain ⟨s, hfind⟩ := Option.isSome_iff_exists.mp hsome
  obtain ⟨entry, hentry, -⟩ := exists_get?_of_mem h (List.mem_of_find?_eq_some hfind)
  exact ⟨s, entry.1, hfind, hentry.target?_eq⟩

/-- Where a module shares a name with the statements before it, it is executed up to its first
statement for a name of theirs. -/
theorem executeFrom_duplicate (h : m.execute fs = .ok scope) {s : Statement} {name : String}
    (htarget : s.target? = some name)
    (hfind : (m.body.find? fun s => s.target?.any other.contains) = some s) :
    executeFrom fs other (m.body.map (Statement.moved lines)) =
      .error ⟨lines s.line, .duplicate name⟩ := by
  obtain ⟨hbound, before, after, hbody, hbefore⟩ := List.find?_eq_some_iff_append.mp hfind
  obtain ⟨b, hbinds, -⟩ := exists_get?_of_target? h (List.mem_of_find?_eq_some hfind) htarget
  rw [htarget] at hbound
  rw [execute, hbody, executeFrom_append] at h
  obtain ⟨scope', hscope', -⟩ := bind_eq_ok.mp h
  have hnew : ∀ s ∈ before, ∀ name, s.target? = some name → other.contains name = false := by
    intro s hs name htarget
    have hnot := hbefore s hs
    rw [htarget] at hnot
    simpa using hnot
  have hfirst : executeFrom fs other (before.map (Statement.moved lines)) =
      .ok (other.union (scope'.moved lines)) := executeFrom_moved hscope' hnew
  have hstill : (other.union (scope'.moved lines)).contains name = true := by
    rw [Scope.contains_union]
    exact Bool.or_eq_true_iff.mpr (.inr hbound)
  rw [hbody, List.map_append, executeFrom_append, hfirst, ok_bind, List.map_cons, executeFrom,
    hbinds.moved.execute_eq_duplicate hstill, Statement.line_moved]
  rfl

/-! ## Texts after others -/

theorem executeText_eq_ok_iff {text : String} {scope : Scope} :
    executeText fs text = .ok scope ↔ ∃ m, ofText text = .ok m ∧ m.execute fs = .ok scope := by
  unfold executeText
  cases ofText text with
  | error fault => exact ⟨nofun, nofun⟩
  | ok m =>
      constructor
      · intro h
        exact ⟨m, rfl, h⟩
      · rintro ⟨m', hm', h⟩
        cases hm'
        exact h

theorem hasBlock_eq_false (h : m.execute fs = .ok scope) {s : Statement} (hs : s ∈ m.body) :
    s.hasBlock = false := by
  obtain ⟨entry, ⟨e, v, hassign, -⟩, -⟩ := exists_get?_of_mem h hs
  exact Statement.hasBlock_of_assignment hassign

theorem executeText_append {s s' : String} (h : executeText fs s = .ok scope)
    (hm : ofText s' = .ok m) : executeText fs (s ++ "\n" ++ s') =
      executeFrom fs scope (m.body.map (Statement.moved (· + (s.toList.count '\n' + 1)))) := by
  obtain ⟨first, hfirst, hexecute⟩ := executeText_eq_ok_iff.mp h
  have hblock : ∀ t ∈ first.body.getLast?, t.hasBlock = false := by
    intro t ht
    exact hasBlock_eq_false hexecute (List.mem_of_getLast? ht)
  rw [execute] at hexecute
  rw [executeText, ofText_append_newline hfirst hm (.inl hblock)]
  dsimp only
  rw [execute, executeFrom_append, hexecute, ok_bind]

/-- A text that follows another after a line break is read as its own statements after those of the
other, further down, unless the first of them could go on with a block. If both texts can be
executed, then together they define what both define, with the lines of the second further down, as
long as they share no name; and otherwise the first statement of the second for a name of the first
is a duplicate. -/
theorem text_append_newline (s s' : String) :
    (∀ m m', ofText s = .ok m → ofText s' = .ok m' →
      ((∀ t ∈ m.body.getLast?, t.hasBlock = false) ∨
        ∃ ts, Token.ofText s' = .ok ts ∧ (Parse.current ts).column = 0) →
      ofText (s ++ "\n" ++ s') =
        .ok ⟨m.body ++ m'.body.map (Statement.moved (· + (s.toList.count '\n' + 1)))⟩) ∧
    ∀ fs scope scope', executeText fs s = .ok scope → executeText fs s' = .ok scope' →
      ((∀ name, scope.contains name = true → scope'.contains name = false) →
        executeText fs (s ++ "\n" ++ s') =
          .ok (scope.union (scope'.moved (· + (s.toList.count '\n' + 1))))) ∧
      ∀ name, scope.contains name = true → scope'.contains name = true →
        ∃ m' t shared, ofText s' = .ok m' ∧
          (m'.body.find? fun t => t.target?.any scope.contains) = some t ∧
          t.target? = some shared ∧
          executeText fs (s ++ "\n" ++ s') =
            .error ⟨t.line + (s.toList.count '\n' + 1), .duplicate shared⟩ := by
  refine ⟨fun m m' h h' hlast => ofText_append_newline h h' hlast, fun fs scope scope' h h' => ?_⟩
  obtain ⟨m', hm', hexecute'⟩ := executeText_eq_ok_iff.mp h'
  rw [executeText_append h hm']
  refine ⟨executeFrom_apart hexecute', fun name hname hname' => ?_⟩
  obtain ⟨t, shared, hfind, htarget⟩ := exists_find?_of_contains hexecute' hname hname'
  exact ⟨m', t, shared, hm', hfind, htarget, executeFrom_duplicate hexecute' htarget hfind⟩

/-- Two assignments one after the other, and again after the second of them. -/
theorem text_append_newline_repeated :
    executeText .strOnly ("a='x'" ++ "\n" ++ "b='y'") =
      .ok ⟨⟨[("a", ⟨.str "x", some 1⟩), ("b", ⟨.str "y", some 2⟩)], by decide⟩⟩ ∧
    executeText .strOnly ("b='y'" ++ "\n" ++ ("a='x'" ++ "\n" ++ "b='y'")) =
      .error ⟨3, .duplicate "b"⟩ := by
  have hfirst : ofText "a='x'" = .ok ⟨[.assign 1 [.name 1 "a"] (.str 1 "x")]⟩ := by
    have htokens : Token.ofText "a='x'" = .ok [⟨.name "a", 1, 0⟩, ⟨.op .assign, 1, 1⟩,
      ⟨.literal .text "x", 1, 2⟩, ⟨.newline, 1, 0⟩, ⟨.endOfText, 1, 0⟩] := by decide +kernel
    rw [ofText, htokens]
    rfl
  have hsecond : ofText "b='y'" = .ok ⟨[.assign 1 [.name 1 "b"] (.str 1 "y")]⟩ := by
    have htokens : Token.ofText "b='y'" = .ok [⟨.name "b", 1, 0⟩, ⟨.op .assign, 1, 1⟩,
      ⟨.literal .text "y", 1, 2⟩, ⟨.newline, 1, 0⟩, ⟨.endOfText, 1, 0⟩] := by decide +kernel
    rw [ofText, htokens]
    rfl
  have hx : executeText .strOnly "a='x'" = .ok ⟨⟨[("a", ⟨.str "x", some 1⟩)], by decide⟩⟩ := by
    rw [executeText, hfirst]
    rfl
  have hy : executeText .strOnly "b='y'" = .ok ⟨⟨[("b", ⟨.str "y", some 1⟩)], by decide⟩⟩ := by
    rw [executeText, hsecond]
    rfl
  have hapart : ∀ name, (⟨⟨[("a", ⟨.str "x", some 1⟩)], by decide⟩⟩ : Scope).contains name = true →
      (⟨⟨[("b", ⟨.str "y", some 1⟩)], by decide⟩⟩ : Scope).contains name = false := by
    intro name hname
    by_cases ha : name = "a"
    · subst ha
      rfl
    · rw [Scope.contains, NameMap.contains, NameMap.get?, NameMap.lookup_cons, if_neg ha] at hname
      cases hname
  have hmodule := (text_append_newline "a='x'" "b='y'").1 _ _ hfirst hsecond
    (.inl fun t ht => by cases ht; rfl)
  have hboth : executeText .strOnly ("a='x'" ++ "\n" ++ "b='y'") =
      .ok ⟨⟨[("a", ⟨.str "x", some 1⟩), ("b", ⟨.str "y", some 2⟩)], by decide⟩⟩ :=
    ((text_append_newline "a='x'" "b='y'").2 _ _ _ hx hy).1 hapart
  refine ⟨hboth, ?_⟩
  obtain ⟨m, t, shared, hm, hfind, htarget, herror⟩ :=
    ((text_append_newline "b='y'" ("a='x'" ++ "\n" ++ "b='y'")).2 _ _ _ hy hboth).2 "b" rfl rfl
  rw [hmodule] at hm
  cases hm
  cases hfind
  cases htarget
  exact herror

end Module

end DepsManifest
