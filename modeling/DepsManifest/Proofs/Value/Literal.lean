import DepsManifest.Evaluation.Expr
import DepsManifest.Proofs.Evaluation.Environment
import DepsManifest.Proofs.Expr.RoundTrip
import DepsManifest.Value.Literal
/-! # The printed form of a value denotes the value

A value without whole numbers is what its printed form denotes, wherever the form is evaluated
(`valueOfText_repr`). Between the two stands the display of the value (`Value.display`), an
expression of literals, constants, tuples, lists and dict displays:

    Denotable.literal_eq    the printed form is what is written for the display
    Denotable.writable      the display has a written form, so its text is read back
    Denotable.evaluate      its value is the value, in every environment

A dict keeps an entry for each of its keys. So the keys have to be distinct, and since a key with a
list or a dict inside is no key of a display, they have to be without those (`Value.Flat`).
-/
namespace DepsManifest

namespace Value

/-! ## Keys -/

/-- The values without lists and dicts. -/
inductive Flat : Value → Prop
  | null : Flat .null
  | bool (b : Bool) : Flat (.bool b)
  | int (i : Int64) : Flat (.int i)
  | str (s : String) : Flat (.str s)
  | tuple {items : List Value} : (∀ v ∈ items, Flat v) → Flat (.tuple items)

theorem firstUnhashable?_eq_none {items : List Value} (h : ∀ v ∈ items, v.unhashable? = none) :
    firstUnhashable? items = none := by
  induction items with
  | nil => rfl
  | cons v items ih =>
      rw [firstUnhashable?, h v List.mem_cons_self,
        ih fun w hw => h w (List.mem_cons_of_mem v hw)]
      rfl

theorem Flat.unhashable?_eq_none {v : Value} (h : Flat v) : v.unhashable? = none := by
  induction h with
  | tuple _ ih => exact firstUnhashable?_eq_none ih
  | _ => rfl

theorem eq_of_eqvAll {xs : List Value} (h : ∀ x ∈ xs, ∀ y, eqv x y = true → x = y) :
    ∀ {ys : List Value}, eqvAll xs ys = true → xs = ys := by
  induction xs with
  | nil =>
      intro ys hys
      cases ys with
      | nil => rfl
      | cons y ys => simp [eqvAll] at hys
  | cons x xs ih =>
      intro ys hys
      cases ys with
      | nil => simp [eqvAll] at hys
      | cons y ys =>
          rw [eqvAll, Bool.and_eq_true] at hys
          rw [h x List.mem_cons_self y hys.1,
            ih (fun x' hx' => h x' (List.mem_cons_of_mem x hx')) hys.2]

/-- Without dicts inside, values are equal only to themselves. -/
theorem Flat.eq_of_eqv {v : Value} (h : Flat v) {w : Value} (heqv : eqv v w = true) : v = w := by
  induction h generalizing w with
  | null => cases w <;> simp_all [eqv]
  | bool b => cases w <;> simp_all [eqv]
  | int i => cases w <;> simp_all [eqv]
  | str s => cases w <;> simp_all [eqv]
  | tuple _ ih =>
      cases w with
      | tuple ys =>
          rw [eqv] at heqv
          rw [eq_of_eqvAll (fun x hx y => ih x hx) heqv]
      | _ => simp [eqv] at heqv

/-- A new key goes to the end of the entries. -/
theorem insertEntry_of_forall_ne {key : Value} {entries : List (Value × Value)}
    (h : ∀ e ∈ entries, (e.1 == key) = false) (value : Value) :
    Dict.insertEntry key value entries = entries ++ [(key, value)] := by
  induction entries with
  | nil => rfl
  | cons e entries ih =>
      rw [Dict.insertEntry, h e List.mem_cons_self, if_neg (by decide),
        ih fun e he => h e (List.mem_cons_of_mem _ he)]
      rfl

/-! ## Displays of values -/

/-- The values that have a display: those without whole numbers whose dicts have distinct keys
without lists and dicts. -/
inductive Denotable : Value → Prop
  | null : Denotable .null
  | bool (b : Bool) : Denotable (.bool b)
  | str (s : String) : Denotable (.str s)
  | list {items : List Value} : (∀ v ∈ items, Denotable v) → Denotable (.list items)
  | tuple {items : List Value} : (∀ v ∈ items, Denotable v) → Denotable (.tuple items)
  | dict {entries : List (Value × Value)} : (∀ e ∈ entries, Denotable e.1) →
      (∀ e ∈ entries, Denotable e.2) → (∀ e ∈ entries, Flat e.1) →
      (entries.map (·.1)).Nodup → Denotable (.dict entries)

mutual

/-- The expression that a value is printed as. A whole number is printed as one, too. -/
def display : Value → Expr
  | .null => .name 1 "None"
  | .bool true => .name 1 "True"
  | .bool false => .name 1 "False"
  | .int i => .number 1 (String.ofList (Text.signedDecimal i.toInt))
  | .str s => .str 1 s
  | .list items => .list 1 (displayAll items)
  | .tuple items => .tuple 1 (displayAll items)
  | .dict entries => .dict 1 ((displayEntries entries).map fun e => .entry e.1 e.2)

/-- The expressions that some values are printed as. -/
def displayAll : List Value → List Expr
  | [] => []
  | v :: rest => display v :: displayAll rest

/-- The expressions that the keys and the values of some entries are printed as. -/
def displayEntries : List (Value × Value) → List (Expr × Expr)
  | [] => []
  | (k, v) :: rest => (display k, display v) :: displayEntries rest

end

theorem displayAll_eq_map (items : List Value) : displayAll items = items.map display := by
  induction items with
  | nil => rfl
  | cons v items ih => rw [displayAll, ih, List.map_cons]

theorem displayEntries_eq_map (entries : List (Value × Value)) :
    displayEntries entries = entries.map fun e => (display e.1, display e.2) := by
  induction entries with
  | nil => rfl
  | cons e entries ih => rw [displayEntries, ih, List.map_cons]

theorem isIdentifier_constant {n : String} (h : n ∈ Environment.constantNames) :
    IsIdentifier n := by
  have hidentifier : ∀ n ∈ Environment.constantNames,
      Lexeme.isWord n = true ∧ n ∉ Parse.keywords := by decide
  exact ⟨(hidentifier n h).1, (hidentifier n h).2⟩

/-- The display of a value has a written form. -/
theorem Denotable.writable {v : Value} (h : Denotable v) : v.display.Writable := by
  induction h with
  | null => exact .name 1 (isIdentifier_constant (by decide))
  | bool b =>
      cases b with
      | false => exact .name 1 (isIdentifier_constant (by decide))
      | true => exact .name 1 (isIdentifier_constant (by decide))
  | str s => exact .str 1 s
  | list _ ih =>
      rw [display, displayAll_eq_map]
      exact .list 1 (List.forall_mem_map.mpr ih)
  | tuple _ ih =>
      rw [display, displayAll_eq_map]
      exact .tuple 1 (List.forall_mem_map.mpr ih)
  | dict _ _ _ _ ih₁ ih₂ =>
      rw [display, displayEntries_eq_map]
      exact .dict 1 (List.forall_mem_map.mpr ih₁) (List.forall_mem_map.mpr ih₂)

/-! ## The printed form is the display's -/

open Lexeme DepsManifest.Expr

theorem literalItems_cons (item : Value) (rest : List Value) :
    literalItems (item :: rest) =
      item.literal ++ rest.flatMap fun v => [',', ' '] ++ v.literal := by
  induction rest generalizing item with
  | nil => rw [literalItems, List.flatMap_nil, List.append_nil]
  | cons next rest ih =>
      rw [literalItems, ih, List.flatMap_cons]
      · simp only [List.append_assoc]
      · exact nofun

theorem literalEntries_cons (entry : Value × Value) (rest : List (Value × Value)) :
    literalEntries (entry :: rest) =
      entry.1.literal ++ [':', ' '] ++ entry.2.literal ++
        rest.flatMap fun e => [',', ' '] ++ (e.1.literal ++ [':', ' '] ++ e.2.literal) := by
  induction rest generalizing entry with
  | nil => rw [literalEntries, List.flatMap_nil, List.append_nil]
  | cons next rest ih =>
      rw [literalEntries, ih, List.flatMap_cons]
      · simp only [List.append_assoc]
      · exact nofun

theorem flatMap_chars_listed {α : Type} (f : α → List Lexeme) (first : α) (rest : List α) :
    (listed ((first :: rest).map f)).flatMap chars =
      (f first).flatMap chars ++ rest.flatMap fun part => [',', ' '] ++ (f part).flatMap chars := by
  show (f first ++ (rest.map f).flatMap ([ofOp .comma, space] ++ ·)).flatMap chars = _
  rw [List.flatMap_append, List.flatMap_assoc, List.flatMap_map]
  rfl

theorem flatMap_chars_bracketed (opening close : Op) (inner : List Lexeme) :
    (bracketed opening close inner).flatMap chars =
      opening.chars ++ (inner.flatMap chars ++ close.chars) := by
  rw [bracketed, List.flatMap_cons, List.flatMap_append, List.flatMap_singleton]
  rfl

theorem literalItems_eq {items : List Value}
    (h : ∀ v ∈ items, v.literal = v.display.written.flatMap chars) :
    literalItems items = (listed (writtenAll 0 (displayAll items))).flatMap chars := by
  rw [displayAll_eq_map, writtenAll_eq_map, List.map_map]
  cases items with
  | nil => rfl
  | cons item rest =>
      have hrest : ∀ v ∈ rest, [',', ' '] ++ v.literal =
          [',', ' '] ++ (v.display.writtenAt 0).flatMap chars := by
        intro v hv
        rw [h v (List.mem_cons_of_mem item hv)]
        rfl
      rw [literalItems_cons, flatMap_chars_listed, h item List.mem_cons_self,
        List.flatMap_congr hrest]
      rfl

theorem literalEntries_eq {entries : List (Value × Value)}
    (hkeys : ∀ e ∈ entries, e.1.literal = e.1.display.written.flatMap chars)
    (hvalues : ∀ e ∈ entries, e.2.literal = e.2.display.written.flatMap chars) :
    literalEntries entries =
      (listed (writtenItems ((displayEntries entries).map fun e => .entry e.1 e.2))).flatMap
        chars := by
  rw [displayEntries_eq_map, writtenItems_entries, List.map_map]
  have hentry : ∀ e ∈ entries, e.1.literal ++ [':', ' '] ++ e.2.literal =
      (e.1.display.writtenAt 0 ++ [ofOp .colon, space] ++ e.2.display.writtenAt 0).flatMap
        chars := by
    intro e he
    rw [hkeys e he, hvalues e he, List.flatMap_append, List.flatMap_append]
    rfl
  cases entries with
  | nil => rfl
  | cons entry rest =>
      have hrest : ∀ e ∈ rest, [',', ' '] ++ (e.1.literal ++ [':', ' '] ++ e.2.literal) =
          [',', ' '] ++ (e.1.display.writtenAt 0 ++ [ofOp .colon, space] ++
            e.2.display.writtenAt 0).flatMap chars := by
        intro e he
        rw [hentry e (List.mem_cons_of_mem entry he)]
      rw [literalEntries_cons, flatMap_chars_listed, hentry entry List.mem_cons_self,
        List.flatMap_congr hrest]
      rfl

/-- The printed form of a value is what is written for its display. -/
theorem Denotable.literal_eq {v : Value} (h : Denotable v) :
    v.literal = v.display.written.flatMap chars := by
  induction h with
  | null => rfl
  | bool b => cases b <;> rfl
  | str s => exact (List.flatMap_singleton _ _).symm
  | list _ ih =>
      rw [display, written, flatMap_chars_bracketed, ← literalItems_eq ih]
      rfl
  | @tuple items _ ih =>
      rcases items with _ | ⟨item, _ | ⟨second, rest⟩⟩
      · rfl
      · rw [display, displayAll, displayAll, written, flatMap_chars_bracketed, literal,
          ih item List.mem_cons_self]
        show _ = ['('] ++ ((item.display.written ++ [ofOp .comma]).flatMap chars ++ [')'])
        rw [List.flatMap_append, List.append_assoc]
        rfl
      · rw [display, written, flatMap_chars_bracketed, literal]
        · show '(' :: literalItems (item :: second :: rest) ++ [')'] =
            ['('] ++ ((listed (writtenAll 0 (displayAll (item :: second :: rest)))).flatMap chars
              ++ [')'])
          rw [literalItems_eq ih]
          rfl
        · simp
  | dict _ _ _ _ ih₁ ih₂ =>
      rw [display, written, flatMap_chars_bracketed, ← literalEntries_eq ih₁ ih₂]
      rfl

/-! ## The value of the display is the value -/

section Evaluate

variable {fs : Functions} {line : Nat}

theorem evaluateAll_map {f : Value → Expr} {env : Environment} {items : List Value}
    (h : ∀ v ∈ items, (f v).evaluate fs env = .ok v) :
    evaluateAll fs env (items.map f) = .ok items := by
  induction items with
  | nil => rfl
  | cons v items ih =>
      rw [List.map_cons, evaluateAll, h v List.mem_cons_self, ok_bind,
        ih fun w hw => h w (List.mem_cons_of_mem v hw)]
      rfl

/-- Entries with new keys go to the end of a dict one by one, whatever the environment that each
leaves for the next. -/
theorem evaluateItems_map (f : Value → Expr) {entries : List (Value × Value)}
    (hkeys : ∀ e ∈ entries, ∀ env, (f e.1).evaluate fs env = .ok e.1)
    (hvalues : ∀ e ∈ entries, ∀ env, (f e.2).evaluate fs env = .ok e.2)
    (done : List (Value × Value)) (hflat : ∀ e ∈ done ++ entries, Flat e.1)
    (hnodup : ((done ++ entries).map (·.1)).Nodup) (env : Environment) :
    evaluateItems fs env line ⟨done⟩ (entries.map fun e => .entry (f e.1) (f e.2)) =
      .ok ⟨done ++ entries⟩ := by
  induction entries generalizing done env with
  | nil => rw [List.map_nil, evaluateItems, List.append_nil]
  | cons entry entries ih =>
      have hentry : Flat entry.1 := hflat entry (by simp)
      have hnew : ∀ e ∈ done, (e.1 == entry.1) = false := by
        intro e he
        rw [Bool.eq_false_iff]
        intro heqv
        have heq : e.1 = entry.1 := (hflat e (List.mem_append_left _ he)).eq_of_eqv heqv
        rw [List.map_append, List.nodup_append] at hnodup
        exact hnodup.2.2 e.1 (List.mem_map_of_mem he) entry.1
          (List.mem_map_of_mem List.mem_cons_self) heq
      have hinsert : (⟨done⟩ : Dict).insert entry.1 entry.2 = ⟨done ++ [entry]⟩ :=
        congrArg Dict.mk (insertEntry_of_forall_ne hnew entry.2)
      rw [List.append_cons] at hflat hnodup ⊢
      simp only [List.map_cons, evaluateItems, hkeys entry List.mem_cons_self,
        hvalues entry List.mem_cons_self, ok_bind, hentry.unhashable?_eq_none, hinsert]
      exact ih (fun e he => hkeys e (List.mem_cons_of_mem entry he))
        (fun e he => hvalues e (List.mem_cons_of_mem entry he)) (done ++ [entry]) hflat hnodup _

/-- The display of a value has the value, in every environment. -/
theorem Denotable.evaluate {v : Value} (h : Denotable v) (env : Environment) :
    (v.display.onLine line).evaluate fs env = .ok v := by
  induction h generalizing env with
  | null => rfl
  | bool b => cases b <;> rfl
  | str s => rfl
  | @list items _ ih =>
      have hitems : evaluateAll fs env (items.map (onLine line ∘ display)) = .ok items :=
        evaluateAll_map fun v hv => ih v hv env
      rw [display, onLine, rebuild, rebuildAll_onLine, displayAll_eq_map, List.map_map,
        Expr.evaluate, hitems]
      rfl
  | @tuple items _ ih =>
      have hitems : evaluateAll fs env (items.map (onLine line ∘ display)) = .ok items :=
        evaluateAll_map fun v hv => ih v hv env
      rw [display, onLine, rebuild, rebuildAll_onLine, displayAll_eq_map, List.map_map,
        Expr.evaluate, hitems]
      rfl
  | @dict entries _ _ hflat hnodup ih₁ ih₂ =>
      have hitems : evaluateItems fs env line .empty
          (entries.map fun e => .entry (e.1.display.onLine line) (e.2.display.onLine line)) =
          .ok ⟨entries⟩ :=
        evaluateItems_map (onLine line ∘ display) ih₁ ih₂ [] hflat hnodup env
      rw [display, onLine, rebuild, rebuildItems_entries, displayEntries_eq_map, List.map_map,
        Expr.evaluate]
      exact bind_eq_ok.mpr ⟨⟨entries⟩, hitems, rfl⟩

end Evaluate

/-- The printed form of a value without whole numbers, whose dicts have distinct keys without lists
and dicts, denotes the value. -/
theorem valueOfText_repr (fs : Functions) (exposeVars : Bool) {v : Value} (h : Denotable v) :
    Expr.valueOfText fs exposeVars v.repr = .ok v := by
  have htext : v.repr = v.display.text := congrArg String.ofList h.literal_eq
  have hread := (h.writable.readable 1).ofText h.writable.phrase
  rw [Expr.valueOfText, htext, hread]
  exact h.evaluate (.initial exposeVars)

/-- A dict with a tuple as key, and a string with both quotes and a control character. -/
theorem valueOfText_repr_dict :
    Expr.valueOfText .empty true
        "\x7b(None, \"it's\\n\"): [(True,)], 'k\\x7f\"\\'': \x7b\x7d\x7d" =
      .ok (.dict [(.tuple [.null, .str "it's\n"], .list [.tuple [.bool true]]),
        (.str "k\x7f\"'", .dict [])]) := by
  have hkey : Denotable (.tuple [.null, .str "it's\n"]) :=
    .tuple (List.forall_mem_cons.mpr ⟨.null, List.forall_mem_singleton.mpr (.str _)⟩)
  have hflat : Flat (.tuple [.null, .str "it's\n"]) :=
    .tuple (List.forall_mem_cons.mpr ⟨.null, List.forall_mem_singleton.mpr (.str _)⟩)
  have hlist : Denotable (.list [.tuple [.bool true]]) :=
    .list (List.forall_mem_singleton.mpr (.tuple (List.forall_mem_singleton.mpr (.bool true))))
  have hempty : Denotable (.dict []) := .dict nofun nofun nofun List.nodup_nil
  have hdict : Denotable (.dict [(.tuple [.null, .str "it's\n"], .list [.tuple [.bool true]]),
      (.str "k\x7f\"'", .dict [])]) :=
    .dict (List.forall_mem_cons.mpr ⟨hkey, List.forall_mem_singleton.mpr (.str _)⟩)
      (List.forall_mem_cons.mpr ⟨hlist, List.forall_mem_singleton.mpr hempty⟩)
      (List.forall_mem_cons.mpr ⟨hflat, List.forall_mem_singleton.mpr (.str _)⟩) (by simp)
  have hread := valueOfText_repr .empty true hdict
  have hrepr : repr (.dict [(.tuple [.null, .str "it's\n"], .list [.tuple [.bool true]]),
      (.str "k\x7f\"'", .dict [])]) =
      "\x7b(None, \"it's\\n\"): [(True,)], 'k\\x7f\"\\'': \x7b\x7d\x7d" := by
    decide
  rw [hrepr] at hread
  exact hread

end Value

end DepsManifest
