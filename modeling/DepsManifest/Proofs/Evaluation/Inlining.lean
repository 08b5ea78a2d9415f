import DepsManifest.Proofs.Evaluation.Environment
import DepsManifest.Proofs.Evaluation.Position
import DepsManifest.Proofs.Expr.Rebuild
/-! # Reading earlier entries is inlining them

In a self-referential environment a dict display binds each string key for the entries after it. For
a display of string literal keys this is no more than shorthand: every name that an entry reads may
be replaced by the expression under that key, itself already inlined, and the display then has the
same value where nothing is exposed (`Expr.value_display_iff_inlined`). "The same value" means an
equivalence, for every table of functions and every value: the one display has the value exactly if
the other has it.

Two hypotheses are there:

  * no key is the name of a constant. A name that is one reads the constant whatever was bound, so
    inlining would change it;
  * the values have no displays of their own. An inner display exposes its entries too, and what it
    binds would have to be kept apart from what is put in the place of the outer keys.

## The way of the proof

The two evaluations are compared by what they give apart from their faults (`Except.toOption`),
since an inlined fault stands at another line. What ties them together is `Agrees`: a name with an
expression in its place is bound to the value of that expression, and any other name is a constant
or unknown. Under it, an expression without displays has the value of its substitution instance
(`evaluate_substitute_toOption`). One more entry keeps it (`Agrees.bind`), so a whole display does
(`evaluateItems_inlined_toOption`).
-/
namespace DepsManifest

/-- An entry of a dict display whose key is a string literal. -/
structure LiteralEntry where
  line : Nat
  key : String
  value : Expr

namespace LiteralEntry

def item (entry : LiteralEntry) : DictItem := .entry (.str entry.line entry.key) entry.value

/-- Entries with the names in their values replaced: those of earlier keys by the inlined values of
the entries, all others as a substitution has it. -/
def inlined (σ : String → Option Expr) : List LiteralEntry → List LiteralEntry
  | [] => []
  | entry :: rest =>
    let value := entry.value.substitute σ
    { entry with value := value }
      :: inlined (fun n => if n = entry.key then some value else σ n) rest

end LiteralEntry

/-- `Agrees fs σ env`: the environment binds the names that a substitution replaces, each to the
value of the expression in its place, and no other names. -/
def Agrees (fs : Functions) (σ : String → Option Expr) (env : Environment) : Prop :=
  ∀ n, match σ n with
    | some e => ∃ v, env.lookup n = some v ∧ e.evaluate fs (.initial false) = .ok v
    | none => env.lookup n = (Environment.initial false).lookup n

theorem agrees_initial (fs : Functions) (exposeVars : Bool) :
    Agrees fs (fun _ => none) (.initial exposeVars) := by
  intro n
  show (Environment.initial exposeVars).lookup n = (Environment.initial false).lookup n
  simp only [Environment.initial, Environment.lookup_fresh]

/-- Binding a name to the value of the expression put in its place keeps the agreement. -/
theorem Agrees.bind {fs : Functions} {σ : String → Option Expr} {env : Environment}
    (h : Agrees fs σ env) {name : String} (hname : Environment.constant? name = none) {e : Expr}
    {v : Value} (he : e.evaluate fs (.initial false) = .ok v) :
    Agrees fs (fun n => if n = name then some e else σ n) (env.bind name v) := by
  intro n
  by_cases heq : n = name
  · simp only [heq, if_true]
    exact ⟨v, by simp [Environment.lookup_bind hname], he⟩
  · have hn := h n
    simp only [heq, if_false, Environment.lookup_bind hname] at hn ⊢
    exact hn

namespace Expr

variable {fs : Functions} {σ : String → Option Expr} {env : Environment}

theorem isStarred_substitute (h : Agrees fs σ env) (e : Expr) :
    (e.substitute σ).isStarred = e.isStarred := by
  cases e with
  | name line n =>
      have hn := h n
      simp only [substitute, rebuild]
      cases hσ : σ n with
      | none => rfl
      | some t =>
          rw [hσ] at hn
          obtain ⟨v, -, hv⟩ := hn
          cases t with
          | starred => cases hv
          | _ => rfl
  | call line callee => cases callee <;> rfl
  | _ => rfl

theorem evaluateAll_toOption_congr {env' : Environment} {g : Expr → Expr} {items : List Expr}
    (h : ∀ s ∈ items, (s.evaluate fs env).toOption = ((g s).evaluate fs env').toOption) :
    (evaluateAll fs env items).toOption = (evaluateAll fs env' (items.map g)).toOption := by
  induction items with
  | nil => rfl
  | cons e rest ih =>
      refine toOption_bind_congr (h e List.mem_cons_self) fun v _ => ?_
      exact toOption_bind_congr (ih fun s hs => h s (List.mem_cons_of_mem _ hs)) fun _ _ => rfl

theorem isEmpty_rebuildKeywords (lines : Nat → Nat) (names : Nat → String → Expr)
    (keywords : List Keyword) :
    (rebuildKeywords lines names keywords).isEmpty = keywords.isEmpty := by
  cases keywords with
  | nil => rfl
  | cons keyword keywords =>
      cases keyword
      rfl

theorem isSome_rebuildOption (lines : Nat → Nat) (names : Nat → String → Expr) (e : Option Expr) :
    (rebuildOption lines names e).isSome = e.isSome := by
  cases e <;> rfl

theorem substitute_call_name (σ : String → Option Expr) (line nameLine : Nat) (n : String)
    (arguments : List Expr) (keywords : List Keyword) (sequence mapping : Option Expr) :
    (Expr.call line (.name nameLine n) arguments keywords sequence mapping).substitute σ
      = .call line (.name nameLine n) (arguments.map (substitute σ))
          (rebuildKeywords id (fun line n => (σ n).getD (.name line n)) keywords)
          (rebuildOption id (fun line n => (σ n).getD (.name line n)) sequence)
          (rebuildOption id (fun line n => (σ n).getD (.name line n)) mapping) := by
  simp only [substitute, rebuild, rebuildAll_eq_map]
  rfl

theorem evaluate_call_substitute_toOption (hagrees : Agrees fs σ env) {arguments : List Expr}
    (h : (evaluateAll fs env arguments).toOption
      = (evaluateAll fs (.initial false) (arguments.map (substitute σ))).toOption)
    (line nameLine : Nat) (n : String) (keywords : List Keyword) (sequence mapping : Option Expr) :
    ((Expr.call line (.name nameLine n) arguments keywords sequence mapping).evaluate
        fs env).toOption
      = (((Expr.call line (.name nameLine n) arguments keywords sequence mapping).substitute
        σ).evaluate fs (.initial false)).toOption := by
  have hstarred : (arguments.map (substitute σ)).any isStarred = arguments.any isStarred := by
    rw [List.any_map]
    exact congrArg arguments.any (funext fun e => isStarred_substitute hagrees e)
  rw [substitute_call_name]
  simp only [evaluate, isEmpty_rebuildKeywords, isSome_rebuildOption, hstarred]
  split
  · rfl
  · cases fs.get? n with
    | none => rfl
    | some f => exact toOption_bind_congr h fun _ _ => rfl

/-- An expression without dict displays has the value of its substitution instance. -/
theorem evaluate_substitute_toOption (hagrees : Agrees fs σ env) {e : Expr}
    (hplain : ∀ line items, ¬ (Expr.dict line items).OccursIn e) :
    (e.evaluate fs env).toOption = ((e.substitute σ).evaluate fs (.initial false)).toOption := by
  induction e using inductionOnParts with
  | node e ih =>
      have part : ∀ s : Expr, s.IsPartOf e → (s.evaluate fs env).toOption
          = ((s.substitute σ).evaluate fs (.initial false)).toOption :=
        fun s hs => ih s hs fun line items h => hplain line items (h.of_isPartOf hs)
      cases e with
      | name line n =>
          have hn := hagrees n
          simp only [substitute, rebuild]
          cases hσ : σ n with
          | none =>
              rw [hσ] at hn
              simp only [Option.getD_none, evaluate, hn]
              cases (Environment.initial false).lookup n <;> rfl
          | some t =>
              rw [hσ] at hn
              obtain ⟨v, hv, ht⟩ := hn
              simp only [Option.getD_some, evaluate, hv, ht]
      | tuple line items =>
          have hitems : (evaluateAll fs env items).toOption = (evaluateAll fs (.initial false)
              (items.map (substitute σ))).toOption :=
            evaluateAll_toOption_congr fun s hs => part s (isPartOf_tuple hs)
          simp only [substitute, rebuild, rebuildAll_eq_map, evaluate]
          exact toOption_bind_congr hitems fun _ _ => rfl
      | list line items =>
          have hitems : (evaluateAll fs env items).toOption = (evaluateAll fs (.initial false)
              (items.map (substitute σ))).toOption :=
            evaluateAll_toOption_congr fun s hs => part s (isPartOf_list hs)
          simp only [substitute, rebuild, rebuildAll_eq_map, evaluate]
          exact toOption_bind_congr hitems fun _ _ => rfl
      | dict line items => exact absurd (.refl _) (hplain line items)
      | call line callee arguments keywords sequence mapping =>
          cases callee with
          | name nameLine n =>
              have harguments : (evaluateAll fs env arguments).toOption
                  = (evaluateAll fs (.initial false) (arguments.map (substitute σ))).toOption :=
                evaluateAll_toOption_congr fun s hs => part s (isPartOf_call hs)
              exact evaluate_call_substitute_toOption hagrees harguments line nameLine n keywords
                sequence mapping
          | call _ callee => cases callee <;> rfl
          | _ => rfl
      | binary line op left right =>
          simp only [substitute, rebuild, evaluate]
          cases op.operation? with
          | none => rfl
          | some operation =>
              refine toOption_bind_congr (part left ⟨.binaryLeft line op right, rfl⟩) fun l _ => ?_
              exact toOption_bind_congr (part right ⟨.binaryRight line op left, rfl⟩) fun r _ => rfl
      | boolean line op operands =>
          rcases operands with _ | ⟨left, _ | ⟨right, _ | ⟨_, _⟩⟩⟩
          · rfl
          · rfl
          · simp only [substitute, rebuild, rebuildAll, evaluate]
            refine toOption_bind_congr (part left (isPartOf_boolean List.mem_cons_self))
              fun l _ => ?_
            cases op.decides l with
            | true => rfl
            | false =>
                exact part right (isPartOf_boolean (List.mem_cons_of_mem left List.mem_cons_self))
          · rfl
      | unary line op operand =>
          cases op with
          | not =>
              simp only [substitute, rebuild, evaluate]
              exact toOption_bind_congr (part operand ⟨.unaryOperand line .not, rfl⟩) fun _ _ => rfl
          | _ => rfl
      | _ => rfl

/-! ## Displays -/

/-- A display that exposes its entries gives, from any dict on, what the display with its entries
inlined gives where nothing is exposed. -/
theorem evaluateItems_inlined_toOption {entries : List LiteralEntry}
    (hnames : ∀ entry ∈ entries, entry.key ∉ Environment.constantNames)
    (hplain : ∀ entry ∈ entries, ∀ line items, ¬ (Expr.dict line items).OccursIn entry.value)
    {σ : String → Option Expr} {env : Environment} (hagrees : Agrees fs σ env)
    (hmode : env.mode = .selfReferential) (line : Nat) (d : Dict) :
    (evaluateItems fs env line d (entries.map LiteralEntry.item)).toOption
      = (evaluateItems fs (.initial false) line d
          ((LiteralEntry.inlined σ entries).map LiteralEntry.item)).toOption := by
  induction entries generalizing σ env d with
  | nil => rfl
  | cons entry rest ih =>
      have hname : Environment.constant? entry.key = none := by
        have := hnames entry List.mem_cons_self
        rw [Environment.mem_constantNames_iff] at this
        simpa using this
      simp only [List.map_cons, LiteralEntry.inlined, LiteralEntry.item, evaluateItems, evaluate,
        ok_bind, Value.unhashable?]
      refine toOption_bind_congr
        (evaluate_substitute_toOption hagrees (hplain entry List.mem_cons_self)) fun v hv => ?_
      have hbind : env.afterEntry (.str entry.key) v = env.bind entry.key v := by
        simp only [Environment.afterEntry, hmode]
      rw [hbind]
      exact ih (fun e he => hnames e (List.mem_cons_of_mem _ he))
        (fun e he => hplain e (List.mem_cons_of_mem _ he)) (hagrees.bind hname hv)
        (by rw [Environment.mode_bind, hmode]) _

/-- A dict display of string literal keys, none of them a constant's name, and of values without
displays of their own has, where it exposes its entries, exactly the value that it has with the
entries inlined where nothing is exposed. -/
theorem value_display_iff_inlined (fs : Functions) (line : Nat) {entries : List LiteralEntry}
    (hnames : ∀ entry ∈ entries, entry.key ∉ Environment.constantNames)
    (hplain : ∀ entry ∈ entries, ∀ line items, ¬ (Expr.dict line items).OccursIn entry.value)
    (v : Value) :
    (Expr.dict line (entries.map LiteralEntry.item)).value fs true = .ok v ↔
      (Expr.dict line ((LiteralEntry.inlined (fun _ => none) entries).map
        LiteralEntry.item)).value fs false = .ok v := by
  have hitems := evaluateItems_inlined_toOption hnames hplain
    (agrees_initial fs true) rfl line .empty
  rw [eq_ok_iff_toOption, eq_ok_iff_toOption, value_eq, value_eq]
  simp only [evaluate]
  rw [toOption_bind_congr hitems fun _ _ => rfl]

/-- `{'a': 'x', 'b': a + 'y'}` is `{'a': 'x', 'b': 'x' + 'y'}`. -/
theorem value_display_iff_inlined_sum :
    (Expr.dict 1 [.entry (.str 1 "a") (.str 1 "x"),
      .entry (.str 1 "b") (.binary 1 .add (.name 1 "a") (.str 1 "y"))]).value .empty true
        = .ok (.dict [(.str "a", .str "x"), (.str "b", .str "xy")]) ∧
    (Expr.dict 1 [.entry (.str 1 "a") (.str 1 "x"),
      .entry (.str 1 "b") (.binary 1 .add (.str 1 "x") (.str 1 "y"))]).value .empty false
        = .ok (.dict [(.str "a", .str "x"), (.str "b", .str "xy")]) := by
  have hstr : ∀ text line items, ¬ (Expr.dict line items).OccursIn (.str 1 text) := by
    intro text line items h
    rcases h.eq_or_plug with h | ⟨f, p, h, -⟩
    · cases h
    · cases f <;> cases h
  have hsum : ∀ line items, ¬ (Expr.dict line items).OccursIn
      (.binary 1 .add (.name 1 "a") (.str 1 "y")) := by
    intro line items h
    rcases h.eq_or_plug with h | ⟨f, p, h, hp⟩
    · cases h
    · cases f with
      | binaryLeft =>
          cases h
          rcases hp.eq_or_plug with h | ⟨f, p, h, -⟩
          · cases h
          · cases f <;> cases h
      | binaryRight =>
          cases h
          exact hstr "y" line items hp
      | _ => cases h
  let entries : List LiteralEntry :=
    [⟨1, "a", .str 1 "x"⟩, ⟨1, "b", .binary 1 .add (.name 1 "a") (.str 1 "y")⟩]
  have hnames : ∀ entry ∈ entries, entry.key ∉ Environment.constantNames := by decide
  have hplain : ∀ entry ∈ entries, ∀ line items,
      ¬ (Expr.dict line items).OccursIn entry.value := by
    intro entry hentry
    simp only [entries, List.mem_cons, List.not_mem_nil, or_false] at hentry
    rcases hentry with rfl | rfl
    · exact hstr "x"
    · exact hsum
  exact ⟨rfl, (value_display_iff_inlined .empty 1 hnames hplain
    (.dict [(.str "a", .str "x"), (.str "b", .str "xy")])).mp rfl⟩

end Expr

end DepsManifest
