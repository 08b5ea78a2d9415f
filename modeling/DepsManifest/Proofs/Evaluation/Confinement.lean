import DepsManifest.Proofs.Evaluation.Environment
import DepsManifest.Proofs.Evaluation.Position
/-! # What evaluation is confined to

Evaluation is a sandbox, and `Expr.value_confined` says what that means, for every expression, every
table of functions and both modes. It has three parts:

  * **forms** — at every strict position of an expression with a value, that is, wherever something
    is sure to be evaluated, stands one of the forms of `Evaluable`. Where variables are not
    exposed, a name there is that of a constant;
  * **functions** — the value, or the fault, depends on the functions that the expression names as
    callees and on no others (`evaluate_congr_functions`);
  * **operands** — the right operand of a node that its left operand decides does not matter, at any
    position: whatever is put in its place, the expression has the value that it had.

## What it is not

The converse of the first part does not hold. A form of `Evaluable` may still have no value, as when
a name is unknown, a key cannot be one, or a function gives none. Nor is anything said of positions
that are not strict: a right operand may be of any form if it is never evaluated.

## The way of the proof

A position is a list of frames, and `Frame.environmentAt` is the environment that evaluation has
reached there. An expression with a value has a value at each strict position
(`evaluate_plugAll_eq_ok`), so the first part is about the form of an expression with a value, and
that is one case for each form.
-/
namespace DepsManifest

/-- The forms that can be evaluated, given the functions that can be called. -/
inductive Evaluable (fs : Functions) : Expr → Prop
  | str (line : Nat) (text : String) : Evaluable fs (.str line text)
  | tuple (line : Nat) (items : List Expr) : Evaluable fs (.tuple line items)
  | list (line : Nat) (items : List Expr) : Evaluable fs (.list line items)
  | dict (line : Nat) {items : List DictItem} :
      (∀ item ∈ items, ∃ key value, item = .entry key value) → Evaluable fs (.dict line items)
  | name (line : Nat) (n : String) : Evaluable fs (.name line n)
  | call (line nameLine : Nat) {n : String} {arguments : List Expr} :
      (fs.get? n).isSome → (∀ a ∈ arguments, a.isStarred = false) →
      Evaluable fs (.call line (.name nameLine n) arguments [] none none)
  | add (line : Nat) (left right : Expr) : Evaluable fs (.binary line .add left right)
  | modulo (line : Nat) (left right : Expr) : Evaluable fs (.binary line .modulo left right)
  | boolean (line : Nat) (op : BoolOp) (left right : Expr) :
      Evaluable fs (.boolean line op [left, right])
  | not (line : Nat) (operand : Expr) : Evaluable fs (.unary line .not operand)

theorem Frame.environmentAt_of_opaqueDisplays (fs : Functions) {env : Environment}
    (h : env.mode = .opaqueDisplays) (c : List Frame) : environmentAt fs env c = env := by
  induction c with
  | nil => rfl
  | cons f c ih =>
      show environmentAt fs (f.environment fs env) c = env
      rw [environment_of_opaqueDisplays fs h, ih]

theorem Frame.plug_ne_name (f : Frame) (s : Expr) (line : Nat) (n : String) :
    f.plug s ≠ .name line n := by
  cases f <;> exact fun h => (nomatch h)

namespace Expr

variable {fs : Functions} {env : Environment}

/-! ## Strict positions -/

/-- What has a value has one of the forms. -/
theorem evaluable_of_evaluate_eq_ok {e : Expr} {v : Value} (h : e.evaluate fs env = .ok v) :
    Evaluable fs e := by
  cases e with
  | str => exact .str _ _
  | tuple => exact .tuple _ _
  | list => exact .list _ _
  | name => exact .name _ _
  | dict line items =>
      refine .dict line fun item hitem => ?_
      obtain ⟨d, hd, -⟩ := bind_eq_ok.mp h
      obtain ⟨before, after, rfl⟩ := List.append_of_mem hitem
      obtain ⟨key, value, _, _, hentry, -⟩ := evaluateItems_append_eq_ok hd
      exact ⟨key, value, hentry⟩
  | call line callee =>
      obtain ⟨nameLine, n, f, _, rfl, rfl, rfl, rfl, hstarred, hf, -⟩ := evaluate_call_eq_ok h
      exact .call line nameLine (by rw [hf]; rfl) hstarred
  | binary line op =>
      obtain ⟨_, _, _, hop, -⟩ := evaluate_binary_eq_ok h
      cases op with
      | add => exact .add _ _ _
      | modulo => exact .modulo _ _ _
      | _ => cases hop
  | boolean line op =>
      obtain ⟨left, right, _, rfl, -⟩ := evaluate_boolean_eq_ok h
      exact .boolean _ _ _ _
  | unary line op =>
      cases op with
      | not => exact .not _ _
      | _ => cases h
  | _ => cases h

/-- An expression with a value has a value at each strict position. -/
theorem evaluate_plugAll_eq_ok {c : List Frame} {s : Expr} {env : Environment} {v : Value}
    (h : (Frame.plugAll c s).evaluate fs env = .ok v)
    (hright : ∀ f ∈ c, f.isRightOperand = false)
    (hcallee : ∀ f, c.getLast? = some f → f.isCallee = false) :
    ∃ v', s.evaluate fs (Frame.environmentAt fs env c) = .ok v' := by
  induction c generalizing env v with
  | nil => exact ⟨v, h⟩
  | cons f c ih =>
      rcases evaluate_plug_eq_ok h (hright f List.mem_cons_self) with
        ⟨hf, line, n, hname⟩ | ⟨v', hv'⟩
      · cases c with
        | nil => exact absurd hf (by rw [hcallee f rfl]; decide)
        | cons g c => exact absurd hname (g.plug_ne_name _ line n)
      · refine ih hv' (fun g hg => hright g (List.mem_cons_of_mem _ hg)) fun g hg => hcallee g ?_
        cases c with
        | nil => cases hg
        | cons => exact hg

/-! ## Functions that are not called -/

theorem evaluateAll_congr_functions {fs' : Functions} {items : List Expr}
    (h : ∀ s ∈ items, ∀ env, s.evaluate fs env = s.evaluate fs' env) (env : Environment) :
    evaluateAll fs env items = evaluateAll fs' env items := by
  induction items with
  | nil => rfl
  | cons e rest ih =>
      simp only [evaluateAll]
      rw [h e List.mem_cons_self, ih fun s hs => h s (List.mem_cons_of_mem _ hs)]

theorem evaluateItems_congr_functions {fs' : Functions} {items : List DictItem}
    (h : ∀ key value, .entry key value ∈ items → ∀ env,
      key.evaluate fs env = key.evaluate fs' env ∧ value.evaluate fs env = value.evaluate fs' env)
    (env : Environment) (line : Nat) (d : Dict) :
    evaluateItems fs env line d items = evaluateItems fs' env line d items := by
  induction items generalizing env d with
  | nil => rfl
  | cons item rest ih =>
      cases item with
      | unpack _ => rfl
      | entry key value =>
          have hentry := h key value List.mem_cons_self env
          have hrest := ih fun key value hmem => h key value (List.mem_cons_of_mem _ hmem)
          simp only [evaluateItems]
          rw [hentry.1, hentry.2]
          simp only [hrest]

/-- What an expression evaluates to depends on the functions it calls only. -/
theorem evaluate_congr_functions {fs' : Functions} {e : Expr}
    (h : ∀ n, e.Calls n → fs.get? n = fs'.get? n) (env : Environment) :
    e.evaluate fs env = e.evaluate fs' env := by
  induction e using inductionOnParts generalizing env with
  | node e ih =>
      have part : ∀ s : Expr, s.IsPartOf e → ∀ env, s.evaluate fs env = s.evaluate fs' env :=
        fun s hs => ih s hs fun n hn => h n (hn.of_isPartOf hs)
      cases e with
      | tuple line items =>
          have hitems : evaluateAll fs env items = evaluateAll fs' env items :=
            evaluateAll_congr_functions (fun s hs => part s (isPartOf_tuple hs)) env
          simp only [evaluate, hitems]
      | list line items =>
          have hitems : evaluateAll fs env items = evaluateAll fs' env items :=
            evaluateAll_congr_functions (fun s hs => part s (isPartOf_list hs)) env
          simp only [evaluate, hitems]
      | dict line items =>
          have hitems : evaluateItems fs env line .empty items
              = evaluateItems fs' env line .empty items := by
            refine evaluateItems_congr_functions (fun key value hmem env => ?_) env line .empty
            obtain ⟨hkey, hvalue⟩ := isPartOf_dict hmem
            exact ⟨part key hkey env, part value hvalue env⟩
          simp only [evaluate, hitems]
      | call line callee arguments keywords sequence mapping =>
          cases callee with
          | name nameLine n =>
              have hf : fs.get? n = fs'.get? n :=
                h n ⟨line, nameLine, arguments, keywords, sequence, mapping, .refl _⟩
              have harguments : evaluateAll fs env arguments = evaluateAll fs' env arguments :=
                evaluateAll_congr_functions (fun s hs => part s (isPartOf_call hs)) env
              simp only [evaluate, hf, harguments]
          | _ => rfl
      | binary line op left right =>
          simp only [evaluate, part left ⟨.binaryLeft line op right, rfl⟩,
            part right ⟨.binaryRight line op left, rfl⟩]
      | boolean line op operands =>
          rcases operands with _ | ⟨left, _ | ⟨right, _ | ⟨_, _⟩⟩⟩
          · rfl
          · rfl
          · have hleft := part left (isPartOf_boolean List.mem_cons_self)
            have hright := part right
              (isPartOf_boolean (List.mem_cons_of_mem left List.mem_cons_self))
            simp only [evaluate, hleft, hright]
          · rfl
      | unary line op operand =>
          cases op with
          | not => simp only [evaluate, part operand ⟨.unaryOperand line .not, rfl⟩]
          | _ => rfl
      | _ => rfl

/-! ## The sandbox -/

/-- Where an expression has a value, all that is sure to be evaluated in it has one of the forms
that can be evaluated, and without exposed variables reads constants only. The functions it does
not call, and the right operands of nodes that their left operands decide, never matter. -/
theorem value_confined (fs : Functions) (exposeVars : Bool) (e : Expr) :
    (∀ v, e.value fs exposeVars = .ok v → ∀ s : Expr, s.OccursStrictlyIn e →
      Evaluable fs s ∧
        (exposeVars = false → ∀ line n, s = .name line n → n ∈ Environment.constantNames)) ∧
    (∀ fs' : Functions, (∀ n, e.Calls n → fs.get? n = fs'.get? n) →
      e.value fs exposeVars = e.value fs' exposeVars) ∧
    (∀ c line op left right l, e = Frame.plugAll c (.boolean line op [left, right]) →
      left.evaluate fs (Frame.environmentAt fs (.initial exposeVars) c) = .ok l →
      op.decides l = true → ∀ right' : Expr,
      (Frame.plugAll c (.boolean line op [left, right'])).value fs exposeVars
        = e.value fs exposeVars) := by
  refine ⟨?_, ?_, ?_⟩
  · rintro v hv s ⟨c, rfl, hright, hcallee⟩
    obtain ⟨v', hv'⟩ := evaluate_plugAll_eq_ok hv hright hcallee
    refine ⟨evaluable_of_evaluate_eq_ok hv', ?_⟩
    rintro rfl line n rfl
    rw [Frame.environmentAt_of_opaqueDisplays fs rfl c] at hv'
    simp only [evaluate] at hv'
    split at hv'
    · rename_i hlookup
      rw [Environment.lookup_fresh] at hlookup
      rw [Environment.mem_constantNames_iff, hlookup]
      rfl
    · cases hv'
  · intro fs' h
    exact evaluate_congr_functions h _
  · rintro c line op left right l rfl hleft hdecides right'
    exact (interchangeable_of_decides hleft hdecides line right' right).plugAll.evaluate_eq

/-- `f('a') or …` with a function that collects its arguments: whatever stands on the right, the
call has the value, and its argument is one of the forms. -/
theorem value_confined_call_or :
    (Expr.boolean 1 .or [.call 1 (.name 1 "f") [.str 1 "a"] [] none none, .ellipsis 1]).value
      (.insert .empty "f" fun vs => .ok (.tuple vs)) false = .ok (.tuple [.str "a"]) ∧
    Evaluable (.insert .empty "f" fun vs => .ok (.tuple vs)) (.str 1 "a") ∧
    ∀ right : Expr,
      (Expr.boolean 1 .or [.call 1 (.name 1 "f") [.str 1 "a"] [] none none, right]).value
        (.insert .empty "f" fun vs => .ok (.tuple vs)) false = .ok (.tuple [.str "a"]) := by
  refine ⟨rfl, ?_, fun right => ?_⟩
  · have hstrict : (Expr.str 1 "a").OccursStrictlyIn
        (.boolean 1 .or [.call 1 (.name 1 "f") [.str 1 "a"] [] none none, .ellipsis 1]) :=
      ⟨[.booleanOperand 1 .or [] [.ellipsis 1], .argument 1 (.name 1 "f") [] [] [] none none],
        rfl, by simp [Frame.isRightOperand], by simp [Frame.isCallee]⟩
    exact ((value_confined _ false _).1 (.tuple [.str "a"]) rfl _ hstrict).1
  · exact (value_confined _ false
      (.boolean 1 .or [.call 1 (.name 1 "f") [.str 1 "a"] [] none none, .ellipsis 1])).2.2
      [] 1 .or _ _ (.tuple [.str "a"]) rfl rfl rfl right

end Expr

end DepsManifest
