import DepsManifest.Evaluation.Expr
import DepsManifest.Proofs.Except
import DepsManifest.Proofs.Expr.Position
/-! # Evaluation at a position

What evaluating an expression does at a position inside it, one frame at a time. A frame is a node
with one of its operands missing; a list of frames is a position.

  * `Frame.environment` is the environment in which a frame evaluates its operand. Only a dict
    display has another one than its own, that of the items before. Where variables are not exposed,
    it is its own after all (`environment_of_opaqueDisplays`).
  * `evaluate_plug_eq_ok`: a node that has a value has a value at every operand that is no right
    operand of `and` or `or` and no callee. A callee is a name, which is looked up among the
    functions and not evaluated.
  * `Interchangeable.plug`: operands that are evaluated alike can take each other's place, and
    `Interchangeable.plugAll` says it of any position.
  * `interchangeable_of_decides`: a node that its left operand decides is evaluated alike whatever
    its right operand is.
  * `Visits`: what evaluating an expression also evaluates, and in which environment. If the
    expression has a value, so has all of that (`Expr.evaluate_eq_ok_of_visits`).

## Why `Interchangeable` says more than "the same value"

A node looks at some operands without evaluating them: whether they are starred, and which line they
stand on. Two expressions with the same value could be told apart by that, so `Interchangeable` asks
for it too, and the relation is then kept by every frame.

## Lists of operands and of items

The lemmas about `evaluateAll` and `evaluateItems` are stated for an operand between those before it
and those after it, which is how a frame holds them. For items they take along what the items before
have left, the environment and the dict.
-/
namespace DepsManifest

/-- The environment in which a dict display evaluates what comes after some items. After an item
without a value nothing is evaluated, and the environment is left as it is. -/
def Environment.afterItems (fs : Functions) (env : Environment) : List DictItem → Environment
  | [] => env
  | .unpack _ :: _ => env
  | .entry key value :: rest =>
    match key.evaluate fs env, value.evaluate fs env with
    | .ok k, .ok v => (env.afterEntry k v).afterItems fs rest
    | _, _ => env

namespace Frame

/-- The environment in which a frame evaluates its operand. -/
def environment (fs : Functions) (env : Environment) : Frame → Environment
  | dictKey _ before _ _ => env.afterItems fs before
  | dictValue _ before _ _ => env.afterItems fs before
  | _ => env

/-- The environment at the hole of a list of frames. -/
def environmentAt (fs : Functions) (env : Environment) (c : List Frame) : Environment :=
  c.foldl (environment fs) env

end Frame

/-! ## The environments of a mode without exposed variables -/

theorem Environment.afterItems_of_opaqueDisplays (fs : Functions) {env : Environment}
    (h : env.mode = .opaqueDisplays) (items : List DictItem) : env.afterItems fs items = env := by
  induction items with
  | nil => rfl
  | cons item rest ih =>
      cases item with
      | unpack _ => rfl
      | entry key value =>
          have same : ∀ k v, env.afterEntry k v = env := fun k v => by
            simp only [afterEntry, h]
          simp only [afterItems]
          split
          · rw [same, ih]
          · rfl

theorem Frame.environment_of_opaqueDisplays (fs : Functions) {env : Environment}
    (h : env.mode = .opaqueDisplays) (f : Frame) : f.environment fs env = env := by
  cases f with
  | dictKey => exact Environment.afterItems_of_opaqueDisplays fs h _
  | dictValue => exact Environment.afterItems_of_opaqueDisplays fs h _
  | _ => rfl

namespace Expr

variable {fs : Functions} {env : Environment}

/-! ## The operands of a node with a value -/

theorem evaluateAll_append_eq_ok {before after : List Expr} {s : Expr} {vs : List Value}
    (h : evaluateAll fs env (before ++ s :: after) = .ok vs) : ∃ v, s.evaluate fs env = .ok v := by
  induction before generalizing vs with
  | nil =>
      obtain ⟨v, hv, -⟩ := bind_eq_ok.mp h
      exact ⟨v, hv⟩
  | cons e before ih =>
      obtain ⟨_, -, h⟩ := bind_eq_ok.mp h
      obtain ⟨_, hrest, -⟩ := bind_eq_ok.mp h
      exact ih hrest

theorem evaluateItems_cons_eq_ok {line : Nat} {d d' : Dict} {item : DictItem}
    {rest : List DictItem} (h : evaluateItems fs env line d (item :: rest) = .ok d') :
    ∃ key value k v, item = .entry key value ∧ key.evaluate fs env = .ok k ∧
      k.unhashable? = none ∧ value.evaluate fs env = .ok v ∧
      evaluateItems fs (env.afterEntry k v) line (d.insert k v) rest = .ok d' := by
  cases item with
  | unpack _ => cases h
  | entry key value =>
      obtain ⟨k, hk, h⟩ := bind_eq_ok.mp h
      split at h
      · cases h
      · rename_i hhash
        obtain ⟨v, hv, h⟩ := bind_eq_ok.mp h
        exact ⟨key, value, k, v, rfl, hk, hhash, hv, h⟩

/-- In a dict display with a value each item is an entry, whose key and value have values in the
environment of the items before. -/
theorem evaluateItems_append_eq_ok {line : Nat} {before after : List DictItem} {item : DictItem}
    {env : Environment} {d d' : Dict}
    (h : evaluateItems fs env line d (before ++ item :: after) = .ok d') :
    ∃ key value k v, item = .entry key value ∧
      key.evaluate fs (env.afterItems fs before) = .ok k ∧
      value.evaluate fs (env.afterItems fs before) = .ok v := by
  induction before generalizing env d with
  | nil =>
      obtain ⟨key, value, k, v, hitem, hk, -, hv, -⟩ := evaluateItems_cons_eq_ok h
      exact ⟨key, value, k, v, hitem, hk, hv⟩
  | cons first before ih =>
      obtain ⟨key, value, k, v, rfl, hk, -, hv, hrest⟩ := evaluateItems_cons_eq_ok h
      obtain ⟨key', value', k', v', hitem, hk', hv'⟩ := ih hrest
      refine ⟨key', value', k', v', hitem, ?_, ?_⟩
      · simpa only [Environment.afterItems, hk, hv] using hk'
      · simpa only [Environment.afterItems, hk, hv] using hv'

theorem evaluate_call_of_not_name {line : Nat} {callee : Expr} {arguments : List Expr}
    {keywords : List Keyword} {sequence mapping : Option Expr}
    (h : ∀ line' n, callee ≠ .name line' n) :
    evaluate fs env (.call line callee arguments keywords sequence mapping)
      = .error ⟨line, .calleeNotName⟩ := by
  cases callee with
  | name line' n => exact absurd rfl (h line' n)
  | _ => rfl

theorem atLine_eq_ok {ε α : Type} {line : Nat} {cause : ε → EvaluationFault} {x : Except ε α}
    {a : α} : atLine line cause x = .ok a ↔ x = .ok a := by
  cases x with
  | ok b =>
      constructor
      · intro h
        cases h
        rfl
      · intro h
        cases h
        rfl
  | error e => exact ⟨fun h => (nomatch h), fun h => (nomatch h)⟩

/-- What a call with a value looks like: its value is what the function gives. -/
theorem evaluate_call_eq_ok {line : Nat} {callee : Expr} {arguments : List Expr}
    {keywords : List Keyword} {sequence mapping : Option Expr} {v : Value}
    (h : evaluate fs env (.call line callee arguments keywords sequence mapping) = .ok v) :
    ∃ line' n f vs, callee = .name line' n ∧ keywords = [] ∧ sequence = none ∧ mapping = none ∧
      (∀ a ∈ arguments, a.isStarred = false) ∧ fs.get? n = some f ∧
      evaluateAll fs env arguments = .ok vs ∧ f vs = .ok v := by
  by_cases hname : ∃ line' n, callee = .name line' n
  · obtain ⟨line', n, rfl⟩ := hname
    simp only [evaluate] at h
    split at h
    · cases h
    · rename_i hregular
      split at h
      · cases h
      · rename_i f hf
        obtain ⟨vs, hvs, hv⟩ := bind_eq_ok.mp h
        simp only [Bool.or_eq_true, Bool.not_eq_true', not_or, Bool.not_eq_false,
          Bool.not_eq_true, List.isEmpty_iff, Option.isSome_eq_false_iff, Option.isNone_iff_eq_none,
          List.any_eq_false] at hregular
        obtain ⟨⟨⟨hkeywords, hsequence⟩, hmapping⟩, hstarred⟩ := hregular
        exact ⟨line', n, f, vs, rfl, hkeywords, hsequence, hmapping,
          fun a ha => by simpa using hstarred a ha, hf, hvs, atLine_eq_ok.mp hv⟩
  · rw [evaluate_call_of_not_name fun line' n heq => hname ⟨line', n, heq⟩] at h
    cases h

theorem evaluate_binary_eq_ok {line : Nat} {op : BinaryOp} {left right : Expr} {v : Value}
    (h : evaluate fs env (.binary line op left right) = .ok v) :
    ∃ operation l r, op.operation? = some operation ∧ left.evaluate fs env = .ok l ∧
      right.evaluate fs env = .ok r ∧ operation l r = .ok v := by
  simp only [evaluate] at h
  split at h
  · cases h
  · rename_i operation hop
    obtain ⟨l, hl, h⟩ := bind_eq_ok.mp h
    obtain ⟨r, hr, hv⟩ := bind_eq_ok.mp h
    exact ⟨operation, l, r, hop, hl, hr, atLine_eq_ok.mp hv⟩

theorem evaluate_boolean_eq_ok {line : Nat} {op : BoolOp} {operands : List Expr} {v : Value}
    (h : evaluate fs env (.boolean line op operands) = .ok v) :
    ∃ left right l, operands = [left, right] ∧ left.evaluate fs env = .ok l ∧
      (op.decides l = true ∧ l = v ∨ op.decides l = false ∧ right.evaluate fs env = .ok v) := by
  rcases operands with _ | ⟨left, _ | ⟨right, _ | ⟨_, _⟩⟩⟩
  · cases h
  · cases h
  · obtain ⟨l, hl, hv⟩ := bind_eq_ok.mp h
    refine ⟨left, right, l, rfl, hl, ?_⟩
    split at hv
    · rename_i hdecides
      cases hv
      exact .inl ⟨hdecides, rfl⟩
    · rename_i hdecides
      exact .inr ⟨Bool.eq_false_iff.mpr hdecides, hv⟩
  · cases h

/-- A node with a value has a value at each of its operands, except for a callee, which is a name,
and a right operand of `and` or `or`. -/
theorem evaluate_plug_eq_ok {f : Frame} {s : Expr} {v : Value}
    (h : evaluate fs env (f.plug s) = .ok v) (hright : f.isRightOperand = false) :
    (f.isCallee = true ∧ ∃ line n, s = .name line n) ∨
      ∃ v', s.evaluate fs (f.environment fs env) = .ok v' := by
  cases f with
  | tupleItem =>
      obtain ⟨vs, hvs, -⟩ := bind_eq_ok.mp h
      exact .inr (evaluateAll_append_eq_ok hvs)
  | listItem =>
      obtain ⟨vs, hvs, -⟩ := bind_eq_ok.mp h
      exact .inr (evaluateAll_append_eq_ok hvs)
  | dictKey =>
      obtain ⟨d, hd, -⟩ := bind_eq_ok.mp h
      obtain ⟨_, _, k, _, heq, hk, -⟩ := evaluateItems_append_eq_ok hd
      cases heq
      exact .inr ⟨k, hk⟩
  | dictValue =>
      obtain ⟨d, hd, -⟩ := bind_eq_ok.mp h
      obtain ⟨_, _, _, v', heq, -, hv'⟩ := evaluateItems_append_eq_ok hd
      cases heq
      exact .inr ⟨v', hv'⟩
  | dictUnpacked =>
      obtain ⟨d, hd, -⟩ := bind_eq_ok.mp h
      obtain ⟨_, _, _, _, heq, -⟩ := evaluateItems_append_eq_ok hd
      cases heq
  | callee =>
      obtain ⟨line, n, -, -, hname, -⟩ := evaluate_call_eq_ok h
      exact .inl ⟨rfl, line, n, hname⟩
  | argument =>
      obtain ⟨_, _, _, vs, -, -, -, -, -, -, hvs, -⟩ := evaluate_call_eq_ok h
      exact .inr (evaluateAll_append_eq_ok hvs)
  | keywordValue =>
      obtain ⟨_, _, _, _, -, hkeywords, -⟩ := evaluate_call_eq_ok h
      exact absurd hkeywords (by simp)
  | sequenceValue =>
      obtain ⟨_, _, _, _, -, -, hsequence, -⟩ := evaluate_call_eq_ok h
      cases hsequence
  | mappingValue =>
      obtain ⟨_, _, _, _, -, -, -, hmapping, -⟩ := evaluate_call_eq_ok h
      cases hmapping
  | binaryLeft =>
      obtain ⟨_, l, _, -, hl, -⟩ := evaluate_binary_eq_ok h
      exact .inr ⟨l, hl⟩
  | binaryRight =>
      obtain ⟨_, _, r, -, -, hr, -⟩ := evaluate_binary_eq_ok h
      exact .inr ⟨r, hr⟩
  | booleanOperand line op before after =>
      obtain ⟨left, right, l, hoperands, hl, -⟩ := evaluate_boolean_eq_ok h
      rcases before with _ | ⟨_, _ | ⟨_, _⟩⟩
      · cases hoperands
        exact .inr ⟨l, hl⟩
      · cases hoperands
        cases hright
      · simp at hoperands
  | unaryOperand line op =>
      cases op with
      | not =>
          obtain ⟨v', hv', -⟩ := bind_eq_ok.mp h
          exact .inr ⟨v', hv'⟩
      | _ => cases h
  | _ => cases h

/-! ## Operands that are evaluated alike -/

/-- Two expressions that no node can tell apart: they have the same value, or the same fault, and
whatever a node looks at without evaluating it is the same. -/
structure Interchangeable (fs : Functions) (env : Environment) (s s' : Expr) : Prop where
  line_eq : s.line = s'.line
  isStarred_eq : s.isStarred = s'.isStarred
  name_iff : ∀ line n, s = .name line n ↔ s' = .name line n
  evaluate_eq : s.evaluate fs env = s'.evaluate fs env

theorem evaluateAll_append_congr {s s' : Expr} (h : s.evaluate fs env = s'.evaluate fs env)
    (before after : List Expr) :
    evaluateAll fs env (before ++ s :: after) = evaluateAll fs env (before ++ s' :: after) := by
  induction before with
  | nil => simp only [List.nil_append, evaluateAll, h]
  | cons e before ih => simp only [List.cons_append, evaluateAll, ih]

theorem evaluateItems_append_congr {line : Nat} {item item' : DictItem} {after : List DictItem}
    (before : List DictItem) (env : Environment) (d : Dict)
    (h : ∀ d, evaluateItems fs (env.afterItems fs before) line d (item :: after)
      = evaluateItems fs (env.afterItems fs before) line d (item' :: after)) :
    evaluateItems fs env line d (before ++ item :: after)
      = evaluateItems fs env line d (before ++ item' :: after) := by
  induction before generalizing env d with
  | nil => exact h d
  | cons first before ih =>
      cases first with
      | unpack _ => rfl
      | entry key value =>
          simp only [List.cons_append, evaluateItems]
          cases hk : key.evaluate fs env with
          | error => rfl
          | ok k =>
              simp only [ok_bind]
              cases k.unhashable? with
              | some => rfl
              | none =>
                  cases hv : value.evaluate fs env with
                  | error => rfl
                  | ok v =>
                      simp only [ok_bind]
                      exact ih _ _ (by simpa only [Environment.afterItems, hk, hv] using h)

/-- Interchangeable expressions make interchangeable nodes. -/
theorem Interchangeable.plug {f : Frame} {s s' : Expr}
    (h : Interchangeable fs (f.environment fs env) s s') :
    Interchangeable fs env (f.plug s) (f.plug s') := by
  obtain ⟨hline, hstarred, hname, heval⟩ := h
  refine ⟨by cases f <;> rfl, by cases f <;> rfl, by cases f <;> simp [Frame.plug], ?_⟩
  cases f with
  | tupleItem =>
      simp only [Frame.environment] at heval
      simp only [Frame.plug, evaluate]
      rw [evaluateAll_append_congr heval]
  | listItem =>
      simp only [Frame.environment] at heval
      simp only [Frame.plug, evaluate]
      rw [evaluateAll_append_congr heval]
  | dictKey line before value after =>
      simp only [Frame.plug, evaluate]
      rw [evaluateItems_append_congr before env .empty fun d => ?_]
      simp only [Frame.environment] at heval
      simp only [evaluateItems, heval, hline]
  | dictValue line before key after =>
      simp only [Frame.plug, evaluate]
      rw [evaluateItems_append_congr before env .empty fun d => ?_]
      simp only [Frame.environment] at heval
      simp only [evaluateItems, heval]
  | dictUnpacked line before after =>
      simp only [Frame.plug, evaluate]
      rw [evaluateItems_append_congr before env .empty fun d => ?_]
      simp only [evaluateItems]
  | callee line arguments keywords sequence mapping =>
      simp only [Frame.plug]
      by_cases hs : ∃ line n, s = .name line n
      · obtain ⟨l, n, rfl⟩ := hs
        rw [(hname l n).mp rfl]
      · rw [evaluate_call_of_not_name fun l n heq => hs ⟨l, n, heq⟩,
          evaluate_call_of_not_name fun l n heq => hs ⟨l, n, (hname l n).mpr heq⟩]
  | argument line callee before after keywords sequence mapping =>
      simp only [Frame.environment] at heval
      cases callee with
      | name =>
          simp only [Frame.plug, evaluate, List.any_append, List.any_cons, hstarred]
          rw [evaluateAll_append_congr heval]
      | _ => rfl
  | keywordValue line callee arguments before name after =>
      cases callee with
      | name => simp [Frame.plug, evaluate]
      | _ => rfl
  | sequenceValue line callee =>
      cases callee with
      | name => simp [Frame.plug, evaluate]
      | _ => rfl
  | mappingValue line callee =>
      cases callee with
      | name => simp [Frame.plug, evaluate]
      | _ => rfl
  | binaryLeft line op right =>
      simp only [Frame.environment] at heval
      simp only [Frame.plug, evaluate, heval]
  | binaryRight line op left =>
      simp only [Frame.environment] at heval
      simp only [Frame.plug, evaluate, heval]
  | booleanOperand line op before after =>
      simp only [Frame.environment] at heval
      rcases before with _ | ⟨left, _ | ⟨_, _⟩⟩
      · rcases after with _ | ⟨right, _ | ⟨_, _⟩⟩
        · rfl
        · simp only [Frame.plug, List.nil_append, evaluate, heval]
        · rfl
      · cases after with
        | nil => simp only [Frame.plug, List.cons_append, List.nil_append, evaluate, heval]
        | cons => rfl
      · simp [Frame.plug, evaluate]
  | unaryOperand line op =>
      simp only [Frame.environment] at heval
      cases op with
      | not => simp only [Frame.plug, evaluate, heval]
      | _ => rfl
  | _ => rfl

theorem Interchangeable.plugAll {c : List Frame} {env : Environment} {s s' : Expr}
    (h : Interchangeable fs (Frame.environmentAt fs env c) s s') :
    Interchangeable fs env (Frame.plugAll c s) (Frame.plugAll c s') := by
  induction c generalizing env with
  | nil => exact h
  | cons f c ih => exact (ih h).plug

/-- The right operand of a node that its left operand decides is not evaluated. -/
theorem interchangeable_of_decides {op : BoolOp} {left : Expr} {l : Value}
    (hleft : left.evaluate fs env = .ok l) (hdecides : op.decides l = true) (line : Nat)
    (right right' : Expr) :
    Interchangeable fs env (.boolean line op [left, right]) (.boolean line op [left, right']) where
  line_eq := rfl
  isStarred_eq := rfl
  name_iff _ _ := ⟨fun h => (nomatch h), fun h => (nomatch h)⟩
  evaluate_eq := by simp only [evaluate, hleft, ok_bind, hdecides, if_true]

end Expr

/-! ## What evaluation comes to -/

/-- Whether a node evaluates its missing operand: never a callee, and a right operand of `and` or
`or` only if the left one does not decide. -/
def Frame.Evaluates (fs : Functions) (env : Environment) : Frame → Prop
  | .callee .. => False
  | .booleanOperand _ op [left] [] => ∃ l, left.evaluate fs env = .ok l ∧ op.decides l = false
  | _ => True

/-- `Visits fs env e env' s`: to evaluate `e` in `env` is also to evaluate `s`, which is `e` or
stands inside it, in `env'`. -/
inductive Visits (fs : Functions) : Environment → Expr → Environment → Expr → Prop
  | self (env : Environment) (e : Expr) : Visits fs env e env e
  | operand {env env' : Environment} {f : Frame} {p s : Expr} : f.Evaluates fs env →
      Visits fs (f.environment fs env) p env' s → Visits fs env (f.plug p) env' s

namespace Expr

variable {fs : Functions} {env : Environment}

theorem evaluate_operand_eq_ok {f : Frame} {s : Expr} {v : Value}
    (h : evaluate fs env (f.plug s) = .ok v) (hevaluates : f.Evaluates fs env) :
    ∃ v', s.evaluate fs (f.environment fs env) = .ok v' := by
  cases hright : f.isRightOperand with
  | false =>
      rcases evaluate_plug_eq_ok h hright with ⟨hcallee, -⟩ | hvalue
      · cases f with
        | callee => exact absurd hevaluates id
        | _ => cases hcallee
      · exact hvalue
  | true =>
      cases f with
      | booleanOperand line op before after =>
          rcases before with _ | ⟨left, _ | ⟨_, _⟩⟩
          · cases hright
          · cases after with
            | cons => cases hright
            | nil =>
                obtain ⟨l, hl, hdecides⟩ := hevaluates
                obtain ⟨left', right, l', hoperands, hl', hv⟩ := evaluate_boolean_eq_ok h
                cases hoperands
                rw [hl] at hl'
                cases hl'
                rcases hv with ⟨htrue, -⟩ | ⟨-, hr⟩
                · rw [hdecides] at htrue
                  cases htrue
                · exact ⟨v, hr⟩
          · cases hright
      | _ => cases hright

/-- Where an expression has a value, so has everything that is evaluated with it. -/
theorem evaluate_eq_ok_of_visits {env' : Environment} {e s : Expr} (h : Visits fs env e env' s)
    {v : Value} (hv : e.evaluate fs env = .ok v) : ∃ v', s.evaluate fs env' = .ok v' := by
  induction h generalizing v with
  | self env e => exact ⟨v, hv⟩
  | operand hevaluates _ ih =>
      obtain ⟨w, hw⟩ := evaluate_operand_eq_ok hv hevaluates
      exact ih hw

end Expr

end DepsManifest
