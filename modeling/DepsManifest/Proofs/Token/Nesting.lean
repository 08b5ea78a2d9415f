import DepsManifest.Proofs.Except
import DepsManifest.Token.Layout
import Mathlib.Data.List.Induction
/-! # Brackets

Brackets are nested (`Nested`) if each one that opens is closed by one of its kind, with nested
brackets between the two. Some brackets leave others open (`LeavesOpen`), or one of them closes what
is not its own (`ClosesWrongly`). All three say what the brackets are. None says how they are gone
through.

What one operator does to the brackets that are open is said once (`openedAfter_eq_ok`). Going
through operators one after the other (`leftOpen`) comes to an end exactly where the brackets among
them close nothing wrongly, and otherwise it stops at the first that does:

    leftOpen_eq_ok       what is open in the end is what the brackets leave open
    leftOpen_eq_error    the fault is that of the first bracket that closes wrongly
    leftOpen_eq_ok_nil   nothing is open in the end exactly if the brackets are nested

The descriptions exclude one another and leave nothing out, so it is enough to show each in one
direction. That they leave nothing out is `leftOpen_cases`: the operators are taken one by one from
the left, and one more after operators that could be gone through leaves brackets open or closes
wrongly (`LeavesOpen.next`).

Each bracket comes with its line, as a fault names the line of the bracket that closes wrongly, or
of the one that is left open.
-/
namespace DepsManifest

/-- Whether an operator opens or closes a group. -/
def Op.isBracket (op : Op) : Bool := op.opensGroup || op.closesGroup

theorem Op.opensGroup_of_closesGroup {op : Op} (h : op.closesGroup = true) :
    op.opensGroup = false := by
  cases op <;> first | rfl | cases h

theorem Op.closesGroup_of_closes {close opening : Op} (h : close.closes opening = true) :
    close.closesGroup = true := by
  cases close <;> first | rfl | cases h

theorem Op.opensGroup_of_closes {close opening : Op} (h : close.closes opening = true) :
    opening.opensGroup = true := by
  unfold closes at h
  split at h
  · rfl
  · rfl
  · rfl
  · cases h

namespace Token

variable {opened opened' bs cs ops : List (Op × Nat)} {opening close : Op × Nat}
  {e : Located SyntaxFault}

/-! ## One operator -/

section

variable {op : Op} {line : Nat}

theorem openedAfter_opening (h : op.opensGroup = true) :
    openedAfter opened op line = .ok ((op, line) :: opened) :=
  if_pos h

theorem openedAfter_close (h : op.closesGroup = true) : openedAfter opened op line =
    match opened with
    | [] => .error (.unmatchedClose op)
    | opening :: outer => if op.closes opening.1 then .ok outer
        else .error (.mismatchedClose op opening.1) := by
  unfold openedAfter
  rw [if_neg (Bool.eq_false_iff.mp (Op.opensGroup_of_closesGroup h)), if_pos h]
  cases opened with
  | nil => rfl
  | cons opening outer => rfl

theorem openedAfter_matched (h : op.closes opening.1 = true) :
    openedAfter (opening :: opened) op line = .ok opened := by
  rw [openedAfter_close (Op.closesGroup_of_closes h)]
  exact if_pos h

theorem openedAfter_of_not_isBracket (h : op.isBracket = false) :
    openedAfter opened op line = .ok opened := by
  obtain ⟨hopens, hcloses⟩ := Bool.or_eq_false_iff.mp h
  unfold openedAfter
  rw [if_neg (Bool.eq_false_iff.mp hopens), if_neg (Bool.eq_false_iff.mp hcloses)]

/-- An operator opens a group, or closes the innermost one, or is no bracket and changes nothing. -/
theorem openedAfter_eq_ok (h : openedAfter opened op line = .ok opened') :
    op.opensGroup = true ∧ opened' = (op, line) :: opened ∨
      (∃ opening, opened = opening :: opened' ∧ op.closes opening.1 = true) ∨
      op.isBracket = false ∧ opened' = opened := by
  cases hbracket : op.isBracket with
  | false =>
      rw [openedAfter_of_not_isBracket hbracket] at h
      cases h
      exact .inr (.inr ⟨rfl, rfl⟩)
  | true =>
      rcases Bool.or_eq_true_iff.mp hbracket with hopens | hcloses
      · rw [openedAfter_opening hopens] at h
        cases h
        exact .inl ⟨hopens, rfl⟩
      · rw [openedAfter_close hcloses] at h
        cases opened with
        | nil => cases h
        | cons opening outer =>
            dsimp only at h
            split at h
            · rename_i hmatch
              cases h
              exact .inr (.inl ⟨opening, rfl, hmatch⟩)
            · cases h

theorem openedAfter_append (h : openedAfter opened op line = .ok opened')
    (outer : List (Op × Nat)) : openedAfter (opened ++ outer) op line = .ok (opened' ++ outer) := by
  rcases openedAfter_eq_ok h with ⟨hopens, rfl⟩ | ⟨opening, rfl, hcloses⟩ | ⟨hother, rfl⟩
  · exact openedAfter_opening hopens
  · exact openedAfter_matched hcloses
  · exact openedAfter_of_not_isBracket hother

end

/-! ## Brackets and their lines -/

/-- Brackets of which each is closed by one of its kind. -/
inductive Nested : List (Op × Nat) → Prop
  | nil : Nested []
  | group {opening close : Op × Nat} {inner rest : List (Op × Nat)}
      (hclose : close.1.closes opening.1 = true) (hinner : Nested inner) (hrest : Nested rest) :
      Nested (opening :: (inner ++ close :: rest))

/-- `LeavesOpen opened bs`: in `bs` each bracket that closes a group closes one of its kind, and
the groups `opened` are not closed, the innermost of them first. -/
inductive LeavesOpen : List (Op × Nat) → List (Op × Nat) → Prop
  | nested {bs : List (Op × Nat)} (h : Nested bs) : LeavesOpen [] bs
  | opening {opening : Op × Nat} {opened before inner : List (Op × Nat)}
      (h : LeavesOpen opened before) (hopens : opening.1.opensGroup = true)
      (hinner : Nested inner) : LeavesOpen (opening :: opened) (before ++ opening :: inner)

/-- `ClosesWrongly bs e`: the first bracket of `bs` that does not close a group of its kind, as a
fault at its line. -/
inductive ClosesWrongly : List (Op × Nat) → Located SyntaxFault → Prop
  | mismatched {opening close : Op × Nat} {opened before : List (Op × Nat)}
      (after : List (Op × Nat)) (h : LeavesOpen (opening :: opened) before)
      (hcloses : close.1.closesGroup = true) (hmatch : close.1.closes opening.1 = false) :
      ClosesWrongly (before ++ close :: after) ⟨close.2, .mismatchedClose close.1 opening.1⟩
  | unmatched {close : Op × Nat} {before : List (Op × Nat)} (after : List (Op × Nat))
      (h : LeavesOpen [] before) (hcloses : close.1.closesGroup = true) :
      ClosesWrongly (before ++ close :: after) ⟨close.2, .unmatchedClose close.1⟩

/-- `BracketFault bs e`: what is wrong with brackets that are not nested, the first that closes
wrongly or else the innermost one left open. -/
inductive BracketFault : List (Op × Nat) → Located SyntaxFault → Prop
  | closes {bs : List (Op × Nat)} {e : Located SyntaxFault} (h : ClosesWrongly bs e) :
      BracketFault bs e
  | neverClosed {opening : Op × Nat} {opened bs : List (Op × Nat)}
      (h : LeavesOpen (opening :: opened) bs) :
      BracketFault bs ⟨opening.2, .neverClosed opening.1⟩

theorem Nested.append (h : Nested bs) (hrest : Nested cs) : Nested (bs ++ cs) := by
  induction h with
  | nil => exact hrest
  | group hclose hinner hrest ihinner ihrest =>
      rw [List.cons_append, List.append_assoc, List.cons_append]
      exact .group hclose hinner ihrest

theorem LeavesOpen.append (h : LeavesOpen opened bs) (hrest : Nested cs) :
    LeavesOpen opened (bs ++ cs) := by
  cases h with
  | nested h => exact .nested (h.append hrest)
  | opening h hopens hinner =>
      rw [List.append_assoc, List.cons_append]
      exact .opening h hopens (hinner.append hrest)

theorem LeavesOpen.closed (h : LeavesOpen (opening :: opened) bs)
    (hclose : close.1.closes opening.1 = true) : LeavesOpen opened (bs ++ [close]) := by
  cases h with
  | opening h hopens hinner =>
      rw [List.append_assoc, List.cons_append]
      exact h.append (.group hclose hinner .nil)

theorem ClosesWrongly.append (h : ClosesWrongly bs e) (cs : List (Op × Nat)) :
    ClosesWrongly (bs ++ cs) e := by
  cases h with
  | mismatched after h hcloses hmatch =>
      rw [List.append_assoc, List.cons_append]
      exact .mismatched (after ++ cs) h hcloses hmatch
  | unmatched after h hcloses =>
      rw [List.append_assoc, List.cons_append]
      exact .unmatched (after ++ cs) h hcloses

/-! ## Going through operators -/

/-- The brackets that are open after an operator at a line, or the fault at that line. -/
def openedBy (opened : List (Op × Nat)) (b : Op × Nat) :
    Except (Located SyntaxFault) (List (Op × Nat)) :=
  (openedAfter opened b.1 b.2).mapError (Located.mk b.2)

/-- The brackets that are open after some operators. -/
def leftOpen (opened ops : List (Op × Nat)) : Except (Located SyntaxFault) (List (Op × Nat)) :=
  ops.foldlM openedBy opened

/-- The brackets among some operators. -/
def brackets (ops : List (Op × Nat)) : List (Op × Nat) := ops.filter fun b => b.1.isBracket

theorem brackets_cons {b : Op × Nat} (h : b.1.isBracket = true) :
    brackets (b :: ops) = b :: brackets ops :=
  List.filter_cons_of_pos h

theorem brackets_cons_of_not {b : Op × Nat} (h : b.1.isBracket = false) :
    brackets (b :: ops) = brackets ops :=
  List.filter_cons_of_neg (Bool.eq_false_iff.mp h)

theorem brackets_append (ops ops' : List (Op × Nat)) :
    brackets (ops ++ ops') = brackets ops ++ brackets ops' :=
  List.filter_append ..

theorem openedBy_opening (h : opening.1.opensGroup = true) :
    openedBy opened opening = .ok (opening :: opened) :=
  congrArg (Except.mapError _) (openedAfter_opening h)

theorem openedBy_close (h : close.1.closesGroup = true) : openedBy opened close =
    match opened with
    | [] => .error ⟨close.2, .unmatchedClose close.1⟩
    | opening :: outer => if close.1.closes opening.1 then .ok outer
        else .error ⟨close.2, .mismatchedClose close.1 opening.1⟩ := by
  rw [openedBy, openedAfter_close h]
  cases opened with
  | nil => rfl
  | cons opening outer => exact apply_ite (Except.mapError (Located.mk close.2)) _ _ _

theorem openedBy_matched (h : close.1.closes opening.1 = true) :
    openedBy (opening :: opened) close = .ok opened :=
  congrArg (Except.mapError _) (openedAfter_matched h)

theorem openedBy_of_not_isBracket {b : Op × Nat} (h : b.1.isBracket = false) :
    openedBy opened b = .ok opened :=
  congrArg (Except.mapError _) (openedAfter_of_not_isBracket h)

theorem leftOpen_cons (b : Op × Nat) : leftOpen opened (b :: ops) =
    openedBy opened b >>= (leftOpen · ops) :=
  List.foldlM_cons

theorem leftOpen_append : leftOpen opened (bs ++ cs) = leftOpen opened bs >>= (leftOpen · cs) :=
  List.foldlM_append

theorem leftOpen_brackets : leftOpen opened (brackets ops) = leftOpen opened ops := by
  induction ops generalizing opened with
  | nil => rfl
  | cons b ops ih =>
      rw [leftOpen_cons]
      cases hb : b.1.isBracket with
      | true =>
          rw [brackets_cons hb, leftOpen_cons]
          exact congrArg _ (funext fun _ => ih)
      | false =>
          rw [brackets_cons_of_not hb, openedBy_of_not_isBracket hb]
          exact ih

/-- Operators that can be gone through can be gone through inside other brackets, which stay open.
-/
theorem leftOpen_within {left : List (Op × Nat)} (h : leftOpen opened ops = .ok left)
    (outer : List (Op × Nat)) : leftOpen (opened ++ outer) ops = .ok (left ++ outer) := by
  induction ops generalizing opened with
  | nil =>
      cases h
      rfl
  | cons b ops ih =>
      rw [leftOpen_cons] at h ⊢
      obtain ⟨opened', hopened, hrest⟩ := bind_eq_ok.mp h
      refine bind_eq_ok.mpr ⟨opened' ++ outer, ?_, ih hrest⟩
      exact mapError_eq_ok.mpr (openedAfter_append (mapError_eq_ok.mp hopened) outer)

theorem Nested.leftOpen_eq (h : Nested bs) : leftOpen opened bs = .ok opened := by
  induction h generalizing opened with
  | nil => rfl
  | group hclose hinner hrest ihinner ihrest =>
      rw [leftOpen_cons, openedBy_opening (Op.opensGroup_of_closes hclose), ok_bind,
        leftOpen_append, ihinner, ok_bind, leftOpen_cons, openedBy_matched hclose, ok_bind, ihrest]

theorem LeavesOpen.leftOpen_eq (h : LeavesOpen opened bs) : leftOpen [] bs = .ok opened := by
  induction h with
  | nested h => exact h.leftOpen_eq
  | opening h hopens hinner ih =>
      rw [leftOpen_append, ih, ok_bind, leftOpen_cons, openedBy_opening hopens, ok_bind,
        hinner.leftOpen_eq]

theorem ClosesWrongly.leftOpen_eq (h : ClosesWrongly bs e) : leftOpen [] bs = .error e := by
  cases h with
  | mismatched after h hcloses hmatch =>
      rw [leftOpen_append, h.leftOpen_eq, ok_bind, leftOpen_cons, openedBy_close hcloses]
      dsimp only
      rw [if_neg (Bool.eq_false_iff.mp hmatch)]
      rfl
  | unmatched after h hcloses =>
      rw [leftOpen_append, h.leftOpen_eq, ok_bind, leftOpen_cons, openedBy_close hcloses]
      rfl

/-- One operator more, after operators that could be gone through. -/
theorem LeavesOpen.next (h : LeavesOpen opened bs) (b : Op × Nat) :
    (∃ opened', openedBy opened b = .ok opened' ∧ LeavesOpen opened' (bs ++ brackets [b])) ∨
      ∃ e, openedBy opened b = .error e ∧ ClosesWrongly (bs ++ brackets [b]) e := by
  cases hb : b.1.isBracket with
  | false =>
      rw [brackets_cons_of_not hb]
      exact .inl ⟨opened, openedBy_of_not_isBracket hb, h.append .nil⟩
  | true =>
      rw [brackets_cons hb]
      rcases Bool.or_eq_true_iff.mp hb with hopens | hcloses
      · exact .inl ⟨b :: opened, openedBy_opening hopens, .opening h hopens .nil⟩
      · rw [openedBy_close hcloses]
        cases opened with
        | nil => exact .inr ⟨_, rfl, .unmatched [] h hcloses⟩
        | cons opening outer =>
            dsimp only
            cases hmatch : b.1.closes opening.1 with
            | true => exact .inl ⟨outer, if_pos rfl, h.closed hmatch⟩
            | false => exact .inr ⟨_, if_neg Bool.false_ne_true, .mismatched [] h hcloses hmatch⟩

/-- Operators are gone through to the end, or one of them closes wrongly. The operators are taken
one by one from the left, so the induction is on what comes before the last of them. -/
theorem leftOpen_cases (ops : List (Op × Nat)) :
    (∃ opened, leftOpen [] ops = .ok opened ∧ LeavesOpen opened (brackets ops)) ∨
      ∃ e, leftOpen [] ops = .error e ∧ ClosesWrongly (brackets ops) e := by
  induction ops using List.reverseRecOn with
  | nil => exact .inl ⟨[], rfl, .nested .nil⟩
  | append_singleton ops b ih =>
      rw [brackets_append, leftOpen_append]
      rcases ih with ⟨opened, hops, hleft⟩ | ⟨e, hops, hwrong⟩
      · rw [hops, ok_bind, leftOpen_cons]
        rcases hleft.next b with ⟨opened', hb, hleft'⟩ | ⟨e, hb, hwrong⟩
        · rw [hb]
          exact .inl ⟨opened', rfl, hleft'⟩
        · rw [hb]
          exact .inr ⟨e, rfl, hwrong⟩
      · rw [hops]
        exact .inr ⟨e, rfl, hwrong.append _⟩

theorem leftOpen_eq_ok : leftOpen [] ops = .ok opened ↔ LeavesOpen opened (brackets ops) := by
  refine ⟨fun h => ?_, fun h => leftOpen_brackets.symm.trans h.leftOpen_eq⟩
  rcases leftOpen_cases ops with ⟨opened', hops, hleft⟩ | ⟨e, hops, -⟩
  · cases hops.symm.trans h
    exact hleft
  · cases hops.symm.trans h

theorem leftOpen_eq_error : leftOpen [] ops = .error e ↔ ClosesWrongly (brackets ops) e := by
  refine ⟨fun h => ?_, fun h => leftOpen_brackets.symm.trans h.leftOpen_eq⟩
  rcases leftOpen_cases ops with ⟨opened, hops, -⟩ | ⟨e', hops, hwrong⟩
  · cases hops.symm.trans h
  · cases hops.symm.trans h
    exact hwrong

theorem leftOpen_eq_ok_nil : leftOpen [] ops = .ok [] ↔ Nested (brackets ops) := by
  refine leftOpen_eq_ok.trans ⟨fun h => ?_, .nested⟩
  cases h with
  | nested h => exact h

theorem leftOpen_inside_ne (hopens : opening.1.opensGroup = true) (h : Nested (brackets (bs ++ cs)))
    (before : List (Op × Nat)) : leftOpen opened (before ++ opening :: bs) ≠ .ok [] := by
  intro hnone
  rw [leftOpen_append] at hnone
  obtain ⟨outer, -, hnone⟩ := bind_eq_ok.mp hnone
  rw [leftOpen_cons, openedBy_opening hopens, ok_bind] at hnone
  have hinner := leftOpen_eq_ok_nil.mpr h
  rw [leftOpen_append] at hinner
  obtain ⟨left, hleft, -⟩ := bind_eq_ok.mp hinner
  have hopen := leftOpen_within hleft (opening :: outer)
  cases left <;> cases hopen.symm.trans hnone

end Token

end DepsManifest
