import DepsManifest.Proofs.Token.LogicalLines
/-! # The pieces of a source

A source is made of names, string literals and operators; brackets, commas and colons only group
them, and ends of lines are none either. The keywords `and`, `or` and `not` are operators. Literals
next to one another are one piece, as they denote one text.

A token that is no literal adds its pieces before those of the tokens after it, whatever these are
(`Token.pieces_cons`). Only a literal looks at what comes next, so literals are taken together with
all that stand next to them (`Token.pieces_literals`). With these two the pieces of a source can be
taken piece by piece, as long as it is known what stands behind a literal.

At the end of a text no pieces are left (`Token.pieces_of_endOfText`).
-/
namespace DepsManifest

/-- A piece of a source: a name, a text, or the symbol of an operator. -/
inductive Piece where
  | name (name : String)
  | text (text : String)
  | symbol (symbol : String)
  deriving DecidableEq

/-- Whether a piece is a leaf of an expression, and no operator. -/
def Piece.isLeaf : Piece → Bool
  | .name _ | .text _ => true
  | .symbol _ => false

/-- The names that are operators. -/
def Parse.operatorNames : List String := ["and", "or", "not"]

/-- Whether an operator only groups: the brackets, the comma and the colon. -/
def Op.groups (op : Op) : Bool :=
  op.opensGroup || op.closesGroup || op == .comma || op == .colon

/-- Whether a kind of token is a literal, which is one piece with the literals around it. -/
def TokenKind.isLiteral : TokenKind → Bool
  | .literal _ _ => true
  | _ => false

/-- The piece of a token by itself, if it is one. -/
def TokenKind.pieces : TokenKind → List Piece
  | .name n => [if Parse.operatorNames.contains n then .symbol n else .name n]
  | .literal _ text => [.text text]
  | .op o => if o.groups then [] else [.symbol o.text]
  | .number _ | .newline | .endOfText => []

namespace Token

open Parse

/-- The pieces of some tokens, in order. -/
def pieces : List Token → List Piece
  | [] => []
  | t :: ts =>
    match t.kind with
    | .name n => (if operatorNames.contains n then .symbol n else .name n) :: pieces ts
    | .literal _ text =>
      match (current ts).kind, pieces ts with
      | .literal _ _, .text more :: rest => .text (text ++ more) :: rest
      | _, rest => .text text :: rest
    | .op op => if op.groups then pieces ts else .symbol op.text :: pieces ts
    | .number _ | .newline | .endOfText => pieces ts

def leaves (ts : List Token) : List Piece := (pieces ts).filter Piece.isLeaf

def symbols (ts : List Token) : List Piece := (pieces ts).filter (!·.isLeaf)

/-! ## Single tokens -/

theorem pieces_cons {t : Token} (h : t.kind.isLiteral = false) (ts : List Token) :
    pieces (t :: ts) = t.kind.pieces ++ pieces ts := by
  rw [pieces]
  cases hkind : t.kind with
  | literal kind text =>
      rw [hkind] at h
      cases h
  | op op => cases hgroups : op.groups <;> simp [TokenKind.pieces, hgroups]
  | _ => rfl

/-- Literals next to one another are one piece, if there are no more of them. -/
theorem pieces_literals {us ts : List Token} {literals : List (LiteralKind × String)}
    (hne : literals ≠ []) (hkinds : us.map kind = literals.map fun l => .literal l.1 l.2)
    (hafter : (current ts).kind.isLiteral = false) :
    pieces (us ++ ts) = .text (String.join (literals.map (·.2))) :: pieces ts := by
  induction literals generalizing us with
  | nil => exact absurd rfl hne
  | cons l more ih =>
      obtain ⟨t, us, rfl, ht, hus⟩ := List.map_eq_cons_iff.mp hkinds
      rw [List.cons_append, pieces, ht, List.map_cons, String.join_cons]
      dsimp only
      cases more with
      | nil =>
          rw [List.map_eq_nil_iff.mp hus, List.nil_append]
          split
          · rename_i hcurrent _
            rw [hcurrent] at hafter
            cases hafter
          · simp
      | cons l' more =>
          rw [ih (List.cons_ne_nil _ _) hus]
          obtain ⟨u, us, rfl, hu, -⟩ := List.map_eq_cons_iff.mp hus
          have hcurrent : (current ((u :: us) ++ ts)).kind = .literal l'.1 l'.2 := hu
          rw [hcurrent]

/-! ## The end of a text -/

theorem pieces_of_endOfText {text : String} {ts us : List Token} (h : ofText text = .ok ts)
    (hsuffix : us <:+ ts) (hend : (current us).kind = .endOfText) : pieces us = [] := by
  obtain ⟨ls, -, hout⟩ := ofChars_eq_ok h
  obtain ⟨inner, last, rfl, -, hinner⟩ := (following_layOut hout).ends
  cases us with
  | nil => rfl
  | cons t us =>
      have hkind : t.kind = .endOfText := hend
      rcases List.suffix_concat_iff.mp hsuffix with hnil | ⟨vs, hvs, hvs'⟩
      · cases hnil
      · cases vs with
        | nil =>
            cases hvs
            rw [pieces, hkind]
            rfl
        | cons v vs =>
            cases hvs
            exact absurd hkind (hinner _ (hvs'.subset List.mem_cons_self))

end Token

end DepsManifest
