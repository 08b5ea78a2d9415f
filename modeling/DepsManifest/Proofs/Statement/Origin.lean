import DepsManifest.Proofs.Evaluation.Module
import DepsManifest.Proofs.Statement.Lines
import DepsManifest.Proofs.Token.Names
/-! # Names that statements assign to are words

A name that a statement of a text assigns to is a name among the tokens of the text, and so it is
spelled as a name is (`Module.isWord_of_target?`). The steps are those of the text:

  * the name is an operand of its statement (`Statement.exists_operand_of_target?`);
  * what is read of a text stands in it, the statement and its operands too;
  * the text of a name is one token, the name itself (`Expr.StandsIn.exists_name`): of all kinds of
    nodes a name has one layout, and parentheses around it are no part of it.

So a name that is bound is not empty, and has neither brackets nor line breaks in it. That is what
paths and reports need to know of the names of a manifest.
-/
namespace DepsManifest

namespace Expr

theorem joinLiterals_ne_name (line line' : Nat) (literals : List (LiteralKind × String))
    (n : String) : Parse.Grammar.joinLiterals line literals ≠ .ok (.name line' n) := by
  unfold Parse.Grammar.joinLiterals
  dsimp only
  split
  · split <;> nofun
  · split <;> nofun

/-- The text of a name is a token of the source. -/
theorem StandsIn.exists_name {line : Nat} {n : String} {source : List Token}
    (h : (Expr.name line n).StandsIn source) : ∃ t ∈ source, t.kind = .name n := by
  obtain ⟨text, hwithin, htext⟩ := h
  rcases htext with ⟨⟨parts, hlayout, hfits, -⟩, -⟩ | ⟨_, _, _, _, heq, -⟩
  · rcases hlayout with hlayout | hlayout
    · cases hlayout with
      | literals _ hjoin => exact absurd hjoin (joinLiterals_ne_name _ _ _ _)
      | name =>
          have hspans : Parse.Spans text [] [.token (.name n)] :=
            ⟨text, (List.append_nil text).symm, hfits⟩
          obtain ⟨t, rfl, ht⟩ := hspans.exists_token
          exact ⟨t, hwithin.subset List.mem_cons_self, ht⟩
    · cases hlayout
  · cases heq

end Expr

namespace Statement

theorem exists_operand_of_target? {s : Statement} {n : String} (h : s.target? = some n) :
    ∃ line, .name line n ∈ s.operands := by
  cases s with
  | assign _ targets value =>
      rcases targets with _ | ⟨first, _ | ⟨second, more⟩⟩
      · cases h
      · cases first with
        | name line m =>
            cases h
            exact ⟨line, List.mem_cons_self⟩
        | _ => cases h
      · cases first <;> cases h
  | _ => cases h

end Statement

namespace Module

/-- The names that a text assigns to are spelled as names are. -/
theorem isWord_of_target? {text : String} {m : Module} (h : ofText text = .ok m) {s : Statement}
    (hs : s ∈ m.body) {n : String} (htarget : s.target? = some n) : Lexeme.isWord n = true := by
  obtain ⟨ts, hts, hm⟩ := bind_eq_ok.mp h
  obtain ⟨line, hoperand⟩ := Statement.exists_operand_of_target? htarget
  have hstands := (fitsBody_of_ofTokens hm).standsIn hs
  obtain ⟨t, ht, hkind⟩ := (hstands.operand hoperand).exists_name
  exact Token.isWord_of_mem hts ht hkind

end Module

end DepsManifest
