import DepsManifest.Proofs.Token.Lexing
import DepsManifest.Proofs.Token.Lines
/-! # Names are words

Every name among the tokens of a text is spelled as a name is: it begins with a letter or an
underscore, and goes on with these and with digits (`Token.isWord_of_mem`).

  * It is so of the lexemes: only one kind of piece becomes a name, the longest run of such
    characters (`Lexeme.isWord_of_at?`).
  * Laying out makes names of these lexemes and of no others, with the same spelling
    (`Token.exists_lexeme_of_mem`).

Keywords are names here; which of them are, is for the grammar to say.
-/
namespace DepsManifest

namespace Lexeme

theorem isWord_namePart {cs : List Char} (h : namePart cs ≠ []) :
    isWord (String.ofList (namePart cs)) = true := by
  cases cs with
  | nil => exact absurd rfl h
  | cons c cs =>
      cases hstart : isNameStart c with
      | false =>
          have hnil : namePart (c :: cs) = [] := if_neg (Bool.eq_false_iff.mp hstart)
          exact absurd hnil h
      | true =>
          have hpart : namePart (c :: cs) = c :: cs.takeWhile isNamePart := if_pos hstart
          have hrest : (cs.takeWhile isNamePart).all isNamePart = true := List.all_takeWhile
          simp only [isWord, hpart, String.toList_ofList, hstart, hrest, Bool.and_self]

theorem isWord_of_at? {c : Char} {cs : List Char} {l : Lexeme} (h : at? c cs = .ok l)
    (hkind : l.kind = .name) : isWord (String.ofList l.chars) = true := by
  rcases at?_eq_ok h with ⟨_, _, _, -, hl⟩ | ⟨-, hne, hl⟩
  · obtain ⟨_, _, hliteral⟩ := kind_of_literalAt hl
    rw [hliteral] at hkind
    cases hkind
  · rcases hl with rfl | rfl | rfl | rfl | ⟨op, -, rfl⟩
    · cases hkind
    · cases hkind
    · have hnonempty : namePart (c :: cs) ≠ [] := hne
      show isWord (String.ofList (namePart (c :: cs))) = true
      exact isWord_namePart hnonempty
    · cases hkind
    · cases hkind

/-- Each lexeme of a text stands at the beginning of a part of it. -/
theorem exists_at?_of_mem {read : Nat} {cs : List Char} {l : Lexeme}
    (h : l ∈ (allFrom read cs).1) : ∃ c rest, at? c rest = .ok l := by
  induction cs generalizing read with
  | nil =>
      cases read with
      | zero => cases h
      | succ read => cases h
  | cons c cs ih =>
      cases read with
      | succ read => exact ih h
      | zero =>
          cases hat : at? c cs with
          | error fault =>
              have hnone : allFrom 0 (c :: cs) = ([], some fault) := all_of_at?_error hat
              rw [hnone] at h
              cases h
          | ok first =>
              rw [allFrom_of_at? hat] at h
              rcases List.mem_cons.mp h with rfl | hrest
              · exact ⟨c, cs, hat⟩
              · exact ih hrest

end Lexeme

namespace Token

theorem place_name {context context' : Context} {line : Nat} {lexeme : Lexeme} {n : String}
    (h : place context line lexeme = .ok (some (.name n), context')) :
    lexeme.kind = .name ∧ n = String.ofList lexeme.chars := by
  unfold place at h
  split at h
  case h_3 hkind =>
    cases h
    exact ⟨hkind, rfl⟩
  case h_2 =>
    split at h
    · cases h
    · cases h
  case h_6 =>
    obtain ⟨opened, -, hplaced⟩ := bind_eq_ok.mp h
    cases hplaced
  all_goals cases h

theorem exists_lexeme_of_mem {fault : Option SyntaxFault} {context : Context} {p : Position}
    {ls : List Lexeme} {ts : List Token} (h : layOut fault context p ls = .ok ts) {t : Token}
    (ht : t ∈ ts) {n : String} (hkind : t.kind = .name n) :
    ∃ l ∈ ls, l.kind = .name ∧ n = String.ofList l.chars := by
  induction ls generalizing context p ts with
  | nil =>
      rcases layOut_nil_eq_ok h with ⟨rfl, rfl⟩ | ⟨rfl, rfl⟩
      · rcases List.mem_pair.mp ht with rfl | rfl
        · cases hkind
        · cases hkind
      · cases List.mem_singleton.mp ht
        cases hkind
  | cons l ls ih =>
      obtain ⟨kind, context', hplace, us, hus, rfl⟩ := layOut_cons_eq_ok.mp h
      rcases List.mem_append.mp ht with hfirst | hrest
      · cases kind with
        | none => cases hfirst
        | some kind =>
            cases List.mem_singleton.mp hfirst
            cases hkind
            obtain ⟨hl, hn⟩ := place_name hplace
            exact ⟨l, List.mem_cons_self, hl, hn⟩
      · obtain ⟨l', hl', hname⟩ := ih hus hrest
        exact ⟨l', List.mem_cons_of_mem l hl', hname⟩

theorem isWord_of_mem {text : String} {ts : List Token} (h : ofText text = .ok ts) {t : Token}
    (ht : t ∈ ts) {n : String} (hkind : t.kind = .name n) : Lexeme.isWord n = true := by
  obtain ⟨ls, hall, hout⟩ := ofChars_eq_ok h
  obtain ⟨l, hl, hname, rfl⟩ := exists_lexeme_of_mem hout ht hkind
  have hmem : l ∈ (Lexeme.allFrom 0 text.toList).1 := by
    have hls : (Lexeme.allFrom 0 text.toList).1 = ls := congrArg Prod.fst hall
    rwa [hls]
  obtain ⟨c, rest, hat⟩ := Lexeme.exists_at?_of_mem hmem
  exact Lexeme.isWord_of_at? hat hname

end Token

end DepsManifest
