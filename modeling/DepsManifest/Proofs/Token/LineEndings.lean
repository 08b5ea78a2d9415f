import DepsManifest.Proofs.Token.Lines
/-! # Line breaks with a carriage return

A text whose lines end with a carriage return and a line feed has the tokens of the text whose lines
end with a line feed alone (`Token.ofChars_crlf`), under two conditions: the text has no carriage
return of its own, and no literal keeps one of its line breaks (`Lexeme.keepsBreak`). The body of a
literal goes into its meaning as it stands, carriage returns included, except where a backslash
takes the line break away.

## The way of the proof

It follows the three stages of the program:

  * **bodies** — a literal ends where it ended (`body?_crlf`), and a body without open line breaks
    means the same (`unescape_crlf`). An escape that takes no line break away is the same unit;
  * **lexemes** — they are the same otherwise (`Lexeme.Recut`), with the carriage return in the line
    break, in the continuation or, where a comment comes before the line break, in the comment
    (`all_crlf`). Names, numbers and operators have no line breaks, and are parts that look no
    further than the first one (`IsPart`);
  * **tokens** — every token stands where it stood, apart from the end of a line after a comment,
    which has another column (`layOut_recut`). A carriage return before a line feed is a character
    of a line that is over.

The relation of the two token lists allows for other columns at the ends of lines, since nothing
that reads tokens looks at those.
-/
namespace DepsManifest

namespace Text

/-- A text with a carriage return before every line feed. -/
def crlf (cs : List Char) : List Char := replace '\n' ['\r', '\n'] cs

theorem crlf_newline (cs : List Char) : crlf ('\n' :: cs) = '\r' :: '\n' :: crlf cs := rfl

theorem crlf_cons {c : Char} (h : c ≠ '\n') (cs : List Char) : crlf (c :: cs) = c :: crlf cs := by
  rw [crlf, replace, List.flatMap_cons, if_neg h]
  rfl

theorem crlf_append (cs ds : List Char) : crlf (cs ++ ds) = crlf cs ++ crlf ds :=
  List.flatMap_append

theorem crlf_of_not_mem {cs : List Char} (h : '\n' ∉ cs) : crlf cs = cs := by
  induction cs with
  | nil => rfl
  | cons c cs ih =>
      obtain ⟨hc, hcs⟩ := not_or.mp (mt List.mem_cons.mpr h)
      rw [crlf_cons (Ne.symm hc), ih hcs]

theorem cases_crlf (cs : List Char) : crlf cs = cs ∨
    ∃ line rest, cs = line ++ '\n' :: rest ∧ crlf cs = line ++ '\r' :: '\n' :: crlf rest := by
  by_cases hmem : '\n' ∈ cs
  · obtain ⟨line, rest, rfl, hline⟩ := List.eq_append_cons_of_mem hmem
    exact .inr ⟨line, rest, rfl, by rw [crlf_append, crlf_of_not_mem hline, crlf_newline]⟩
  · exact .inl (crlf_of_not_mem hmem)

theorem crlf_drop {k : Nat} {cs : List Char} (h : '\n' ∉ cs.take k) :
    (crlf cs).drop k = crlf (cs.drop k) := by
  have hlength : (cs.take k).length ≤ k := by
    rw [List.length_take]
    exact Nat.min_le_left _ _
  conv_lhs => rw [← List.take_append_drop k cs, crlf_append, crlf_of_not_mem h]
  by_cases hk : k ≤ cs.length
  · exact List.drop_left' (List.length_take_of_le hk)
  · rw [List.drop_of_length_le (Nat.le_of_not_le hk)]
    rw [crlf, replace, List.flatMap_nil, List.append_nil]
    exact List.drop_of_length_le hlength

theorem isSome_afterBeginning?_crlf {bs : List Char} (hnewline : '\n' ∉ bs) (hreturn : '\r' ∉ bs)
    (cs : List Char) : (afterBeginning? bs (crlf cs)).isSome = (afterBeginning? bs cs).isSome := by
  rcases cases_crlf cs with hsame | ⟨line, rest, rfl, hcrlf⟩
  · rw [hsame]
  · rw [hcrlf, isSome_afterBeginning?_append_cons hnewline,
      isSome_afterBeginning?_append_cons hreturn]

end Text

open Text

namespace IsPart

variable {part : List Char → List Char}

theorem crlf_eq (h : IsPart part) (cs : List Char) : part (crlf cs) = part cs := by
  rcases cases_crlf cs with hsame | ⟨line, rest, rfl, hcrlf⟩
  · rw [hsame]
  · rw [hcrlf, h.append_break (.inl rfl), h.append_break (.inr rfl)]

theorem drop_crlf (h : IsPart part) (cs : List Char) :
    (crlf cs).drop (part cs).length = crlf (cs.drop (part cs).length) := by
  refine crlf_drop ?_
  rw [← List.prefix_iff_eq_take.mp (h.begins cs)]
  exact h.not_mem (.inl rfl) cs

end IsPart

/-! ## Literals -/

namespace Delimiter

variable {d : Delimiter}

theorem isQuote_of_mem_chars (h : Literal.isQuote d.quote = true) {c : Char} (hc : c ∈ d.chars) :
    Literal.isQuote c = true := by
  have hq : c = d.quote := by
    rw [chars] at hc
    split at hc
    · simpa using hc
    · simpa using hc
  rw [hq]
  exact h

theorem not_mem_chars {c : Char} (h : Literal.isQuote d.quote = true)
    (hc : Literal.isQuote c = false) : c ∉ d.chars :=
  fun hmem => Bool.false_ne_true (hc.symm.trans (isQuote_of_mem_chars h hmem))

theorem isSome_afterBeginning?_chars (h : Literal.isQuote d.quote = true) {c : Char}
    (hc : Literal.isQuote c = false) (cs : List Char) :
    (afterBeginning? d.chars (c :: cs)).isSome = false := by
  have hnil : (afterBeginning? d.chars []).isSome = false := by
    rw [chars]
    split <;> rfl
  rw [← hnil]
  exact isSome_afterBeginning?_append_cons (not_mem_chars h hc) [] cs

/-- A literal ends where it ended. -/
theorem body?_crlf (hquote : Literal.isQuote d.quote = true) {cs : List Char}
    (hreturn : '\r' ∉ cs) : d.body? (crlf cs) = (d.body? cs).map crlf := by
  induction cs using inductionOnBody with
  | nil => rfl
  | lone => rfl
  | continued cs ih => exact absurd (List.mem_cons_of_mem _ List.mem_cons_self) hreturn
  | escaped c cs hbreak ih =>
      have hcs : '\r' ∉ cs := fun h => hreturn (List.mem_cons_of_mem _ (List.mem_cons_of_mem _ h))
      rw [crlf_cons (by decide), body?.eq_4 d c cs hbreak, Option.map_map]
      by_cases hnewline : c = '\n'
      · subst hnewline
        rw [crlf_newline, body?, ih hcs, Option.map_map]
        rfl
      · have hc : c ≠ '\r' := by
          rintro rfl
          exact hreturn (List.mem_cons_of_mem _ List.mem_cons_self)
        rw [crlf_cons hnewline, body?.eq_4 d c _ (fun _ h => absurd h hc), ih hcs, Option.map_map]
        refine congrArg (Option.map · _) (funext fun body => ?_)
        show '\\' :: c :: crlf body = crlf ('\\' :: c :: body)
        rw [crlf_cons (by decide), crlf_cons hnewline]
  | plain c cs hslash ih =>
      have hcs : '\r' ∉ cs := fun h => hreturn (List.mem_cons_of_mem _ h)
      rw [body?_cons hslash]
      by_cases hnewline : c = '\n'
      · subst hnewline
        have hnone := fun c hc cs => Bool.eq_false_iff.mp
          (isSome_afterBeginning?_chars (d := d) hquote (c := c) hc cs)
        rw [if_neg (hnone _ rfl _), crlf_newline, body?_cons (by decide), if_neg (hnone _ rfl _),
          if_neg (fun h => absurd h.1 (by decide)), body?_cons (by decide), if_neg (hnone _ rfl _),
          ih hcs]
        split
        · rfl
        · rw [Option.map_map, Option.map_map, Option.map_map]
          rfl
      · have hcloses := isSome_afterBeginning?_crlf (not_mem_chars (c := '\n') hquote rfl)
          (not_mem_chars (c := '\r') hquote rfl) (c :: cs)
        have hgoesOn : ¬ (c = '\n' ∧ ¬ d.triple = true) := fun h => hnewline h.1
        rw [crlf_cons hnewline] at hcloses ⊢
        rw [body?_cons hslash, hcloses, ih hcs, if_neg hgoesOn, if_neg hgoesOn, Option.map_map]
        split
        · rfl
        · rw [Option.map_map]
          exact congrArg (Option.map · _) (funext fun body => (crlf_cons hnewline body).symm)

end Delimiter

namespace Literal

theorem opening?_crlf (cs : List Char) :
    opening? (crlf cs) = (opening? cs).map fun (marks, d, after) => (marks, d, crlf after) := by
  have hmarks := isPart_marks.crlf_eq cs
  have hdrop := isPart_marks.drop_crlf cs
  unfold opening?
  dsimp only at hmarks hdrop ⊢
  rw [hmarks, hdrop]
  cases cs.drop ((cs.takeWhile isMark).take 2).length with
  | nil => rfl
  | cons quote after =>
      by_cases hnewline : quote = '\n'
      · subst hnewline
        rfl
      · rw [crlf_cons hnewline]
        dsimp only
        split
        · rename_i hquote
          have hquotes : ∀ c, isQuote c = false → c ∉ [quote, quote] := by
            intro c hc hmem
            obtain rfl : c = quote := by simpa using hmem
            exact Bool.false_ne_true (hc.symm.trans hquote)
          have hdelimiter : delimiter quote (crlf after) = delimiter quote after := by
            rw [delimiter, delimiter, isSome_afterBeginning?_crlf (hquotes _ rfl) (hquotes _ rfl)]
          have htake : '\n' ∉ after.take ((delimiter quote after).chars.length - 1) := by
            cases htriple : (afterBeginning? [quote, quote] after).isSome with
            | true =>
                obtain ⟨rest, rfl⟩ := isSome_afterBeginning?_iff.mp htriple
                rw [delimiter, htriple]
                exact hquotes _ rfl
            | false =>
                rw [delimiter, htriple]
                exact List.not_mem_nil
          rw [hdelimiter, crlf_drop htake]
          rfl
        · rfl

/-- Whether a body has a line break that no backslash takes away. -/
def hasOpenBreak : List Char → Bool
  | [] => false
  | '\\' :: _ :: cs => hasOpenBreak cs
  | c :: cs => c == '\n' || hasOpenBreak cs

theorem hasOpenBreak_cons {c : Char} (h : c ≠ '\\') (cs : List Char) :
    hasOpenBreak (c :: cs) = (c == '\n' || hasOpenBreak cs) := by
  rw [hasOpenBreak]
  exact fun _ _ heq => absurd heq h

def isPlain (c : Char) : Bool := c != '\\' && c != '\n'

theorem hasOpenBreak_drop {k : Nat} {cs : List Char} (h : ∀ c ∈ cs.take k, isPlain c = true) :
    hasOpenBreak (cs.drop k) = hasOpenBreak cs := by
  induction k generalizing cs with
  | zero => rfl
  | succ k ih =>
      cases cs with
      | nil => rfl
      | cons c cs =>
          obtain ⟨hc, hcs⟩ := List.forall_mem_cons.mp (List.take_succ_cons ▸ h)
          rw [isPlain, Bool.and_eq_true, bne_iff_ne, bne_iff_ne] at hc
          rw [List.drop_succ_cons, ih hcs, hasOpenBreak_cons hc.1, beq_false_of_ne hc.2,
            Bool.false_or]

theorem hasOpenBreak_of_append {cs ds : List Char} (h : hasOpenBreak (cs ++ ds) = false) :
    hasOpenBreak cs = false := by
  induction cs using Delimiter.inductionOnBody with
  | nil => rfl
  | lone => rfl
  | continued cs ih => cases h
  | escaped c cs _ ih => exact ih h
  | plain c cs hslash ih =>
      rw [List.cons_append, hasOpenBreak_cons hslash, Bool.or_eq_false_iff] at h
      rw [hasOpenBreak_cons hslash, h.1, ih h.2]
      rfl

/-! ## The meaning of a literal -/

theorem isPlain_of_digitValue? {base : Nat} {c : Char} (h : (digitValue? base c).isSome = true) :
    isPlain c = true := by
  rw [isPlain, Bool.and_eq_true, bne_iff_ne, bne_iff_ne]
  constructor
  · rintro rfl
    cases h
  · rintro rfl
    cases h

theorem octalCode_crlf (n code : Nat) (cs : List Char) :
    octalCode n code (crlf cs) = octalCode n code cs ∧
      ∀ c ∈ cs.take (octalCode n code cs).2, isPlain c = true := by
  induction n generalizing code cs with
  | zero => exact ⟨by rw [octalCode, octalCode], fun c hc => by rw [octalCode] at hc; cases hc⟩
  | succ n ih =>
      cases cs with
      | nil => exact ⟨rfl, List.forall_mem_nil _⟩
      | cons c cs =>
          by_cases hnewline : c = '\n'
          · subst hnewline
            exact ⟨rfl, List.forall_mem_nil _⟩
          · rw [crlf_cons hnewline, octalCode, octalCode]
            cases hdigit : digitValue? 8 c with
            | none => exact ⟨rfl, List.forall_mem_nil _⟩
            | some digit =>
                obtain ⟨hsame, hplain⟩ := ih (code * 8 + digit) cs
                dsimp only
                rw [hsame]
                refine ⟨rfl, List.forall_mem_cons.mpr ⟨?_, hplain⟩⟩
                exact isPlain_of_digitValue? (Option.isSome_iff_exists.mpr ⟨digit, hdigit⟩)

theorem hexadecimalCode?_crlf {n code value : Nat} {cs : List Char}
    (h : hexadecimalCode? n code cs = some value) :
    hexadecimalCode? n code (crlf cs) = some value ∧ ∀ c ∈ cs.take n, isPlain c = true := by
  induction n generalizing code cs with
  | zero => exact ⟨h, nofun⟩
  | succ n ih =>
      cases cs with
      | nil => cases h
      | cons c cs =>
          rw [hexadecimalCode?] at h
          cases hdigit : digitValue? 16 c with
          | none =>
              rw [hdigit] at h
              cases h
          | some digit =>
              rw [hdigit] at h
              have hplain := isPlain_of_digitValue? (Option.isSome_iff_exists.mpr ⟨digit, hdigit⟩)
              obtain ⟨hsame, hrest⟩ := ih h
              have hnewline : c ≠ '\n' := by
                rintro rfl
                cases hplain
              rw [crlf_cons hnewline, hexadecimalCode?, hdigit]
              exact ⟨hsame, List.forall_mem_cons.mpr ⟨hplain, hrest⟩⟩

/-- An escape that takes no line break away is the same unit, and its digits are plain. -/
theorem escapeAt_crlf {c : Char} (hnewline : c ≠ '\n') (hreturn : c ≠ '\r') {cs : List Char}
    {u : BodyUnit} (h : escapeAt (c :: cs) = .ok u) : escapeAt (c :: crlf cs) = .ok u ∧
      ∃ k, u.length = k + 2 ∧ ∀ d ∈ cs.take k, isPlain d = true := by
  rw [escapeAt.eq_5 c _ hnewline (fun _ hc => absurd hc hreturn) hreturn] at h ⊢
  cases hletter : letterEscape? c with
  | some meaning =>
      rw [hletter] at h
      cases h
      exact ⟨rfl, 0, rfl, List.forall_mem_nil _⟩
  | none =>
      rw [hletter] at h
      dsimp only at h ⊢
      cases hoctal : digitValue? 8 c with
      | some digit =>
          rw [hoctal] at h
          obtain ⟨hsame, hplain⟩ := octalCode_crlf 2 (0 * 8 + digit) cs
          have hcode : ∀ cs, octalCode 3 0 (c :: cs) =
              ((octalCode 2 (0 * 8 + digit) cs).1, (octalCode 2 (0 * 8 + digit) cs).2 + 1) := by
            intro cs
            rw [octalCode, hoctal]
          rw [hcode] at h ⊢
          cases h
          rw [hsame]
          exact ⟨rfl, _, rfl, hplain⟩
      | none =>
          rw [hoctal] at h
          rw [Option.isSome_none, if_neg Bool.false_ne_true] at h ⊢
          cases hdigits : escapeDigits? c with
          | none =>
              rw [hdigits] at h
              cases h
              exact ⟨rfl, 0, rfl, List.forall_mem_nil _⟩
          | some digits =>
              rw [hdigits] at h
              dsimp only at h ⊢
              cases hcode : hexadecimalCode? digits 0 cs with
              | none =>
                  rw [hcode] at h
                  cases h
              | some code =>
                  obtain ⟨hsame, hplain⟩ := hexadecimalCode?_crlf hcode
                  rw [hcode] at h
                  rw [hsame]
                  refine ⟨h, digits, ?_, hplain⟩
                  dsimp only at h
                  split at h
                  · cases h
                  · cases h
                    rfl

/-- A body without open line breaks means the same. -/
theorem unescape_crlf {cs text : List Char} (hreturn : '\r' ∉ cs) (hbreak : hasOpenBreak cs = false)
    (h : unescape cs = .ok text) : unescape (crlf cs) = .ok text := by
  induction hn : cs.length using Nat.strong_induction_on generalizing cs text with
  | _ n ih =>
      subst hn
      rcases cs with _ | ⟨c, cs⟩
      · exact h
      have hcs : '\r' ∉ cs := fun h => hreturn (List.mem_cons_of_mem _ h)
      rw [unescape_cons, bind_eq_ok] at h
      obtain ⟨u, hu, h⟩ := h
      obtain ⟨rest, hrest, h⟩ := bind_eq_ok.mp h
      cases h
      -- the units after the first mean the same, wherever that ends
      have hlater : '\r' ∉ cs.drop (u.length - 1) := fun h => hcs (List.mem_of_mem_drop h)
      have hshorter : (cs.drop (u.length - 1)).length < (c :: cs).length := by
        rw [List.length_drop, List.length_cons]
        omega
      have hafter := fun hbreak => ih _ hshorter hlater hbreak hrest rfl
      by_cases hslash : c = '\\'
      · subst hslash
        rw [unitAt, if_pos rfl] at hu
        rw [crlf_cons (by decide), unescape_cons, unitAt, if_pos rfl]
        rcases cs with _ | ⟨c, cs⟩
        · cases hu
          cases hrest
          rfl
        by_cases hnewline : c = '\n'
        · subst hnewline
          cases hu
          exact bind_eq_ok.mpr ⟨⟨[], 3⟩, rfl, bind_eq_ok.mpr ⟨rest, hafter hbreak, rfl⟩⟩
        · have hc : c ≠ '\r' := fun heq => hcs (heq ▸ List.mem_cons_self)
          obtain ⟨hsame, k, hlength, hplain⟩ := escapeAt_crlf hnewline hc hu
          have hopen : hasOpenBreak cs = false := hbreak
          have htaken : '\n' ∉ cs.take k := fun hmem => by cases hplain _ hmem
          have hdrop := crlf_drop htaken
          rw [crlf_cons hnewline, hsame, ok_bind, hlength]
          rw [hlength] at hafter
          refine bind_eq_ok.mpr ⟨rest, ?_, rfl⟩
          show unescape ((crlf cs).drop k) = .ok rest
          rw [hdrop]
          exact hafter ((hasOpenBreak_drop hplain).trans hopen)
      · rw [unitAt, if_neg hslash] at hu
        cases hu
        rw [hasOpenBreak_cons hslash, Bool.or_eq_false_iff] at hbreak
        rw [crlf_cons (ne_of_beq_false hbreak.1), unescape_cons, unitAt, if_neg hslash]
        exact bind_eq_ok.mpr ⟨⟨[c], 1⟩, rfl, bind_eq_ok.mpr ⟨rest, hafter hbreak.2, rfl⟩⟩

end Literal

/-! ## Lexemes -/

namespace Lexeme

/-- Whether a lexeme is a literal that keeps one of its line breaks: it is raw, or no backslash
takes the line break away. -/
def keepsBreak (l : Lexeme) : Bool :=
  match l.kind with
  | .literal _ _ =>
    if Literal.isRaw (l.chars.takeWhile Literal.isMark) then l.chars.contains '\n'
    else Literal.hasOpenBreak l.chars
  | _ => false

def withCrlf (l : Lexeme) : Lexeme := ⟨l.kind, crlf l.chars⟩

theorem takeWhile_isMark_chars {marks : List Char} (hmarks : ∀ c ∈ marks, Literal.isMark c = true)
    {d : Delimiter} (hquote : Literal.isQuote d.quote = true) (cs : List Char) :
    (marks ++ (d.chars ++ cs)).takeWhile Literal.isMark = marks := by
  obtain ⟨more, hmore⟩ := d.chars_eq_cons
  rw [hmore, List.cons_append, Literal.takeWhile_isMark hmarks hquote]

theorem isPlain_of_mem_opening {marks : List Char} (hmarks : ∀ c ∈ marks, Literal.isMark c = true)
    {d : Delimiter} (hquote : Literal.isQuote d.quote = true) :
    ∀ c ∈ marks ++ d.chars, Literal.isPlain c = true := by
  intro c hc
  rw [Literal.isPlain, Bool.and_eq_true, bne_iff_ne, bne_iff_ne]
  rcases List.mem_append.mp hc with hmark | hchars
  · exact ⟨ne_of_class (hmarks c hmark) rfl, ne_of_class (hmarks c hmark) rfl⟩
  · have hq := Delimiter.isQuote_of_mem_chars hquote hchars
    exact ⟨ne_of_class hq rfl, ne_of_class hq rfl⟩

theorem decode_crlf {marks body text : List Char} {d : Delimiter} {kind : LiteralKind}
    {value : String} (hmarks : ∀ c ∈ marks, Literal.isMark c = true)
    (hquote : Literal.isQuote d.quote = true) (hreturn : '\r' ∉ body)
    (hkept : keepsBreak ⟨.literal kind value, marks ++ d.chars ++ body ++ d.chars⟩ = false)
    (h : Literal.decode marks body = .ok text) : Literal.decode marks (crlf body) = .ok text := by
  unfold keepsBreak at hkept
  dsimp only at hkept
  rw [List.append_assoc, List.append_assoc, takeWhile_isMark_chars hmarks hquote,
    ← List.append_assoc] at hkept
  rw [Literal.decode] at h ⊢
  split at hkept
  · rename_i hraw
    rw [if_pos hraw] at h ⊢
    have hnewline : '\n' ∉ body := by
      intro hmem
      rw [List.contains_eq_mem, decide_eq_false_iff_not] at hkept
      exact hkept (List.mem_append_right _ (List.mem_append_left _ hmem))
    rw [crlf_of_not_mem hnewline]
    exact h
  · rename_i hraw
    rw [if_neg hraw] at h ⊢
    have hplain : ∀ c ∈ (marks ++ d.chars ++ (body ++ d.chars)).take (marks ++ d.chars).length,
        Literal.isPlain c = true := by
      rw [List.take_left]
      exact isPlain_of_mem_opening hmarks hquote
    have hopen := Literal.hasOpenBreak_drop hplain
    rw [List.drop_left, hkept] at hopen
    exact Literal.unescape_crlf hreturn (Literal.hasOpenBreak_of_append hopen) h

theorem literalAt_crlf {marks after : List Char} {d : Delimiter} {l : Lexeme}
    (hmarks : ∀ c ∈ marks, Literal.isMark c = true) (hquote : Literal.isQuote d.quote = true)
    (hreturn : '\r' ∉ after) (h : literalAt marks d after = .ok l) (hkept : l.keepsBreak = false) :
    literalAt marks d (crlf after) = .ok l.withCrlf := by
  unfold literalAt at h ⊢
  rw [Delimiter.body?_crlf hquote hreturn]
  cases hbody : d.body? after with
  | none =>
      rw [hbody] at h
      cases h
  | some body =>
      rw [hbody] at h
      obtain ⟨text, htext, hl⟩ := bind_eq_ok.mp h
      cases hl
      have hbegins := (Delimiter.body?_closed hquote hbody).1
      have hbodyReturn : '\r' ∉ body := fun hmem =>
        hreturn (hbegins.subset (List.mem_append_left _ hmem))
      have hopening := isPlain_of_mem_opening hmarks hquote
      have hsame : crlf (marks ++ d.chars) = marks ++ d.chars :=
        crlf_of_not_mem fun hmem => by cases hopening _ hmem
      have hchars : crlf d.chars = d.chars :=
        crlf_of_not_mem (Delimiter.not_mem_chars hquote rfl)
      have hdecode := decode_crlf hmarks hquote hbodyReturn hkept htext
      refine bind_eq_ok.mpr ⟨text, hdecode, ?_⟩
      rw [withCrlf, crlf_append, crlf_append, hsame, hchars]
      rfl

theorem withCrlf_of_not_mem {l : Lexeme} (h : '\n' ∉ l.chars) : l.withCrlf = l := by
  rw [withCrlf, crlf_of_not_mem h]

theorem opAt?_crlf (cs : List Char) : opAt? (crlf cs) = opAt? cs := by
  simp only [opAt?, isSome_afterBeginning?_crlf (break_not_mem_chars (.inl rfl) _)
    (break_not_mem_chars (.inr rfl) _)]

theorem newline_not_mem_of_kind {c : Char} {cs : List Char} {l : Lexeme} (h : at? c cs = .ok l)
    (hkind : l.kind = .name ∨ l.kind = .number) : '\n' ∉ l.chars := by
  rcases at?_eq_ok h with ⟨_, _, _, -, hl⟩ | ⟨-, -, rfl | rfl | rfl | rfl | ⟨op, -, rfl⟩⟩
  · obtain ⟨_, _, hliteral⟩ := kind_of_literalAt hl
    rw [hliteral] at hkind
    rcases hkind with hkind | hkind <;> cases hkind
  · rcases hkind with hkind | hkind <;> cases hkind
  · rcases hkind with hkind | hkind <;> cases hkind
  · exact isPart_namePart.not_mem (.inl rfl) (c :: cs)
  · exact isPart_numberPart.not_mem (.inl rfl) (c :: cs)
  · rcases hkind with hkind | hkind <;> cases hkind

theorem newline_not_mem_of_opening? {c : Char} {cs : List Char} {l : Lexeme} (hhash : c ≠ '#')
    (hslash : c ≠ '\\') (hnewline : c ≠ '\n') (hreturn : c ≠ '\r') (h : at? c cs = .ok l)
    (hliteral : Literal.opening? (c :: cs) = none) : '\n' ∉ l.chars := by
  rcases at?_eq_ok h with ⟨_, _, _, hopening, -⟩ | ⟨-, -, rfl | rfl | rfl | rfl | ⟨op, -, rfl⟩⟩
  · rw [hliteral] at hopening
    cases hopening
  · rw [blankPart_eq_takeWhile hhash hslash]
    exact (isPart_takeWhile (p := isSpace) rfl rfl).not_mem (.inl rfl) (c :: cs)
  · rw [breakPart_eq_nil hnewline hreturn]
    exact List.not_mem_nil
  · exact isPart_namePart.not_mem (.inl rfl) (c :: cs)
  · exact isPart_numberPart.not_mem (.inl rfl) (c :: cs)
  · exact break_not_mem_chars (.inl rfl) op

/-- A lexeme that is no comment and keeps no line break is the same with its line breaks. -/
theorem at?_crlf {c : Char} {cs : List Char} {l : Lexeme} (hhash : c ≠ '#')
    (hreturn : '\r' ∉ c :: cs) (h : at? c cs = .ok l) (hkept : l.keepsBreak = false) :
    ∃ c' cs', crlf (c :: cs) = c' :: cs' ∧ at? c' cs' = .ok l.withCrlf := by
  by_cases hnewline : c = '\n'
  · subst hnewline
    rw [at?_newline] at h
    cases h
    exact ⟨'\r', '\n' :: crlf cs, rfl, rfl⟩
  by_cases hslash : c = '\\'
  · subst hslash
    obtain ⟨after, ⟨rfl, rfl⟩ | ⟨rfl, rfl⟩⟩ := at?_backslash h
    · exact ⟨'\\', '\r' :: '\n' :: crlf after, rfl, rfl⟩
    · exact absurd (List.mem_cons_of_mem _ List.mem_cons_self) hreturn
  refine ⟨c, crlf cs, crlf_cons hnewline cs, ?_⟩
  have hc : c ≠ '\r' := fun heq => hreturn (heq ▸ List.mem_cons_self)
  have hopening := Literal.opening?_crlf (c :: cs)
  rw [crlf_cons hnewline] at hopening
  rcases at?_eq_ok h with ⟨marks, d, after, hliteral, hl⟩ | ⟨hliteral, -, -⟩
  · rw [hliteral] at hopening
    obtain ⟨hopens, htext⟩ := Literal.opening?_eq_some_iff.mp hliteral
    have hafter : '\r' ∉ after := by
      intro hmem
      rw [htext] at hreturn
      exact hreturn (List.mem_append_right _ (List.mem_append_right _ hmem))
    unfold at?
    dsimp only
    rw [hopening]
    exact literalAt_crlf hopens.marked hopens.quoted hafter hl hkept
  · have hsame : l.withCrlf = l :=
      withCrlf_of_not_mem (newline_not_mem_of_opening? hhash hslash hnewline hc h hliteral)
    have hblank := (isPart_takeWhile (p := isSpace) rfl rfl).crlf_eq (c :: cs)
    have hname := isPart_namePart.crlf_eq (c :: cs)
    have hnumber := isPart_numberPart.crlf_eq (c :: cs)
    have hop := opAt?_crlf (c :: cs)
    rw [crlf_cons hnewline] at hblank hname hnumber hop
    rw [hliteral] at hopening
    rw [hsame, ← h]
    unfold at?
    dsimp only
    rw [hopening, hliteral, blankPart_eq_takeWhile hhash hslash,
      blankPart_eq_takeWhile hhash hslash, breakPart_eq_nil hnewline hc,
      breakPart_eq_nil hnewline hc, hblank, hname, hnumber, hop]
    rfl

/-! ## Texts -/

/-- What becomes of the lexemes of a text: they are the same with their line breaks, only a comment
takes the carriage return that comes after it. -/
inductive Recut : List Lexeme → List Lexeme → Prop
  | nil : Recut [] []
  | cons {l : Lexeme} {ls ls' : List Lexeme}
      (hname : l.kind = .name ∨ l.kind = .number → '\n' ∉ l.chars) (h : Recut ls ls') :
      Recut (l :: ls) (l.withCrlf :: ls')
  | comment {cs : List Char} {ls ls' : List Lexeme} (h : Recut ls ls') :
      Recut (⟨.blank, cs⟩ :: ⟨.lineBreak, ['\n']⟩ :: ls)
        (⟨.blank, cs ++ ['\r']⟩ :: ⟨.lineBreak, ['\n']⟩ :: ls')

theorem all_comment {line : List Char} (hline : '\n' ∉ line) (rest : List Char) :
    all ('#' :: (line ++ '\n' :: rest)) =
      (⟨.blank, '#' :: line⟩ :: ⟨.lineBreak, ['\n']⟩ :: (all rest).1, (all rest).2) := by
  have hall := all_append_of_at? (l := ⟨.blank, '#' :: line⟩) rfl (at?_comment hline rest)
  rw [all_newline] at hall
  exact hall

theorem all_crlf_comment {line : List Char} (hline : '\n' ∉ line) (rest : List Char) :
    all (crlf ('#' :: (line ++ '\n' :: rest))) =
      (⟨.blank, '#' :: (line ++ ['\r'])⟩ :: ⟨.lineBreak, ['\n']⟩ :: (all (crlf rest)).1,
        (all (crlf rest)).2) := by
  have hline' : '\n' ∉ line ++ ['\r'] := by
    rw [List.mem_append, not_or]
    exact ⟨hline, by decide⟩
  have hall := all_comment hline' (crlf rest)
  rw [List.append_assoc, List.singleton_append] at hall
  rw [crlf_cons (by decide), crlf_append, crlf_of_not_mem hline, crlf_newline]
  exact hall

theorem all_crlf_cons {c : Char} {more after : List Char} {l : Lexeme}
    (hcomment : ¬ (c = '#' ∧ '\n' ∈ more ++ after)) (hreturn : '\r' ∉ c :: (more ++ after))
    (hat : at? c (more ++ after) = .ok l) (hchars : l.chars = c :: more)
    (hkept : l.keepsBreak = false) : all (crlf (c :: (more ++ after))) =
      (l.withCrlf :: (all (crlf after)).1, (all (crlf after)).2) := by
  have hcut : ∃ c' cs', crlf (c :: (more ++ after)) = c' :: cs' ∧ at? c' cs' = .ok l.withCrlf := by
    by_cases hhash : c = '#'
    · have hline : '\n' ∉ c :: (more ++ after) := by
        rw [List.mem_cons, not_or, hhash]
        exact ⟨by decide, fun hmem => hcomment ⟨hhash, hmem⟩⟩
      have hnewline : '\n' ∉ l.chars := by
        rw [hchars]
        exact fun hmem => hline (List.mem_append_left after hmem)
      rw [crlf_of_not_mem hline, withCrlf_of_not_mem hnewline]
      exact ⟨c, more ++ after, rfl, hat⟩
    · exact at?_crlf hhash hreturn hat hkept
  obtain ⟨c', _, htext, hat'⟩ := hcut
  obtain ⟨more', after', rfl, hchars', hall⟩ := all_of_at? hat'
  have hsplit : c' :: (more' ++ after') = c' :: (more' ++ crlf after) := by
    rw [← htext, ← List.cons_append, ← hchars, crlf_append, ← List.cons_append, ← hchars']
    rfl
  obtain rfl : after' = crlf after := List.append_cancel_left (List.cons.inj hsplit).2
  rw [htext, hall _ hat']

/-- A text without carriage returns, none of whose literals keeps a line break, is cut into the same
lexemes with its line breaks. -/
theorem all_crlf {cs : List Char} {ls : List Lexeme} (hreturn : '\r' ∉ cs) (h : all cs = (ls, none))
    (hkept : ∀ l ∈ ls, l.keepsBreak = false) :
    ∃ ls', all (crlf cs) = (ls', none) ∧ Recut ls ls' := by
  induction hn : cs.length using Nat.strong_induction_on generalizing cs ls with
  | _ n ih =>
      subst hn
      rcases cs with _ | ⟨c, cs⟩
      · cases h
        exact ⟨[], rfl, .nil⟩
      by_cases hcomment : c = '#' ∧ '\n' ∈ cs
      · obtain ⟨rfl, hnewline⟩ := hcomment
        obtain ⟨line, rest, rfl, hline⟩ := List.eq_append_cons_of_mem hnewline
        rw [all_comment hline] at h
        obtain ⟨rfl, hnone⟩ := Prod.mk.inj h
        have hshorter : rest.length < ('#' :: (line ++ '\n' :: rest)).length := by
          simp only [List.length_cons, List.length_append]
          omega
        obtain ⟨ls', hls', hrecut⟩ := ih rest.length hshorter
          (fun hmem => hreturn (by simp [hmem])) (Prod.ext rfl hnone)
          (fun l hl => hkept l (List.mem_cons_of_mem _ (List.mem_cons_of_mem _ hl))) rfl
        refine ⟨_, ?_, @Recut.comment ('#' :: line) _ _ hrecut⟩
        rw [all_crlf_comment hline, hls']
        rfl
      cases hat : at? c cs with
      | error fault =>
          rw [all_of_at?_error hat] at h
          cases h
      | ok l =>
          obtain ⟨more, after, rfl, hchars, hall⟩ := all_of_at? hat
          rw [hall after hat] at h
          obtain ⟨rfl, hnone⟩ := Prod.mk.inj h
          obtain ⟨hl, hrest⟩ := List.forall_mem_cons.mp hkept
          have hshorter : after.length < (c :: (more ++ after)).length := by
            simp only [List.length_cons, List.length_append]
            omega
          obtain ⟨ls', hls', hrecut⟩ := ih after.length hshorter
            (fun hmem => hreturn (by simp [hmem])) (Prod.ext rfl hnone) hrest rfl
          refine ⟨l.withCrlf :: ls', ?_, .cons (newline_not_mem_of_kind hat) hrecut⟩
          rw [all_crlf_cons hcomment hreturn hat hchars hl, hls']

end Lexeme

/-! ## Tokens -/

namespace Position

theorem after_crlf (p : Position) (cs : List Char) : p.after (crlf cs) = p.after cs := by
  induction cs generalizing p with
  | nil => rfl
  | cons c cs ih =>
      by_cases hnewline : c = '\n'
      · subst hnewline
        exact ih _
      · rw [crlf_cons hnewline]
        exact ih _

end Position

namespace Token

open Lexeme

theorem place_withCrlf {l : Lexeme} (hname : l.kind = .name ∨ l.kind = .number → '\n' ∉ l.chars)
    (context : Context) (line : Nat) : place context line l.withCrlf = place context line l := by
  by_cases hkind : l.kind = .name ∨ l.kind = .number
  · rw [withCrlf_of_not_mem (hname hkind)]
  · obtain ⟨kind, chars⟩ := l
    cases kind with
    | name => exact absurd (.inl rfl) hkind
    | number => exact absurd (.inr rfl) hkind
    | _ => rfl

theorem place_lineBreak {context context' : Context} {line : Nat} {chars : List Char}
    {kind : Option TokenKind} (h : place context line ⟨.lineBreak, chars⟩ = .ok (kind, context')) :
    ∀ inner, kind = some inner → inner = .newline := by
  unfold place at h
  dsimp only at h
  split at h
  · cases h
    rintro inner ⟨⟩
    rfl
  · cases h
    exact nofun

/-- The lexemes with their line breaks are laid out as the same tokens, apart from the columns in
which logical lines end. -/
theorem layOut_recut {ls ls' : List Lexeme} (h : Recut ls ls') {context : Context} {p : Position}
    {ts : List Token} (hts : layOut none context p ls = .ok ts) :
    ∃ ts', layOut none context p ls' = .ok ts' ∧
      GoesOn id [⟨.endOfText, (p.after (ls.flatMap Lexeme.chars)).line, 0⟩]
        context.inLine ts ts' := by
  induction h generalizing context p ts with
  | nil =>
      refine ⟨ts, hts, ?_⟩
      rcases layOut_nil_eq_ok hts with ⟨rfl, rfl⟩ | ⟨rfl, rfl⟩
      · exact Ahead.goesOn (.ending p.line 0 (List.cons_ne_nil _ _)) _ _ _ _
      · exact .ending p.line 0 (List.cons_ne_nil _ _)
  | @cons l ls ls' hname h ih =>
      obtain ⟨kind, context', hplace, us, hus, rfl⟩ := layOut_cons_eq_ok.mp hts
      obtain ⟨us', hus', hgoes⟩ := ih hus
      rw [List.flatMap_cons, Position.after_append]
      refine ⟨_, layOut_cons_eq_ok.mpr ⟨kind, context', ?_, us', ?_, rfl⟩,
        hgoes.placed hplace fun _ _ _ => rfl⟩
      · rw [place_withCrlf hname, hplace]
      · rw [withCrlf, Position.after_crlf]
        exact hus'
  | @comment cs ls ls' h ih =>
      obtain ⟨_, _, hblank, us, hus, rfl⟩ := layOut_cons_eq_ok.mp hts
      cases hblank
      obtain ⟨kind, context', hplace, vs, hvs, rfl⟩ := layOut_cons_eq_ok.mp hus
      obtain ⟨vs', hvs', hgoes⟩ := ih hvs
      have hline : (p.after (cs ++ ['\r'])).line = (p.after cs).line := by
        rw [Position.line_after_eq, Position.line_after_eq, List.count_append]
        rfl
      have hbreak : (p.after (cs ++ ['\r'])).after ['\n'] = (p.after cs).after ['\n'] :=
        congrArg (fun line => Position.mk (line + 1) 0) hline
      refine ⟨_, layOut_cons_eq_ok.mpr ⟨none, context, rfl, _, layOut_cons_eq_ok.mpr
        ⟨kind, context', ?_, vs', ?_, rfl⟩, rfl⟩, ?_⟩
      · rw [hline]
        exact hplace
      · rw [hbreak]
        exact hvs'
      · rw [List.flatMap_cons, List.flatMap_cons, Position.after_append, Position.after_append]
        exact hgoes.placed hplace fun inner hinner hne =>
          absurd (place_lineBreak hplace inner hinner) hne

theorem ofChars_crlf {cs : List Char} {ts : List Token} (hreturn : '\r' ∉ cs)
    (hkept : ∀ l ∈ (Lexeme.all cs).1, l.keepsBreak = false) (h : ofChars cs = .ok ts) :
    ∃ line ts', ofChars (crlf cs) = .ok ts' ∧ Ahead id [⟨.endOfText, line, 0⟩] ts ts' := by
  obtain ⟨ls, hall, hout⟩ := ofChars_eq_ok h
  rw [hall] at hkept
  obtain ⟨ls', hall', hrecut⟩ := all_crlf hreturn hall hkept
  obtain ⟨ts', hout', hahead⟩ := layOut_recut hrecut hout
  refine ⟨_, ts', ?_, hahead⟩
  unfold ofChars
  rw [hall']
  exact hout'

end Token

end DepsManifest
