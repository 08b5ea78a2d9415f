import DepsManifest.Proofs.Except
import DepsManifest.Proofs.Text.Numerals
import DepsManifest.Proofs.Text.Splitting
import DepsManifest.Token.Literal
/-! # What literals mean

The body of a literal is read unit by unit, and its meaning is the meanings of the units put
together (`Literal.Means`). A unit is a plain character or an escape: a letter after a backslash, up
to three octal digits, a code of a fixed number of hexadecimal digits, a line break that is taken
away, or a backslash before any other character, which stays.

This is said of the body alone, without the two readers that go over it. `Delimiter.body?` looks for
the end and knows nothing of escapes but that a backslash takes a character with it;
`Literal.unescape` decodes what is before the end. That the two agree on where a unit ends is what
has to be shown:

  * both go on over such a body to whatever comes after it (`Literal.Means.body?_append`,
    `Literal.Means.unescape_append`);
  * an escape that stands for no character is a fault wherever it comes
    (`Literal.Means.unescape_of_bad`), and looking for the end does not hide it
    (`BadEscape.of_body?`);
  * a literal opens with up to two marks and the longest delimiter that fits
    (`opening?_append_cons`, `Means.delimiter_eq`).

## What may follow

An octal escape with fewer than three digits would take a digit that comes next, and a carriage
return a line feed. So what follows such a unit must not begin so, inside of a body and after it;
the delimiter after a body begins with a quote, and does not.

The induction along a body takes an escape as one (`inductionOnBody`), a backslash before a line
break of two characters included.
-/
namespace DepsManifest

namespace Text

theorem digitValue?_lt {base : Nat} {c : Char} {value : Nat} (h : digitValue? base c = some value) :
    value < base := by
  obtain ⟨-, hlt⟩ := Option.filter_eq_some_iff.mp h
  exact of_decide_eq_true hlt

theorem foldl_digitValue?_lt {base : Nat} (hbase : 0 < base) (digits : List Char) (code : Nat) :
    digits.foldl (fun n c => n * base + (digitValue? base c).getD 0) code <
      (code + 1) * base ^ digits.length := by
  induction digits generalizing code with
  | nil =>
      rw [List.foldl_nil, List.length_nil, Nat.pow_zero, Nat.mul_one]
      exact Nat.lt_succ_self code
  | cons c digits ih =>
      have hc : (digitValue? base c).getD 0 < base := by
        cases hdigit : digitValue? base c with
        | none => exact hbase
        | some value => exact digitValue?_lt hdigit
      have hstep : code * base + (digitValue? base c).getD 0 + 1 ≤ (code + 1) * base := by
        rw [Nat.succ_mul]
        omega
      calc _ < (code * base + (digitValue? base c).getD 0 + 1) * base ^ digits.length := ih _
        _ ≤ ((code + 1) * base) * base ^ digits.length := Nat.mul_le_mul_right _ hstep
        _ = (code + 1) * base ^ (c :: digits).length := by
          rw [List.length_cons, Nat.pow_succ, Nat.mul_assoc, Nat.mul_comm base]

theorem valueIn_lt {base : Nat} (hbase : 0 < base) (digits : List Char) :
    valueIn base digits < base ^ digits.length := by
  have hless := foldl_digitValue?_lt hbase digits 0
  rwa [Nat.zero_add, Nat.one_mul] at hless

end Text

open Text

namespace Literal

def escapedLetters : List (Char × Char) :=
  [('\\', '\\'), ('\'', '\''), ('"', '"'), ('a', '\x07'), ('b', '\x08'), ('f', '\x0c'), ('n', '\n'),
    ('r', '\r'), ('t', '\t'), ('v', '\x0b')]

def codeMarkers : List (Char × Nat) := [('x', 2), ('u', 4), ('U', 8)]

/-- `Means d body text`: between the delimiters the body stands for the text. -/
inductive Means (d : Delimiter) : List Char → List Char → Prop
  | nil : Means d [] []
  | plain {c : Char} {body text : List Char} (hslash : c ≠ '\\') (hquote : c ≠ d.quote)
      (hline : d.triple = false → c ≠ '\n') (h : Means d body text) :
      Means d (c :: body) (c :: text)
  | letter {c meaning : Char} {body text : List Char} (hc : (c, meaning) ∈ escapedLetters)
      (h : Means d body text) : Means d ('\\' :: c :: body) (meaning :: text)
  | octal {digits body text : List Char} (hne : digits ≠ []) (hlength : digits.length ≤ 3)
      (hdigits : ∀ c ∈ digits, (digitValue? 8 c).isSome = true)
      (hends : digits.length < 3 → ∀ c ∈ body.head?, digitValue? 8 c = none)
      (h : Means d body text) :
      Means d ('\\' :: (digits ++ body)) (Char.ofNat (valueIn 8 digits) :: text)
  | code {marker : Char} {digits body text : List Char}
      (hmarker : (marker, digits.length) ∈ codeMarkers)
      (hdigits : ∀ c ∈ digits, (digitValue? 16 c).isSome = true)
      (hvalid : (valueIn 16 digits).isValidChar) (h : Means d body text) :
      Means d ('\\' :: marker :: (digits ++ body)) (Char.ofNat (valueIn 16 digits) :: text)
  | lineFeed {body text : List Char} (h : Means d body text) : Means d ('\\' :: '\n' :: body) text
  | returnAndLineFeed {body text : List Char} (h : Means d body text) :
      Means d ('\\' :: '\r' :: '\n' :: body) text
  | return {body text : List Char} (hends : body.head? ≠ some '\n') (h : Means d body text) :
      Means d ('\\' :: '\r' :: body) text
  | other {c : Char} {body text : List Char} (hletter : c ∉ escapedLetters.map Prod.fst)
      (hmarker : c ∉ codeMarkers.map Prod.fst) (hoctal : digitValue? 8 c = none)
      (hbreak : c ≠ '\n' ∧ c ≠ '\r') (h : Means d body text) :
      Means d ('\\' :: c :: body) ('\\' :: c :: text)

/-- `BadEscape cs fault`: a text begins with an escape by a code that has too few digits, or that is
not the code of a character. -/
inductive BadEscape : List Char → SyntaxFault → Prop
  | short {marker : Char} {width : Nat} {digits rest : List Char}
      (hmarker : (marker, width) ∈ codeMarkers)
      (hdigits : ∀ c ∈ digits, (digitValue? 16 c).isSome = true) (hshort : digits.length < width)
      (hends : ∀ c ∈ rest.head?, digitValue? 16 c = none) :
      BadEscape ('\\' :: marker :: (digits ++ rest)) (.truncatedEscape marker)
  | noCharacter {marker : Char} {digits rest : List Char}
      (hmarker : (marker, digits.length) ∈ codeMarkers)
      (hdigits : ∀ c ∈ digits, (digitValue? 16 c).isSome = true)
      (hinvalid : ¬(valueIn 16 digits).isValidChar) :
      BadEscape ('\\' :: marker :: (digits ++ rest)) (.invalidCodePoint marker (valueIn 16 digits))

end Literal

/-! ## Delimiters -/

theorem eq_quotes_of_isQuote {q : Char} (hq : Literal.isQuote q = true) : q = '\'' ∨ q = '"' := by
  simpa [Literal.isQuote] using hq

namespace Delimiter

variable {d : Delimiter}

theorem body?_cons {c : Char} (h : c ≠ '\\') (cs : List Char) : d.body? (c :: cs) =
    if (Text.afterBeginning? d.chars (c :: cs)).isSome then some []
    else if c = '\n' ∧ ¬ d.triple then none
    else (d.body? cs).map (c :: ·) := by
  rw [body?]
  · exact fun heq => absurd heq h
  · exact fun _ heq => absurd heq h
  · exact fun _ _ heq => absurd heq h

/-- Induction along the body of a literal, an escape taken as one. -/
theorem inductionOnBody {motive : List Char → Prop} (nil : motive []) (lone : motive ['\\'])
    (continued : ∀ cs, motive cs → motive ('\\' :: '\r' :: '\n' :: cs))
    (escaped : ∀ c cs, (∀ rest, c = '\r' → cs = '\n' :: rest → False) → motive cs →
      motive ('\\' :: c :: cs))
    (plain : ∀ c cs, c ≠ '\\' → motive cs → motive (c :: cs)) (cs : List Char) : motive cs := by
  induction hn : cs.length using Nat.strongRecOn generalizing cs with
  | ind n ih =>
      subst hn
      rcases cs with _ | ⟨c, cs⟩
      · exact nil
      by_cases hslash : c = '\\'
      · subst hslash
        rcases cs with _ | ⟨c, cs⟩
        · exact lone
        by_cases hbreak : ∃ rest, c = '\r' ∧ cs = '\n' :: rest
        · obtain ⟨rest, rfl, rfl⟩ := hbreak
          exact continued rest (ih _ (by simp only [List.length_cons]; omega) rest rfl)
        · exact escaped c cs (fun rest hc hcs => hbreak ⟨rest, hc, hcs⟩)
            (ih _ (by simp only [List.length_cons]; omega) cs rfl)
      · exact plain c cs hslash (ih _ (Nat.lt_succ_self _) cs rfl)

theorem chars_eq_cons (d : Delimiter) : ∃ more, d.chars = d.quote :: more := by
  rw [chars]
  split
  · exact ⟨_, rfl⟩
  · exact ⟨_, rfl⟩

theorem quote_ne (h : Literal.isQuote d.quote = true) {c : Char} (hc : Literal.isQuote c = false) :
    d.quote ≠ c := by
  rintro rfl
  exact Bool.false_ne_true (hc.symm.trans h)

theorem body?_chars (h : Literal.isQuote d.quote = true) (rest : List Char) :
    d.body? (d.chars ++ rest) = some [] := by
  obtain ⟨more, hchars⟩ := d.chars_eq_cons
  have hcloses : (Text.afterBeginning? d.chars (d.chars ++ rest)).isSome = true :=
    Text.isSome_afterBeginning?_iff.mpr (List.prefix_append _ _)
  rw [hchars, List.cons_append] at hcloses ⊢
  rw [body?_cons (quote_ne h rfl), hchars, if_pos hcloses]

/-- The body of a literal that is closed stands before its delimiter, and is the same whatever the
text goes on with after that. -/
theorem body?_closed (h : Literal.isQuote d.quote = true) {cs body : List Char}
    (hbody : d.body? cs = some body) :
    body ++ d.chars <+: cs ∧ ∀ rest, d.body? (body ++ (d.chars ++ rest)) = some body := by
  induction cs using inductionOnBody generalizing body with
  | nil => cases hbody
  | lone => cases hbody
  | continued cs ih =>
      rw [body?] at hbody
      obtain ⟨more, hmore, rfl⟩ := Option.map_eq_some_iff.mp hbody
      obtain ⟨hbegins, hsame⟩ := ih hmore
      refine ⟨(List.prefix_append_right_inj ['\\', '\r', '\n']).mpr hbegins, fun rest => ?_⟩
      rw [List.cons_append, List.cons_append, List.cons_append, body?, hsame]
      rfl
  | escaped c cs hbreak ih =>
      rw [body?.eq_4 d c cs hbreak] at hbody
      obtain ⟨more, hmore, rfl⟩ := Option.map_eq_some_iff.mp hbody
      obtain ⟨hbegins, hsame⟩ := ih hmore
      refine ⟨(List.prefix_append_right_inj ['\\', c]).mpr hbegins, fun rest => ?_⟩
      rw [List.cons_append, List.cons_append, body?, hsame]
      · rfl
      · -- after an escaped carriage return the body does not go on with a line feed
        intro after hreturn heq
        obtain ⟨following, rfl⟩ := hbegins
        cases more with
        | nil =>
            obtain ⟨quotes, hchars⟩ := d.chars_eq_cons
            rw [List.nil_append, hchars] at heq
            exact quote_ne h rfl (List.cons.inj heq).1
        | cons e more =>
            exact hbreak (more ++ d.chars ++ following) hreturn
              (congrArg (· :: (more ++ d.chars ++ following)) (List.cons.inj heq).1)
  | plain c cs hslash ih =>
      rw [body?_cons hslash] at hbody
      split at hbody
      · rename_i hcloses
        cases hbody
        exact ⟨Text.isSome_afterBeginning?_iff.mp hcloses, fun rest => body?_chars h rest⟩
      · rename_i hopen
        split at hbody
        · cases hbody
        · rename_i hgoesOn
          obtain ⟨more, hmore, rfl⟩ := Option.map_eq_some_iff.mp hbody
          obtain ⟨hbegins, hsame⟩ := ih hmore
          refine ⟨List.cons_prefix_cons.mpr ⟨rfl, hbegins⟩, fun rest => ?_⟩
          have hopen' :
              ¬ (Text.afterBeginning? d.chars (c :: (more ++ (d.chars ++ rest)))).isSome := by
            rw [Text.isSome_afterBeginning?_iff] at hopen ⊢
            intro hcloses
            have hshort : d.chars <+: c :: (more ++ d.chars) := by
              refine List.prefix_of_prefix_length_le hcloses ?_ ?_
              · rw [← List.append_assoc]
                exact List.prefix_append (c :: (more ++ d.chars)) rest
              · rw [List.length_cons, List.length_append]
                omega
            exact hopen (hshort.trans (List.cons_prefix_cons.mpr ⟨rfl, hbegins⟩))
          rw [List.cons_append, body?_cons hslash, if_neg hopen', if_neg hgoesOn, hsame]
          rfl

end Delimiter

/-! ## Where a body ends -/

namespace Literal

variable {d : Delimiter} {body text : List Char}

theorem ne_of_digit {base : Nat} {c b : Char} (h : (digitValue? base c).isSome = true)
    (hb : digitValue? base b = none) : c ≠ b := by
  rintro rfl
  rw [hb] at h
  cases h

theorem digitValue?_quote (h : isQuote d.quote = true) {base : Nat} :
    digitValue? base d.quote = none := by
  rcases eq_quotes_of_isQuote h with hq | hq
  · rw [hq]
    rfl
  · rw [hq]
    rfl

theorem body?_plainCons {c : Char} (hslash : c ≠ '\\') (hquote : c ≠ d.quote)
    (hline : d.triple = false → c ≠ '\n') (cs : List Char) :
    d.body? (c :: cs) = (d.body? cs).map (c :: ·) := by
  obtain ⟨more, hmore⟩ := d.chars_eq_cons
  have hopen : ¬ (afterBeginning? d.chars (c :: cs)).isSome = true := by
    rw [isSome_afterBeginning?_iff, hmore, List.cons_prefix_cons]
    exact fun h => hquote h.1.symm
  have hgoesOn : ¬ (c = '\n' ∧ ¬ d.triple = true) := by
    rintro ⟨hnewline, hsingle⟩
    exact hline (Bool.eq_false_iff.mpr hsingle) hnewline
  rw [Delimiter.body?_cons hslash, if_neg hopen, if_neg hgoesOn]

theorem body?_digits (hquote : isQuote d.quote = true) {base : Nat} {digits : List Char}
    (hdigits : ∀ c ∈ digits, (digitValue? base c).isSome = true) (cs : List Char) :
    d.body? (digits ++ cs) = (d.body? cs).map (digits ++ ·) := by
  induction digits with
  | nil => exact Option.map_id'.symm
  | cons c digits ih =>
      obtain ⟨hc, hlater⟩ := List.forall_mem_cons.mp hdigits
      rw [List.cons_append,
        body?_plainCons (ne_of_digit hc rfl) (ne_of_digit hc (digitValue?_quote hquote))
        (fun _ => ne_of_digit hc rfl), ih hlater, Option.map_map]
      rfl

theorem body?_escaped {c : Char} {cs : List Char} (h : c = '\r' → cs.head? ≠ some '\n') :
    d.body? ('\\' :: c :: cs) = (d.body? cs).map (['\\', c] ++ ·) := by
  refine Delimiter.body?.eq_4 d c cs fun rest hreturn hcs => ?_
  subst hcs
  exact h hreturn rfl

theorem ne_return_of_mem {c : Char} {α : Type} {table : List (Char × α)} {value : α}
    (h : (c, value) ∈ table) (hnot : '\r' ∉ table.map Prod.fst) : c ≠ '\r' := by
  rintro rfl
  exact hnot (List.mem_map_of_mem h)

/-- A body goes on over its units to what comes after them. -/
theorem Means.body?_append (h : Means d body text) (hquote : isQuote d.quote = true)
    {rest : List Char} (hrest : rest.head? ≠ some '\n') :
    d.body? (body ++ rest) = (d.body? rest).map (body ++ ·) := by
  induction h with
  | nil => exact Option.map_id'.symm
  | plain hslash hplain hline _ ih =>
      rw [List.cons_append, body?_plainCons hslash hplain hline, ih, Option.map_map]
      rfl
  | letter hc _ ih =>
      rw [List.cons_append, List.cons_append,
        body?_escaped (absurd · (ne_return_of_mem hc (by decide))), ih, Option.map_map]
      rfl
  | @octal digits body _ hne _ hdigits _ _ ih =>
      cases digits with
      | nil => exact absurd rfl hne
      | cons c digits =>
          obtain ⟨hc, hlater⟩ := List.forall_mem_cons.mp hdigits
          rw [List.cons_append, List.cons_append, List.cons_append,
            body?_escaped (absurd · (ne_of_digit hc rfl)), List.append_assoc,
            body?_digits hquote hlater,
            ih, Option.map_map, Option.map_map]
          simp [Function.comp_def]
  | code hmarker hdigits _ _ ih =>
      rw [List.cons_append, List.cons_append,
        body?_escaped (absurd · (ne_return_of_mem hmarker (by decide))),
        List.append_assoc, body?_digits hquote hdigits, ih, Option.map_map, Option.map_map]
      simp [Function.comp_def]
  | lineFeed _ ih =>
      rw [List.cons_append, List.cons_append, body?_escaped (absurd · (by decide)), ih,
        Option.map_map]
      rfl
  | returnAndLineFeed _ ih =>
      rw [List.cons_append, List.cons_append, List.cons_append, Delimiter.body?, ih, Option.map_map]
      rfl
  | @«return» body _ hends _ ih =>
      have hhead : (body ++ rest).head? ≠ some '\n' := by
        cases body with
        | nil => exact hrest
        | cons c body => exact hends
      rw [List.cons_append, List.cons_append, body?_escaped (fun _ => hhead), ih, Option.map_map]
      rfl
  | other _ _ _ hbreak _ ih =>
      rw [List.cons_append, List.cons_append, body?_escaped (absurd · hbreak.2), ih, Option.map_map]
      rfl

/-! ## What a body means -/

theorem unescapeFrom_eq (read : Nat) (cs : List Char) :
    unescapeFrom read cs = unescape (cs.drop read) := by
  induction cs generalizing read with
  | nil =>
      cases read with
      | zero => rfl
      | succ read => rfl
  | cons c cs ih =>
      cases read with
      | zero => rfl
      | succ read => exact ih read

theorem unescape_cons (c : Char) (cs : List Char) : unescape (c :: cs) =
    (unitAt c cs >>= fun u => unescape (cs.drop (u.length - 1)) >>= fun rest =>
      .ok (u.meaning ++ rest)) := by
  rw [unescape, unescapeFrom]
  simp only [unescapeFrom_eq]
  rfl

theorem unescape_unit (own : List Char) {cs meaning text : List Char}
    {result : Except SyntaxFault (List Char)}
    (h : escapeAt (own ++ cs) = .ok ⟨meaning, own.length + 1⟩)
    (hlater : unescape cs = result.map (text ++ ·)) :
    unescape ('\\' :: (own ++ cs)) = result.map (meaning ++ text ++ ·) := by
  rw [unescape_cons, unitAt, if_pos rfl, h, ok_bind, Nat.add_sub_cancel, List.drop_left, hlater]
  cases result with
  | error fault => rfl
  | ok rest => exact congrArg Except.ok (List.append_assoc meaning text rest).symm

theorem unescape_plain {c : Char} (h : c ≠ '\\') (cs : List Char) :
    unescape (c :: cs) = (unescape cs).map (c :: ·) := by
  rw [unescape_cons, unitAt, if_neg h]
  rfl

theorem ofCode?_eq_some {code : Nat} (h : code.isValidChar) :
    ofCode? code = some (Char.ofNat code) := by
  rw [ofCode?, dif_pos h, Char.ofNat, dif_pos h]

theorem ofCode?_eq_none {code : Nat} (h : ¬code.isValidChar) : ofCode? code = none := by
  rw [ofCode?, dif_neg h]

theorem octalCode_eq {digits rest : List Char}
    (hdigits : ∀ c ∈ digits, (digitValue? 8 c).isSome = true) {n : Nat}
    (hlength : digits.length ≤ n)
    (hends : digits.length < n → ∀ c ∈ rest.head?, digitValue? 8 c = none) (code : Nat) :
    octalCode n code (digits ++ rest) =
      (digits.foldl (fun n c => n * 8 + (digitValue? 8 c).getD 0) code, digits.length) := by
  induction digits generalizing n code with
  | nil =>
      cases n with
      | zero => rfl
      | succ n =>
          cases rest with
          | nil => rfl
          | cons c rest =>
              rw [List.nil_append, octalCode, hends (Nat.succ_pos n) c rfl]
              rfl
  | cons c digits ih =>
      obtain ⟨hc, hlater⟩ := List.forall_mem_cons.mp hdigits
      obtain ⟨digit, hdigit⟩ := Option.isSome_iff_exists.mp hc
      cases n with
      | zero => cases hlength
      | succ n =>
          rw [List.cons_append, octalCode, hdigit]
          dsimp only
          rw [ih hlater (Nat.le_of_succ_le_succ hlength) fun h => hends (Nat.succ_lt_succ h),
            List.foldl_cons, hdigit]
          rfl

theorem hexadecimalCode?_eq {digits : List Char}
    (hdigits : ∀ c ∈ digits, (digitValue? 16 c).isSome = true) (rest : List Char) (code : Nat) :
    hexadecimalCode? digits.length code (digits ++ rest) =
      some (digits.foldl (fun n c => n * 16 + (digitValue? 16 c).getD 0) code) := by
  induction digits generalizing code with
  | nil => rw [List.length_nil, hexadecimalCode?, List.foldl_nil]
  | cons c digits ih =>
      obtain ⟨hc, hlater⟩ := List.forall_mem_cons.mp hdigits
      obtain ⟨digit, hdigit⟩ := Option.isSome_iff_exists.mp hc
      rw [List.length_cons, List.cons_append, hexadecimalCode?, hdigit, List.foldl_cons, hdigit]
      exact ih hlater (code * 16 + digit)

theorem hexadecimalCode?_short {digits rest : List Char} {n : Nat} (hshort : digits.length < n)
    (hends : ∀ c ∈ rest.head?, digitValue? 16 c = none) (code : Nat) :
    hexadecimalCode? n code (digits ++ rest) = none := by
  induction digits generalizing n code with
  | nil =>
      cases n with
      | zero => cases hshort
      | succ n =>
          cases rest with
          | nil => rfl
          | cons c rest => rw [List.nil_append, hexadecimalCode?, hends c rfl]
  | cons c digits ih =>
      cases n with
      | zero => cases hshort
      | succ n =>
          rw [List.cons_append, hexadecimalCode?]
          cases digitValue? 16 c with
          | none => rfl
          | some digit => exact ih (Nat.lt_of_succ_lt_succ hshort) (code * 16 + digit)

theorem octal_isValidChar {digits : List Char} (hlength : digits.length ≤ 3) :
    (valueIn 8 digits).isValidChar := by
  have hpow : 8 ^ digits.length ≤ 8 ^ 3 := Nat.pow_le_pow_right (by decide) hlength
  have hvalue : valueIn 8 digits < 8 ^ digits.length := valueIn_lt (by decide) digits
  refine .inl ?_
  omega

/-- What comes after a backslash is looked up in this order, unless it is a line break. -/
theorem escapeAt_cons {c : Char} (hnewline : c ≠ '\n') (hreturn : c ≠ '\r') (cs : List Char) :
    escapeAt (c :: cs) = match letterEscape? c with
      | some meaning => .ok ⟨[meaning], 2⟩
      | none =>
        if (digitValue? 8 c).isSome then
          .ok ⟨[(ofCode? (octalCode 3 0 (c :: cs)).1).getD '\ufffd'],
            (octalCode 3 0 (c :: cs)).2 + 1⟩
        else
          match escapeDigits? c with
          | none => .ok ⟨['\\', c], 2⟩
          | some digits =>
            match hexadecimalCode? digits 0 cs with
            | none => .error (.truncatedEscape c)
            | some code =>
              match ofCode? code with
              | none => .error (.invalidCodePoint c code)
              | some meaning => .ok ⟨[meaning], digits + 2⟩ :=
  escapeAt.eq_5 c cs hnewline (fun _ hc => absurd hc hreturn) hreturn

theorem letterEscape?_eq_none {c : Char} (h : c ∉ escapedLetters.map Prod.fst) :
    letterEscape? c = none := by
  simp only [escapedLetters, List.map_cons, List.map_nil, List.mem_cons, List.not_mem_nil, or_false,
    not_or] at h
  simp only [letterEscape?, h, if_false]

theorem escapeAt_letter {c meaning : Char} (h : (c, meaning) ∈ escapedLetters) (cs : List Char) :
    escapeAt (c :: cs) = .ok ⟨[meaning], 2⟩ := by
  have htable : ∀ p ∈ escapedLetters, p.1 ≠ '\n' ∧ p.1 ≠ '\r' ∧ letterEscape? p.1 = some p.2 := by
    decide
  obtain ⟨hnewline, hreturn, hmeaning⟩ := htable _ h
  rw [escapeAt_cons hnewline hreturn, hmeaning]

theorem escapeAt_octal {digits rest : List Char} (hne : digits ≠ []) (hlength : digits.length ≤ 3)
    (hdigits : ∀ c ∈ digits, (digitValue? 8 c).isSome = true)
    (hends : digits.length < 3 → ∀ c ∈ rest.head?, digitValue? 8 c = none) :
    escapeAt (digits ++ rest) = .ok ⟨[Char.ofNat (valueIn 8 digits)], digits.length + 1⟩ := by
  have hcode := octalCode_eq hdigits hlength hends 0
  have hletters : ∀ b ∈ escapedLetters.map Prod.fst, digitValue? 8 b = none :=
    forall_of_all (by decide)
  cases digits with
  | nil => exact absurd rfl hne
  | cons c digits =>
      have hc := hdigits c List.mem_cons_self
      have hletter : letterEscape? c = none :=
        letterEscape?_eq_none fun hmem => ne_of_digit hc (hletters c hmem) rfl
      rw [List.cons_append] at hcode ⊢
      rw [escapeAt_cons (ne_of_digit hc rfl) (ne_of_digit hc rfl), hletter, hcode]
      dsimp only
      rw [if_pos hc, ← valueIn, ofCode?_eq_some (octal_isValidChar hlength)]
      rfl

theorem escapeAt_marker {marker : Char} {width : Nat} (h : (marker, width) ∈ codeMarkers)
    (cs : List Char) : escapeAt (marker :: cs) = match hexadecimalCode? width 0 cs with
      | none => .error (.truncatedEscape marker)
      | some code => match ofCode? code with
        | none => .error (.invalidCodePoint marker code)
        | some meaning => .ok ⟨[meaning], width + 2⟩ := by
  have htable : ∀ p ∈ codeMarkers, p.1 ≠ '\n' ∧ p.1 ≠ '\r' ∧ letterEscape? p.1 = none ∧
      digitValue? 8 p.1 = none ∧ escapeDigits? p.1 = some p.2 := by decide
  obtain ⟨hnewline, hreturn, hletter, hoctal, hdigits⟩ := htable _ h
  rw [escapeAt_cons hnewline hreturn, hletter, hoctal, hdigits]
  rfl

theorem escapeAt_digits {marker : Char} {digits : List Char}
    (hmarker : (marker, digits.length) ∈ codeMarkers)
    (hdigits : ∀ c ∈ digits, (digitValue? 16 c).isSome = true)
    (hvalid : (valueIn 16 digits).isValidChar) (rest : List Char) :
    escapeAt (marker :: (digits ++ rest)) =
      .ok ⟨[Char.ofNat (valueIn 16 digits)], digits.length + 2⟩ := by
  rw [escapeAt_marker hmarker, hexadecimalCode?_eq hdigits]
  dsimp only
  rw [← valueIn, ofCode?_eq_some hvalid]

theorem escapeAt_other {c : Char} (hletter : c ∉ escapedLetters.map Prod.fst)
    (hmarker : c ∉ codeMarkers.map Prod.fst) (hoctal : digitValue? 8 c = none)
    (hbreak : c ≠ '\n' ∧ c ≠ '\r') (cs : List Char) : escapeAt (c :: cs) = .ok ⟨['\\', c], 2⟩ := by
  have hdigits : escapeDigits? c = none := by
    simp only [codeMarkers, List.map_cons, List.map_nil, List.mem_cons, List.not_mem_nil, or_false,
      not_or] at hmarker
    simp only [escapeDigits?, hmarker, if_false]
  rw [escapeAt_cons hbreak.1 hbreak.2, letterEscape?_eq_none hletter, hoctal, hdigits]
  rfl

theorem escapeAt_return {cs : List Char} (h : cs.head? ≠ some '\n') :
    escapeAt ('\r' :: cs) = .ok ⟨[], 2⟩ := by
  refine escapeAt.eq_4 cs fun rest hcs => ?_
  subst hcs
  exact h rfl

/-- The meaning of a body, and of what comes after it unless the last unit would go on there. -/
theorem Means.unescape_append (h : Means d body text) {rest : List Char}
    (hrest : ∀ c ∈ rest.head?, c ≠ '\n' ∧ digitValue? 8 c = none) :
    unescape (body ++ rest) = (unescape rest).map (text ++ ·) := by
  -- what comes after a unit is the rest of the body, or what comes after that
  have hafter : ∀ {P : Char → Prop} {body : List Char}, (∀ c ∈ body.head?, P c) →
      (∀ c ∈ rest.head?, P c) →
      ∀ c ∈ (body ++ rest).head?, P c := by
    intro P body hbody hend
    cases body with
    | nil => exact hend
    | cons c body => exact hbody
  induction h with
  | nil =>
      rw [List.nil_append]
      cases unescape rest <;> rfl
  | plain hslash _ _ _ ih =>
      rw [List.cons_append, unescape_plain hslash, ih]
      cases unescape rest <;> rfl
  | letter hc _ ih => exact unescape_unit [_] (escapeAt_letter hc _) ih
  | @octal digits _ _ hne hlength hdigits hends _ ih =>
      rw [List.cons_append, List.append_assoc]
      refine unescape_unit digits (escapeAt_octal hne hlength hdigits fun hless => ?_) ih
      exact hafter (hends hless) fun c hc => (hrest c hc).2
  | @code marker digits _ _ hmarker hdigits hvalid _ ih =>
      rw [List.cons_append, List.cons_append, List.append_assoc]
      exact unescape_unit (marker :: digits) (escapeAt_digits hmarker hdigits hvalid _) ih
  | lineFeed _ ih => exact unescape_unit ['\n'] rfl ih
  | returnAndLineFeed _ ih => exact unescape_unit ['\r', '\n'] rfl ih
  | @«return» body _ hends _ ih =>
      have hnot : ∀ c ∈ (body ++ rest).head?, c ≠ '\n' :=
        hafter (fun c hc heq => hends (heq ▸ hc)) fun c hc => (hrest c hc).1
      exact unescape_unit ['\r'] (escapeAt_return fun hhead => hnot _ hhead rfl) ih
  | other hletter hmarker hoctal hbreak _ ih =>
      exact unescape_unit [_] (escapeAt_other hletter hmarker hoctal hbreak _) ih

theorem Means.unescape_eq (h : Means d body text) : unescape body = .ok text := by
  have hnone : ∀ c ∈ ([] : List Char).head?, c ≠ '\n' ∧ digitValue? 8 c = none := nofun
  have hall := h.unescape_append hnone
  rw [List.append_nil] at hall
  exact hall.trans (congrArg Except.ok (List.append_nil text))

/-! ## The beginning of a literal -/

theorem isMark_of_isQuote {q : Char} (h : isQuote q = true) : isMark q = false := by
  rcases eq_quotes_of_isQuote h with rfl | rfl
  · rfl
  · rfl

theorem takeWhile_isMark {marks : List Char} {q : Char} (hmarked : ∀ c ∈ marks, isMark c = true)
    (hquoted : isQuote q = true) (after : List Char) :
    (marks ++ q :: after).takeWhile isMark = marks := by
  rw [List.takeWhile_append_of_pos hmarked,
    List.takeWhile_cons_of_neg (Bool.eq_false_iff.mp (isMark_of_isQuote hquoted)), List.append_nil]

theorem opening?_append_cons {marks : List Char} {q : Char} (hfew : marks.length ≤ 2)
    (hmarked : ∀ c ∈ marks, isMark c = true) (hquoted : isQuote q = true) (after : List Char) :
    opening? (marks ++ q :: after) = some (marks, delimiter q after,
      after.drop ((delimiter q after).chars.length - 1)) := by
  have hmarks : ((marks ++ q :: after).takeWhile isMark).take 2 = marks := by
    rw [takeWhile_isMark hmarked hquoted, List.take_of_length_le hfew]
  unfold opening?
  dsimp only
  rw [hmarks, List.drop_left]
  exact if_pos hquoted

theorem Means.head_ne (h : Means d body text) (hquote : isQuote d.quote = true) :
    body.head? ≠ some d.quote := by
  have hslash : '\\' ≠ d.quote := (Delimiter.quote_ne hquote rfl).symm
  cases h with
  | nil => exact nofun
  | plain _ hplain _ _ => exact fun heq => hplain (Option.some.inj heq)
  | _ => exact fun heq => hslash (Option.some.inj heq)

theorem Means.delimiter_eq (h : Means d body text) (hquote : isQuote d.quote = true)
    {cs : List Char} (hcs : d.triple = false → ¬[d.quote, d.quote] <+: cs) :
    delimiter d.quote (d.chars.tail ++ (body ++ cs)) = d := by
  have hhead := h.head_ne hquote
  clear h
  obtain ⟨quote, triple⟩ := d
  refine congrArg (Delimiter.mk quote) ?_
  cases triple with
  | true => exact isSome_afterBeginning?_iff.mpr (List.prefix_append [quote, quote] (body ++ cs))
  | false =>
      rw [Bool.eq_false_iff, Ne, isSome_afterBeginning?_iff]
      intro hquotes
      cases body with
      | nil => exact hcs rfl hquotes
      | cons c body => exact hhead (congrArg some (List.cons_prefix_cons.mp hquotes).1.symm)

/-! ## Faulty escapes -/

theorem BadEscape.unescape_eq {cs : List Char} {fault : SyntaxFault} (h : BadEscape cs fault) :
    unescape cs = .error fault := by
  cases h with
  | short hmarker _ hshort hends =>
      rw [unescape_cons, unitAt, if_pos rfl, escapeAt_marker hmarker,
        hexadecimalCode?_short hshort hends]
      rfl
  | noCharacter hmarker hdigits hinvalid =>
      rw [unescape_cons, unitAt, if_pos rfl, escapeAt_marker hmarker, hexadecimalCode?_eq hdigits]
      dsimp only
      rw [← valueIn, ofCode?_eq_none hinvalid]
      rfl

theorem BadEscape.exists_eq_cons {cs : List Char} {fault : SyntaxFault} (h : BadEscape cs fault) :
    ∃ more, cs = '\\' :: more := by
  cases h with
  | short _ _ _ _ => exact ⟨_, rfl⟩
  | noCharacter _ _ _ => exact ⟨_, rfl⟩

/-- A faulty escape is reached over the units before it. -/
theorem Means.unescape_of_bad (h : Means d body text) {cs : List Char} {fault : SyntaxFault}
    (hbad : BadEscape cs fault) : unescape (body ++ cs) = .error fault := by
  obtain ⟨later, rfl⟩ := hbad.exists_eq_cons
  have hslash : ∀ c ∈ ('\\' :: later).head?, c ≠ '\n' ∧ digitValue? 8 c = none := by
    rintro _ ⟨⟩
    exact ⟨by decide, rfl⟩
  rw [h.unescape_append hslash, hbad.unescape_eq]
  rfl

theorem BadEscape.of_body? {cs more : List Char} {fault : SyntaxFault} (h : BadEscape cs fault)
    (hquote : isQuote d.quote = true) (hbody : d.body? cs = some more) : BadEscape more fault := by
  have hmore : ∀ {marker : Char} {width : Nat} {digits rest : List Char},
      (marker, width) ∈ codeMarkers → (∀ c ∈ digits, (digitValue? 16 c).isSome = true) →
      d.body? ('\\' :: marker :: (digits ++ rest)) = some more →
      ∃ later, more = '\\' :: marker :: (digits ++ later) ∧ later <+: rest := by
    intro marker width digits rest hmarker hdigits hbody
    rw [body?_escaped (absurd · (ne_return_of_mem hmarker (by decide))),
      body?_digits hquote hdigits, Option.map_map] at hbody
    obtain ⟨later, hlater, rfl⟩ := Option.map_eq_some_iff.mp hbody
    exact ⟨later, rfl,
      (List.prefix_append later d.chars).trans (Delimiter.body?_closed hquote hlater).1⟩
  cases h with
  | short hmarker hdigits hshort hends =>
      obtain ⟨later, rfl, ⟨end_, rfl⟩⟩ := hmore hmarker hdigits hbody
      refine .short hmarker hdigits hshort fun c hc => hends c ?_
      cases later with
      | nil => cases hc
      | cons _ later => exact hc
  | noCharacter hmarker hdigits hinvalid =>
      obtain ⟨later, rfl, -⟩ := hmore hmarker hdigits hbody
      exact .noCharacter hmarker hdigits hinvalid

end Literal

end DepsManifest
