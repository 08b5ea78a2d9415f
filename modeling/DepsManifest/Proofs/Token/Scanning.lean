import DepsManifest.Proofs.Text.Bytes
import DepsManifest.Proofs.Token.LineEndings
import DepsManifest.Token.Scanner
/-! # The end of a literal among bytes

The scanner looks for the end of a literal among the bytes of the text, step by step, with an index
into them. The reader of characters takes a body off a text. They find the same end
(`Scanner.agrees`).

Between two characters both look at the same thing: a quote, a backslash and a line feed are single
bytes, and are found among the bytes where they are in the text. A backslash may leave the scanner
inside a character, as it goes two bytes further and the next character may have more than one. But
the bytes that are left of that mean nothing to it, and it is between characters again before it
looks at the next one (`Scanner.agrees_escaped`).

## A whole scan

Agreement is stated from any place between characters, with the bytes before it, so that it can be
shown by induction along the body: both go on over a piece of the text and agree after it
(`Agrees.goesOn`). It bounds the number of steps by the number of bytes, and with that

  * a scan comes to an end within as many steps as there are bytes and one more
    (`Literal.Opens.iterate_step`);
  * it has one end, however many steps are taken (`iterate_step_unique`);
  * the length at the end is that of the body and its delimiter (`Literal.Opens.closed_iff`).
-/
namespace DepsManifest

open Text

/-! ## Delimiters -/

theorem Literal.toNat_lt_of_isQuote {q : Char} (h : Literal.isQuote q = true) : q.toNat < 128 := by
  rcases eq_quotes_of_isQuote h with rfl | rfl
  · decide
  · decide

namespace Delimiter

theorem cons_tail_chars (d : Delimiter) : d.quote :: d.chars.tail = d.chars := by
  obtain ⟨more, hmore⟩ := d.chars_eq_cons
  rw [hmore]
  rfl

theorem byteLength_chars {d : Delimiter} (h : Literal.isQuote d.quote = true) :
    byteLength d.chars = if d.triple then 3 else 1 := by
  have hone := utf8Size_of_lt (Literal.toNat_lt_of_isQuote h)
  rw [chars]
  split
  · rw [byteLength, byteLength, byteLength, byteLength, hone]
  · exact hone

end Delimiter

/-! ## Scanning -/

namespace Scanner

/-- A scanner looks for the end of literals with a delimiter. -/
structure LooksFor (s : Scanner) (d : Delimiter) : Prop where
  quoted : Literal.isQuote d.quote = true
  quote : s.quote = d.quote.toUInt8
  triple : s.isTriple = d.triple

/-- The end of a scan that a body stands for, if the body begins at an index. -/
def State.ofBody (d : Delimiter) (index : Nat) : Option (List Char) → State
  | none => .unclosed
  | some body => .closed (index + byteLength (body ++ d.chars))

variable {s : Scanner} {d : Delimiter} {before more : List UInt8} {cs : List Char}

theorem State.ofBody_map (d : Delimiter) (index : Nat) (piece : List Char)
    (body : Option (List Char)) :
    State.ofBody d index (body.map (piece ++ ·)) =
      State.ofBody d (index + byteLength piece) body := by
  cases body with
  | none => rfl
  | some body =>
      show State.closed _ = State.closed _
      rw [List.append_assoc, byteLength_append, Nat.add_assoc]

theorem LooksFor.quote_lt (h : s.LooksFor d) : d.quote.toNat < 128 :=
  Literal.toNat_lt_of_isQuote h.quoted

theorem getElem?_of_eq (h : s.bytes = before ++ more) (k : Nat) :
    s.bytes[before.length + k]? = more[k]? := by
  rw [h, List.getElem?_append_right (Nat.le_add_right _ _), Nat.add_sub_cancel_left]

theorem step_of_le (hd : s.LooksFor d) {b : UInt8} (hb : 128 ≤ b.toNat)
    (h : s.bytes = before ++ b :: more) :
    s.step (.running before.length) = .running (before.length + 1) := by
  have hget : s.bytes[before.length]? = some b := getElem?_of_eq h 0
  have hne : ∀ {e : Char}, e.toNat < 128 → b ≠ e.toUInt8 := by
    rintro e he rfl
    rw [toNat_toUInt8 he] at hb
    exact Nat.not_le_of_lt he hb
  rw [step, hget]
  dsimp only
  rw [if_neg (hne (by decide)), if_neg fun hline => hne (by decide) hline.1, hd.quote,
    if_neg (hne hd.quote_lt)]

theorem iterate_step_of_le (hd : s.LooksFor d) {skipped : List UInt8}
    (hskipped : ∀ b ∈ skipped, 128 ≤ b.toNat) (h : s.bytes = before ++ (skipped ++ more)) :
    s.step^[skipped.length] (.running before.length) = .running (before ++ skipped).length := by
  induction skipped generalizing before with
  | nil => rw [List.append_nil]; rfl
  | cons b skipped ih =>
      obtain ⟨hb, hlater⟩ := List.forall_mem_cons.mp hskipped
      have hnext : s.bytes = (before ++ [b]) ++ (skipped ++ more) := by
        rw [h, List.append_assoc]
        rfl
      have hlength : before.length + 1 = (before ++ [b]).length := by
        rw [List.length_append]
        rfl
      rw [List.length_cons, Function.iterate_succ_apply, step_of_le hd hb h, hlength,
        ih hlater hnext, List.append_assoc]
      rfl

/-- From a text on, the scanner finds the end of the body that the reader of characters finds. -/
def Agrees (s : Scanner) (d : Delimiter) (cs : List Char) : Prop :=
  ∀ before, s.bytes = before ++ Text.bytes cs → ∃ n ≤ byteLength cs + 1,
    s.step^[n] (.running before.length) = .ofBody d before.length (d.body? cs)

/-- The scanner agrees with the reader if both go on over a piece of the text and agree after it. -/
theorem Agrees.goesOn (piece : List Char) {rest : List Char} {m : Nat} (ih : s.Agrees d rest)
    (hbody : d.body? (piece ++ rest) = (d.body? rest).map (piece ++ ·))
    (hfew : m ≤ byteLength piece) (h : s.bytes = before ++ Text.bytes (piece ++ rest))
    (hsteps : s.step^[m] (.running before.length) = .running (before.length + byteLength piece)) :
    ∃ n ≤ byteLength (piece ++ rest) + 1,
      s.step^[n] (.running before.length) = .ofBody d before.length (d.body? (piece ++ rest)) := by
  have hlength : (before ++ Text.bytes piece).length = before.length + byteLength piece := by
    rw [List.length_append, length_bytes]
  obtain ⟨n, hn, hend⟩ :=
    ih (before ++ Text.bytes piece) (by rw [h, bytes_append, List.append_assoc])
  refine ⟨n + m, ?_, ?_⟩
  · rw [byteLength_append]
    omega
  · rw [Function.iterate_add_apply, hsteps, ← hlength, hend, hbody, State.ofBody_map, hlength]

theorem agrees_nil : s.Agrees d [] := by
  intro before h
  refine ⟨1, Nat.le_refl _, ?_⟩
  have hget : s.bytes[before.length]? = none := getElem?_of_eq h 0
  show s.step (.running before.length) = .unclosed
  rw [step, hget]

theorem step_of_eq {c : Char} (hc : c.toNat < 128) (h : s.bytes = before ++ Text.bytes (c :: cs)) :
    s.step (.running before.length) =
      if c = '\\' then .running (s.afterBackslash before.length)
      else if c = '\n' ∧ ¬s.isTriple then .unclosed
      else if c.toUInt8 = s.quote then s.atQuote before.length
      else .running (before.length + 1) := by
  rw [bytes_cons_of_lt hc] at h
  have hget : s.bytes[before.length]? = some c.toUInt8 := getElem?_of_eq h 0
  rw [step, hget]
  dsimp only
  simp only [toUInt8_inj hc (show ('\\' : Char).toNat < 128 by decide),
    toUInt8_inj hc (show ('\n' : Char).toNat < 128 by decide)]

theorem next_two_iff {c e f : Char} (hc : c.toNat < 128) (he : e.toNat < 128) (hf : f.toNat < 128)
    (h : s.bytes = before ++ Text.bytes (c :: cs)) : s.bytes[before.length + 1]? = some e.toUInt8 ∧
      s.bytes[before.length + 2]? = some f.toUInt8 ↔ [e, f] <+: cs := by
  rw [bytes_cons_of_lt hc] at h
  rw [getElem?_of_eq h 1, getElem?_of_eq h 2, List.getElem?_cons_succ, List.getElem?_cons_succ]
  exact pair_bytes_iff he hf cs

theorem step_backslash (h : s.bytes = before ++ Text.bytes ('\\' :: cs)) :
    s.step (.running before.length) =
    .running (before.length + if ['\r', '\n'] <+: cs then 3 else 2) := by
  rw [step_of_eq (by decide) h, if_pos rfl, afterBackslash]
  simp only [next_two_iff (e := '\r') (f := '\n') (by decide) (by decide) (by decide) h]
  split
  · rfl
  · rfl

theorem step_quote (hd : s.LooksFor d) (h : s.bytes = before ++ Text.bytes (d.quote :: cs)) :
    s.step (.running before.length) = if d.chars <+: d.quote :: cs then
      .closed (before.length + byteLength d.chars) else .running (before.length + 1) := by
  have hlength := Delimiter.byteLength_chars hd.quoted
  have hslash : d.quote ≠ '\\' := Delimiter.quote_ne hd.quoted rfl
  have hnewline : d.quote ≠ '\n' := Delimiter.quote_ne hd.quoted rfl
  rw [step_of_eq hd.quote_lt h, if_neg hslash, if_neg fun hline => hnewline hline.1,
    if_pos hd.quote.symm, atQuote, hd.triple, hd.quote, hlength, Delimiter.chars]
  cases d.triple with
  | false =>
      have hbegins : [d.quote] <+: d.quote :: cs := List.prefix_append [d.quote] cs
      rw [if_pos Bool.false_ne_true, if_neg Bool.false_ne_true, if_neg Bool.false_ne_true,
        if_pos hbegins]
  | true =>
      have hbegins : [d.quote, d.quote, d.quote] <+: d.quote :: cs ↔ [d.quote, d.quote] <+: cs := by
        rw [List.cons_prefix_cons]
        exact and_iff_right rfl
      rw [if_neg (not_not_intro rfl), if_pos rfl, if_pos rfl]
      simp only [next_two_iff hd.quote_lt hd.quote_lt hd.quote_lt h, hbegins]

theorem agrees_lone : s.Agrees d ['\\'] := by
  intro before h
  refine ⟨2, Nat.le_refl _, ?_⟩
  have hget : s.bytes[before.length + 2]? = none := getElem?_of_eq h 2
  have hnone : ¬['\r', '\n'] <+: [] := by decide
  show s.step (s.step (.running before.length)) = .unclosed
  rw [step_backslash h, if_neg hnone, step, hget]

/-- After a backslash, the scanner goes over what is left of the next character. -/
theorem agrees_escaped (hd : s.LooksFor d) {c : Char} (hbreak : ¬['\r', '\n'] <+: c :: cs)
    (hbody : d.body? ('\\' :: c :: cs) = (d.body? cs).map (['\\', c] ++ ·)) (ih : s.Agrees d cs) :
    s.Agrees d ('\\' :: c :: cs) := by
  intro before h
  obtain ⟨b, more, hmore, hskipped⟩ := exists_utf8EncodeChar c
  have hlength : (before ++ ['\\'.toUInt8, b]).length = before.length + 2 := List.length_append
  have hsize : byteLength ['\\', c] = 2 + more.length := by
    rw [byteLength, byteLength, ← String.length_utf8EncodeChar c, hmore, List.length_cons,
      utf8Size_of_lt (by decide), byteLength]
    omega
  have hinside : s.bytes = before ++ ['\\'.toUInt8, b] ++ (more ++ Text.bytes cs) := by
    rw [h, bytes_cons_of_lt (by decide), bytes_cons, hmore, List.append_assoc]
    rfl
  refine ih.goesOn ['\\', c] (m := more.length + 1) hbody (by omega) h ?_
  rw [Function.iterate_succ_apply, step_backslash h, if_neg hbreak, ← hlength,
    iterate_step_of_le hd hskipped hinside, List.length_append, hlength, hsize, Nat.add_assoc]

theorem agrees_plain (hd : s.LooksFor d) {c : Char} (hslash : c ≠ '\\') (hquote : c ≠ d.quote)
    (hline : d.triple = false → c ≠ '\n') (ih : s.Agrees d cs) : s.Agrees d (c :: cs) := by
  intro before h
  have hbody := Literal.body?_plainCons hslash hquote hline cs
  by_cases hc : c.toNat < 128
  · have hsize : byteLength [c] = 1 := utf8Size_of_lt hc
    refine ih.goesOn [c] (m := 1) hbody (Nat.le_of_eq hsize.symm) h ?_
    have hends : ¬(c = '\n' ∧ ¬s.isTriple) := by
      rw [hd.triple, Bool.not_eq_true]
      exact fun hends => hline hends.2 hends.1
    rw [Function.iterate_one, step_of_eq hc h, if_neg hslash, if_neg hends, hd.quote,
      if_neg fun heq => hquote ((toUInt8_inj hc hd.quote_lt).mp heq), hsize]
  · have hskipped : ∀ b ∈ String.utf8EncodeChar c, 128 ≤ b.toNat :=
      fun b hb => le_of_mem_utf8EncodeChar (Nat.le_of_not_lt hc) hb
    have hsize : byteLength [c] = (String.utf8EncodeChar c).length :=
      (String.length_utf8EncodeChar c).symm
    refine ih.goesOn [c] hbody (Nat.le_of_eq hsize.symm) h ?_
    rw [iterate_step_of_le hd hskipped h, List.length_append, hsize]

theorem agrees_quote (hd : s.LooksFor d) (ih : s.Agrees d cs) : s.Agrees d (d.quote :: cs) := by
  intro before h
  have hslash : d.quote ≠ '\\' := Delimiter.quote_ne hd.quoted rfl
  have hgoesOn : ¬(d.quote = '\n' ∧ ¬d.triple) :=
    fun hends => Delimiter.quote_ne hd.quoted rfl hends.1
  have hsize : byteLength [d.quote] = 1 := utf8Size_of_lt hd.quote_lt
  have hbody := Delimiter.body?_cons (d := d) hslash cs
  have hstep := step_quote hd h
  simp only [isSome_afterBeginning?_iff, if_neg hgoesOn] at hbody
  by_cases hcloses : d.chars <+: d.quote :: cs
  · rw [if_pos hcloses] at hbody hstep
    rw [hbody]
    exact ⟨1, Nat.le_add_left _ _, hstep⟩
  · rw [if_neg hcloses] at hbody hstep
    refine ih.goesOn [d.quote] (m := 1) hbody (Nat.le_of_eq hsize.symm) h ?_
    rw [Function.iterate_one, hstep, hsize]

theorem agrees_newline (hd : s.LooksFor d) (hsingle : d.triple = false) :
    s.Agrees d ('\n' :: cs) := by
  intro before h
  have hends : ('\n' : Char) = '\n' ∧ ¬s.isTriple := by
    rw [hd.triple, hsingle]
    exact ⟨rfl, Bool.false_ne_true⟩
  have hsame : '\n' = '\n' ∧ ¬d.triple := ⟨rfl, Bool.eq_false_iff.mp hsingle⟩
  have hopen :=
    Bool.eq_false_iff.mp (Delimiter.isSome_afterBeginning?_chars hd.quoted (c := '\n') rfl cs)
  refine ⟨1, Nat.le_add_left _ _, ?_⟩
  rw [Function.iterate_one, step_of_eq (by decide) h, if_neg (by decide), if_pos hends,
    Delimiter.body?_cons (by decide), if_neg hopen, if_pos hsame]
  rfl

/-- The scanner of bytes and the reader of characters find the same end. -/
theorem agrees (hd : s.LooksFor d) (cs : List Char) : s.Agrees d cs := by
  induction cs using Delimiter.inductionOnBody with
  | nil => exact agrees_nil
  | lone => exact agrees_lone
  | continued cs ih =>
      intro before h
      have hbody : d.body? (['\\', '\r', '\n'] ++ cs) =
          (d.body? cs).map (['\\', '\r', '\n'] ++ ·) :=
        Delimiter.body?.eq_3 d cs
      refine ih.goesOn ['\\', '\r', '\n'] (m := 1) hbody (by decide) h ?_
      have hbegins : ['\r', '\n'] <+: '\r' :: '\n' :: cs := List.prefix_append ['\r', '\n'] cs
      rw [Function.iterate_one, step_backslash h, if_pos hbegins]
      rfl
  | escaped c cs hbreak ih =>
      refine agrees_escaped hd ?_ (Delimiter.body?.eq_4 d c cs hbreak) ih
      rintro ⟨rest, hrest⟩
      obtain ⟨hc, hcs⟩ := List.cons.inj hrest
      exact hbreak rest hc.symm hcs.symm
  | plain c cs hslash ih =>
      by_cases hquote : c = d.quote
      · exact hquote ▸ agrees_quote hd ih
      by_cases hline : d.triple = false ∧ c = '\n'
      · obtain ⟨hsingle, rfl⟩ := hline
        exact agrees_newline hd hsingle
      · exact agrees_plain hd hslash hquote (fun hsingle hc => hline ⟨hsingle, hc⟩) ih

/-! ## A whole scan -/

theorem step_of_isFinal {state : State} (h : state.isFinal = true) : s.step state = state := by
  cases state with
  | running index => cases h
  | closed length => rfl
  | unclosed => rfl

theorem iterate_step_unique {state : State} {m n : Nat} (hm : (s.step^[m] state).isFinal = true)
    (hn : (s.step^[n] state).isFinal = true) : s.step^[m] state = s.step^[n] state := by
  have hstays : ∀ {m n}, m ≤ n → (s.step^[m] state).isFinal = true →
      s.step^[m] state = s.step^[n] state := by
    intro m n hle hfinal
    obtain ⟨k, rfl⟩ := Nat.exists_eq_add_of_le' hle
    rw [Function.iterate_add_apply, Function.iterate_fixed (step_of_isFinal hfinal)]
  rcases Nat.le_total m n with hle | hle
  · exact hstays hle hm
  · exact (hstays hle hn).symm

theorem State.isFinal_ofBody (d : Delimiter) (index : Nat) (body : Option (List Char)) :
    (State.ofBody d index body).isFinal = true := by
  cases body with
  | none => rfl
  | some body => rfl

end Scanner

namespace Literal

variable {marks after : List Char} {d : Delimiter}

/-- The scanner that begins after the first quote of a delimiter. -/
def scanner (d : Delimiter) (after : List Char) : Scanner :=
  ⟨d.quote.toUInt8, Text.bytes (d.chars.tail ++ after)⟩

theorem Opens.triple_iff (h : Opens marks d after) :
    d.triple = true ↔ [d.quote, d.quote] <+: d.chars.tail ++ after := by
  rw [← isSome_afterBeginning?_iff, congrArg Delimiter.triple h.longest]
  rfl

theorem Opens.ofOpened?_eq (h : Opens marks d after) :
    Scanner.ofOpened? (marks ++ [d.quote]) (d.chars.tail ++ after) = some (scanner d after) := by
  have hlast : (Text.bytes (marks ++ [d.quote])).getLast? = some d.quote.toUInt8 := by
    rw [bytes_append, bytes_cons_of_lt (toNat_lt_of_isQuote h.quoted)]
    exact List.getLast?_concat
  rw [Scanner.ofOpened?, hlast]
  rfl

theorem Opens.looksFor (h : Opens marks d after) : (scanner d after).LooksFor d := by
  have hquote := toNat_lt_of_isQuote h.quoted
  refine ⟨h.quoted, rfl, Bool.eq_iff_iff.mpr ?_⟩
  rw [Scanner.isTriple, Bool.and_eq_true, beq_iff_eq, beq_iff_eq, h.triple_iff]
  exact pair_bytes_iff hquote hquote _

/-- From the first quote on, a scan comes to the end that the reader of characters finds. -/
theorem Opens.iterate_step (h : Opens marks d after) : ∃ n ≤ (scanner d after).bytes.length + 1,
    (scanner d after).step^[n] (scanner d after).start =
      .ofBody d (byteLength d.chars.tail) (d.body? after) := by
  have hlength := Delimiter.byteLength_chars h.quoted
  rw [← d.cons_tail_chars, byteLength, utf8Size_of_lt (toNat_lt_of_isQuote h.quoted)] at hlength
  have hstart : (scanner d after).start = .running (Text.bytes d.chars.tail).length := by
    rw [Scanner.start, h.looksFor.triple, length_bytes]
    refine congrArg Scanner.State.running ?_
    split at hlength
    · rename_i htriple
      rw [if_pos htriple]
      omega
    · rename_i hsingle
      rw [if_neg hsingle]
      omega
  obtain ⟨n, hn, hend⟩ :=
    Scanner.agrees h.looksFor after (Text.bytes d.chars.tail) (bytes_append _ _)
  rw [length_bytes] at hstart hend
  refine ⟨n, ?_, hstart ▸ hend⟩
  show n ≤ (Text.bytes (d.chars.tail ++ after)).length + 1
  rw [length_bytes, byteLength_append]
  omega

/-- A scan ends with a length exactly if there is a body, and that is the length of the rest of the
literal. -/
theorem Opens.closed_iff (h : Opens marks d after) {length : Nat} :
    (∃ n, (scanner d after).step^[n] (scanner d after).start = .closed length) ↔
      ∃ body, d.body? after = some body ∧
        byteLength (d.chars.tail ++ (body ++ d.chars)) = length := by
  obtain ⟨n, -, hend⟩ := h.iterate_step
  have hfinal := congrArg Scanner.State.isFinal hend
  rw [Scanner.State.isFinal_ofBody] at hfinal
  constructor
  · rintro ⟨m, hclosed⟩
    have hsame := Scanner.iterate_step_unique (congrArg Scanner.State.isFinal hclosed) hfinal
    rw [hclosed, hend] at hsame
    cases hbody : d.body? after with
    | none =>
        rw [hbody] at hsame
        cases hsame
    | some body =>
        rw [hbody] at hsame
        cases hsame
        exact ⟨body, rfl, byteLength_append _ _⟩
  · rintro ⟨body, hbody, rfl⟩
    rw [hbody] at hend
    exact ⟨n, hend.trans (congrArg Scanner.State.closed (byteLength_append _ _).symm)⟩

end Literal

end DepsManifest
