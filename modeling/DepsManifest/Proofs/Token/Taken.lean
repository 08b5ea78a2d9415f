import DepsManifest.Proofs.Token.Scanning
/-! # What a scan takes

A scan begins after the first quote of a literal and comes to a number of bytes.
`Literal.scan_takes_literal` says what the program does with that number, and why it may:

  * the scan comes to an end, within as many steps as there are bytes and one more;
  * the end is that of the literal if the reader of characters finds one, and otherwise the literal
    is not closed;
  * the bytes that it takes are within the text and end between two characters, so they can be cut
    off;
  * what they are is the rest of the literal, and the parts cut out of it by their lengths are the
    marks and the body that the reader of characters finds (`Literal.Opens.takeApart?_eq`).

## Quotes and backslashes

There are three quotes on either side exactly if the scanner went by three
(`Literal.Opens.quotesLength_eq`), as a literal never begins with one quote and two of its body:
those would have been taken for the delimiter.

The reading of a body goes from unit to unit (`Literal.Reaches`), and every place it comes to is
followed by the delimiter as the whole body is (`Delimiter.Closes`). A backslash right before the
delimiter would take its quote along. So no backslash is left alone at the end, and decoding need
not look for one.
-/
namespace DepsManifest

open Text

/-! ## Places in a body -/

namespace Delimiter

variable {d : Delimiter} {c : Char} {cs : List Char}

/-- A text is a body up to the delimiter after it. -/
def Closes (d : Delimiter) (cs : List Char) : Prop := d.body? (cs ++ d.chars) = some cs

theorem closes_of_body? (h : Literal.isQuote d.quote = true) {after body : List Char}
    (hbody : d.body? after = some body) : d.Closes body := by
  have hsame := (body?_closed h hbody).2 []
  rwa [List.append_nil] at hsame

theorem Closes.of_map (piece : List Char) (h : d.Closes (piece ++ cs))
    (hbody : d.body? (piece ++ (cs ++ d.chars)) = (d.body? (cs ++ d.chars)).map (piece ++ ·)) :
    d.Closes cs := by
  rw [Closes, List.append_assoc, hbody] at h
  obtain ⟨more, hmore, heq⟩ := Option.map_eq_some_iff.mp h
  rwa [List.append_cancel_left heq] at hmore

theorem not_closes_lone (h : Literal.isQuote d.quote = true) : ¬d.Closes ['\\'] := by
  obtain ⟨more, hmore⟩ := d.chars_eq_cons
  intro hlone
  have hescaped : d.body? ('\\' :: d.quote :: more) = (d.body? more).map (['\\', d.quote] ++ ·) :=
    Literal.body?_escaped fun hreturn => absurd hreturn (quote_ne h rfl)
  rw [Closes, hmore, List.singleton_append, hescaped] at hlone
  obtain ⟨body, -, heq⟩ := Option.map_eq_some_iff.mp hlone
  cases heq

theorem Closes.tail (h : d.Closes (c :: cs)) (hslash : c ≠ '\\') : d.Closes cs := by
  refine Closes.of_map [c] h ?_
  have hbody := body?_cons (d := d) hslash (cs ++ d.chars)
  rw [Closes, List.cons_append, hbody] at h
  split at h
  · cases h
  · rename_i hopen
    split at h
    · cases h
    · rename_i hgoesOn
      rw [if_neg hopen, if_neg hgoesOn] at hbody
      exact hbody

theorem Closes.drop {k : Nat} (h : d.Closes cs)
    (hplain : ∀ c ∈ cs.take k, Literal.isPlain c = true) : d.Closes (cs.drop k) := by
  induction k generalizing cs with
  | zero => exact h
  | succ k ih =>
      cases cs with
      | nil => exact h
      | cons c cs =>
          obtain ⟨hc, hlater⟩ := List.forall_mem_cons.mp (List.take_succ_cons ▸ hplain)
          rw [Literal.isPlain, Bool.and_eq_true, bne_iff_ne] at hc
          exact ih (h.tail hc.1) hlater

theorem Closes.escaped (h : d.Closes ('\\' :: c :: cs))
    (hbreak : c = '\r' → (cs ++ d.chars).head? ≠ some '\n') : d.Closes cs :=
  Closes.of_map ['\\', c] h (Literal.body?_escaped hbreak)

/-- After a unit, a body is closed as before it. -/
theorem Closes.unit (hquote : Literal.isQuote d.quote = true) (h : d.Closes (c :: cs))
    {u : Literal.BodyUnit} (hunit : Literal.unitAt c cs = .ok u) :
    d.Closes (cs.drop (u.length - 1)) := by
  rw [Literal.unitAt] at hunit
  split at hunit
  case isFalse hslash =>
    cases hunit
    exact h.tail hslash
  case isTrue hslash =>
    subst hslash
    cases cs with
    | nil => exact absurd h (not_closes_lone hquote)
    | cons c cs =>
        by_cases hnewline : c = '\n'
        · subst hnewline
          cases hunit
          exact h.escaped fun hreturn => absurd hreturn (by decide)
        by_cases hreturn : c = '\r'
        · subst hreturn
          by_cases hfeed : cs.head? = some '\n'
          · obtain ⟨cs, rfl⟩ := List.head?_eq_some_iff.mp hfeed
            cases hunit
            exact Closes.of_map ['\\', '\r', '\n'] h (body?.eq_3 d _)
          · rw [Literal.escapeAt_return hfeed] at hunit
            cases hunit
            refine h.escaped fun _ => ?_
            cases cs with
            | nil =>
                obtain ⟨more, hmore⟩ := d.chars_eq_cons
                rw [List.nil_append, hmore, List.head?_cons]
                exact fun heq => quote_ne hquote rfl (Option.some.inj heq)
            | cons c cs => exact hfeed
        · obtain ⟨-, k, hlength, hplain⟩ := Literal.escapeAt_crlf hnewline hreturn hunit
          rw [hlength]
          exact (h.escaped fun heq => absurd heq hreturn).drop hplain

end Delimiter

namespace Literal

variable {marks after body following : List Char} {d : Delimiter}

/-- The places of a body that its reading comes to: the beginning, and the end of each unit. -/
inductive Reaches (body : List Char) : List Char → Prop
  | start : Reaches body body
  | unit {c : Char} {cs : List Char} {u : BodyUnit} (h : Reaches body (c :: cs))
      (hunit : unitAt c cs = .ok u) : Reaches body (cs.drop (u.length - 1))

theorem Reaches.unescape_eq (h : Reaches body following) :
    ∃ meaning, unescape body = (unescape following).map (meaning ++ ·) := by
  induction h with
  | start =>
      refine ⟨[], ?_⟩
      cases unescape body with
      | error fault => rfl
      | ok text => rfl
  | @unit c cs u _ hunit ih =>
      obtain ⟨meaning, hmeaning⟩ := ih
      refine ⟨meaning ++ u.meaning, ?_⟩
      rw [hmeaning, unescape_cons, hunit, ok_bind]
      cases unescape (cs.drop (u.length - 1)) with
      | error fault => rfl
      | ok text => exact congrArg Except.ok (List.append_assoc meaning u.meaning text).symm

theorem Reaches.closes (hquote : isQuote d.quote = true) (hbody : d.Closes body)
    (h : Reaches body following) : d.Closes following := by
  induction h with
  | start => exact hbody
  | unit _ hunit ih => exact ih.unit hquote hunit

/-! ## The parts of a literal -/

/-- What a scan took after the first quote of a literal is the rest of that literal: the marks and
the body are cut out at places of the text, the two delimiters have no quote in common, they have
three quotes each exactly if the scanner went by three, and the reading of the body comes to no
backslash alone at its end. -/
structure WellTaken (triple : Bool) (marks : List Char) (quote : Char) (taken body : List Char) :
    Prop where
  apart : takeApart? (marks ++ quote :: taken) = some (marks, body)
  separate : 2 * quotesLength (quote :: taken) ≤ byteLength (quote :: taken)
  three_iff : quotesLength (quote :: taken) = 3 ↔ triple = true
  readable : ∀ following, Reaches body following → following ≠ ['\\'] ∧
    ∃ meaning, unescape body = (unescape following).map (meaning ++ ·)

theorem marksLength_eq (hmarked : ∀ c ∈ marks, isMark c = true) {quote : Char}
    (hquote : isQuote quote = true) (taken : List Char) :
    marksLength (marks ++ quote :: taken) = byteLength marks := by
  have hany : (marks ++ quote :: taken).any isQuote = true :=
    List.any_eq_true.mpr ⟨quote, List.mem_append_right marks List.mem_cons_self, hquote⟩
  have hunquoted : ∀ c ∈ marks, (!isQuote c) = true := by
    intro c hc
    rw [Bool.not_eq_true', Bool.eq_false_iff]
    intro hc'
    have hmark := isMark_of_isQuote hc'
    rw [hmarked c hc] at hmark
    cases hmark
  rw [marksLength, if_pos hany, List.takeWhile_append_of_pos hunquoted, List.takeWhile_cons, hquote]
  exact congrArg byteLength (List.append_nil marks)

theorem begins_three_iff {q : Char} (hquote : isQuote q = true) (taken : List Char) :
    (afterBeginning? ['\'', '\'', '\''] (q :: taken)).isSome ∨
      (afterBeginning? ['"', '"', '"'] (q :: taken)).isSome ↔ [q, q] <+: taken := by
  rw [isSome_afterBeginning?_iff, isSome_afterBeginning?_iff, List.cons_prefix_cons,
    List.cons_prefix_cons]
  rcases eq_quotes_of_isQuote hquote with rfl | rfl
  · rw [or_iff_left fun h => absurd h.1 (by decide), and_iff_right rfl]
  · rw [or_iff_right fun h => absurd h.1 (by decide), and_iff_right rfl]

/-- There are as many quotes on either side of a body as its delimiter has. -/
theorem Opens.quotesLength_eq (h : Opens marks d after) (hbody : d.body? after = some body) :
    quotesLength (d.chars ++ body ++ d.chars) = byteLength d.chars := by
  have hlength := Delimiter.byteLength_chars h.quoted
  have hbegins := (Delimiter.body?_closed h.quoted hbody).1
  have htriple := h.triple_iff
  have hquoted := h.quoted
  clear h hbody
  obtain ⟨q, triple⟩ := d
  rw [quotesLength]
  cases triple with
  | true =>
      have hthree :=
        (begins_three_iff hquoted ([q, q] ++ (body ++ [q, q, q]))).mpr (List.prefix_append _ _)
      have hlong : 6 ≤
          byteLength ((⟨q, true⟩ : Delimiter).chars ++ body ++ (⟨q, true⟩ : Delimiter).chars) := by
        rw [byteLength_append, byteLength_append, hlength, if_pos rfl]
        omega
      exact (if_pos ⟨hlong, hthree⟩).trans hlength.symm
  | false =>
      -- three quotes before the body would have been taken for the delimiter
      have hnot : ¬[q, q] <+: body ++ [q] := fun hquotes =>
        Bool.false_ne_true (htriple.mpr (hquotes.trans hbegins))
      exact (if_neg fun hthree => hnot ((begins_three_iff hquoted _).mp hthree.2)).trans
        hlength.symm

theorem Opens.takeApart?_eq (h : Opens marks d after) (hbody : d.body? after = some body) :
    takeApart? (marks ++ (d.chars ++ body ++ d.chars)) = some (marks, body) := by
  have hmarks : marksLength (marks ++ (d.chars ++ body ++ d.chars)) = byteLength marks := by
    rw [← d.cons_tail_chars]
    exact marksLength_eq h.marked h.quoted _
  have hstop : byteLength (d.chars ++ body ++ d.chars) - byteLength d.chars =
      byteLength (d.chars ++ body) := by
    rw [byteLength_append (d.chars ++ body), Nat.add_sub_cancel]
  rw [takeApart?, hmarks, cut?_append]
  dsimp only [Option.bind_eq_bind, Option.bind_some]
  rw [h.quotesLength_eq hbody, hstop, slice?_append]
  rfl

theorem Opens.wellTaken (h : Opens marks d after) (hbody : d.body? after = some body) :
    WellTaken d.triple marks d.quote (d.chars.tail ++ (body ++ d.chars)) body := by
  have hliteral : d.quote :: (d.chars.tail ++ (body ++ d.chars)) = d.chars ++ body ++ d.chars := by
    rw [← List.cons_append, d.cons_tail_chars, List.append_assoc]
  have hquotes := h.quotesLength_eq hbody
  rw [← hliteral] at hquotes
  refine ⟨hliteral ▸ h.takeApart?_eq hbody, ?_, ?_, fun following hreaches =>
    ⟨?_, hreaches.unescape_eq⟩⟩
  · rw [hquotes, hliteral, byteLength_append, byteLength_append]
    omega
  · rw [hquotes, Delimiter.byteLength_chars h.quoted]
    cases d.triple with
    | true => exact iff_of_true rfl rfl
    | false => exact iff_of_false (by decide) Bool.false_ne_true
  · rintro rfl
    have hcloses := Delimiter.closes_of_body? h.quoted hbody
    exact Delimiter.not_closes_lone h.quoted (hreaches.closes h.quoted hcloses)

theorem exists_opens {quote : Char} (hfew : marks.length ≤ 2)
    (hmarked : ∀ c ∈ marks, isMark c = true) (hquote : isQuote quote = true) (rest : List Char) :
    ∃ d after, Opens marks d after ∧ d.quote = quote ∧ d.chars.tail ++ after = rest := by
  obtain ⟨hopens, htext⟩ := opening?_eq_some_iff.mp (opening?_append_cons hfew hmarked hquote rest)
  have hne : (delimiter quote rest).chars ≠ [] := by
    rw [← Delimiter.cons_tail_chars]
    exact List.cons_ne_nil _ _
  have htail := congrArg List.tail (List.append_cancel_left htext)
  rw [List.tail_append_of_ne_nil hne] at htail
  exact ⟨_, _, hopens, rfl, htail.symm⟩

/-- A scan comes to an end, and to that of the literal if the reader of characters finds one. What
it takes is within the text and ends between two characters, and is the rest of a literal with the
body that the reader finds. -/
theorem scan_takes_literal {marks rest : List Char} {quote : Char} (hfew : marks.length ≤ 2)
    (hmarked : ∀ c ∈ marks, isMark c = true) (hquote : isQuote quote = true) :
    ∃ d after s, opening? (marks ++ quote :: rest) = some (marks, d, after) ∧
      Scanner.ofOpened? (marks ++ [quote]) rest = some s ∧
      (∃ n ≤ s.bytes.length + 1, (s.step^[n] s.start).isFinal = true) ∧
      ((∃ n length, s.step^[n] s.start = .closed length) ↔ (d.body? after).isSome = true) ∧
      ∀ n length, s.step^[n] s.start = .closed length → ∃ taken later body,
        rest = taken ++ later ∧ byteLength taken = length ∧ length ≤ s.bytes.length ∧
        d.body? after = some body ∧ WellTaken s.isTriple marks quote taken body := by
  obtain ⟨d, after, hopens, rfl, rfl⟩ := exists_opens hfew hmarked hquote rest
  obtain ⟨n, hn, hend⟩ := hopens.iterate_step
  have hfinal := congrArg Scanner.State.isFinal hend
  rw [Scanner.State.isFinal_ofBody] at hfinal
  refine ⟨d, after, scanner d after, ?_, hopens.ofOpened?_eq, ⟨n, hn, hfinal⟩, ?_, ?_⟩
  · refine opening?_eq_some_iff.mpr ⟨hopens, ?_⟩
    rw [← List.cons_append, d.cons_tail_chars]
  · rw [Option.isSome_iff_exists, exists_comm]
    simp only [hopens.closed_iff]
    exact ⟨fun ⟨_, body, hbody, _⟩ => ⟨body, hbody⟩, fun ⟨body, hbody⟩ => ⟨_, body, hbody, rfl⟩⟩
  · intro n length hclosed
    obtain ⟨body, hbody, rfl⟩ := hopens.closed_iff.mp ⟨n, hclosed⟩
    obtain ⟨later, hlater⟩ := (Delimiter.body?_closed hopens.quoted hbody).1
    have hrest : d.chars.tail ++ after = d.chars.tail ++ (body ++ d.chars) ++ later := by
      rw [List.append_assoc, hlater]
    refine ⟨_, later, body, hrest, rfl, ?_, hbody, hopens.looksFor.triple ▸ hopens.wellTaken hbody⟩
    show _ ≤ (Text.bytes (d.chars.tail ++ after)).length
    rw [hrest, length_bytes, byteLength_append _ later]
    exact Nat.le_add_right _ _

/-- A backslash takes the scanner into a character of two bytes, and another one past a quote before
the three that close the literal. -/
theorem scan_takes_literal_escaped :
    ∃ s, Scanner.ofOpened? ['b', '"'] ['"', '"', '\\', 'é', '\\', '"', '"', '"', '"', ' '] =
      some s ∧ s.step^[4] s.start = .closed 10 ∧
      WellTaken s.isTriple ['b'] '"' ['"', '"', '\\', 'é', '\\', '"', '"', '"', '"']
        ['\\', 'é', '\\', '"'] := by
  have hmarked : ∀ c ∈ ['b'], isMark c = true := List.forall_mem_singleton.mpr rfl
  obtain ⟨d, after, s, hopening, hs, -, -, hclosed⟩ := @scan_takes_literal ['b']
    ['"', '"', '\\', 'é', '\\', '"', '"', '"', '"', ' '] '"' (by decide) hmarked rfl
  cases hopening
  have hend : s.step^[4] s.start = .closed 10 := by
    cases hs
    rfl
  refine ⟨s, hs, hend, ?_⟩
  obtain ⟨taken, later, body, hrest, hlength, -, hbody, htaken⟩ := hclosed 4 10 hend
  have hcut := cut?_eq_some_iff.mpr ⟨hrest, hlength⟩
  cases hbody
  cases hcut
  exact htaken

end Literal

end DepsManifest
