import DepsManifest.Proofs.Schema.SingleLine
import DepsManifest.Report.Markdown
import Mathlib.Data.List.Forall2
import Mathlib.Data.List.Infix
/-! # Bullets of a report

A report as Markdown has a line beginning with `- [` for each finding, which a reader takes for the
finding (`Markdown.bullet`). Messages, paths and help texts are put in as they are, so a text with a
line break may bring lines of its own. The lines that look like findings are those of the findings,
one for each and in their order, exactly if no text of a finding goes on, after a line break, with
that beginning (`Report.bullets_iff`).

## Lines of a text

A report is a list of texts with a line break after each (`toList_markdown`), so its lines are those
of the texts, one text after the other (`bullets_flatMap`). Of a text the first line counts if the
text begins with the mark (`bullets_eq`), and the later ones count exactly if the mark stands after
a line break somewhere (`laterBullets_eq_nil_iff`). What stands before the findings has no such
line, as the profile and the reason for missing findings are on one line each.

## Where texts are put together

A text may itself be put together of several, and the mark could then lie across the seam: a line
break and a minus sign at the end of one, and the rest at the beginning of the next. It does not, as
what comes after an inserted text begins apart (`BeginsApart`, `holdsBullet_append`).
-/
namespace DepsManifest

namespace Text

/-- What the line of a finding begins with. -/
def bulletMark : List Char := ['-', ' ', '[']

/-- The lines of a text that look like the line of a finding. -/
def bullets (cs : List Char) : List (List Char) := (cs.splitOn '\n').filter bulletMark.isPrefixOf

/-- Such lines after the first line. -/
def laterBullets (cs : List Char) : List (List Char) :=
  (cs.splitOn '\n').tail.filter bulletMark.isPrefixOf

/-- A text goes on after a line break like the line of a finding. -/
def HoldsBullet (cs : List Char) : Prop := '\n' :: bulletMark <:+: cs

instance (cs : List Char) : Decidable (HoldsBullet cs) :=
  inferInstanceAs (Decidable ('\n' :: bulletMark <:+: cs))

theorem bullets_append_newline (cs ds : List Char) :
    bullets (cs ++ '\n' :: ds) = bullets cs ++ bullets ds := by
  have hsplit : (cs ++ '\n' :: ds).splitOn '\n' = cs.splitOn '\n' ++ ds.splitOn '\n' :=
    List.splitOnP_append_cons cs ds (p := fun c => c == '\n') rfl
  rw [bullets, hsplit, List.filter_append]
  rfl

theorem bullets_flatMap (texts : List String) :
    bullets (texts.flatMap fun t => t.toList ++ ['\n']) =
      texts.flatMap fun t => bullets t.toList := by
  induction texts with
  | nil => rfl
  | cons text texts ih =>
      rw [List.flatMap_cons, List.append_assoc, List.singleton_append, bullets_append_newline, ih,
        List.flatMap_cons]

theorem splitOn_cons (c : Char) (cs : List Char) : (c :: cs).splitOn '\n' =
    if c = '\n' then [] :: cs.splitOn '\n' else (cs.splitOn '\n').modifyHead (c :: ·) := by
  rw [List.splitOn, List.splitOnP_cons_eq_if_modifyHead]
  simp only [beq_iff_eq]
  rfl

theorem splitOn_eq (cs : List Char) :
    cs.splitOn '\n' = cs.takeWhile (fun c => decide (c ≠ '\n')) :: (cs.splitOn '\n').tail := by
  induction cs with
  | nil => rfl
  | cons c cs ih =>
      rw [splitOn_cons]
      by_cases hnewline : c = '\n'
      · subst hnewline
        rfl
      · rw [if_neg hnewline, List.takeWhile_cons_of_pos (by simpa using hnewline), ih]
        rfl

theorem isPrefixOf_takeWhile (cs : List Char) :
    bulletMark.isPrefixOf (cs.takeWhile fun c => decide (c ≠ '\n')) = bulletMark.isPrefixOf cs := by
  rw [Bool.eq_iff_iff, List.isPrefixOf_iff_prefix, List.isPrefixOf_iff_prefix]
  refine ⟨fun h => h.trans (List.takeWhile_prefix _), ?_⟩
  rintro ⟨rest, rfl⟩
  rw [List.takeWhile_append_of_pos (by simp [bulletMark])]
  exact List.prefix_append bulletMark _

theorem bullets_eq (cs : List Char) : bullets cs =
    if bulletMark.isPrefixOf cs then (cs.takeWhile fun c => decide (c ≠ '\n')) :: laterBullets cs
    else laterBullets cs := by
  rw [bullets, splitOn_eq, List.filter_cons, isPrefixOf_takeWhile]
  rfl

theorem laterBullets_cons (c : Char) (cs : List Char) : laterBullets (c :: cs) =
    if c = '\n' then bullets cs else laterBullets cs := by
  rw [laterBullets, splitOn_cons]
  split
  · rfl
  · rw [splitOn_eq]
    rfl

theorem laterBullets_eq_nil_iff {cs : List Char} : laterBullets cs = [] ↔ ¬ HoldsBullet cs := by
  induction cs with
  | nil => exact iff_of_true rfl fun h => List.cons_ne_nil _ _ (List.infix_nil.mp h)
  | cons c cs ih =>
      rw [HoldsBullet, List.infix_cons_iff, List.cons_prefix_cons, not_or, laterBullets_cons]
      by_cases hnewline : c = '\n'
      · rw [if_pos hnewline, bullets_eq]
        split
        · rename_i hmark
          rw [List.isPrefixOf_iff_prefix] at hmark
          exact iff_of_false (List.cons_ne_nil _ _) fun h => h.1 ⟨hnewline.symm, hmark⟩
        · rename_i hmark
          rw [List.isPrefixOf_iff_prefix] at hmark
          exact ih.trans (and_iff_right fun h => hmark h.2).symm
      · rw [if_neg hnewline]
        exact ih.trans (and_iff_right fun h => hnewline h.1.symm).symm

theorem not_holdsBullet {cs : List Char} (h : '\n' ∉ cs) : ¬ HoldsBullet cs :=
  fun hholds => h (hholds.subset List.mem_cons_self)

/-- `BeginsApart cs`: a text does not begin with an ending of the mark, so that the mark cannot lie
across the beginning of the text. -/
def BeginsApart (cs : List Char) : Prop :=
  ∀ ending, ending <:+ bulletMark → ending <+: cs → ending = []

theorem beginsApart_iff {cs : List Char} : BeginsApart cs ↔
    ¬ ['['] <+: cs ∧ ¬ [' ', '['] <+: cs ∧ ¬ bulletMark <+: cs := by
  have hendings : ∀ ending, ending <:+ bulletMark ↔
      ending = [] ∨ ending = ['['] ∨ ending = [' ', '['] ∨ ending = bulletMark := by
    intro ending
    rw [bulletMark, List.suffix_cons_iff, List.suffix_cons_iff, List.suffix_cons_iff,
      List.suffix_nil]
    tauto
  constructor
  · intro h
    refine ⟨fun hcs => ?_, fun hcs => ?_, fun hcs => ?_⟩
    · cases h _ ((hendings _).mpr (.inr (.inl rfl))) hcs
    · cases h _ ((hendings _).mpr (.inr (.inr (.inl rfl)))) hcs
    · cases h _ ((hendings _).mpr (.inr (.inr (.inr rfl)))) hcs
  · rintro ⟨hone, htwo, hall⟩ ending hending hcs
    rcases (hendings ending).mp hending with rfl | rfl | rfl | rfl
    · rfl
    · exact absurd hcs hone
    · exact absurd hcs htwo
    · exact absurd hcs hall

theorem holdsBullet_append {s t : String} (h : BeginsApart t.toList) :
    HoldsBullet (s ++ t).toList ↔ HoldsBullet s.toList ∨ HoldsBullet t.toList := by
  rw [String.toList_append]
  refine ⟨fun hboth => ?_, ?_⟩
  · rcases List.infix_append_iff.mp hboth with hs | ht | ⟨before, ending, heq, hs, ht⟩
    · exact .inl hs
    · exact .inr ht
    · cases before with
      | nil =>
          cases heq
          exact .inr ht.isInfix
      | cons c before =>
          obtain ⟨rfl, hmark⟩ := List.cons.inj heq
          obtain rfl := h ending ⟨before, hmark.symm⟩ ht
          have hbefore : bulletMark = before := hmark.trans (List.append_nil before)
          rw [HoldsBullet, hbefore]
          exact .inl hs.isInfix
  · rintro (hs | ht)
    · exact hs.trans (List.prefix_append _ _).isInfix
    · exact ht.trans (List.suffix_append _ _).isInfix

theorem holdsBullet_append_right {s t : String} (h : IsLine s) :
    HoldsBullet (s ++ t).toList ↔ HoldsBullet t.toList := by
  rw [String.toList_append]
  refine ⟨fun hboth => ?_, fun ht => ht.trans (List.suffix_append _ _).isInfix⟩
  rcases List.infix_append_iff.mp hboth with hs | ht | ⟨before, ending, heq, hs, ht⟩
  · exact absurd hs (not_holdsBullet h)
  · exact ht
  · cases before with
    | nil =>
        cases heq
        exact ht.isInfix
    | cons c before =>
        obtain ⟨rfl, -⟩ := List.cons.inj heq
        exact absurd (hs.subset List.mem_cons_self) h

theorem holdsBullet_append_left {s t : String} (h : IsLine t) (hstart : BeginsApart t.toList) :
    HoldsBullet (s ++ t).toList ↔ HoldsBullet s.toList := by
  rw [holdsBullet_append hstart, or_iff_left (not_holdsBullet h)]

theorem bullets_eq_nil {s : String} (h : IsLine s) (hstart : ¬ bulletMark <+: s.toList) :
    bullets s.toList = [] := by
  rw [bullets_eq, if_neg (List.isPrefixOf_iff_prefix.not.mpr hstart), laterBullets_eq_nil_iff]
  exact not_holdsBullet h

end Text

open Text (IsLine isLine_append bullets laterBullets HoldsBullet bulletMark)

/-! ## The texts of a report -/

namespace Markdown

/-- What the line of a finding begins with: its severity, its check and its code. -/
def bullet (f : Finding) : String :=
  "- [" ++ f.severity.tag ++ "] `" ++ f.checkId ++ "` / `" ++ f.code ++ "`: "

/-- The line of a finding, if its texts have no line breaks. -/
def headText (f : Finding) : String := bullet f ++ (f.message ++ (f.location.map place).getD "")

/-- The line for the value that a finding is about, if the path has no line breaks. -/
def valueText? (f : Finding) : Option String :=
  match f.location, f.valuePath? with
  | some _, some path => some ("  - value: `" ++ path ++ "`")
  | _, _ => none

/-- The texts of a finding, after each of which a line ends. -/
def texts (f : Finding) : List String :=
  headText f :: ((valueText? f).toList ++ (f.help.map ("  - help: " ++ ·)).toList)

def headerTexts (r : Report) : List String :=
  ["# Depseval report", "", "- Verdict: **" ++ r.verdict.label ++ "**",
    "- Profile: `" ++ r.summary.profile ++ "`",
    "- Manifests: " ++ number r.summary.manifestsScanned,
    "- Findings: " ++ number r.summary.findingsEmitted ++ " (emitted) / "
      ++ number r.summary.findingsTotal ++ " (total)", ""]

def noteTexts (r : Report) : List String :=
  match r.summary.truncation with
  | some reason => ["> Note: " ++ reason, ""]
  | none => []

def openingTexts (r : Report) : List String :=
  if r.findings.isEmpty then ["No findings."] else ["## Findings", ""]

theorem toList_item (f : Finding) :
    (item f).toList = (texts f).flatMap fun t => t.toList ++ ['\n'] := by
  have hhead : (headline f).toList = (headText f).toList ++ ['\n'] := by
    simp [headline, headText, bullet]
  have hvalue : (valueLine f).toList =
      (valueText? f).toList.flatMap fun t => t.toList ++ ['\n'] := by
    unfold valueLine valueText?
    cases f.location with
    | none => rfl
    | some l =>
        cases f.valuePath? with
        | none => rfl
        | some path => simp
  have hhelp : (helpLine f).toList =
      (f.help.map ("  - help: " ++ ·)).toList.flatMap fun t => t.toList ++ ['\n'] := by
    unfold helpLine
    cases f.help with
    | none => rfl
    | some help => simp
  rw [item, String.toList_append, String.toList_append, hhead, hvalue, hhelp, texts,
    List.flatMap_cons, List.flatMap_append, List.append_assoc]

theorem toList_markdown (r : Report) : r.markdown.toList =
    (headerTexts r ++ noteTexts r ++ openingTexts r ++ r.findings.flatMap texts).flatMap
      fun t => t.toList ++ ['\n'] := by
  have hheader : (header r).toList = (headerTexts r).flatMap fun t => t.toList ++ ['\n'] := by
    unfold header headerTexts
    generalize number r.summary.manifestsScanned = scanned
    generalize number r.summary.findingsEmitted = emitted
    generalize number r.summary.findingsTotal = total
    simp
  have hnote : (note r).toList = (noteTexts r).flatMap fun t => t.toList ++ ['\n'] := by
    unfold note noteTexts
    cases r.summary.truncation with
    | none => rfl
    | some reason => simp
  have hitems : (String.join (r.findings.map item)).toList =
      (r.findings.flatMap texts).flatMap fun t => t.toList ++ ['\n'] := by
    rw [List.flatMap_assoc]
    simp only [← toList_item]
    induction r.findings with
    | nil => rfl
    | cons f fs ih => simp [String.join_cons, ih]
  have hbody : (body r).toList =
      (openingTexts r ++ r.findings.flatMap texts).flatMap fun t => t.toList ++ ['\n'] := by
    unfold body openingTexts
    split
    · rename_i hempty
      rw [List.isEmpty_iff.mp hempty]
      rfl
    · rw [String.toList_append, hitems, List.flatMap_append]
      rfl
  rw [Report.markdown, String.toList_append, String.toList_append, hheader, hnote, hbody,
    ← List.flatMap_append, ← List.flatMap_append, List.append_assoc _ (openingTexts r)]

theorem bullets_of_mem_front {r : Report} (hprofile : IsLine r.summary.profile)
    (htruncation : ∀ reason, r.summary.truncation = some reason → IsLine reason) {t : String}
    (h : t ∈ headerTexts r ++ noteTexts r ++ openingTexts r) : bullets t.toList = [] := by
  have hlabel : IsLine r.verdict.label := by cases r.verdict <;> decide
  have hnumber : ∀ n, IsLine (number n) := fun n => Text.isLine_decimal n.toNat
  have hheader : ∀ t ∈ headerTexts r, IsLine t ∧ ¬ bulletMark <+: t.toList := by
    simp +decide [headerTexts, hlabel, hprofile, hnumber, bulletMark]
  have hnote : ∀ t ∈ noteTexts r, IsLine t ∧ ¬ bulletMark <+: t.toList := by
    unfold noteTexts
    cases hreason : r.summary.truncation with
    | none => exact nofun
    | some reason => simp +decide [htruncation reason hreason, bulletMark]
  have hopening : ∀ t ∈ openingTexts r, IsLine t ∧ ¬ bulletMark <+: t.toList := by
    unfold openingTexts
    split <;> decide
  have hplain : IsLine t ∧ ¬ bulletMark <+: t.toList := by
    rcases List.mem_append.mp h with h | h
    · rcases List.mem_append.mp h with h | h
      · exact hheader t h
      · exact hnote t h
    · exact hopening t h
  exact Text.bullets_eq_nil hplain.1 hplain.2

theorem prefix_headText {f : Finding} (h : IsLine (bullet f)) :
    (bullet f).toList <+: (headText f).toList.takeWhile fun c => decide (c ≠ '\n') := by
  rw [headText, String.toList_append, List.takeWhile_append_of_pos]
  · exact List.prefix_append _ _
  · intro c hc
    rw [decide_eq_true_iff]
    rintro rfl
    exact h hc

theorem isPrefixOf_headText (f : Finding) : bulletMark.isPrefixOf (headText f).toList := by
  rw [List.isPrefixOf_iff_prefix]
  refine ⟨f.severity.tag.toList ++ ("] `" ++ f.checkId ++ "` / `" ++ f.code ++ "`: ").toList ++
    (f.message ++ (f.location.map place).getD "").toList, ?_⟩
  simp [headText, bullet, bulletMark]

/-- The lines of a finding that look like one are its own line and those that its texts bring along.
-/
theorem bullets_texts (f : Finding) : (texts f).flatMap (fun t => bullets t.toList) =
    ((headText f).toList.takeWhile fun c => decide (c ≠ '\n')) ::
      (texts f).flatMap fun t => laterBullets t.toList := by
  have hindented : ∀ t ∈ (valueText? f).toList ++ (f.help.map ("  - help: " ++ ·)).toList,
      bullets t.toList = laterBullets t.toList := by
    intro t ht
    have hstart : ¬ bulletMark <+: t.toList := by
      rcases List.mem_append.mp ht with hvalue | hhelp
      · unfold valueText? at hvalue
        split at hvalue
        · cases List.mem_singleton.mp hvalue
          simp [bulletMark]
        · cases hvalue
      · obtain ⟨help, -, rfl⟩ := Option.map_eq_some_iff.mp (Option.mem_toList.mp hhelp)
        simp [bulletMark]
    rw [Text.bullets_eq, if_neg (List.isPrefixOf_iff_prefix.not.mpr hstart)]
  rw [texts, List.flatMap_cons, List.flatMap_cons, Text.bullets_eq, if_pos (isPrefixOf_headText f),
    List.cons_append, List.flatMap_congr hindented]

end Markdown

/-- What is added to the images of a list is nothing if the images correspond to the list one to
one. -/
theorem forall₂_flatMap_iff {α β : Type} {R : β → α → Prop} {image : α → β} {more : α → List β}
    {l : List α} (h : ∀ a ∈ l, R (image a) a) :
    List.Forall₂ R (l.flatMap fun a => image a :: more a) l ↔ ∀ a ∈ l, more a = [] := by
  have hle : ∀ l : List α, l.length ≤ (l.flatMap fun a => image a :: more a).length := by
    intro l
    induction l with
    | nil => exact Nat.le_refl 0
    | cons a l ih =>
        rw [List.flatMap_cons, List.length_append, List.length_cons, List.length_cons]
        omega
  constructor
  · intro hforall
    have hlength := hforall.length_eq
    clear hforall h
    induction l with
    | nil => exact nofun
    | cons a l ih =>
        rw [List.flatMap_cons, List.length_append, List.length_cons, List.length_cons] at hlength
        have hrest := hle l
        refine List.forall_mem_cons.mpr ⟨List.length_eq_zero_iff.mp (by omega), ih (by omega)⟩
  · intro hnone
    induction l with
    | nil => exact .nil
    | cons a l ih =>
        obtain ⟨hfirst, hrest⟩ := List.forall_mem_cons.mp hnone
        obtain ⟨ha, hl⟩ := List.forall_mem_cons.mp h
        rw [List.flatMap_cons, hfirst]
        exact .cons ha (ih hl hrest)

theorem Report.bullets_iff {r : Report} (hprofile : IsLine r.summary.profile)
    (htruncation : ∀ reason, r.summary.truncation = some reason → IsLine reason)
    (hfindings : ∀ f ∈ r.findings, IsLine (Markdown.bullet f)) :
    List.Forall₂ (fun line f => (Markdown.bullet f).toList <+: line) (bullets r.markdown.toList)
        r.findings ↔
      ∀ f ∈ r.findings, ∀ t ∈ Markdown.texts f, ¬ HoldsBullet t.toList := by
  have hbullets : bullets r.markdown.toList = r.findings.flatMap fun f =>
      ((Markdown.headText f).toList.takeWhile fun c => decide (c ≠ '\n')) ::
        (Markdown.texts f).flatMap fun t => laterBullets t.toList := by
    have hfront := List.flatMap_eq_nil_iff.mpr fun t ht =>
      Markdown.bullets_of_mem_front hprofile htruncation (t := t) ht
    rw [Markdown.toList_markdown, Text.bullets_flatMap, List.flatMap_append, hfront,
      List.nil_append, List.flatMap_assoc]
    simp only [Markdown.bullets_texts]
  rw [hbullets, forall₂_flatMap_iff fun f hf => Markdown.prefix_headText (hfindings f hf)]
  refine forall₂_congr fun f _ => ?_
  rw [List.flatMap_eq_nil_iff]
  exact forall₂_congr fun t _ => Text.laterBullets_eq_nil_iff

end DepsManifest
