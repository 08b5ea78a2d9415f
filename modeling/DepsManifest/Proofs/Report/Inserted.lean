import DepsManifest.Proofs.Agreement
import DepsManifest.Proofs.Policy.Assignments
import DepsManifest.Proofs.Report.Markdown
/-! # Texts that are put into a report as they are

A report as Markdown is made of texts, and some of them come from manifests. Paths of values, keys
and printed values are quoted, so they stand on one line. The path of the manifest, the name of a
dependency and its host are not quoted (`Finding.insertedTexts`).

## What is proved

The lines of a report that look like findings are those of its findings, one for each and in their
order, if and only if none of these texts goes on like the line of a finding after a line break
(`Run.bullets_of_validate`). The condition is exact, and it is about what is put in, not about what
comes out. A name may well break it, and then the report shows a finding that no check has made
(`Run.bullets_of_validate_forged`).

## The way of the proof

For any report the condition is about all of the texts of a finding (`Report.bullets_iff`). What is
left is to tell the texts of the findings of a policy, one check after the other: what is quoted is
on one line, and the rest is among the inserted texts (`forall_insertedTexts_iff`). The paths of
values are on one line because the names that they begin with are words; this holds of manifests
that come from texts, and so of every run.
-/
namespace DepsManifest

open Text (IsLine isLine_append HoldsBullet BeginsApart beginsApart_iff)

/-! ## The texts of a finding -/

/-- The message and the help of a finding do not go on like another finding after a line break. -/
def Finding.IsPlain (f : Finding) : Prop :=
  ¬ HoldsBullet f.message.toList ∧ ∀ help ∈ f.help, ¬ HoldsBullet help.toList

namespace Markdown

theorem holdsBullet_append_place (s : String) (l : Location) :
    HoldsBullet (s ++ place l).toList ↔ HoldsBullet s.toList ∨ HoldsBullet l.path.toList := by
  obtain ⟨closing, hform, hclosing, hapart⟩ : ∃ closing, place l = " (`" ++ (l.path ++ closing) ∧
      IsLine closing ∧ BeginsApart closing.toList := by
    unfold place
    cases l.line with
    | none =>
        exact ⟨"`)", String.append_assoc, by decide, by simp [beginsApart_iff, Text.bulletMark]⟩
    | some line =>
        have hline : IsLine (number line) := Text.isLine_decimal line.toNat
        refine ⟨"`:" ++ number line ++ ")", by simp only [String.append_assoc], ?_,
          by simp [beginsApart_iff, Text.bulletMark]⟩
        rw [isLine_append, isLine_append]
        exact ⟨⟨by decide, hline⟩, by decide⟩
  have hstart : BeginsApart (" (`" ++ (l.path ++ closing)).toList := by
    simp [beginsApart_iff, Text.bulletMark]
  rw [hform, Text.holdsBullet_append hstart, Text.holdsBullet_append_right (by decide),
    Text.holdsBullet_append_left hclosing hapart]

/-- A finding goes on like another after a line break exactly if its message, its help or the path
of its manifest does. -/
theorem forall_texts_iff {f : Finding} {l : Location} {path : String} (hbullet : IsLine (bullet f))
    (hlocation : f.location = some l) (hvalue : f.valuePath? = some path) (hpath : IsLine path) :
    (∀ t ∈ texts f, ¬ HoldsBullet t.toList) ↔ ¬ HoldsBullet l.path.toList ∧ f.IsPlain := by
  have hhead : HoldsBullet (headText f).toList ↔
      HoldsBullet f.message.toList ∨ HoldsBullet l.path.toList := by
    rw [headText, Text.holdsBullet_append_right hbullet, hlocation]
    exact holdsBullet_append_place f.message l
  have hsome : valueText? f = some ("  - value: `" ++ path ++ "`") := by
    rw [valueText?, hlocation, hvalue]
  have hnot : ¬ HoldsBullet ("  - value: `" ++ path ++ "`").toList := by
    have hline : IsLine ("  - value: `" ++ path ++ "`") := by
      rw [isLine_append, isLine_append]
      exact ⟨⟨by decide, hpath⟩, by decide⟩
    exact Text.not_holdsBullet hline
  have hhelp : (∀ t ∈ (f.help.map ("  - help: " ++ ·)).toList, ¬ HoldsBullet t.toList) ↔
      ∀ help ∈ f.help, ¬ HoldsBullet help.toList := by
    cases f.help with
    | none => exact iff_of_true (List.forall_mem_nil _) fun help hhelp => by cases hhelp
    | some help =>
        have hindented := Text.holdsBullet_append_right (s := "  - help: ") (t := help) (by decide)
        simpa using hindented.not
  rw [texts, List.forall_mem_cons, hhead, not_or, hsome, Option.toList_some, List.singleton_append,
    List.forall_mem_cons, and_iff_right hnot, hhelp, Finding.IsPlain, and_assoc, and_left_comm]

end Markdown

/-! ## What is put in as it is -/

/-- The texts of a finding that the report does not quote: the path of the manifest, and the name
and the host of a dependency. -/
def Finding.insertedTexts (f : Finding) : List String :=
  (f.location.map (·.path)).toList ++
    ["dependency", "host"].filterMap fun name => (f.data.member? name).bind Json.asString?

theorem Finding.insertedTexts_eq {f : Finding} {l : Location} {members : List (String × Json)}
    (hlocation : f.location = some l) (hdata : f.data = Json.object members)
    (hnodup : (members.map (·.1)).Nodup) : f.insertedTexts = l.path ::
      ["dependency", "host"].filterMap fun name => (members.lookup name).bind Json.asString? := by
  rw [insertedTexts, hlocation, hdata]
  simp only [Json.member?_object hnodup]
  rfl

theorem Manifest.isLine_valuePath {m : Manifest} {d : Dependency} (h : d ∈ m.dependencies) :
    IsLine d.valuePath := by
  have hmarks : IsLine "deps[" ∧ IsLine "deps_os[" ∧ IsLine "][" ∧ IsLine "]" := by decide
  rcases List.mem_append.mp h with hd | hd
  · obtain ⟨⟨k, v⟩, -, hpair⟩ := List.mem_filterMap.mp hd
    cases k with
    | str name =>
        cases hpair
        simp [hmarks]
    | _ => cases hpair
  · obtain ⟨⟨k, v⟩, -, hmem⟩ := List.mem_flatMap.mp hd
    unfold Dependency.ofOs at hmem
    split at hmem
    · obtain ⟨⟨k', v'⟩, -, hpair⟩ := List.mem_filterMap.mp hmem
      cases k' with
      | str name =>
          cases hpair
          simp [hmarks]
      | _ => cases hpair
    · cases hmem

theorem Manifest.Concerns.isLine {m : Manifest} {name path : String}
    (hnames : ∀ name, m.scope.contains name = true → name ≠ "" ∧ IsLine name)
    (h : m.Concerns name path) : IsLine path := by
  cases h with
  | mismatch hfound => exact (Scope.isLine_of_mem_mismatches hnames hfound).path
  | dependency hd => exact isLine_valuePath hd
  | recursed index _ =>
      rw [isLine_append, isLine_append]
      exact ⟨⟨by decide, Text.isLine_decimal index⟩, by decide⟩

namespace Manifest

variable {m : Manifest} {severity : Severity}

theorem isPlain_mismatchFinding {found : Mismatch} (h : found.OnOneLine) :
    (m.mismatchFinding severity found).IsPlain := by
  have hhelp : IsLine found.kind.help := by cases found.kind <;> decide
  refine ⟨Text.not_holdsBullet h.message, ?_⟩
  rintro _ ⟨⟩
  exact Text.not_holdsBullet hhelp

theorem isPlain_hostFinding_iff {allowed : List String} {d : Dependency} {url host : String} :
    (m.hostFinding severity allowed d url host).IsPlain ↔
      ¬ HoldsBullet d.name.toList ∧ ¬ HoldsBullet host.toList := by
  have hname : BeginsApart
      ("' is fetched from '" ++ (host ++ "', which is not in allowed_hosts")).toList := by
    simp [beginsApart_iff, Text.bulletMark]
  have hhost : BeginsApart "', which is not in allowed_hosts".toList := by
    simp [beginsApart_iff, Text.bulletMark]
  have hadvice : BeginsApart
      "' to allowed_hosts or fetch the dependency from an allowed host.".toList := by
    simp [beginsApart_iff, Text.bulletMark]
  have hmessage : HoldsBullet (m.hostFinding severity allowed d url host).message.toList ↔
      HoldsBullet d.name.toList ∨ HoldsBullet host.toList := by
    show HoldsBullet (String.toList ("dependency '" ++ d.name ++ "' is fetched from '" ++ host
      ++ "', which is not in allowed_hosts")) ↔ _
    simp only [String.append_assoc]
    rw [Text.holdsBullet_append_right (by decide), Text.holdsBullet_append hname,
      Text.holdsBullet_append_right (by decide), Text.holdsBullet_append_left (by decide) hhost]
  have hhelp : HoldsBullet (String.toList ("Add '" ++ host
      ++ "' to allowed_hosts or fetch the dependency from an allowed host.")) ↔
      HoldsBullet host.toList := by
    rw [Text.holdsBullet_append_left (by decide) hadvice, Text.holdsBullet_append_right (by decide)]
  rw [Finding.IsPlain, hmessage, not_or]
  constructor
  · exact fun h => h.1
  · rintro ⟨hdependency, hno⟩
    refine ⟨⟨hdependency, hno⟩, ?_⟩
    rintro _ ⟨⟩
    exact hhelp.not.mpr hno

theorem isPlain_recursedFinding_iff {name : String} {index : Nat} :
    (m.recursedFinding severity name index).IsPlain ↔ ¬ HoldsBullet name.toList := by
  have hname : BeginsApart "', which is not a dependency".toList := by
    simp [beginsApart_iff, Text.bulletMark]
  have hmessage : HoldsBullet (m.recursedFinding severity name index).message.toList ↔
      HoldsBullet name.toList := by
    show HoldsBullet (String.toList ("recursedeps names '" ++ name
      ++ "', which is not a dependency")) ↔ _
    rw [Text.holdsBullet_append_left (by decide) hname, Text.holdsBullet_append_right (by decide)]
  have hhelp : IsLine
      "Declare the dependency in deps or deps_os, or drop it from recursedeps." := by decide
  rw [Finding.IsPlain, hmessage]
  refine and_iff_left ?_
  rintro _ ⟨⟩
  exact Text.not_holdsBullet hhelp

end Manifest

namespace Check

variable {severity : Severity} {m : Manifest} {c : Check} {f : Finding}

theorem isLine_bullet (h : f ∈ c.findings severity m) : IsLine (Markdown.bullet f) := by
  obtain ⟨hid, hcode⟩ := id_and_code_of_mem h
  have hwords : ∀ c ∈ all, IsLine c.id ∧ ∀ code ∈ c.codes, IsLine code := by decide
  have htag : IsLine f.severity.tag := by cases f.severity <;> decide
  have hmarks : IsLine "- [" ∧ IsLine "] `" ∧ IsLine "` / `" ∧ IsLine "`: " := by decide
  obtain ⟨hidLine, hcodes⟩ := hwords c c.mem_all
  simp [Markdown.bullet, htag, hid, hidLine, hcodes _ hcode, hmarks]

/-- A finding goes on like another after a line break exactly if one of the texts does that are put
into it as they are. -/
theorem forall_insertedTexts_iff
    (hnames : ∀ name, m.scope.contains name = true → name ≠ "" ∧ IsLine name)
    (h : f ∈ c.findings severity m) : (∀ t ∈ Markdown.texts f, ¬ HoldsBullet t.toList) ↔
      ∀ s ∈ f.insertedTexts, ¬ HoldsBullet s.toList := by
  obtain ⟨name, path, hconcern, hvalue, hlocation⟩ := exists_concern h
  rw [Markdown.forall_texts_iff (isLine_bullet h) hlocation hvalue (hconcern.isLine hnames)]
  cases c with
  | schemaMismatch =>
      obtain ⟨found, hfound, rfl⟩ := List.mem_map.mp h
      have htexts : (m.mismatchFinding severity found).insertedTexts = [m.path] :=
        (Finding.insertedTexts_eq hlocation rfl (by simp)).trans rfl
      rw [htexts, List.forall_mem_singleton]
      exact and_iff_left (Manifest.isPlain_mismatchFinding
        (Scope.isLine_of_mem_mismatches hnames hfound))
  | allowedHosts =>
      rw [findings] at h
      split at h
      · cases h
      · obtain ⟨d, hd, hfound⟩ := List.mem_filterMap.mp h
        obtain ⟨⟨url, host⟩, -, rfl⟩ := Option.map_eq_some_iff.mp hfound
        have htexts : (m.hostFinding severity _ d url host).insertedTexts =
            [m.path, d.name, host] :=
          (Finding.insertedTexts_eq hlocation rfl (by simp)).trans rfl
        rw [htexts, List.forall_mem_cons, List.forall_mem_cons, List.forall_mem_singleton,
          Manifest.isPlain_hostFinding_iff]
        rfl
  | unknownDependency =>
      obtain ⟨⟨name, index⟩, -, rfl⟩ := List.mem_map.mp h
      have htexts : (m.recursedFinding severity name index).insertedTexts = [m.path, name] :=
        (Finding.insertedTexts_eq hlocation rfl (by simp)).trans rfl
      rw [htexts, List.forall_mem_cons, List.forall_mem_singleton,
        Manifest.isPlain_recursedFinding_iff]
      rfl

end Check

/-! ## Names of manifests that come from texts -/

theorem Lexeme.isLine_of_isWord {n : String} (h : isWord n = true) : IsLine n := by
  obtain ⟨c, cs, hchars, hstart, hparts⟩ := exists_chars_of_isWord h
  rw [IsLine, hchars]
  intro hnewline
  rcases List.mem_cons.mp hnewline with rfl | hmem
  · cases hstart
  · cases hparts _ hmem

theorem Module.isWord_of_contains {fs : Functions} {text : String} {scope : Scope} {name : String}
    (h : executeText fs text = .ok scope) (hname : scope.contains name = true) :
    Lexeme.isWord name = true := by
  obtain ⟨m, htext, hexecute⟩ := executeText_eq_ok_iff.mp h
  obtain ⟨-, s, hone, -⟩ := exists_assignment htext hexecute hname
  have hmem : s ∈ m.body.filter fun t => decide (t.target? = some name) := by
    rw [hone]
    exact List.mem_singleton_self s
  obtain ⟨hs, htarget⟩ := List.mem_filter.mp hmem
  exact isWord_of_target? htext hs (of_decide_eq_true htarget)

namespace Run

variable {r : Run} {texts : List ManifestText} {o : Outcome}

theorem exists_of_validate (h : r.validate texts = .ok o) :
    ∃ (p : Policy) (manifests : List Manifest),
    p.profile ∈ ["strict", "warn", "compat"] ∧ o = p.apply manifests ∧
      ∀ m ∈ manifests, ∃ fs, ∃ t ∈ texts, Module.executeText fs t.text = .ok m.scope := by
  obtain ⟨s, hsettings, h⟩ := bind_eq_ok.mp h
  obtain ⟨manifests, hmanifests, hresult⟩ := bind_eq_ok.mp h
  cases hresult
  refine ⟨s.policy, manifests, ?_, rfl, fun m hm => ?_⟩
  · unfold settings at hsettings
    split at hsettings
    · cases hsettings
    · exact Settings.profile_mem (mapError_eq_ok.mp hsettings)
  · obtain ⟨t, ht, hevaluated⟩ := exists_of_mem_mapM hmanifests hm
    obtain ⟨scope, hscope, hm⟩ := bind_eq_ok.mp hevaluated
    cases hm
    have hexecute := mapError_eq_ok.mp hscope
    rw [execute_eq_bind] at hexecute
    obtain ⟨fs, -, htext⟩ := bind_eq_ok.mp hexecute
    exact ⟨fs, t, ht, htext⟩

/-- The lines of a report on manifests that look like findings are those of the findings, one for
each and in their order, if and only if no path, name or host that is put in as it is goes on, after
a line break, like the line of a finding. -/
theorem bullets_of_validate (h : r.validate texts = .ok o) (startedAt finishedAt : Timestamp) :
    List.Forall₂ (fun line f => (Markdown.bullet f).toList <+: line)
        (Text.bullets (Report.ofOutcome startedAt finishedAt o).markdown.toList) o.findings ↔
      ∀ f ∈ o.findings, ∀ s ∈ f.insertedTexts, ¬ HoldsBullet s.toList := by
  obtain ⟨p, manifests, hprofile, rfl, hmanifests⟩ := exists_of_validate h
  have hfound : ∀ f ∈ (p.apply manifests).findings, ∃ c severity, ∃ m ∈ manifests,
      f ∈ Check.findings severity m c := by
    intro f hf
    obtain ⟨c, severity, -, m, hm, hc⟩ := Policy.mem_found_iff.mp (Policy.mem_found_of_mem_apply hf)
    exact ⟨c, severity, m, hm, hc⟩
  have hprofiles : ∀ profile ∈ ["strict", "warn", "compat"], IsLine profile := by decide
  have htruncation : ∀ reason, (p.apply manifests).truncation = some reason → IsLine reason := by
    intro reason hreason
    have hwords : IsLine "findings truncated to max_findings=" := by decide
    rw [Policy.apply, Policy.truncation] at hreason
    split at hreason
    · cases hreason
      exact isLine_append.mpr ⟨hwords, Text.isLine_decimal _⟩
    · cases hreason
  rw [← show (Report.ofOutcome startedAt finishedAt (p.apply manifests)).findings =
    (p.apply manifests).findings from rfl, Report.bullets_iff (hprofiles _ hprofile) htruncation]
  · refine forall₂_congr fun f hf => ?_
    obtain ⟨c, severity, m, hm, hc⟩ := hfound f hf
    obtain ⟨fs, t, -, htext⟩ := hmanifests m hm
    refine Check.forall_insertedTexts_iff (fun name hname => ?_) hc
    have hword := Module.isWord_of_contains htext hname
    exact ⟨(Lexeme.isRoot_of_isWord hword).ne_empty, Lexeme.isLine_of_isWord hword⟩
  · intro f hf
    obtain ⟨c, severity, m, -, hc⟩ := hfound f hf
    exact Check.isLine_bullet hc

def plainRun : Run := ⟨"", ⟨none, none, []⟩⟩

theorem validate_plainRun {t : ManifestText} {scope : Scope} {f : Finding}
    (hscope : plainRun.evaluate t = .ok scope) (hfound : ∀ p, Policy.ofProfile? "strict" = some p →
      p.found [Manifest.ofPath t.path scope] = [f]) :
    ∃ o, plainRun.validate [t] = .ok o ∧ o.findings = [f] ∧ o.profile = "strict" ∧
      o.truncation = none := by
  obtain ⟨p, hp⟩ : ∃ p, Policy.ofProfile? "strict" = some p := ⟨_, rfl⟩
  obtain ⟨s, hsettings, hpolicy⟩ : ∃ s, plainRun.settings = .ok s ∧ s.policy = p := by
    cases hp
    exact ⟨_, rfl, rfl⟩
  have hfindings : p.findings [Manifest.ofPath t.path scope] = [f] := by
    show (p.found _).mergeSort Finding.precedes = [f]
    rw [hfound p hp, List.mergeSort_singleton]
  refine ⟨p.apply [Manifest.ofPath t.path scope], ?_, ?_, ?_, ?_⟩
  · rw [validate_eq_map hsettings, hscope, hpolicy]
    rfl
  · rw [Policy.apply, hfindings]
    cases hp
    rfl
  · cases hp
    rfl
  · rw [Policy.apply, hfindings]
    cases hp
    rfl

/-- The one finding about the manifest with a stray name. -/
def strayFinding : Finding :=
  (Manifest.ofPath "DEPS" strayScope).mismatchFinding .error
    ⟨.unknownKey, "bogus", "a known key", "'bogus'"⟩

theorem bullets_of_validate_stray : ∃ o, plainRun.validate [⟨"DEPS", "bogus='x'"⟩] = .ok o ∧
    o.findings = [strayFinding] ∧ ∀ startedAt finishedAt : Timestamp,
      List.Forall₂ (fun line f => (Markdown.bullet f).toList <+: line)
        (Text.bullets (Report.ofOutcome startedAt finishedAt o).markdown.toList) o.findings := by
  obtain ⟨o, hvalidate, hfindings, -, -⟩ := validate_plainRun evaluate_stray
    (f := strayFinding) fun p hp => by
      cases hp
      rfl
  refine ⟨o, hvalidate, hfindings, fun startedAt finishedAt => ?_⟩
  rw [bullets_of_validate hvalidate startedAt finishedAt, hfindings, List.forall_mem_singleton]
  decide +kernel

/-- A manifest with a name that brings a line along, which looks like a finding. -/
def forgedText : ManifestText := ⟨"DEPS", "recursedeps=['a\\n- [b']"⟩

def forgedScope : Scope :=
  ⟨⟨[("recursedeps", ⟨.list [.str "a\n- [b"], some 1⟩)], by decide⟩⟩

/-- The one finding about the manifest. -/
def forgedFinding : Finding :=
  (Manifest.ofPath "DEPS" forgedScope).recursedFinding .error "a\n- [b" 0

theorem evaluate_forgedText :
    plainRun.evaluate forgedText = .ok forgedScope := by
  have htokens : Token.ofText "recursedeps=['a\\n- [b']" = .ok [⟨.name "recursedeps", 1, 0⟩,
      ⟨.op .assign, 1, 11⟩, ⟨.op .leftBracket, 1, 12⟩, ⟨.literal .text "a\n- [b", 1, 13⟩,
      ⟨.op .rightBracket, 1, 22⟩, ⟨.newline, 1, 0⟩, ⟨.endOfText, 1, 0⟩] := by decide +kernel
  have htext : Module.ofText "recursedeps=['a\\n- [b']" =
      .ok ⟨[.assign 1 [.name 1 "recursedeps"] (.list 1 [.str 1 "a\n- [b"])]⟩ := by
    rw [Module.ofText, htokens]
    rfl
  obtain ⟨s, hsettings⟩ : ∃ s, plainRun.settings = .ok s := ⟨_, rfl⟩
  rw [evaluate, hsettings, ok_bind, execute, forgedText, executeManifest, htext]
  rfl

/-- The report on the manifest shows a finding that no check has made. -/
theorem bullets_of_validate_forged : ∃ o, plainRun.validate [forgedText] = .ok o ∧
    o.findings = [forgedFinding] ∧ ∀ startedAt finishedAt : Timestamp,
      ¬ List.Forall₂ (fun line f => (Markdown.bullet f).toList <+: line)
        (Text.bullets (Report.ofOutcome startedAt finishedAt o).markdown.toList) o.findings := by
  obtain ⟨o, hvalidate, hfindings, hprofile, htruncation⟩ := validate_plainRun evaluate_forgedText
    (f := forgedFinding) fun p hp => by
      cases hp
      rfl
  refine ⟨o, hvalidate, hfindings, fun startedAt finishedAt => ?_⟩
  have hmem : forgedFinding ∈ o.findings := by
    rw [hfindings]
    exact List.mem_singleton_self _
  rw [← show (Report.ofOutcome startedAt finishedAt o).findings = o.findings from rfl,
    Report.bullets_iff]
  · intro hplain
    have hbullet : HoldsBullet (Markdown.headText forgedFinding).toList := by decide +kernel
    exact hplain forgedFinding hmem _ List.mem_cons_self hbullet
  · have hstrict : IsLine "strict" := by decide
    show IsLine o.profile
    rwa [hprofile]
  · intro reason hreason
    cases htruncation.symm.trans hreason
  · intro f hf
    have hbullet : IsLine (Markdown.bullet forgedFinding) := by decide +kernel
    have hsame : f ∈ [forgedFinding] := by
      rw [← hfindings]
      exact hf
    rwa [List.mem_singleton.mp hsame]

end Run

end DepsManifest
