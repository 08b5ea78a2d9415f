import DepsManifest.Proofs.Except
import DepsManifest.Proofs.NameMap
import DepsManifest.Settings.Basic
/-! # What settings are made of

Settings come from three layers: overrides, a configuration and a profile. A resolution gives
settings exactly if every word that counts is known (`Settings.Resolvable`), and then each part
comes from the highest layer that has it (`Settings.ofLayers`). That is all there is to a resolution
(`Settings.resolve_eq_ok_iff`); everything below is read off this description.

## What is proved of it

`Settings.resolution_stable` has five parts:

  * settings can be written down as a configuration that leaves nothing open (`Settings.WrittenAs`),
    and resolving that without overrides gives them back. Of the profile only the name is left to
    matter, as every check that it knows has an entry of its own (`ofLayers_written`). It takes that
    the variables of the overrides are truth values and strings, since a configuration cannot say
    more;
  * where an override sets something, what the configuration has in its place does not count.
    `Overrides.Cover` is the relation between two configurations that differ in such places only;
  * of several overrides of one variable the last counts;
  * a variable without override is that of the configuration, or is not there;
  * a resolution fails exactly if the profile that counts, the severity of any check or the failing
    severity is an unknown word.

## Why the last part is not immediate

The first fault ends a resolution, and the fault depends on the order in which the words are looked
at. So the failures are shown for each loop on its own: entries for checks are accepted one by one
(`withChecks_of_accepted`, `withChecks_of_not_accepted`), and what the checks become is a map that
is known by what it gives (`get?_checksUnder`).
-/
namespace DepsManifest

/-! ## Words -/

def FailOn.word : FailOn → String
  | error => "error"
  | warning => "warning"

theorem FailOn.ofSetting?_word (failOn : FailOn) : ofSetting? failOn.word = some failOn := by
  cases failOn with
  | error => rfl
  | warning => rfl

theorem FailOn.ofSetting?_eq_none_iff {word : String} :
    ofSetting? word = none ↔ word ∉ ["error", "warning", "warn"] := by
  rw [ofSetting?]
  split
  · simp [*]
  · split
    · simp [*]
    · simp_all

theorem Severity.ofSetting?_word (severity : Severity) :
    ofSetting? severity.word = some severity := by
  cases severity with
  | info => rfl
  | warning => rfl
  | error => rfl

theorem Severity.ofSetting?_eq_none_iff {word : String} :
    ofSetting? word = none ↔ word ∉ ["info", "warning", "warn", "error"] := by
  rw [ofSetting?]
  split
  · simp [*]
  · split
    · rename_i hwarning
      rcases hwarning with rfl | rfl
      · simp
      · simp
    · split
      · simp [*]
      · simp_all

theorem Policy.ofProfile?_eq_none_iff {word : String} :
    ofProfile? word = none ↔ word ∉ ["strict", "warn", "compat"] := by
  rw [ofProfile?]
  split
  · simp [*]
  · split
    · simp [*]
    · split
      · simp [*]
      · simp_all

theorem Policy.profile_of_ofProfile? {word : String} {p : Policy} (h : ofProfile? word = some p) :
    p.profile = word := by
  rw [ofProfile?] at h
  split at h
  · cases h
    rfl
  · split at h
    · cases h
      rfl
    · split at h
      · cases h
        rfl
      · cases h

/-! ## Checks -/

/-- An entry for a check with a severity that is known, or without one. -/
def CheckConfig.Accepted (c : CheckConfig) : Prop :=
  ∀ word ∈ c.severity, word ∈ ["info", "warning", "warn", "error"]

/-- What an entry for a check makes of its policy: each part that the entry has is the entry's. -/
def CheckConfig.onto (c : CheckConfig) (base : CheckPolicy) : CheckPolicy :=
  ⟨c.enabled.getD base.enabled, (c.severity.bind Severity.ofSetting?).getD base.severity⟩

/-! ## Overrides -/

def Overrides.nothing : Overrides := ⟨none, none, []⟩

/-- Two configurations that differ in nothing but what overrides set. -/
structure Overrides.Cover (overrides : Overrides) (config config' : Config) : Prop where
  profile : overrides.profile = none → config.profile = config'.profile
  failOn : config.failOn = config'.failOn
  maxFindings : overrides.maxFindings = none → config.maxFindings = config'.maxFindings
  checks : config.checks = config'.checks
  customVars : ∀ name, name ∉ overrides.vars.map (·.1) →
    config.customVars.get? name = config'.customVars.get? name

namespace Settings

theorem configured_of_accepted {c : CheckConfig} (h : c.Accepted) (id : String)
    (base : CheckPolicy) : configured id c base = .ok (c.onto base) := by
  obtain ⟨enabled, severity⟩ := c
  cases severity with
  | none => rfl
  | some word =>
      cases hword : Severity.ofSetting? word with
      | none => exact absurd (h word rfl) (Severity.ofSetting?_eq_none_iff.mp hword)
      | some severity => simp [configured, CheckConfig.onto, hword]

theorem configured_of_not_accepted {c : CheckConfig} (h : ¬ c.Accepted) (id : String)
    (base : CheckPolicy) : ∃ fault, configured id c base = .error fault := by
  obtain ⟨enabled, severity⟩ := c
  cases severity with
  | none => exact absurd nofun h
  | some word =>
      cases hword : Severity.ofSetting? word with
      | none => exact ⟨.unknownSeverity id word, by simp [configured, hword]⟩
      | some severity =>
          refine absurd ?_ h
          rintro _ ⟨⟩
          by_contra hnot
          cases hword.symm.trans (Severity.ofSetting?_eq_none_iff.mpr hnot)

/-- The policies of checks under entries for some of them. -/
def checksUnder (entries : List (String × CheckConfig)) (checks : NameMap CheckPolicy) :
    NameMap CheckPolicy :=
  entries.foldl (fun m e => m.insert e.1 (e.2.onto ((m.get? e.1).getD unknownCheck))) checks

theorem withChecks_of_accepted {entries : List (String × CheckConfig)}
    (h : ∀ e ∈ entries, e.2.Accepted) (checks : NameMap CheckPolicy) :
    withChecks checks entries = .ok (checksUnder entries checks) := by
  induction entries generalizing checks with
  | nil => rfl
  | cons e entries ih =>
      obtain ⟨id, c⟩ := e
      obtain ⟨hc, hentries⟩ := List.forall_mem_cons.mp h
      rw [withChecks, configured_of_accepted hc, ok_bind, ih hentries]
      rfl

theorem withChecks_of_not_accepted {entries : List (String × CheckConfig)}
    {e : String × CheckConfig} (he : e ∈ entries) (h : ¬ e.2.Accepted)
    (checks : NameMap CheckPolicy) :
    ∃ fault, withChecks checks entries = .error fault := by
  induction entries generalizing checks with
  | nil => cases he
  | cons first entries ih =>
      obtain ⟨id, c⟩ := first
      rw [withChecks]
      cases hconfigured : configured id c ((checks.get? id).getD unknownCheck) with
      | error fault => exact ⟨fault, rfl⟩
      | ok policy =>
          rcases List.mem_cons.mp he with rfl | he
          · obtain ⟨fault, hfault⟩ :=
              configured_of_not_accepted h id ((checks.get? id).getD unknownCheck)
            cases hconfigured.symm.trans hfault
          · exact ih he _

/-- A check has the policy that its entry makes of the one before, and without an entry that one. -/
theorem get?_checksUnder {entries : List (String × CheckConfig)}
    (hnodup : (entries.map (·.1)).Nodup) (checks : NameMap CheckPolicy) (id : String) :
    (checksUnder entries checks).get? id =
      ((entries.lookup id).map fun c => c.onto ((checks.get? id).getD unknownCheck)).or
        (checks.get? id) := by
  induction entries generalizing checks with
  | nil => rfl
  | cons e entries ih =>
      obtain ⟨name, c⟩ := e
      obtain ⟨hnew, hrest⟩ := List.nodup_cons.mp hnodup
      have hstep : checksUnder ((name, c) :: entries) checks =
          checksUnder entries
            (checks.insert name (c.onto ((checks.get? name).getD unknownCheck))) := rfl
      rw [hstep, ih hrest, NameMap.get?_insert, NameMap.lookup_cons]
      by_cases hid : id = name
      · subst hid
        rw [if_pos rfl, if_pos rfl, NameMap.lookup_of_not_mem hnew]
        rfl
      · rw [if_neg hid, if_neg hid]

/-! ## Layers -/

/-- Words that settings can be made of. -/
structure Resolvable (config : Config) (overrides : Overrides) : Prop where
  profile : profile config overrides ∈ ["strict", "warn", "compat"]
  checks : ∀ e ∈ config.checks.entries, e.2.Accepted
  failOn : ∀ word ∈ config.failOn, word ∈ ["error", "warning", "warn"]

/-- The settings of a profile under a configuration and overrides. -/
def ofLayers (base : Policy) (config : Config) (overrides : Overrides) : Settings where
  policy :=
    { profile := base.profile
      failOn := (config.failOn.bind FailOn.ofSetting?).getD base.failOn
      maxFindings := (overrides.maxFindings <|> config.maxFindings).getD base.maxFindings
      checks := checksUnder config.checks.entries base.checks }
  customVars := (config.customVars.map CustomVar.toValue).union (.ofList overrides.vars)

theorem failOn_of_accepted {word? : Option String}
    (h : ∀ word ∈ word?, word ∈ ["error", "warning", "warn"]) (base : FailOn) :
    failOn base word? = .ok ((word?.bind FailOn.ofSetting?).getD base) := by
  cases word? with
  | none => rfl
  | some word =>
      cases hword : FailOn.ofSetting? word with
      | none => exact absurd (h word rfl) (FailOn.ofSetting?_eq_none_iff.mp hword)
      | some failOn => simp [Settings.failOn, hword]

variable {config : Config} {overrides : Overrides} {s : Settings}

theorem resolve_of_resolvable (h : Resolvable config overrides) : ∃ base,
    Policy.ofProfile? (profile config overrides) = some base ∧
      resolve config overrides = .ok (ofLayers base config overrides) := by
  obtain ⟨base, hbase⟩ := Option.ne_none_iff_exists'.mp
    (mt Policy.ofProfile?_eq_none_iff.mp (not_not_intro h.profile))
  refine ⟨base, hbase, ?_⟩
  rw [resolve, hbase]
  dsimp only
  rw [withChecks_of_accepted h.checks, ok_bind, failOn_of_accepted h.failOn, ok_bind]
  rfl

theorem resolve_of_not_resolvable (h : ¬ Resolvable config overrides) :
    ∃ fault, resolve config overrides = .error fault := by
  rw [resolve]
  cases hbase : Policy.ofProfile? (profile config overrides) with
  | none => exact ⟨_, rfl⟩
  | some base =>
      dsimp only
      cases hchecks : withChecks base.checks config.checks.entries with
      | error fault => exact ⟨fault, rfl⟩
      | ok checks =>
          rw [ok_bind]
          cases hfailOn : failOn base.failOn config.failOn with
          | error fault => exact ⟨fault, rfl⟩
          | ok failOn =>
              refine absurd ⟨?_, ?_, ?_⟩ h
              · by_contra hnot
                cases hbase.symm.trans (Policy.ofProfile?_eq_none_iff.mpr hnot)
              · intro e he
                by_contra hnot
                obtain ⟨fault, hfault⟩ := withChecks_of_not_accepted he hnot base.checks
                cases hchecks.symm.trans hfault
              · intro word hword
                by_contra hnot
                rw [Option.mem_def.mp hword, Settings.failOn,
                  FailOn.ofSetting?_eq_none_iff.mpr hnot] at hfailOn
                cases hfailOn

/-- What a resolution gives: with known words alone, each part from the highest layer that has it.
-/
theorem resolve_eq_ok_iff : resolve config overrides = .ok s ↔ Resolvable config overrides ∧
    ∃ base, Policy.ofProfile? (profile config overrides) = some base ∧
      s = ofLayers base config overrides := by
  constructor
  · intro h
    by_cases hresolvable : Resolvable config overrides
    · obtain ⟨base, hbase, hresolve⟩ := resolve_of_resolvable hresolvable
      cases h.symm.trans hresolve
      exact ⟨hresolvable, base, hbase, rfl⟩
    · obtain ⟨fault, hfault⟩ := resolve_of_not_resolvable hresolvable
      cases h.symm.trans hfault
  · rintro ⟨hresolvable, base, hbase, rfl⟩
    obtain ⟨base', hbase', hresolve⟩ := resolve_of_resolvable hresolvable
    cases hbase.symm.trans hbase'
    exact hresolve

theorem profile_mem (h : resolve config overrides = .ok s) :
    s.policy.profile ∈ ["strict", "warn", "compat"] := by
  obtain ⟨hresolvable, base, hbase, rfl⟩ := resolve_eq_ok_iff.mp h
  show base.profile ∈ _
  rw [Policy.profile_of_ofProfile? hbase]
  exact hresolvable.profile

theorem customVars_cases (h : resolve config overrides = .ok s) {name : String} {v : Value}
    (hv : s.customVars.get? name = some v) :
    (name, v) ∈ overrides.vars ∨ ∃ x, config.customVars.get? name = some x ∧ x.toValue = v := by
  obtain ⟨-, base, -, rfl⟩ := resolve_eq_ok_iff.mp h
  rw [ofLayers, NameMap.get?_union, Option.or_eq_some_iff, NameMap.get?_map] at hv
  rcases hv with hset | ⟨-, hconfigured⟩
  · rcases NameMap.mem_of_get?_foldl hset with hmem | hempty
    · exact .inl hmem
    · cases hempty
  · exact .inr (Option.map_eq_some_iff.mp hconfigured)

/-! ## Settings written down -/

/-- A configuration that says all that settings hold. -/
structure WrittenAs (s : Settings) (written : Config) : Prop where
  profile : written.profile = some s.policy.profile
  failOn : written.failOn = some s.policy.failOn.word
  maxFindings : written.maxFindings = some s.policy.maxFindings
  checks : written.checks =
    s.policy.checks.map fun check => ⟨some check.enabled, some check.severity.word⟩
  customVars : written.customVars.map CustomVar.toValue = s.customVars

theorem accepted_word (enabled : Option Bool) (severity : Severity) :
    CheckConfig.Accepted ⟨enabled, some severity.word⟩ := by
  rintro _ ⟨⟩
  cases severity with
  | info => decide
  | warning => decide
  | error => decide

theorem checksUnder_all {checks base : NameMap CheckPolicy}
    (hall : ∀ id, checks.get? id = none → base.get? id = none) :
    checksUnder (checks.map fun check =>
      ⟨some check.enabled, some check.severity.word⟩).entries base = checks := by
  refine NameMap.ext_get? fun id => ?_
  rw [get?_checksUnder (NameMap.nodup_names _), ← NameMap.get?, NameMap.get?_map]
  cases hcheck : checks.get? id with
  | none => rw [Option.map_none, Option.map_none, Option.none_or, hall id hcheck]
  | some check => simp [CheckConfig.onto, Severity.ofSetting?_word]

/-- Settings can be written down if the overrides set no variable but to truth values and strings.
-/
theorem exists_written (h : resolve config overrides = .ok s)
    (hvars : ∀ e ∈ overrides.vars, ∃ x : CustomVar, x.toValue = e.2) :
    ∃ written, s.WrittenAs written := by
  have hvalues : ∀ name v, s.customVars.get? name = some v → ∃ x : CustomVar, x.toValue = v := by
    intro name v hv
    rcases customVars_cases h hv with hmem | ⟨x, -, rfl⟩
    · exact hvars _ hmem
    · exact ⟨x, rfl⟩
  obtain ⟨customVars, hcustomVars⟩ := NameMap.exists_map_eq hvalues
  exact ⟨⟨_, _, _, customVars, _⟩, rfl, rfl, rfl, rfl, hcustomVars⟩

variable {base : Policy} {written : Config}

theorem profile_written (hwritten : s.WrittenAs written) :
    profile written .nothing = s.policy.profile := by
  rw [profile, hwritten.profile]
  rfl

theorem resolvable_written (hprofile : s.policy.profile ∈ ["strict", "warn", "compat"])
    (hwritten : s.WrittenAs written) : Resolvable written .nothing := by
  refine ⟨?_, ?_, ?_⟩
  · rw [profile_written hwritten]
    exact hprofile
  · rw [hwritten.checks]
    intro e he
    obtain ⟨e, -, rfl⟩ := List.mem_map.mp he
    exact accepted_word _ _
  · rw [hwritten.failOn]
    rintro _ ⟨⟩
    cases s.policy.failOn with
    | error => decide
    | warning => decide

/-- Of the profile under written settings the name alone counts, if it has no check that they have
not. -/
theorem ofLayers_written (hprofile : base.profile = s.policy.profile)
    (hall : ∀ id, s.policy.checks.get? id = none → base.checks.get? id = none)
    (hwritten : s.WrittenAs written) : ofLayers base written .nothing = s := by
  have hfailOn : (written.failOn.bind FailOn.ofSetting?).getD base.failOn = s.policy.failOn := by
    rw [hwritten.failOn, Option.bind_some, FailOn.ofSetting?_word, Option.getD_some]
  have hmaxFindings : (none <|> written.maxFindings).getD base.maxFindings =
      s.policy.maxFindings := by
    rw [hwritten.maxFindings]
    rfl
  have hchecks : checksUnder written.checks.entries base.checks = s.policy.checks := by
    rw [hwritten.checks, checksUnder_all hall]
  have hcustomVars : (written.customVars.map CustomVar.toValue).union (.ofList []) = s.customVars :=
    hwritten.customVars
  rw [ofLayers, Overrides.nothing, hprofile, hfailOn, hmaxFindings, hchecks, hcustomVars]

theorem resolve_written (h : resolve config overrides = .ok s) (hwritten : s.WrittenAs written) :
    resolve written .nothing = .ok s := by
  have hprofile := profile_mem h
  obtain ⟨-, base, hbase, rfl⟩ := resolve_eq_ok_iff.mp h
  have hname : base.profile = (ofLayers base config overrides).policy.profile := rfl
  refine resolve_eq_ok_iff.mpr ⟨resolvable_written hprofile hwritten, base, ?_,
    (ofLayers_written hname ?_ hwritten).symm⟩
  · rw [profile_written hwritten, ← hname, Policy.profile_of_ofProfile? hbase]
    exact hbase
  · intro id hnone
    rw [ofLayers, get?_checksUnder (NameMap.nodup_names _), Option.or_eq_none_iff] at hnone
    exact hnone.2

/-! ## What overrides set -/

theorem resolve_congr {config' : Config} (h : overrides.Cover config config') :
    resolve config overrides = resolve config' overrides := by
  have hprofile : profile config overrides = profile config' overrides := by
    rw [profile, profile]
    cases hset : overrides.profile with
    | none => rw [h.profile hset]
    | some word => rfl
  have hmaxFindings : (overrides.maxFindings <|> config.maxFindings) =
      (overrides.maxFindings <|> config'.maxFindings) := by
    cases hset : overrides.maxFindings with
    | none => rw [h.maxFindings hset]
    | some n => rfl
  have hcustomVars : (config.customVars.map CustomVar.toValue).union (.ofList overrides.vars) =
      (config'.customVars.map CustomVar.toValue).union (.ofList overrides.vars) := by
    refine NameMap.ext_get? fun name => ?_
    rw [NameMap.get?_union, NameMap.get?_union, NameMap.get?_map, NameMap.get?_map]
    by_cases hset : name ∈ overrides.vars.map (·.1)
    · obtain ⟨v, hv⟩ := NameMap.exists_get?_ofList hset
      rw [hv, Option.some_or, Option.some_or]
    · rw [h.customVars name hset]
  simp only [resolve, hprofile, h.failOn, h.checks, hmaxFindings, hcustomVars]

theorem get?_customVars_of_last (h : resolve config overrides = .ok s)
    {before after : List (String × Value)} {name : String} {v : Value}
    (hvars : overrides.vars = before ++ (name, v) :: after) (hlast : name ∉ after.map (·.1)) :
    s.customVars.get? name = some v := by
  obtain ⟨-, base, -, rfl⟩ := resolve_eq_ok_iff.mp h
  rw [ofLayers, NameMap.get?_union, hvars, NameMap.get?_ofList_append hlast, Option.some_or]

theorem get?_customVars_of_not_mem (h : resolve config overrides = .ok s) {name : String}
    (hname : name ∉ overrides.vars.map (·.1)) :
    s.customVars.get? name = (config.customVars.get? name).map CustomVar.toValue := by
  obtain ⟨-, base, -, rfl⟩ := resolve_eq_ok_iff.mp h
  rw [ofLayers, NameMap.get?_union, NameMap.get?_ofList_of_not_mem hname, NameMap.get?_map,
    Option.none_or]

theorem exists_fault_iff_not_resolvable :
    (∃ fault, resolve config overrides = .error fault) ↔ ¬ Resolvable config overrides := by
  refine ⟨?_, resolve_of_not_resolvable⟩
  rintro ⟨fault, hfault⟩ hresolvable
  obtain ⟨base, -, hresolve⟩ := resolve_of_resolvable hresolvable
  cases hresolve.symm.trans hfault

theorem not_resolvable_iff : ¬ Resolvable config overrides ↔
    profile config overrides ∉ ["strict", "warn", "compat"] ∨
    (∃ e ∈ config.checks.entries, ∃ word ∈ e.2.severity,
      word ∉ ["info", "warning", "warn", "error"]) ∨
    ∃ word ∈ config.failOn, word ∉ ["error", "warning", "warn"] := by
  constructor
  · intro h
    by_contra hnone
    simp only [not_or, not_exists, not_and, not_not] at hnone
    exact h ⟨hnone.1, hnone.2.1, hnone.2.2⟩
  · rintro (hprofile | ⟨e, he, word, hword, hnot⟩ | ⟨word, hword, hnot⟩) h
    · exact hprofile h.profile
    · exact hnot (h.checks e he word hword)
    · exact hnot (h.failOn word hword)

/-- Settings that are written down and resolved again are the same settings. A configuration does
not count where an override sets something; of overrides of one variable the last counts, and a
variable that is not overridden is that of the configuration. A resolution fails if the profile that
counts, the severity of any check or the failing severity is an unknown word, and not otherwise. -/
theorem resolution_stable (config : Config) (overrides : Overrides) :
    (∀ s, resolve config overrides = .ok s →
      (∀ e ∈ overrides.vars, ∃ x : CustomVar, x.toValue = e.2) →
      (∃ written, s.WrittenAs written) ∧
        ∀ written, s.WrittenAs written → resolve written .nothing = .ok s) ∧
    (∀ config', overrides.Cover config config' →
      resolve config overrides = resolve config' overrides) ∧
    (∀ s before name v after, resolve config overrides = .ok s →
      overrides.vars = before ++ (name, v) :: after → name ∉ after.map (·.1) →
      s.customVars.get? name = some v) ∧
    (∀ s name, resolve config overrides = .ok s → name ∉ overrides.vars.map (·.1) →
      s.customVars.get? name = (config.customVars.get? name).map CustomVar.toValue) ∧
    ((∃ fault, resolve config overrides = .error fault) ↔
      profile config overrides ∉ ["strict", "warn", "compat"] ∨
      (∃ e ∈ config.checks.entries, ∃ word ∈ e.2.severity,
        word ∉ ["info", "warning", "warn", "error"]) ∨
      ∃ word ∈ config.failOn, word ∉ ["error", "warning", "warn"]) := by
  refine ⟨?_, fun _ => resolve_congr, ?_, fun _ _ h => get?_customVars_of_not_mem h,
    exists_fault_iff_not_resolvable.trans not_resolvable_iff⟩
  · intro s h hvars
    exact ⟨exists_written h hvars, fun _ => resolve_written h⟩
  · intro s before name v after h hvars hlast
    exact get?_customVars_of_last h hvars hlast

theorem resolution_stable_layers :
    ∃ s written,
      resolve ⟨some "compat", none, some 50, .ofList [("host", .str "a"), ("os", .str "b")],
        .ofList [("deps.allowed_hosts", ⟨some true, some "warn"⟩), ("other", ⟨none, none⟩)]⟩
        ⟨some "warn", none, [("host", .str "c"), ("host", .bool true)]⟩ = .ok s ∧
      s.WrittenAs written ∧ resolve written .nothing = .ok s ∧
      s.customVars.get? "host" = some (.bool true) ∧ s.customVars.get? "os" = some (.str "b") := by
  have hvars : ∀ e ∈ [("host", Value.str "c"), ("host", Value.bool true)],
      ∃ x : CustomVar, x.toValue = e.2 := by
    intro e he
    rcases List.mem_cons.mp he with rfl | he
    · exact ⟨.str "c", rfl⟩
    · rw [List.mem_singleton.mp he]
      exact ⟨.bool true, rfl⟩
  obtain ⟨hagain, -, hlast, hkept, -⟩ := resolution_stable
    ⟨some "compat", none, some 50, .ofList [("host", .str "a"), ("os", .str "b")],
      .ofList [("deps.allowed_hosts", ⟨some true, some "warn"⟩), ("other", ⟨none, none⟩)]⟩
    ⟨some "warn", none, [("host", .str "c"), ("host", .bool true)]⟩
  obtain ⟨s, hs⟩ : ∃ s, resolve
      ⟨some "compat", none, some 50, .ofList [("host", .str "a"), ("os", .str "b")],
        .ofList [("deps.allowed_hosts", ⟨some true, some "warn"⟩), ("other", ⟨none, none⟩)]⟩
      ⟨some "warn", none, [("host", .str "c"), ("host", .bool true)]⟩ = .ok s := ⟨_, rfl⟩
  obtain ⟨⟨written, hwritten⟩, hresolve⟩ := hagain s hs hvars
  refine ⟨s, written, hs, hwritten, hresolve written hwritten, ?_, ?_⟩
  · exact hlast s [("host", .str "c")] "host" (.bool true) [] hs rfl (by decide)
  · exact (hkept s "os" hs (by decide)).trans rfl

end Settings

end DepsManifest
