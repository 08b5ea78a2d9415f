import DepsManifest.Proofs.Json.Routes
import DepsManifest.Report.Masking
import Mathlib.Data.List.Induction
/-! # What masking hides

Masking puts a fixed text for the time stamps at any depth, and for the version of the tool in a
report (`Json.Masks`). It makes reports of different runs comparable, and the question is what such
a comparison overlooks. `Json.masked_idem_and_eq_iff_off_masks` answers it:

  * masking once is enough;
  * where no position is masked on the way, a route leads to the same as before, but for what is
    further down (`Json.at?_masked`);
  * what stands at a masked position, if anything does, becomes its text, whatever it was;
  * so masking makes two values the same exactly if they are the same outside the masked positions.

## The same outside the masked positions

The two values are compared route by route, and only along routes without a masked position on the
way (`Unmasked`). What a route leads to is compared without its parts, the value made hollow; the
parts have routes of their own.

## Masking does not get in its own way

Which positions are masked depends on the members of the value and of its tool only, and masking
leaves those as they are (`Json.Masks.congr`, `masks_masked_iff`). This carries the first and the
last point. Payloads of findings may look like a report, and then nothing in them is taken for the
version of the tool: there is one position for that, and it is at the top.
-/
namespace DepsManifest.Json

/-- A value has members with all of some names. -/
def HasMembers (names : List String) (j : Json) : Prop :=
  ∀ name ∈ names, (j.member? name).isSome = true

/-- In a value, the position at the end of a route is masked with a text: a time stamp anywhere, and
the version of the tool if the value is a report. -/
inductive Masks (j : Json) : String → List Step → Prop
  | timestamp (route : List Step) (index : Nat) {name : String} :
      name = "started_at" ∨ name = "finished_at" →
      Masks j "__TIMESTAMP__" (route ++ [.member index name])
  | version {tool : Json} {index : Nat} (place : Nat) :
      j.HasMembers ["schema", "tool", "verdict", "findings"] →
      j.part? (.member index "tool") = some tool → tool.HasMembers ["name", "version"] →
      Masks j "__VERSION__" [.member index "tool", .member place "version"]

/-- No position on the way to the end of a route is masked. -/
def Unmasked (j : Json) (route : List Step) : Prop :=
  ∀ before, before <+: route → ∀ text, ¬Masks j text before

def Step.name? : Step → Option String
  | .item _ => none
  | .member _ name => some name

variable {a b j x : Json} {route rest : List Step} {step : Step} {names : List String}
    {name text : String}

theorem exists_of_name? (h : step.name? = some name) : ∃ index, step = .member index name := by
  cases step with
  | item _ => cases h
  | member index _ =>
      cases h
      exact ⟨index, rfl⟩

/-! ## Time stamps -/

/-- A step leads to a time stamp. -/
def Step.IsTimestamp (step : Step) : Prop :=
  step.name? = some "started_at" ∨ step.name? = some "finished_at"

instance : Decidable step.IsTimestamp := inferInstanceAs (Decidable (_ ∨ _))

theorem maskItems_eq_map (items : List Json) : maskItems items = items.map maskTimestamps := by
  induction items with
  | nil => rfl
  | cons item items ih => rw [maskItems, ih, List.map_cons]

theorem maskMembers_eq_map (members : List (String × Json)) : maskMembers members =
    members.map fun m =>
      (m.1, if isTimestampName m.1 then maskedTimestamp else maskTimestamps m.2) := by
  induction members with
  | nil => rfl
  | cons m members ih => rw [maskMembers, ih, List.map_cons]

theorem hollow_maskTimestamps (j : Json) : j.maskTimestamps.hollow = j.hollow := by
  cases j with
  | arr items =>
      rw [maskTimestamps, maskItems_eq_map, hollow, hollow, List.map_map]
      rfl
  | obj members =>
      rw [maskTimestamps, maskMembers_eq_map, hollow, hollow, List.map_map]
      rfl
  | _ => rfl

theorem part?_maskTimestamps (j : Json) (step : Step) : j.maskTimestamps.part? step =
    (j.part? step).map fun x => if step.IsTimestamp then maskedTimestamp else x.maskTimestamps := by
  cases j with
  | arr items =>
      cases step with
      | item index =>
          rw [maskTimestamps, maskItems_eq_map, part?, part?, List.getElem?_map]
          rfl
      | member _ _ => rfl
  | obj members =>
      cases step with
      | item _ => rfl
      | member index name =>
          have hname : isTimestampName name = true ↔ (Step.member index name).IsTimestamp := by
            rw [isTimestampName, Bool.or_eq_true, beq_iff_eq, beq_iff_eq, Step.IsTimestamp,
              Step.name?, Option.some.injEq, Option.some.injEq]
          rw [maskTimestamps, maskMembers_eq_map, part?_obj_map fun name x =>
            if isTimestampName name then maskedTimestamp else x.maskTimestamps]
          simp only [hname]
  | _ => rfl

theorem at?_maskTimestamps (h : ∀ step ∈ route, ¬step.IsTimestamp) (j : Json) :
    j.maskTimestamps.at? route = (j.at? route).map maskTimestamps := by
  induction route generalizing j with
  | nil => rfl
  | cons step route ih =>
      obtain ⟨hstep, hroute⟩ := List.forall_mem_cons.mp h
      rw [at?, at?, part?_maskTimestamps, Option.bind_map, Option.map_bind]
      refine Option.bind_congr fun x _ => ?_
      rw [Function.comp_apply, Function.comp_apply, if_neg hstep, ih hroute]

/-! ## The version -/

/-- A value with its members of one name replaced, if it has members with all of some names. -/
def replacedIn (names : List String) (name : String) (f : Json → Json) : Json → Json
  | .obj members =>
    if haveAll names members then .obj (replaceMember name f members) else .obj members
  | j => j

theorem haveAll_iff {members : List (String × Json)} :
    haveAll names members = true ↔ (obj members).HasMembers names :=
  List.all_eq_true

theorem maskTool_eq :
    maskTool = replacedIn ["name", "version"] "version" fun _ => maskedVersion := by
  funext j
  cases j <;> rfl

theorem maskVersion_eq :
    maskVersion = replacedIn ["schema", "tool", "verdict", "findings"] "tool" maskTool := by
  funext j
  cases j <;> rfl

theorem hollow_replacedIn (names : List String) (name : String) (f : Json → Json) (j : Json) :
    (j.replacedIn names name f).hollow = j.hollow := by
  cases j with
  | obj members =>
      rw [replacedIn]
      split
      · rw [replaceMember, hollow, hollow, List.map_map]
        rfl
      · rfl
  | _ => rfl

theorem part?_replacedIn_self {f : Json → Json} (h : j.HasMembers names) (index : Nat) :
    (j.replacedIn names name f).part? (.member index name) =
      (j.part? (.member index name)).map f := by
  cases j with
  | obj members =>
      rw [replacedIn, if_pos (haveAll_iff.mpr h), replaceMember,
        part?_obj_map fun n x => if n = name then f x else x]
      simp only [if_true]
  | _ => rfl

theorem part?_replacedIn {f : Json → Json} (h : ¬(j.HasMembers names ∧ step.name? = some name)) :
    (j.replacedIn names name f).part? step = j.part? step := by
  cases j with
  | obj members =>
      rw [replacedIn]
      split
      · rename_i hall
        cases step with
        | item _ => rfl
        | member index n =>
            have hne : ¬n = name := fun heq => h ⟨haveAll_iff.mp hall, congrArg some heq⟩
            rw [replaceMember, part?_obj_map fun n x => if n = name then f x else x]
            simp only [if_neg hne]
            exact congrFun Option.map_id _
      · rfl
  | _ => rfl

/-! ## Masked positions -/

theorem HasMembers.congr (h : a.HasMembers names) (hhollow : a.hollow = b.hollow) :
    b.HasMembers names := by
  intro name hname
  rw [← isSome_member? hhollow]
  exact h name hname

/-- Which positions are masked depends on the members of the value and of its tool. -/
theorem Masks.congr (h : Masks a text route) (hhollow : a.hollow = b.hollow)
    (htool : ∀ index, (a.part? (.member index "tool")).map hollow =
      (b.part? (.member index "tool")).map hollow) : Masks b text route := by
  cases h with
  | timestamp before index hname => exact .timestamp before index hname
  | @version tool index place hmembers hpart hnames =>
      have hsame := htool index
      rw [hpart] at hsame
      obtain ⟨tool', hpart', hhollow'⟩ := Option.map_eq_some_iff.mp hsame.symm
      exact .version place (hmembers.congr hhollow) hpart' (hnames.congr hhollow'.symm)

theorem Masks.ne_nil (h : Masks j text route) : route ≠ [] := by
  cases h with
  | timestamp before index _ => exact List.append_ne_nil_of_right_ne_nil _ (List.cons_ne_nil _ _)
  | version => exact List.cons_ne_nil _ _

theorem Masks.shape (h : Masks j text route) : (∃ step ∈ route, step.IsTimestamp) ∨
    ∃ index place, route = [.member index "tool", .member place "version"] := by
  cases h with
  | timestamp before index hname =>
      refine .inl ⟨.member index _, List.mem_append_right _ (List.mem_singleton_self _), ?_⟩
      exact hname.imp (congrArg some) (congrArg some)
  | @version _ index place _ _ _ => exact .inr ⟨index, place, rfl⟩

theorem unmasked_nil (j : Json) : Unmasked j [] :=
  fun _ hbefore _ hmasks => hmasks.ne_nil (List.prefix_nil.mp hbefore)

theorem unmasked_tool (j : Json) (index : Nat) : Unmasked j [.member index "tool"] := by
  intro before hbefore text hmasks
  rcases hmasks.shape with ⟨step, hstep, htimestamp⟩ | ⟨_, _, rfl⟩
  · rw [List.mem_singleton.mp (hbefore.subset hstep)] at htimestamp
    exact htimestamp.elim (by simp [Step.name?]) (by simp [Step.name?])
  · exact Nat.not_succ_le_self 1 hbefore.length_le

theorem Unmasked.not_isTimestamp (h : Unmasked j route) : ∀ step ∈ route, ¬step.IsTimestamp := by
  intro step hstep htimestamp
  obtain ⟨before, after, rfl⟩ := List.append_of_mem hstep
  cases step with
  | item _ => exact htimestamp.elim nofun nofun
  | member index name =>
      refine h (before ++ [.member index name]) ⟨after, List.append_assoc ..⟩ _
        (.timestamp before index ?_)
      exact htimestamp.imp Option.some.inj Option.some.inj

/-- On the way to the end of a route no position is masked, or there is a first one that is. -/
theorem unmasked_or_exists (j : Json) (route : List Step) : Unmasked j route ∨
    ∃ before step after text, route = before ++ [step] ++ after ∧ Unmasked j before ∧
      Masks j text (before ++ [step]) := by
  induction route using List.reverseRecOn with
  | nil => exact .inl j.unmasked_nil
  | append_singleton route last ih =>
      rcases ih with hroute | ⟨before, step, after, text, rfl, hbefore, hmasks⟩
      · by_cases hlast : ∃ text, Masks j text (route ++ [last])
        · obtain ⟨text, hmasks⟩ := hlast
          exact .inr ⟨route, last, [], text, (List.append_nil _).symm, hroute, hmasks⟩
        · refine .inl fun before hbefore text hmasks => ?_
          rcases List.prefix_concat_iff.mp hbefore with rfl | hprefix
          · exact hlast ⟨text, hmasks⟩
          · exact hroute before hprefix text hmasks
      · exact .inr ⟨before, step, after ++ [last], text, List.append_assoc .., hbefore, hmasks⟩

/-! ## Outside the masked positions -/

theorem at?_maskVersion (h : Unmasked j route) :
    (j.maskVersion.at? route).map hollow = (j.at? route).map hollow := by
  rw [maskVersion_eq]
  cases route with
  | nil => exact congrArg some (hollow_replacedIn ..)
  | cons step rest =>
      by_cases htool :
          j.HasMembers ["schema", "tool", "verdict", "findings"] ∧ step.name? = some "tool"
      · obtain ⟨hmembers, hname⟩ := htool
        obtain ⟨index, rfl⟩ := exists_of_name? hname
        rw [at?, at?, part?_replacedIn_self hmembers]
        cases hpart : j.part? (.member index "tool") with
        | none => rfl
        | some tool =>
            show ((maskTool tool).at? rest).map hollow = (tool.at? rest).map hollow
            rw [maskTool_eq]
            cases rest with
            | nil => exact congrArg some (hollow_replacedIn ..)
            | cons next rest =>
                rw [at?, at?, part?_replacedIn]
                rintro ⟨hnames, hversion⟩
                obtain ⟨place, rfl⟩ := exists_of_name? hversion
                exact h _ (List.prefix_append [_, _] rest) _ (.version place hmembers hpart hnames)
      · rw [at?, at?, part?_replacedIn htool]

/-- Where no position on the way is masked, a route leads to the same as before. -/
theorem at?_masked (h : Unmasked j route) :
    (j.masked.at? route).map hollow = (j.at? route).map hollow := by
  rw [masked, at?_maskTimestamps h.not_isTimestamp, Option.map_map, ← at?_maskVersion h]
  exact congrArg (Option.map · _) (funext hollow_maskTimestamps)

theorem at?_masked_of_masks (h : Unmasked j route) (hmasks : Masks j text (route ++ [step]))
    (hsome : (j.at? (route ++ [step])).isSome = true) :
    j.masked.at? (route ++ [step]) = some (.str text) := by
  generalize hwhole : route ++ [step] = whole at hmasks hsome
  obtain ⟨x, hx⟩ := Option.isSome_iff_exists.mp hsome
  cases hmasks with
  | @timestamp before index name hname =>
      obtain ⟨rfl, -⟩ := List.append_inj' hwhole rfl
      rw [at?_append, Option.bind_eq_some_iff] at hx
      obtain ⟨parent, hparent, hpart⟩ := hx
      rw [at?_singleton] at hpart
      -- The parent may have become another value, but one with the same members.
      have hsame := at?_maskVersion h
      rw [hparent] at hsame
      obtain ⟨kept, hkept, hhollow⟩ := Option.map_eq_some_iff.mp hsame
      have hmember : (kept.part? (.member index name)).isSome = true := by
        rw [isSome_part? hhollow, hpart]
        rfl
      obtain ⟨y, hy⟩ := Option.isSome_iff_exists.mp hmember
      rw [masked, at?_append, at?_maskTimestamps h.not_isTimestamp, hkept, Option.map_some,
        Option.bind_some, at?_singleton, part?_maskTimestamps, hy]
      exact congrArg some (if_pos (hname.imp (congrArg some) (congrArg some)))
  | @version tool index place hmembers hpart hnames =>
      have hno : ∀ step ∈ [Step.member index "tool", .member place "version"],
          ¬step.IsTimestamp := by
        simp [Step.IsTimestamp, Step.name?]
      rw [at?, hpart, Option.bind_some, at?_singleton] at hx
      rw [masked, at?_maskTimestamps hno, maskVersion_eq, at?, part?_replacedIn_self hmembers,
        hpart, Option.map_some, Option.bind_some, at?_singleton, maskTool_eq,
        part?_replacedIn_self hnames, hx]
      rfl

theorem at?_masked_eq_none (h : Unmasked j route)
    (hnone : ¬(j.at? (route ++ [step])).isSome = true) : j.masked.at? (route ++ [step]) = none := by
  rw [← Option.not_isSome_iff_eq_none, isSome_at?_concat (at?_masked h)]
  exact hnone

theorem masks_iff_of_unmasked
    (h : ∀ route, Unmasked a route → (a.at? route).map hollow = (b.at? route).map hollow) :
    Masks a text route ↔ Masks b text route := by
  have hhollow : a.hollow = b.hollow := Option.some.inj (h [] a.unmasked_nil)
  have htool : ∀ index, (a.part? (.member index "tool")).map hollow =
      (b.part? (.member index "tool")).map hollow := by
    intro index
    rw [← at?_singleton, ← at?_singleton]
    exact h _ (a.unmasked_tool index)
  exact ⟨fun ha => ha.congr hhollow htool,
    fun hb => hb.congr hhollow.symm fun index => (htool index).symm⟩

theorem masks_masked_iff : Masks j.masked text route ↔ Masks j text route :=
  (masks_iff_of_unmasked fun _ hroute => (at?_masked hroute).symm).symm

theorem Unmasked.congr (h : Unmasked a route)
    (hmasks : ∀ text route, Masks a text route ↔ Masks b text route) : Unmasked b route :=
  fun before hbefore text hb => h before hbefore text ((hmasks text before).mpr hb)

/-- Values that are the same outside the masked positions are the same when masked. -/
theorem masked_eq_of_unmasked
    (h : ∀ route, Unmasked a route → (a.at? route).map hollow = (b.at? route).map hollow) :
    a.masked = b.masked := by
  have hmasks : ∀ text route, Masks a text route ↔ Masks b text route :=
    fun _ _ => masks_iff_of_unmasked h
  refine eq_of_at? fun route => ?_
  rcases a.unmasked_or_exists route with hroute | ⟨before, step, after, text, rfl, hbefore, hstep⟩
  · rw [at?_masked hroute, at?_masked (hroute.congr hmasks), h route hroute]
  · have hbefore' : Unmasked b before := hbefore.congr hmasks
    have hsame : a.masked.at? (before ++ [step]) = b.masked.at? (before ++ [step]) := by
      have hiff := isSome_at?_concat (h before hbefore) step
      by_cases hsome : (a.at? (before ++ [step])).isSome = true
      · rw [at?_masked_of_masks hbefore hstep hsome,
          at?_masked_of_masks hbefore' ((hmasks _ _).mp hstep) (hiff ▸ hsome)]
      · rw [at?_masked_eq_none hbefore hsome, at?_masked_eq_none hbefore' (hiff ▸ hsome)]
    rw [at?_append, at?_append b.masked, hsame]

/-- Masking hides the masked positions and nothing else. Masking once is enough. Where no position
on the way is masked, a route leads to the same as before, but for what is further down; what stands
at a masked position becomes its text. And masking makes two values the same exactly if they are the
same outside the masked positions. -/
theorem masked_idem_and_eq_iff_off_masks (a b : Json) :
    a.masked.masked = a.masked ∧
    (∀ route, Unmasked a route → (a.masked.at? route).map hollow = (a.at? route).map hollow) ∧
    (∀ route step text, Unmasked a route → Masks a text (route ++ [step]) →
      (a.at? (route ++ [step])).isSome = true → a.masked.at? (route ++ [step]) = some (.str text)) ∧
    (a.masked = b.masked ↔
      ∀ route, Unmasked a route → (a.at? route).map hollow = (b.at? route).map hollow) := by
  refine ⟨masked_eq_of_unmasked fun route h => at?_masked (h.congr fun _ _ => masks_masked_iff),
    fun route => at?_masked, fun route step text => at?_masked_of_masks, fun heq route h => ?_,
    masked_eq_of_unmasked⟩
  have hb : Unmasked b route := h.congr fun text route => by
    rw [← masks_masked_iff, heq, masks_masked_iff]
  rw [← at?_masked h, heq, at?_masked hb]

/-- A report of a tool with a version, started at a time, with a finding whose data look like a
report. -/
def imitatedReport (version time : String) : Json :=
  .obj [("findings", .arr [.obj [("data", .obj [("findings", .arr []), ("schema", .str "fake"),
      ("started_at", .str time), ("tool", .obj [("name", .str "inner"), ("version", .str "9.9.9")]),
      ("verdict", .str "pass")])]]),
    ("schema", .str "depseval.report.v1"), ("started_at", .obj [("at", .str time)]),
    ("tool", .obj [("name", .str "depseval"), ("version", .str version)]), ("verdict", .str "fail")]

def innerVersion : List Step :=
  [.member 0 "findings", .item 0, .member 0 "data", .member 3 "tool", .member 1 "version"]

/-- The version of the report is masked, and the one in the data of the finding is not. -/
theorem masked_idem_and_eq_iff_off_masks_imitated :
    Unmasked (imitatedReport "1.0" "noon") [.member 3 "tool"] ∧
    Masks (imitatedReport "1.0" "noon") "__VERSION__"
      ([.member 3 "tool"] ++ [.member 1 "version"]) ∧
    (imitatedReport "1.0" "noon").masked.at? ([.member 3 "tool"] ++ [.member 1 "version"]) =
      some (.str "__VERSION__") ∧
    Unmasked (imitatedReport "1.0" "noon") innerVersion ∧
    ((imitatedReport "1.0" "noon").masked.at? innerVersion).map hollow = some (.str "9.9.9") ∧
    (imitatedReport "1.0" "noon").masked = (imitatedReport "2.0" "midnight").masked ∧
    ((imitatedReport "1.0" "noon").at? innerVersion).map hollow =
      ((imitatedReport "2.0" "midnight").at? innerVersion).map hollow := by
  have htool : Unmasked (imitatedReport "1.0" "noon") [.member 3 "tool"] := unmasked_tool _ 3
  have hpart : (imitatedReport "1.0" "noon").part? (.member 3 "tool") =
      some (.obj [("name", .str "depseval"), ("version", .str "1.0")]) := rfl
  have hversion : Masks (imitatedReport "1.0" "noon") "__VERSION__"
      ([.member 3 "tool"] ++ [.member 1 "version"]) :=
    .version 1 (by unfold HasMembers; decide) hpart (by unfold HasMembers; decide)
  have hinner : Unmasked (imitatedReport "1.0" "noon") innerVersion := by
    intro before hbefore text hmasks
    rcases hmasks.shape with ⟨step, hstep, htimestamp⟩ | ⟨_, _, rfl⟩
    · have hno : ∀ step ∈ innerVersion, ¬step.IsTimestamp := by
        simp [innerVersion, Step.IsTimestamp, Step.name?]
      exact hno step (hbefore.subset hstep) htimestamp
    · have hname := (Step.member.inj (List.cons_prefix_cons.mp hbefore).1).2
      exact absurd hname (by decide)
  have hsame : (imitatedReport "1.0" "noon").masked = (imitatedReport "2.0" "midnight").masked :=
    rfl
  obtain ⟨-, hkept, hmasked, hiff⟩ :=
    masked_idem_and_eq_iff_off_masks (imitatedReport "1.0" "noon") (imitatedReport "2.0" "midnight")
  exact ⟨htool, hversion, hmasked _ _ _ htool hversion rfl, hinner,
    (hkept _ hinner).trans rfl, hsame, hiff.mp hsame _ hinner⟩

end DepsManifest.Json
