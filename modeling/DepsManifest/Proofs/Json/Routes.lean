import DepsManifest.Json.Basic
import DepsManifest.Proofs.NameMap
/-! # Routes into a JSON value

A step leads from an array to one of its items, and from an object to one of its members. The value
at the end of a list of steps is that of a route (`Json.at?`).

The use of routes is to compare two values that a program makes of each other. What a value is apart
from its parts, the value made hollow, says which steps there are (`Json.isSome_part?`). So two
values that are alike, made hollow, wherever a route leads in the one, are the same value
(`Json.eq_of_at?`), and no comparison has to go through the two trees side by side.

A step to a member has the place of the member beside its name. The name alone would not do, as
nothing keeps two members of an object from having one name; the place alone would lose the name,
which is part of the value.
-/
namespace DepsManifest.Json

/-- A step from a value to one of its parts. The step to a member has its place beside its name, as
nothing keeps two members from having one name. -/
inductive Step where
  | item (index : Nat)
  | member (index : Nat) (name : String)

/-- The part of a value that a step leads to. -/
def part? : Json → Step → Option Json
  | .arr items, .item index => items[index]?
  | .obj members, .member index name => (members[index]?.filter fun m => m.1 = name).map (·.2)
  | _, _ => none

/-- What a route leads to. -/
def at? : Json → List Step → Option Json
  | j, [] => some j
  | j, step :: route => (j.part? step).bind fun x => x.at? route

/-- What a value is apart from its parts: the value with null for each of them. -/
def hollow : Json → Json
  | .arr items => .arr (items.map fun _ => .null)
  | .obj members => .obj (members.map fun m => (m.1, .null))
  | j => j

variable {a b j x : Json} {route rest : List Step} {step : Step}

/-! ## Parts -/

theorem part?_member_eq_some {members : List (String × Json)} {index : Nat} {name : String} :
    (obj members).part? (.member index name) = some x ↔ members[index]? = some (name, x) := by
  rw [part?, Option.map_eq_some_iff]
  constructor
  · rintro ⟨⟨n, y⟩, h, rfl⟩
    obtain ⟨hget, hname⟩ := Option.filter_eq_some_iff.mp h
    rw [← of_decide_eq_true hname, hget]
  · intro h
    exact ⟨(name, x), Option.filter_eq_some_iff.mpr ⟨h, decide_eq_true rfl⟩, rfl⟩

theorem part?_obj_map (f : String → Json → Json) (members : List (String × Json)) (index : Nat)
    (name : String) : (obj (members.map fun m => (m.1, f m.1 m.2))).part? (.member index name) =
      ((obj members).part? (.member index name)).map (f name) := by
  refine Option.ext fun x => ?_
  rw [part?_member_eq_some, List.getElem?_map, Option.map_eq_some_iff, Option.map_eq_some_iff]
  constructor
  · rintro ⟨⟨n, y⟩, hget, heq⟩
    cases heq
    exact ⟨y, part?_member_eq_some.mpr hget, rfl⟩
  · rintro ⟨y, hy, rfl⟩
    exact ⟨(name, y), part?_member_eq_some.mp hy, rfl⟩

theorem sizeOf_part? (h : j.part? step = some x) : sizeOf x < sizeOf j := by
  cases j with
  | arr items =>
      cases step with
      | item index =>
          have hitem := List.sizeOf_lt_of_mem (List.mem_of_getElem? h)
          simp only [arr.sizeOf_spec]
          omega
      | member _ _ => cases h
  | obj members =>
      cases step with
      | item _ => cases h
      | member index name =>
          have hmember := List.sizeOf_lt_of_mem (List.mem_of_getElem? (part?_member_eq_some.mp h))
          simp only [Prod.mk.sizeOf_spec] at hmember
          simp only [obj.sizeOf_spec]
          omega
  | _ => cases h

/-! ## Hollow values -/

theorem part?_hollow (j : Json) (step : Step) :
    j.hollow.part? step = (j.part? step).map fun _ => null := by
  cases j with
  | arr items =>
      cases step with
      | item index => exact List.getElem?_map
      | member _ _ => rfl
  | obj members =>
      cases step with
      | item _ => rfl
      | member index name => exact part?_obj_map (fun _ _ => null) members index name
  | _ => rfl

theorem member?_hollow (j : Json) (name : String) :
    j.hollow.member? name = (j.member? name).map fun _ => null := by
  cases j with
  | obj members => exact NameMap.lookup_map (fun _ => null) name members
  | _ => rfl

/-- Values that are alike when hollow have the same steps. -/
theorem isSome_part? (h : a.hollow = b.hollow) (step : Step) :
    (a.part? step).isSome = (b.part? step).isSome := by
  have hparts : (a.hollow.part? step).isSome = (b.hollow.part? step).isSome := by rw [h]
  rwa [part?_hollow, part?_hollow, Option.isSome_map, Option.isSome_map] at hparts

theorem isSome_member? (h : a.hollow = b.hollow) (name : String) :
    (a.member? name).isSome = (b.member? name).isSome := by
  have hmembers : (a.hollow.member? name).isSome = (b.hollow.member? name).isSome := by rw [h]
  rwa [member?_hollow, member?_hollow, Option.isSome_map, Option.isSome_map] at hmembers

theorem eq_of_part? (h : a.hollow = b.hollow)
    (hparts : ∀ step x y, a.part? step = some x → b.part? step = some y → x = y) : a = b := by
  cases a with
  | arr items =>
      cases b with
      | arr items' =>
          have hlength : items.length = items'.length := by
            have hnulls := congrArg List.length (arr.inj h)
            rwa [List.length_map, List.length_map] at hnulls
          refine congrArg arr (List.ext_getElem hlength fun i hi hi' => ?_)
          exact hparts (.item i) _ _ (List.getElem?_eq_getElem hi) (List.getElem?_eq_getElem hi')
      | _ => cases h
  | obj members =>
      cases b with
      | obj members' =>
          have hhollow := obj.inj h
          have hlength : members.length = members'.length := by
            have hnulls := congrArg List.length hhollow
            rwa [List.length_map, List.length_map] at hnulls
          refine congrArg obj (List.ext_getElem hlength fun i hi hi' => ?_)
          have hname : members[i].1 = members'[i].1 := by
            have hnulls := congrArg (fun l => l[i]?.map (·.1)) hhollow
            simpa [hi, hi'] using hnulls
          refine Prod.ext hname (hparts (.member i members[i].1) _ _ ?_ ?_)
          · exact part?_member_eq_some.mpr (List.getElem?_eq_getElem hi)
          · rw [hname]
            exact part?_member_eq_some.mpr (List.getElem?_eq_getElem hi')
      | _ => cases h
  | _ =>
      cases b <;> cases h
      rfl

/-! ## Routes -/

theorem at?_append (j : Json) (route rest : List Step) :
    j.at? (route ++ rest) = (j.at? route).bind fun x => x.at? rest := by
  induction route generalizing j with
  | nil => rfl
  | cons step route ih =>
      rw [List.cons_append, at?, at?, Option.bind_assoc]
      exact Option.bind_congr fun x _ => ih x

theorem at?_singleton (j : Json) (step : Step) : j.at? [step] = j.part? step := by
  rw [at?]
  exact Option.bind_fun_some _

theorem isSome_at?_concat (h : (a.at? route).map hollow = (b.at? route).map hollow) (step : Step) :
    (a.at? (route ++ [step])).isSome = (b.at? (route ++ [step])).isSome := by
  rw [at?_append, at?_append]
  cases ha : a.at? route with
  | none =>
      rw [ha] at h
      rw [Option.map_eq_none_iff.mp h.symm]
  | some x =>
      rw [ha] at h
      obtain ⟨y, hb, hhollow⟩ := Option.map_eq_some_iff.mp h.symm
      rw [hb, Option.bind_some, Option.bind_some, at?_singleton, at?_singleton]
      exact isSome_part? hhollow.symm step

/-- Values that are alike when hollow, at the end of each route, are the same. -/
theorem eq_of_at? {a b : Json} (h : ∀ route, (a.at? route).map hollow = (b.at? route).map hollow) :
    a = b := by
  refine eq_of_part? (Option.some.inj (h [])) fun step x y hx hy => ?_
  have hsmaller := sizeOf_part? hx
  refine eq_of_at? fun route => ?_
  have hroute := h (step :: route)
  rwa [at?, at?, hx, hy] at hroute
termination_by sizeOf a

end DepsManifest.Json
