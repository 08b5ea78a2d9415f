/-! # Paths

A path is a text of names with slashes between them. Slashes at its end and the names `.` count for
nothing, a `.` at its very beginning excepted. Nothing here asks what a path leads to: `..` is a
name like others.

The directories that lead to a path (`ancestors`) are found from its end, so the recursion works on
the path written backwards. Each parent is shorter than its path, which is why that ends; the empty
path, which is the parent of a single name, is left out.
-/
namespace DepsManifest.Path

/-- The names between the slashes of a path, the empty ones too. -/
def splitNames : List Char → List (List Char)
  | [] => [[]]
  | c :: cs =>
    if c = '/' then [] :: splitNames cs
    else
      match splitNames cs with
      | [] => [[c]]
      | name :: rest => (c :: name) :: rest

def names (path : String) : List String := (splitNames path.toList).map String.ofList

def isAbsolute (path : String) : Bool := path.toList.head? == some '/'

/-- The names before the last, if slashes stand after the last and it is neither `.` nor `..`. -/
def beforeNamedDirectory? (path : String) : Option (List String) :=
  match (names path).reverse with
  | "" :: backwards =>
    match backwards.dropWhile (· = "") with
    | [] => none
    | last :: before => if last = "." ∨ last = ".." then none else some before.reverse
  | _ => none

/-- A path, written backwards, without what counts for nothing at its end. -/
def trimmed : List Char → List Char
  | '/' :: c :: cs => trimmed (c :: cs)
  | '.' :: '/' :: cs => trimmed ('/' :: cs)
  | cs => cs

/-- The directory of what a path, written backwards, leads to. The root has none. -/
def parentOf? (path : List Char) : Option (List Char) :=
  match trimmed path with
  | [] => none
  | ['/'] => none
  | _ :: cs => some (trimmed (cs.dropWhile (· ≠ '/')))

theorem length_trimmed_le (path : List Char) : (trimmed path).length ≤ path.length := by
  fun_induction trimmed path with
  | case1 c cs ih => simp at ih ⊢; omega
  | case2 cs ih => simp at ih ⊢; omega
  | case3 => simp

theorem length_parentOf_lt {path parent : List Char} (h : parentOf? path = some parent) :
    parent.length < path.length := by
  have hpath := length_trimmed_le path
  unfold parentOf? at h
  split at h
  · simp at h
  · simp at h
  · next c cs _ heq =>
    have hparent := length_trimmed_le (cs.dropWhile (· ≠ '/'))
    have hdrop := (List.dropWhile_suffix (l := cs) (· ≠ '/')).length_le
    simp at h
    subst h
    simp [heq] at hpath hparent hdrop ⊢
    omega

/-- The directories that lead to a path, written backwards: its parent first. -/
def ancestorsOf (path : List Char) : List (List Char) :=
  match _ : parentOf? path with
  | none => []
  | some [] => []
  | some (c :: cs) => (c :: cs) :: ancestorsOf (c :: cs)
termination_by path.length
decreasing_by exact length_parentOf_lt (by assumption)

/-- The directories that lead to a path: its parent first, the outermost last. -/
def ancestors (path : String) : List String :=
  (ancestorsOf path.toList.reverse).map fun a => String.ofList a.reverse

end DepsManifest.Path
