import DepsManifest.Number.Binary64
import DepsManifest.Text.Basic
/-! # JSON values

A JSON value with its objects as lists of members. `Json.object` brings members into the form in
which objects are read and compared: in the order of their names, each name once, the last member of
a name counting. A number is either a whole number of 64 bits or a binary floating-point number; the
two are never mixed up, so `1` and `1.0` differ.

The type does not ask for that form, because a value is also built to be printed: `Json.obj` prints
its members as they stand. What is read from a text always has it.

A floating-point number is printed with the fewest digits that denote it. The magnitude does that
(`Magnitude.shortest`); only the placing of point and exponent is decided here.
-/
namespace DepsManifest

/-- A JSON number. -/
inductive Json.Number where
  | integer (i : Int)
  | float (negative : Bool) (magnitude : Magnitude)
  deriving DecidableEq, Inhabited

/-- A JSON value. -/
inductive Json where
  | null
  | bool (b : Bool)
  | num (n : Json.Number)
  | str (s : String)
  | arr (items : List Json)
  | obj (members : List (String × Json))
  deriving Inhabited

namespace Json

/-! ## Members -/

/-- A member put among members that stand in the order of their names. -/
def insertMember (name : String) (value : Json) : List (String × Json) → List (String × Json)
  | [] => [(name, value)]
  | (n, v) :: rest =>
    if name < n then (name, value) :: (n, v) :: rest
    else if name = n then (name, value) :: rest
    else (n, v) :: insertMember name value rest

/-- Members in the order of their names; of two members with one name the later counts. -/
def sortedMembers (members : List (String × Json)) : List (String × Json) :=
  members.foldl (fun sorted member => insertMember member.1 member.2 sorted) []

def object (members : List (String × Json)) : Json := .obj (sortedMembers members)

def ofNat (n : Nat) : Json := .num (.integer n)

/-- The member of an object under a name; nothing for any other value. -/
def member? (name : String) : Json → Option Json
  | .obj members => members.lookup name
  | _ => none

def asString? : Json → Option String
  | .str s => some s
  | _ => none

/-! ## Numbers as text -/

/-- The text of a floating-point number: the fewest digits that denote it, written positionally if
the leading digit stands between the fifth place after the point and the sixteenth before it, and
otherwise with a signed exponent. A whole number keeps `.0`. -/
def floatText (negative : Bool) (m : Magnitude) : List Char :=
  let sign := if negative then ['-'] else []
  if m.mantissa = 0 then sign ++ ['0', '.', '0']
  else
    let (units, place) := m.shortest
    let digits := Text.decimal units
    let lead : Int := place + (digits.length : Int) - 1
    let unsigned :=
      if -5 ≤ lead ∧ lead ≤ 15 then
        if place ≥ 0 then digits ++ List.replicate place.toNat '0' ++ ['.', '0']
        else if lead ≥ 0 then
          digits.take (lead.toNat + 1) ++ ['.'] ++ digits.drop (lead.toNat + 1)
        else ['0', '.'] ++ List.replicate ((-lead).toNat - 1) '0' ++ digits
      else
        let fraction := if digits.length > 1 then '.' :: digits.drop 1 else []
        let exponentSign := if lead < 0 then '-' else '+'
        digits.take 1 ++ fraction ++ ['e', exponentSign] ++ Text.decimal lead.natAbs
    sign ++ unsigned

def Number.text : Number → List Char
  | .integer i => Text.signedDecimal i
  | .float negative m => floatText negative m

end Json

end DepsManifest
