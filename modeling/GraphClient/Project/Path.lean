/-! Paths as texts with slashes. Empty steps and steps `.` lead nowhere, except for a first `.`. -/

namespace GraphClient.Project

/-- A path to a file, as it was given. -/
structure Path where
  text : String
  deriving DecidableEq, Repr

namespace Path

/-- What stands between the slashes. -/
def steps (p : Path) : List String := (p.text.toList.splitOn '/').map String.ofList

def isRelative (p : Path) : Bool := !p.text.startsWith "/"

/-- Steps, the last one first, without those at the end that lead nowhere; the first step of all stays. -/
def trimSteps : List String → List String
  | [] => []
  | [first] => [first]
  | step :: before => if step = "" ∨ step = "." then trimSteps before else step :: before

/-- Where a path is in: the path without its last step. The root and the empty path are in nothing. -/
def parent? (p : Path) : Option Path :=
  match trimSteps p.steps.reverse with
  | [] | [""] => none
  | _ :: before =>
      match trimSteps before with
      | [""] => some ⟨"/"⟩
      | kept => some ⟨"/".intercalate kept.reverse⟩

/-- The path that another path means when seen from here. -/
def join (base p : Path) : Path :=
  if !p.isRelative then p
  else if base.text = "" ∨ base.text.endsWith "/" then ⟨base.text ++ p.text⟩
  else ⟨base.text ++ "/" ++ p.text⟩

end Path

end GraphClient.Project
