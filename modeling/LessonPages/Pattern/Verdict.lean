import LessonPages.Pattern.Reach

/-!
# Verdicts

What patterns and rules say about a path.

* `Shape.found`, `Pattern.hits` — whether a pattern matches a path.
* `Rule.verdict` — what a list of rules says about a path.
-/

namespace LessonPages

/-- Whether a shape is found in a path. -/
def Shape.found (path : Text) : Shape → Bool
  | .anyChar => path.any (· != '\n')
  | .anySlash => path.any (· == '/')
  | .fromStart parts => Part.reachAll parts path [true]

theorem Shape.found_fromStart (path : Text) (parts : List Part) :
    Shape.found path (.fromStart parts) = Part.runAll parts path := by
  rw [found, Part.reachAll_eq, Marks.anyFrom_singleton_true]

/-- Whether the pattern matches a path (pathspec's `match_file` of one pattern); folders are given
with a slash at their end. -/
def Pattern.hits (p : Pattern) (path : Text) : Bool := p.shape.found path

namespace Rule

/-- A path without one slash, or else one `./`, at its start (pathspec's `normalize_file`). -/
def dropLead : Text → Text
  | '/' :: rest => rest
  | '.' :: '/' :: rest => rest
  | path => path

/-- What a list of rules says about a path (`PathSpec.match_file`): the last rule that matches
decides, and without one the path is not selected. -/
def verdict (rules : List Rule) (path : Text) : Bool :=
  match rules.reverse.find? fun r => r.pattern.hits (dropLead path) with
  | some r => r.selects
  | none => false

@[simp] theorem verdict_nil (path : Text) : verdict [] path = false := rfl

theorem verdict_append_singleton (rules : List Rule) (r : Rule) (path : Text) :
    verdict (rules ++ [r]) path =
      if r.pattern.hits (dropLead path) then r.selects else verdict rules path := by
  unfold verdict
  by_cases h : r.pattern.hits (dropLead path) <;> simp [h]

end Rule

end LessonPages
