import Std.Data.TreeMap

/-!
# Phrases

The first half of the compression behind a link: a sequence of units is cut into phrases. Each
phrase is the longest run of units met before, or a single unit met for the first time. Phrases
met are numbered in the order in which they are learned; a new one is learned with every cut, namely
the phrase that ends there together with the unit after it.

* `Phrase.ofUnits` — the phrases of a sequence of units.
* `Phrase.toUnits?` — the units of a sequence of phrases; the numbering is rebuilt on the way, one
  phrase behind, so the newest number may be used before its last unit is known.
-/

namespace LessonPages.Link

/-- One phrase of a compressed sequence. -/
inductive Phrase where
  /-- A unit met for the first time, spelled out. -/
  | fresh (unit : UInt16)
  /-- A run of units met before, given by its number. -/
  | known (number : Nat)
  deriving DecidableEq, Repr

/-- The numbers of the runs met so far. -/
abbrev Numbering := Std.TreeMap (List UInt16) Nat

namespace Numbering

/-- The smallest number of a run: 0 and 1 announce a fresh unit, 2 announces the end. -/
def first : Nat := 3

/-- Gives a run the next free number. -/
def learn (runs : Numbering) (run : List UInt16) : Numbering :=
  runs.insert run (runs.size + first)

/-- The phrase for a single unit, and the numbering that has it. -/
def single (runs : Numbering) (unit : UInt16) : Phrase × Numbering :=
  match runs[[unit]]? with
  | some number => (.known number, runs)
  | none => (.fresh unit, runs.learn [unit])

end Numbering

namespace Phrase

/-- Goes on from a run that is met and the phrase that stands for it. -/
def ofUnitsFrom (runs : Numbering) (run : List UInt16) (phrase : Phrase) :
    List UInt16 → List Phrase
  | [] => [phrase]
  | unit :: rest =>
    let next := runs.single unit
    match next.2[run ++ [unit]]? with
    | some number => ofUnitsFrom next.2 (run ++ [unit]) (.known number) rest
    | none => phrase :: ofUnitsFrom (next.2.learn (run ++ [unit])) [unit] next.1 rest

/-- The phrases of a sequence of units (lz-string's `_compress`, its dictionary). -/
def ofUnits : List UInt16 → List Phrase
  | [] => []
  | unit :: rest =>
    let next := Numbering.single ∅ unit
    ofUnitsFrom next.2 [unit] next.1 rest

/-- Goes on after a run, with the runs learned so far in the order of their numbers. -/
def toUnitsFrom (runs : Array (List UInt16)) (run : List UInt16) :
    List Phrase → Option (List UInt16)
  | [] => some []
  | .fresh unit :: rest =>
    (toUnitsFrom ((runs.push [unit]).push (run ++ [unit])) [unit] rest).map (unit :: ·)
  | .known number :: rest =>
    let met :=
      if number < Numbering.first then none
      else if number = runs.size + Numbering.first then some (run ++ run.take 1)
      else runs[number - Numbering.first]?
    met.bind fun found =>
      (toUnitsFrom (runs.push (run ++ found.take 1)) found rest).map (found ++ ·)

/-- The units of a sequence of phrases, which has to start with a fresh unit. -/
def toUnits? : List Phrase → Option (List UInt16)
  | [] => some []
  | .fresh unit :: rest => (toUnitsFrom #[[unit]] [unit] rest).map (unit :: ·)
  | .known _ :: _ => none

end Phrase

end LessonPages.Link
