import Mathlib.Data.List.Basic
import LessonPages.Link.Phrase

/-!
# Phrases give their units back

`Phrase.ofUnits` numbers the runs it meets in a map, `Phrase.toUnits?` rebuilds the numbering as a
list, one phrase behind. This file relates the two and proves that nothing is lost:

* `Numbering.Lists` — the map gives each run of a list its place, counted from `Numbering.first`.
* `Phrase.Parsing` — the invariant of the parse: which runs are listed, how the newest of them came
  about, and what the phrase at hand stands for.
* `Phrase.toUnits?_ofUnits` — reading the phrases of a sequence gives the sequence.
-/

namespace LessonPages.Link

namespace Numbering

/-! ## A numbering as a list -/

/-- The numbering gives each run of the list its place, and numbers nothing else. -/
def Lists (runs : Numbering) (list : List (List UInt16)) : Prop :=
  runs.size = list.length ∧
    ∀ run number, runs[run]? = some number ↔ first ≤ number ∧ list[number - first]? = some run

theorem lists_empty : Lists ∅ [] := by
  refine ⟨Std.TreeMap.size_emptyc, fun run number => ?_⟩
  simp

/-- A run is listed exactly if it has a number. -/
theorem Lists.mem_iff {runs : Numbering} {list : List (List UInt16)} (h : runs.Lists list)
    {run : List UInt16} : run ∈ list ↔ ∃ number, runs[run]? = some number := by
  constructor
  · intro hmem
    obtain ⟨i, hi⟩ := List.mem_iff_getElem?.mp hmem
    exact ⟨i + first, (h.2 _ _).mpr ⟨Nat.le_add_left _ _, by rw [Nat.add_sub_cancel]; exact hi⟩⟩
  · rintro ⟨number, hnumber⟩
    exact List.mem_of_getElem? ((h.2 _ _).mp hnumber).2

theorem Lists.not_mem {runs : Numbering} {list : List (List UInt16)} (h : runs.Lists list)
    {run : List UInt16} (hnone : runs[run]? = none) : run ∉ list := by
  intro hmem
  obtain ⟨number, hsome⟩ := h.mem_iff.mp hmem
  rw [hnone] at hsome
  cases hsome

theorem size_learn {runs : Numbering} {run : List UInt16} (hnone : runs[run]? = none) :
    (runs.learn run).size = runs.size + 1 := by
  have hcontains : runs.contains run = false := by
    rw [Std.TreeMap.contains_eq_isSome_getElem?, hnone]
    rfl
  rw [Numbering.learn, Std.TreeMap.size_insert, hcontains]
  rfl

/-- A number that is given to one run leaves those of the others. -/
theorem getElem?_insert_of_ne {run other : List UInt16} (h : run ≠ other) (runs : Numbering)
    (number : Nat) : (runs.insert run number)[other]? = runs[other]? := by
  rw [Std.TreeMap.getElem?_insert, if_neg fun hcmp => h (Std.LawfulEqCmp.eq_of_compare hcmp)]

/-- A run that is learned comes last. -/
theorem Lists.learn {runs : Numbering} {list : List (List UInt16)} (h : runs.Lists list)
    {run : List UInt16} (hnone : runs[run]? = none) : (runs.learn run).Lists (list ++ [run]) := by
  have hfresh : run ∉ list := h.not_mem hnone
  refine ⟨?_, fun other number => ?_⟩
  · rw [size_learn hnone, h.1]
    simp
  · rw [Numbering.learn]
    by_cases heq : run = other
    · subst heq
      rw [Std.TreeMap.getElem?_insert_self]
      constructor
      · intro hsome
        cases hsome
        refine ⟨Nat.le_add_left _ _, ?_⟩
        rw [Nat.add_sub_cancel, h.1, List.getElem?_concat_length]
      · rintro ⟨hfirst, hplace⟩
        rw [List.getElem?_append] at hplace
        split at hplace
        · exact absurd (List.mem_of_getElem? hplace) hfresh
        · obtain ⟨hlt, -⟩ := List.getElem?_eq_some_iff.mp hplace
          simp only [List.length_singleton] at hlt
          rw [h.1]
          congr 1
          omega
    · rw [getElem?_insert_of_ne heq, h.2]
      constructor
      · rintro ⟨hfirst, hplace⟩
        obtain ⟨hlt, -⟩ := List.getElem?_eq_some_iff.mp hplace
        exact ⟨hfirst, by rw [List.getElem?_append_left hlt]; exact hplace⟩
      · rintro ⟨hfirst, hplace⟩
        rw [List.getElem?_append] at hplace
        split at hplace
        · exact ⟨hfirst, hplace⟩
        · have hone := List.mem_of_getElem? hplace
          exact absurd (List.mem_singleton.mp hone).symm heq

/-- A unit is looked up, and learned if it is new. -/
theorem Lists.single {runs : Numbering} {list : List (List UInt16)} (h : runs.Lists list)
    (unit : UInt16) :
    (∃ number, runs[[unit]]? = some number ∧ [unit] ∈ list ∧
      runs.single unit = (.known number, runs)) ∨
    ([unit] ∉ list ∧ runs.single unit = (.fresh unit, runs.learn [unit]) ∧
      (runs.learn [unit]).Lists (list ++ [[unit]])) := by
  cases hfound : runs[[unit]]? with
  | some number =>
    exact .inl ⟨number, rfl, h.mem_iff.mpr ⟨number, hfound⟩, by rw [Numbering.single, hfound]⟩
  | none =>
    exact .inr ⟨h.not_mem hfound, by rw [Numbering.single, hfound], h.learn hfound⟩

end Numbering

namespace Phrase

/-! ## The parse -/

/-- Each unit of a listed run is listed by itself. -/
def UnitsListed (list : List (List UInt16)) : Prop :=
  ∀ run ∈ list, ∀ unit ∈ run, [unit] ∈ list

/-- What a reader lists for a phrase that stands for `run`, behind the run `prev`. -/
def learnedFrom (prev run : List UInt16) : Phrase → List (List UInt16)
  | .fresh unit => [[unit], prev ++ [unit]]
  | .known _ => [prev ++ run.take 1]

/-- What a phrase says of the run it stands for: a number is that of the run, and a fresh unit is
met neither in the runs listed before nor in the run it follows. -/
def StandsFor (runs : Numbering) (list : List (List UInt16)) (prev run : List UInt16) :
    Phrase → Prop
  | .fresh unit => run = [unit] ∧ unit ∉ prev ∧ ∀ other ∈ list, unit ∉ other
  | .known number => runs[run]? = some number

/-- The parse between two units. The reader, which has taken in everything up to `prev`, has
`list`; the writer has in addition what the reader will list for the phrase at hand. -/
structure Parsing (runs : Numbering) (list : List (List UInt16)) (prev run : List UInt16)
    (phrase : Phrase) : Prop where
  lists : runs.Lists (list ++ phrase.learnedFrom prev run)
  units : UnitsListed (list ++ phrase.learnedFrom prev run)
  prev_ne_nil : prev ≠ []
  run_ne_nil : run ≠ []
  standsFor : phrase.StandsFor runs list prev run

variable {runs : Numbering} {list : List (List UInt16)} {prev run : List UInt16} {phrase : Phrase}

theorem Parsing.run_mem (h : Parsing runs list prev run phrase) :
    run ∈ list ++ phrase.learnedFrom prev run := by
  cases phrase with
  | fresh unit =>
    obtain ⟨hrun, -, -⟩ := h.standsFor
    simp [learnedFrom, hrun]
  | known number => exact h.lists.mem_iff.mpr ⟨number, h.standsFor⟩

/-- A run that goes on from the run at hand is listed only if the unit it goes on with is. -/
theorem Parsing.single_of_found (h : Parsing runs list prev run phrase) {unit : UInt16}
    {number : Nat} (hfound : (runs.single unit).2[run ++ [unit]]? = some number) :
    ∃ place, runs[[unit]]? = some place ∧ runs.single unit = (.known place, runs) := by
  have hlonger : run ++ [unit] ≠ [unit] := by simpa using h.run_ne_nil
  rcases h.lists.single unit with ⟨place, hplace, -, heq⟩ | ⟨hnew, heq, hlists⟩
  · exact ⟨place, hplace, heq⟩
  · exfalso
    rw [heq] at hfound
    rcases List.mem_append.mp (hlists.mem_iff.mpr ⟨number, hfound⟩) with hmem | hmem
    · exact hnew (h.units _ hmem unit (by simp))
    · exact hlonger (List.mem_singleton.mp hmem)

/-- No listed run goes on from a fresh unit. -/
theorem Parsing.known_of_found (h : Parsing runs list prev run phrase) {unit : UInt16}
    {number : Nat} (hfound : runs[run ++ [unit]]? = some number) : ∃ old, phrase = .known old := by
  have hmem := h.lists.mem_iff.mpr ⟨number, hfound⟩
  cases phrase with
  | known old => exact ⟨old, rfl⟩
  | fresh first =>
    exfalso
    obtain ⟨hrun, hprev, hlist⟩ := h.standsFor
    subst hrun
    simp only [learnedFrom, List.mem_append, List.mem_cons, List.not_mem_nil, or_false] at hmem
    rcases hmem with hmem | hmem | hmem
    · exact hlist _ hmem (by simp)
    · simp at hmem
    · have hprev' : [first] = prev := (List.append_inj' hmem rfl).1
      exact hprev (by rw [← hprev']; exact List.mem_singleton_self first)

/-- A run that goes on from the run at hand can be listed only when that is not a fresh unit, and
then the unit it goes on with is listed, too. -/
theorem Parsing.extend (h : Parsing runs list prev run phrase) {unit : UInt16} {number : Nat}
    (hfound : (runs.single unit).2[run ++ [unit]]? = some number) :
    Parsing (runs.single unit).2 list prev (run ++ [unit]) (.known number) := by
  obtain ⟨place, -, hsingle⟩ := h.single_of_found hfound
  rw [hsingle] at hfound ⊢
  obtain ⟨old, rfl⟩ := h.known_of_found hfound
  have htake : (run ++ [unit]).take 1 = run.take 1 := by
    obtain ⟨u, us, hrun⟩ := List.exists_cons_of_ne_nil h.run_ne_nil
    rw [hrun]
    rfl
  have hlearned : learnedFrom prev (run ++ [unit]) (.known number) =
      learnedFrom prev run (.known old) := by
    simp only [learnedFrom, htake]
  exact ⟨hlearned ▸ h.lists, hlearned ▸ h.units, h.prev_ne_nil, by simp, hfound⟩

/-- Where a run ends, the writer lists it together with the unit behind it. -/
theorem Parsing.ofCut (hlists : runs.Lists list) (hunits : UnitsListed list) (hmem : run ∈ list)
    (hrun : run ≠ []) {unit : UInt16} (hnone : (runs.single unit).2[run ++ [unit]]? = none) :
    Parsing ((runs.single unit).2.learn (run ++ [unit])) list run [unit] (runs.single unit).1 := by
  rcases hlists.single unit with ⟨number, hnumber, hlisted, heq⟩ | ⟨hnew, heq, hlists'⟩
  · rw [heq] at hnone ⊢
    refine ⟨hlists.learn hnone, ?_, hrun, by simp, ?_⟩
    · intro other hother u hu
      simp only [learnedFrom, List.take_succ_cons, List.take_zero, List.mem_append,
        List.mem_singleton] at hother ⊢
      rcases hother with hother | rfl
      · exact .inl (hunits _ hother u hu)
      · rcases List.mem_append.mp hu with hu | hu
        · exact .inl (hunits _ hmem u hu)
        · rw [List.mem_singleton.mp hu]
          exact .inl hlisted
    · have hkept := (hlists.learn hnone).2 [unit] number
      obtain ⟨hfirst, hplace⟩ := (hlists.2 [unit] number).mp hnumber
      obtain ⟨hlt, -⟩ := List.getElem?_eq_some_iff.mp hplace
      exact hkept.mpr ⟨hfirst, by rw [List.getElem?_append_left hlt]; exact hplace⟩
  · rw [heq] at hnone ⊢
    have hfresh : ∀ other ∈ list, unit ∉ other := fun other hother hu =>
      hnew (hunits _ hother unit hu)
    refine ⟨?_, ?_, hrun, by simp, rfl, hfresh _ hmem, hfresh⟩
    · have hboth := hlists'.learn hnone
      rwa [List.append_assoc] at hboth
    · intro other hother u hu
      simp only [learnedFrom, List.mem_append, List.mem_cons, List.not_mem_nil,
        or_false] at hother ⊢
      rcases hother with hother | rfl | rfl
      · exact .inl (hunits _ hother u hu)
      · exact .inr (.inl (by rw [List.mem_singleton.mp hu]))
      · rcases List.mem_append.mp hu with hu | hu
        · exact .inl (hunits _ hmem u hu)
        · exact .inr (.inl (by rw [List.mem_singleton.mp hu]))

/-! ## Reading what was parsed -/

/-- A reader takes the phrase at hand for the run it stands for, and lists what the writer has
listed already. The newest run may be asked for before it is listed. -/
theorem Parsing.toUnitsFrom_cons (h : Parsing runs list prev run phrase) (rest : List Phrase) :
    toUnitsFrom list.toArray prev (phrase :: rest) =
      (toUnitsFrom (list ++ phrase.learnedFrom prev run).toArray run rest).map (run ++ ·) := by
  cases phrase with
  | fresh unit =>
    obtain ⟨rfl, -, -⟩ := h.standsFor
    simp [toUnitsFrom, learnedFrom]
  | known number =>
    obtain ⟨hfirst, hplace⟩ := (h.lists.2 run number).mp h.standsFor
    have hmet : (if number < Numbering.first then none
        else if number = list.toArray.size + Numbering.first then some (prev ++ prev.take 1)
        else list.toArray[number - Numbering.first]?) = some run := by
      rw [if_neg (by omega), List.size_toArray, List.getElem?_toArray]
      by_cases hnewest : number = list.length + Numbering.first
      · rw [if_pos hnewest]
        rw [hnewest, Nat.add_sub_cancel, List.getElem?_append_right (Nat.le_refl _),
          Nat.sub_self] at hplace
        -- the newest run starts like `prev`, because it is `prev` and one unit
        have hrun : prev ++ run.take 1 = run := by simpa [learnedFrom] using hplace
        have hstart : run.take 1 = prev.take 1 := by
          obtain ⟨u, us, hprev⟩ := List.exists_cons_of_ne_nil h.prev_ne_nil
          rw [← hrun, hprev]
          rfl
        rw [← hstart, hrun]
      · rw [if_neg hnewest]
        obtain ⟨hlt, -⟩ := List.getElem?_eq_some_iff.mp hplace
        simp only [learnedFrom, List.length_append, List.length_singleton] at hlt
        rwa [List.getElem?_append_left (by omega)] at hplace
    rw [toUnitsFrom]
    simp only [hmet, Option.bind_some, learnedFrom]
    simp

/-- **Reading what is left of a parse** gives the run at hand and the units behind it. -/
theorem Parsing.toUnitsFrom_ofUnitsFrom (h : Parsing runs list prev run phrase)
    (units : List UInt16) :
    toUnitsFrom list.toArray prev (ofUnitsFrom runs run phrase units) = some (run ++ units) := by
  induction units generalizing runs list prev run phrase with
  | nil =>
    rw [ofUnitsFrom, h.toUnitsFrom_cons]
    simp [toUnitsFrom]
  | cons unit rest ih =>
    rw [ofUnitsFrom]
    split
    · rename_i number hfound
      rw [ih (h.extend hfound), List.append_assoc, List.singleton_append]
    · rename_i hnone
      rw [h.toUnitsFrom_cons, ih (Parsing.ofCut h.lists h.units h.run_mem h.run_ne_nil hnone)]
      rfl

/-- The first unit is always a fresh one. -/
theorem single_empty (unit : UInt16) :
    Numbering.single ∅ unit = (.fresh unit, Numbering.learn ∅ [unit]) := by
  rw [Numbering.single, Std.TreeMap.getElem?_emptyc]

/-- A run of two units cannot be listed yet at the second unit, so the first one is a phrase by
itself. -/
theorem single_learn_empty (unit next : UInt16) :
    ((Numbering.learn ∅ [unit]).single next).2[[unit] ++ [next]]? = none ∧
      Parsing (((Numbering.learn ∅ [unit]).single next).2.learn ([unit] ++ [next])) [[unit]] [unit]
        [next] ((Numbering.learn ∅ [unit]).single next).1 := by
  have hlists : (Numbering.learn ∅ [unit]).Lists [[unit]] :=
    Numbering.lists_empty.learn Std.TreeMap.getElem?_emptyc
  have hunits : UnitsListed [[unit]] := by
    intro run hrun u hu
    rw [List.mem_singleton.mp hrun] at hu
    rw [List.mem_singleton.mp hu]
    exact List.mem_singleton_self _
  have hnone : ((Numbering.learn ∅ [unit]).single next).2[[unit] ++ [next]]? = none := by
    refine Option.eq_none_iff_forall_not_mem.mpr fun number hnumber => ?_
    rcases hlists.single next with ⟨_, -, -, heq⟩ | ⟨-, heq, hlists'⟩
    · rw [heq] at hnumber
      have hmem := hlists.mem_iff.mpr ⟨number, hnumber⟩
      simp at hmem
    · rw [heq] at hnumber
      have hmem := hlists'.mem_iff.mpr ⟨number, hnumber⟩
      simp at hmem
  exact ⟨hnone, Parsing.ofCut hlists hunits (List.mem_singleton_self _) (by simp) hnone⟩

/-- **No unit is lost**: the phrases of a sequence of units are read as that sequence. -/
theorem toUnits?_ofUnits (units : List UInt16) : toUnits? (ofUnits units) = some units := by
  cases units with
  | nil => rfl
  | cons unit rest =>
    rw [ofUnits]
    simp only [single_empty]
    cases rest with
    | nil => rfl
    | cons next rest =>
      obtain ⟨hnone, hparsing⟩ := single_learn_empty unit next
      rw [ofUnitsFrom]
      simp only [hnone]
      rw [toUnits?, hparsing.toUnitsFrom_ofUnitsFrom rest]
      rfl

end Phrase

end LessonPages.Link
