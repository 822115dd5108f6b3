import LessonPages.Path
import LessonPages.Pattern.Reading
import LessonPages.Pattern.Verdict
import LessonPages.Proofs.Lines

/-!
# What a pattern says below a folder

A pattern without character classes that matches the path of a folder, with the slash at its end,
matches every path below that folder: what it matches ends at a slash and is free to go on, or it
ends with stars that take in the next name, too. A character class could match the slash itself.

* `GoesOn` — a test of a text that still holds when the text goes on.
* `goesOn_run`, `goesOn_lastLevel`, `Segment.goesOn_partsFrom` — parts, a last level, all levels.
* `Pattern.goesOn_hits` — patterns.
* `Rule.classless_ofLines` — the lines that give such patterns.
-/

namespace LessonPages

/-- Whether a text ends in a slash. -/
def EndsInSlash (u : Text) : Prop := u.getLast? = some '/'

/-- Whether a text ends where a level of a path ends. -/
def EndsLevel (u : Text) : Prop := u = [] ∨ EndsInSlash u

/-- A test that, if it holds of a text with some property, still holds when the text goes on. -/
def GoesOn (P : Text → Prop) (test : Text → Bool) : Prop :=
  ∀ u rest, P u → test u = true → test (u ++ rest) = true

/-- Behind a character that is no slash, a text with a slash at its end goes on with one. -/
theorem EndsInSlash.tail {allowed : Char → Bool} (hslash : allowed '/' = false) (c : Char) (u : Text)
    (hc : allowed c = true) (h : EndsInSlash (c :: u)) : EndsInSlash u := by
  cases u with
  | nil =>
    obtain rfl : c = '/' := Option.some.inj h
    rw [hslash] at hc
    cases hc
  | cons d u => rwa [EndsInSlash, List.getLast?_cons_cons] at h

theorem EndsLevel.tail {c : Char} {u : Text} (h : EndsLevel (c :: u)) : EndsLevel u := by
  rcases h with h | h
  · cases h
  · cases u with
    | nil => exact .inl rfl
    | cons d u => exact .inr (by rwa [EndsInSlash, List.getLast?_cons_cons] at h)

section Tests

variable {P : Text → Prop} {test : Text → Bool} {allowed : Char → Bool}

theorem goesOn_afterOne (hstep : ∀ c u, allowed c = true → P (c :: u) → P u) (h : GoesOn P test) :
    GoesOn P (Part.afterOne allowed test) := by
  intro u rest hu htest
  cases u with
  | nil => cases htest
  | cons c u =>
    rw [Part.afterOne, Bool.and_eq_true] at htest
    rw [List.cons_append, Part.afterOne, Bool.and_eq_true]
    exact ⟨htest.1, h u rest (hstep c u htest.1 hu) htest.2⟩

/-- A run may be empty. -/
theorem afterRun_of_test {t : Text} (h : test t = true) : Part.afterRun allowed test t = true := by
  cases t with
  | nil => exact h
  | cons c t => rw [Part.afterRun, h, Bool.true_or]

theorem goesOn_afterRun (hstep : ∀ c u, allowed c = true → P (c :: u) → P u) (h : GoesOn P test) :
    GoesOn P (Part.afterRun allowed test) := by
  intro u rest hu htest
  induction u with
  | nil => exact afterRun_of_test (h [] rest hu htest)
  | cons c u ih =>
    rw [Part.afterRun, Bool.or_eq_true, Bool.and_eq_true] at htest
    rw [List.cons_append, Part.afterRun, Bool.or_eq_true, Bool.and_eq_true]
    rcases htest with htest | ⟨hc, hrun⟩
    · exact .inl (h (c :: u) rest hu htest)
    · exact .inr ⟨hc, ih (hstep c u hc hu) hrun⟩

theorem goesOn_or {other : Text → Bool} (h : GoesOn P test) (hother : GoesOn P other) :
    GoesOn P fun t => test t || other t := by
  intro u rest hu htest
  rw [Bool.or_eq_true] at htest ⊢
  exact htest.imp (h u rest hu) (hother u rest hu)

/-- Any part but the ending leaves the rest of a text as it is. -/
theorem goesOn_run {part : Part} (hpart : part ≠ .ending) (h : GoesOn EndsLevel test) :
    GoesOn EndsLevel (part.run test) := by
  have hone : ∀ {allowed test}, GoesOn EndsLevel test → GoesOn EndsLevel (Part.afterOne allowed test) :=
    goesOn_afterOne fun _ _ _ => EndsLevel.tail
  have hrun : ∀ {allowed test}, GoesOn EndsLevel test → GoesOn EndsLevel (Part.afterRun allowed test) :=
    goesOn_afterRun fun _ _ _ => EndsLevel.tail
  rcases part with _ | _ | _ | _ | a | _
  · exact goesOn_or h (hone (hrun (hone h)))
  · exact goesOn_or h (hone (hone (hrun h)))
  · exact hone h
  · exact hone (hrun h)
  · cases a with
    | literal _ | anyChar | oneOf _ _ => exact hone h
    | anyRun => exact hrun h
  · exact absurd rfl hpart

theorem goesOn_runAll_append {parts more : List Part} (hparts : ∀ part ∈ parts, part ≠ .ending)
    (h : GoesOn EndsLevel (Part.runAll more)) : GoesOn EndsLevel (Part.runAll (parts ++ more)) := by
  induction parts with
  | nil => exact h
  | cons part parts ih =>
    exact goesOn_run (hparts part List.mem_cons_self)
      (ih fun p hp => hparts p (List.mem_cons_of_mem _ hp))

theorem goesOn_runAll_nil : GoesOn EndsLevel (Part.runAll []) := fun _ _ _ _ => rfl

end Tests

/-! ## The last level -/

/-- A piece of a pattern that stands for characters of one name only. A class could hold a slash. -/
def Atom.inName : Atom → Bool
  | .literal c => c != '/'
  | .anyChar | .anyRun => true
  | .oneOf _ _ => false

/-- The parts of a last level that is described by its pieces. -/
def lastLevel (atoms : List Atom) : List Part := atoms.map .atom ++ [.ending]

section LastLevel

variable {atoms : List Atom}

theorem goesOn_lastLevel_of_slash (h : ∀ a ∈ atoms, a.inName = true) :
    GoesOn EndsInSlash (Part.runAll (lastLevel atoms)) := by
  induction atoms with
  | nil =>
    rintro (_ | ⟨c, u⟩) rest hu htest
    · cases hu
    · -- a text with a slash at its end is not at its end, so the slash in front is what matches
      have hend : Part.atEnd (c :: u) = false := by
        rw [Part.atEnd, Bool.or_eq_false_iff]
        refine ⟨rfl, ?_⟩
        rw [decide_eq_false_iff_not]
        intro heq
        rw [heq] at hu
        cases hu
      show (Part.afterSlash _ (c :: (u ++ rest)) || _) = true
      change (Part.afterSlash _ (c :: u) || (Part.atEnd (c :: u) && _)) = true at htest
      rw [hend, Bool.false_and, Bool.or_false] at htest
      exact (congrArg (· || _) htest).trans (Bool.true_or _)
  | cons a atoms ih =>
    have hrest := ih fun b hb => h b (List.mem_cons_of_mem _ hb)
    have ha := h a List.mem_cons_self
    cases a with
    | literal c =>
      have hc : ('/' == c) = false := beq_false_of_ne (Ne.symm (by simpa [Atom.inName] using ha))
      exact goesOn_afterOne (EndsInSlash.tail hc) hrest
    | anyChar => exact goesOn_afterOne (EndsInSlash.tail rfl) hrest
    | anyRun => exact goesOn_afterRun (EndsInSlash.tail rfl) hrest
    | oneOf _ _ => cases ha

/-- One run of characters takes in a whole name. -/
theorem afterRun_ending (t : Text) :
    Part.afterRun (· != '/') (Part.runAll [.ending]) t = true := by
  induction t with
  | nil => rfl
  | cons c t ih =>
    by_cases hc : c = '/'
    · subst hc
      rfl
    · rw [Part.afterRun, ih, Bool.and_true, Bool.or_eq_true]
      exact .inr (by simpa using hc)

/-- A last level that matches the empty text is all runs, so it matches everything. -/
theorem runAll_lastLevel_of_nil (hne : atoms ≠ []) (h : Part.runAll (lastLevel atoms) [] = true)
    (t : Text) : Part.runAll (lastLevel atoms) t = true := by
  induction atoms with
  | nil => exact absurd rfl hne
  | cons a atoms ih =>
    cases a with
    | literal _ | anyChar | oneOf _ _ => cases h
    | anyRun =>
      by_cases hnil : atoms = []
      · subst hnil
        exact afterRun_ending t
      · exact afterRun_of_test (ih hnil h)

theorem goesOn_lastLevel (hne : atoms ≠ []) (h : ∀ a ∈ atoms, a.inName = true) :
    GoesOn EndsLevel (Part.runAll (lastLevel atoms)) := by
  rintro u rest (rfl | hu) htest
  · exact runAll_lastLevel_of_nil hne htest rest
  · exact goesOn_lastLevel_of_slash h u rest hu htest

/-- At least one character of a name, and then its end. -/
theorem goesOn_name : GoesOn EndsLevel (Part.runAll [.name, .ending]) := by
  rintro u rest (rfl | hu) htest
  · cases htest
  · have hending : GoesOn EndsInSlash (Part.runAll (lastLevel [])) := goesOn_lastLevel_of_slash (by simp)
    exact goesOn_afterOne (EndsInSlash.tail rfl) (goesOn_afterRun (EndsInSlash.tail rfl) hending)
      u rest hu htest

end LastLevel

/-! ## Patterns -/

namespace Segment

/-- A level without character classes. -/
def Classless : Segment → Prop
  | .glob atoms => ∀ a ∈ atoms, a.inName = true
  | .anyDepth | .anyName => True

theorem parts_ne_ending (s : Segment) : ∀ part ∈ s.parts, part ≠ .ending := by
  cases s <;> simp [parts]

theorem goesOn_last {s : Segment} (hs : s.Classless) (hne : s ≠ .glob []) (hdepth : s ≠ .anyDepth) :
    GoesOn EndsLevel (Part.runAll (s.parts ++ [.ending])) := by
  cases s with
  | anyDepth => exact absurd rfl hdepth
  | anyName => exact goesOn_name
  | glob atoms => exact goesOn_lastLevel (fun hnil => hne (by rw [hnil])) hs

theorem goesOn_partsFrom {inner : Bool} {segments : List Segment}
    (h : ∀ s ∈ segments, s.Classless) (hlast : segments.getLast? ≠ some (.glob [])) :
    GoesOn EndsLevel (Part.runAll (partsFrom inner segments)) := by
  have hslash : ∀ inner : Bool, ∀ part ∈ (if inner then [Part.slash] else []), part ≠ .ending := by
    intro inner part hpart
    cases inner
    · cases hpart
    · rw [List.mem_singleton.mp hpart]
      simp
  fun_induction partsFrom inner segments with
  | case1 => exact goesOn_runAll_nil
  | case2 => exact goesOn_run (by simp) goesOn_runAll_nil
  | case3 inner s hdepth =>
    have hs := goesOn_last (h s (by simp)) (fun hnil => hlast (by rw [hnil]; rfl)) hdepth
    rw [List.append_assoc]
    exact goesOn_runAll_append (hslash inner) hs
  | case4 inner rest hrest ih =>
    rw [List.getLast?_cons_of_ne_nil hrest] at hlast
    exact goesOn_run (by simp) (ih (fun s hs => h s (List.mem_cons_of_mem _ hs)) hlast)
  | case5 inner s rest _ hrest _ ih =>
    rw [List.getLast?_cons_of_ne_nil hrest] at hlast
    have hmore := ih (fun s hs => h s (List.mem_cons_of_mem _ hs)) hlast
    rw [List.append_assoc]
    exact goesOn_runAll_append (hslash inner) (goesOn_runAll_append s.parts_ne_ending hmore)

end Segment

namespace Pattern

/-- A pattern without character classes whose last level says something. -/
structure Classless (p : Pattern) : Prop where
  segment : ∀ s ∈ p.segments, s.Classless
  last_ne : p.segments.getLast? ≠ some (.glob [])

/-- **A pattern that matches a folder matches every path below it.** -/
theorem goesOn_hits {p : Pattern} (hp : p.Classless) : GoesOn EndsLevel p.hits := by
  have hany : ∀ f : Char → Bool, GoesOn EndsLevel fun path => path.any f := by
    intro f u rest _ h
    show (u ++ rest).any f = true
    rw [List.any_append, Bool.or_eq_true]
    exact .inl h
  have hparts : ∀ parts, GoesOn EndsLevel (Part.runAll parts) →
      GoesOn EndsLevel fun path => (Shape.fromStart parts).found path := by
    intro parts h
    simpa only [Shape.found_fromStart] using h
  obtain ⟨hsegment, hlast⟩ := hp
  unfold hits shape
  split
  · split
    · exact hany _
    · exact hany _
  · exact hany _
  · exact hany _
  · rename_i rest hone _ _ hsegments
    rw [hsegments] at hsegment hlast
    have hrest : rest ≠ [] := hone
    rw [List.getLast?_cons_of_ne_nil hrest] at hlast
    exact hparts _ (goesOn_run (by simp)
      (Segment.goesOn_partsFrom (fun s hs => hsegment s (List.mem_cons_of_mem _ hs)) hlast))
  · exact hparts _ (Segment.goesOn_partsFrom hsegment hlast)

end Pattern

/-! ## Lines -/

section Reading

variable {mode : GlobMode} {t : Text} {atoms : List Atom}

theorem exists_of_map_eq_ok {ε α β : Type} {f : α → β} {x : Except ε α} {b : β}
    (h : x.map f = .ok b) : ∃ a, x = .ok a ∧ f a = b := by
  cases x with
  | error _ => cases h
  | ok a => exact ⟨a, rfl, Except.ok.inj h⟩

/-- Without brackets and slashes, all pieces of a level stand for characters of one name. -/
theorem inName_of_ofTextFrom (hmode : mode = .plain ∨ mode = .escaped)
    (hread : Atom.ofTextFrom mode t = .ok atoms) (hbracket : '[' ∉ t) (hslash : '/' ∉ t) :
    ∀ a ∈ atoms, a.inName = true := by
  induction t generalizing mode atoms with
  | nil =>
    rcases hmode with rfl | rfl
    · cases hread
      simp
    · cases hread
  | cons c rest ih =>
    rw [List.mem_cons, not_or] at hbracket hslash
    have hcons : ∀ a : Atom, a.inName = true →
        (Atom.ofTextFrom .plain rest).map (a :: ·) = .ok atoms → ∀ b ∈ atoms, b.inName = true := by
      intro a ha h
      obtain ⟨more, hmore, rfl⟩ := exists_of_map_eq_ok h
      rw [List.forall_mem_cons]
      exact ⟨ha, ih (.inl rfl) hmore hbracket.2 hslash.2⟩
    have hliteral : (Atom.literal c).inName = true := by
      simpa [Atom.inName] using Ne.symm hslash.1
    rcases hmode with rfl | rfl
    · rw [Atom.ofTextFrom] at hread
      split at hread
      · exact ih (.inr rfl) hread hbracket.2 hslash.2
      · rw [if_neg (Ne.symm hbracket.1)] at hread
        split at hread
        · exact hcons .anyRun rfl hread
        · split at hread
          · exact hcons .anyChar rfl hread
          · exact hcons _ hliteral hread
    · exact hcons _ hliteral hread

/-- Without brackets, a level without pieces has no text. -/
theorem eq_nil_of_ofTextFrom (hread : Atom.ofTextFrom .plain t = .ok []) (hbracket : '[' ∉ t) :
    t = [] := by
  have hcons : ∀ (a : Atom) (rest : Text), (Atom.ofTextFrom .plain rest).map (a :: ·) ≠ .ok [] := by
    intro a rest h
    obtain ⟨_, _, hnil⟩ := exists_of_map_eq_ok h
    cases hnil
  cases t with
  | nil => rfl
  | cons c rest =>
    rw [List.mem_cons, not_or] at hbracket
    rw [Atom.ofTextFrom, if_neg (Ne.symm hbracket.1)] at hread
    split at hread
    · cases rest with
      | nil => cases hread
      | cons d rest => exact (hcons _ rest hread).elim
    · split at hread
      · exact (hcons _ rest hread).elim
      · split at hread <;> exact (hcons _ rest hread).elim

/-- The text of a level that is read without character classes. -/
def PlainLevel (level : Text) : Prop := '[' ∉ level ∧ '/' ∉ level

theorem Segment.classless_ofText {s : Segment} (hread : Segment.ofText t = .ok s)
    (ht : PlainLevel t) : s.Classless := by
  unfold Segment.ofText at hread
  split at hread
  · cases hread
    trivial
  · split at hread
    · cases hread
      trivial
    · obtain ⟨atoms, hatoms, rfl⟩ := exists_of_map_eq_ok hread
      exact inName_of_ofTextFrom (.inl rfl) hatoms ht.1 ht.2

theorem Segment.eq_nil_of_ofText (hread : Segment.ofText t = .ok (.glob [])) (ht : '[' ∉ t) :
    t = [] := by
  unfold Segment.ofText at hread
  split at hread
  · cases hread
  · split at hread
    · cases hread
    · obtain ⟨atoms, hatoms, hnil⟩ := exists_of_map_eq_ok hread
      cases hnil
      exact eq_nil_of_ofTextFrom hatoms ht

end Reading

/-- What a list is read as, one after another, without a fault. -/
theorem map_eq_of_mapM {ε α β : Type} {f : α → Except ε β} {as : List α} {bs : List β}
    (h : as.mapM f = .ok bs) : as.map f = bs.map .ok := by
  induction as generalizing bs with
  | nil =>
    cases h
    rfl
  | cons a as ih =>
    rw [List.mapM_cons] at h
    cases hfirst : f a with
    | error _ =>
      rw [hfirst] at h
      cases h
    | ok b =>
      rw [hfirst] at h
      cases hmore : as.mapM f with
      | error _ =>
        rw [hmore] at h
        cases h
      | ok more =>
        rw [hmore] at h
        cases h
        rw [List.map_cons, List.map_cons, hfirst, ih hmore]

/-! ### Levels -/

namespace Pattern

variable {levels : List Text} {level body : Text}

theorem mem_anchor (h : level ∈ anchor levels) : level = doubleStar ∨ level ∈ levels := by
  unfold anchor at h
  split at h
  · exact .inr (List.mem_cons_of_mem _ h)
  · split at h
    · exact .inr h
    · exact List.mem_cons.mp h
  · split at h
    · exact .inr h
    · exact List.mem_cons.mp h
  · exact .inr h

theorem mem_openEnd (h : level ∈ openEnd levels) : level = doubleStar ∨ level ∈ levels := by
  fun_induction openEnd levels with
  | case1 => cases h
  | case2 => exact .inl (List.mem_singleton.mp h)
  | case3 => exact .inr h
  | case4 first rest _ ih =>
    rcases List.mem_cons.mp h with rfl | h
    · exact .inr List.mem_cons_self
    · exact (ih h).imp_right (List.mem_cons_of_mem _)

theorem mergeDepths_sublist (levels : List Text) : (mergeDepths levels).Sublist levels := by
  fun_induction mergeDepths levels with
  | case1 a b rest _ ih => exact ih.cons a
  | case2 a b rest _ ih => exact ih.cons_cons a
  | case3 => exact .refl _

theorem length_openEnd (levels : List Text) : (openEnd levels).length = levels.length := by
  fun_induction openEnd levels with
  | case1 | case2 | case3 => rfl
  | case4 first rest _ ih => rw [List.length_cons, List.length_cons, ih]

/-- The last level is never empty. -/
theorem getLast?_openEnd (levels : List Text) : (openEnd levels).getLast? ≠ some [] := by
  fun_induction openEnd levels with
  | case1 => simp
  | case2 => simp [doubleStar]
  | case3 level hlevel => simpa using hlevel
  | case4 first rest hrest ih =>
    have hmore : openEnd rest ≠ [] := by
      intro hnil
      exact hrest (List.length_eq_zero_iff.mp (by rw [← length_openEnd, hnil, List.length_nil]))
    rwa [List.getLast?_cons_of_ne_nil hmore]

theorem getLast?_mergeDepths (levels : List Text) :
    (mergeDepths levels).getLast? = levels.getLast? := by
  fun_induction mergeDepths levels with
  | case1 a b rest _ ih => rw [ih, List.getLast?_cons_cons]
  | case2 a b rest _ ih => rw [List.getLast?_cons, ih, ← List.getLast?_cons]
  | case3 => rfl

theorem mem_levels (h : level ∈ Pattern.levels body) :
    level = doubleStar ∨ level ∈ body.splitOn '/' := by
  rcases mem_openEnd ((mergeDepths_sublist _).subset h) with h | h
  · exact .inl h
  · exact mem_anchor h

theorem plainLevel_of_mem_levels (hbody : '[' ∉ body) (h : level ∈ Pattern.levels body) :
    PlainLevel level := by
  rcases mem_levels h with rfl | h
  · exact ⟨by decide, by decide⟩
  · have hlevel := mem_splitOn h
    exact ⟨fun hmem => hbody (hlevel.2 hmem), hlevel.1⟩

theorem getLast?_levels (body : Text) : (Pattern.levels body).getLast? ≠ some [] := by
  rw [Pattern.levels, getLast?_mergeDepths]
  exact getLast?_openEnd _

end Pattern

/-! ### Rules -/

/-- A line that ignores what it matches, without character classes. -/
def OnlyIgnores (line : Text) : Prop := line.head? ≠ some '!' ∧ '[' ∉ line

instance (line : Text) : Decidable (OnlyIgnores line) :=
  inferInstanceAs (Decidable (line.head? ≠ some '!' ∧ '[' ∉ line))

/-- A rule that ignores what its pattern matches, without character classes. -/
structure Rule.Classless (r : Rule) : Prop where
  selects : r.selects = true
  pattern : r.pattern.Classless

namespace Rule

variable {line body : Text} {r : Rule} {rules : List Rule}

theorem trimLine_prefix (line : Text) : trimLine line <+: line := by
  unfold trimLine
  split
  · exact List.prefix_refl _
  · exact ⟨_, Path.trimRight_append_takeWhile isBlank line⟩

theorem classless_ofBody (hbody : '[' ∉ body) (h : ofBody line true body = .ok (some r)) :
    r.Classless := by
  unfold ofBody at h
  simp only at h
  split at h
  · cases h
  · split at h
    · cases h
    · cases h
    · rename_i segments hsegments
      split at h
      · cases h
      · cases h
        have hmap := map_eq_of_mapM hsegments
        refine ⟨rfl, ?_, ?_⟩
        · intro s hs
          obtain ⟨level, hlevel, hread⟩ := List.mem_map.mp (hmap ▸ List.mem_map_of_mem hs)
          exact Segment.classless_ofText hread (Pattern.plainLevel_of_mem_levels hbody hlevel)
        · intro hlast
          have hlevel := congrArg List.getLast? hmap
          rw [List.getLast?_map, List.getLast?_map, hlast, Option.map_some,
            Option.map_eq_some_iff] at hlevel
          obtain ⟨level, hlevel, hread⟩ := hlevel
          have hplain := Pattern.plainLevel_of_mem_levels hbody (List.mem_of_getLast? hlevel)
          rw [Segment.eq_nil_of_ofText hread hplain.1] at hlevel
          exact Pattern.getLast?_levels body hlevel

theorem classless_ofLine (hline : OnlyIgnores line) (h : ofLine line = .ok (some r)) :
    r.Classless := by
  obtain ⟨behind, hbehind⟩ := trimLine_prefix line
  have hbracket : '[' ∉ trimLine line := fun hmem => hline.2 (hbehind ▸ List.mem_append_left _ hmem)
  unfold ofLine at h
  split at h
  · cases h
  · cases h
  · cases h
  · rename_i body htrim
    refine absurd ?_ hline.1
    rw [← hbehind, htrim]
    rfl
  · exact classless_ofBody hbracket h

/-- **Lines that only ignore, without brackets, give rules that only ignore, without classes.** -/
theorem classless_ofLines {lines : List Text} (hlines : ∀ line ∈ lines, OnlyIgnores line)
    (h : ofLines lines = .ok rules) : ∀ r ∈ rules, r.Classless := by
  induction lines generalizing rules with
  | nil =>
    cases h
    simp
  | cons line rest ih =>
    rw [List.forall_mem_cons] at hlines
    unfold ofLines at h
    split at h
    · cases h
    · rename_i rule hrule
      obtain ⟨more, hmore, rfl⟩ := exists_of_map_eq_ok h
      intro r hr
      rcases List.mem_append.mp hr with hr | hr
      · rw [Option.mem_toList] at hr
        exact classless_ofLine hlines.1 (hr ▸ hrule)
      · exact ih hlines.2 hmore r hr

end Rule

end LessonPages
