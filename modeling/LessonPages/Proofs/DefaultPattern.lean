import LessonPages.Discovery
import LessonPages.Proofs.PatternBelow
import LessonPages.Proofs.Rules

/-!
# What the default pattern chooses

The default pattern looks at the names of a path one by one: a path is chosen if one of its names, that
of the file or that of a folder, ends in the usual extension of a lesson.

* `Part.afterRun_eq_true_iff`, `Part.runAll_literals_iff` — what runs and literals match.
* `matchesLesson_iff` — what the last level of the pattern matches.
* `verdict_defaultRules` — the names decide; `verdict_defaultRules_append` — names in front may be left out.
-/

namespace LessonPages

open Discovery

/-- The usual extension of a lesson. -/
def lessonExtension : Text := ".ts".toList

/-! ## Runs and literals -/

namespace Part

variable {allowed : Char → Bool} {next : Text → Bool} {t : Text}

theorem afterOne_eq_true_iff :
    afterOne allowed next t = true ↔ ∃ c rest, t = c :: rest ∧ allowed c = true ∧ next rest = true := by
  cases t with
  | nil => simp [afterOne]
  | cons c t => simp [afterOne]

theorem afterRun_eq_true_iff : afterRun allowed next t = true ↔
    ∃ skipped rest, t = skipped ++ rest ∧ (∀ c ∈ skipped, allowed c = true) ∧ next rest = true := by
  induction t with
  | nil =>
    constructor
    · intro h
      exact ⟨[], [], rfl, by simp, h⟩
    · rintro ⟨skipped, rest, hnil, -, h⟩
      obtain ⟨-, rfl⟩ := List.append_eq_nil_iff.mp hnil.symm
      exact h
  | cons c t ih =>
    rw [afterRun, Bool.or_eq_true, Bool.and_eq_true, ih]
    constructor
    · rintro (h | ⟨hc, skipped, rest, rfl, hskipped, h⟩)
      · exact ⟨[], c :: t, rfl, by simp, h⟩
      · exact ⟨c :: skipped, rest, rfl, by simpa using ⟨hc, hskipped⟩, h⟩
    · rintro ⟨skipped, rest, heq, hskipped, h⟩
      cases skipped with
      | nil =>
        rw [List.nil_append] at heq
        exact .inl (heq ▸ h)
      | cons e skipped =>
        rw [List.cons_append, List.cons.injEq] at heq
        obtain ⟨rfl, rfl⟩ := heq
        rw [List.forall_mem_cons] at hskipped
        exact .inr ⟨hskipped.1, skipped, rest, rfl, hskipped.2, h⟩

theorem runAll_literals_iff {word : Text} {more : List Part} :
    runAll (word.map (fun c => .atom (.literal c)) ++ more) t = true ↔
      ∃ rest, t = word ++ rest ∧ runAll more rest = true := by
  induction word generalizing t with
  | nil => simp
  | cons c word ih =>
    show afterOne (· == c) (runAll (word.map (fun c => .atom (.literal c)) ++ more)) t = true ↔ _
    rw [afterOne_eq_true_iff]
    constructor
    · rintro ⟨e, rest, rfl, hc, h⟩
      obtain ⟨behind, rfl, hmore⟩ := ih.mp h
      exact ⟨behind, by rw [beq_iff_eq.mp hc]; rfl, hmore⟩
    · rintro ⟨behind, rfl, h⟩
      exact ⟨c, word ++ behind, rfl, beq_self_eq_true c, ih.mpr ⟨behind, rfl, h⟩⟩

end Part

/-! ## The default pattern -/

/-- The last level of the default pattern. -/
def lessonLevel : List Atom := .anyRun :: lessonExtension.map .literal

/-- The rules that the default pattern stands for. -/
def defaultRules : List Rule := [⟨true, [.anyDepth, .glob lessonLevel], false⟩]

theorem readPattern_defaultPattern : readPattern defaultPattern = .ok defaultRules := by
  decide +kernel

/-- What the last level of the default pattern says of a text. -/
def matchesLesson (t : Text) : Bool := Part.runAll (lastLevel lessonLevel) t

theorem runAll_ending_iff {t : Text} : Part.runAll [.ending] t = true ↔
    t = [] ∨ t.head? = some '/' ∨ t = ['\n'] := by
  cases t <;> simp [Part.runAll, Part.run, Part.afterSlash, Part.afterOne, Part.atEnd]

/-- It matches a name with the extension of a lesson, up to a slash or the end. -/
theorem matchesLesson_iff {t : Text} : matchesLesson t = true ↔
    ∃ front rest, t = front ++ lessonExtension ++ rest ∧ '/' ∉ front ∧
      (rest = [] ∨ rest.head? = some '/' ∨ rest = ['\n']) := by
  show Part.afterRun (· != '/') (Part.runAll
    (lessonExtension.map (fun c => .atom (.literal c)) ++ [.ending])) t = true ↔ _
  rw [Part.afterRun_eq_true_iff]
  constructor
  · rintro ⟨front, behind, rfl, hfront, h⟩
    obtain ⟨rest, rfl, hrest⟩ := Part.runAll_literals_iff.mp h
    refine ⟨front, rest, (List.append_assoc _ _ _).symm, ?_, runAll_ending_iff.mp hrest⟩
    intro hslash
    simpa using hfront '/' hslash
  · rintro ⟨front, rest, rfl, hfront, hrest⟩
    refine ⟨front, lessonExtension ++ rest, List.append_assoc _ _ _, ?_,
      Part.runAll_literals_iff.mpr ⟨rest, rfl, runAll_ending_iff.mpr hrest⟩⟩
    intro c hc
    simpa using fun hslash : c = '/' => hfront (hslash ▸ hc)

/-- The default pattern matches a text from its start, or from behind a slash. -/
theorem hits_defaultPattern_iff {t : Text} :
    Pattern.hits ⟨[.anyDepth, .glob lessonLevel], false⟩ t = true ↔ matchesLesson t = true ∨
      ∃ front behind, t = front ++ '/' :: behind ∧ front ≠ [] ∧ '\n' ∉ front ∧
        matchesLesson behind = true := by
  have hshape : Pattern.hits ⟨[.anyDepth, .glob lessonLevel], false⟩ t =
      (matchesLesson t || Part.afterOne (· != '\n')
        (Part.afterRun (· != '\n') (Part.afterSlash matchesLesson)) t) :=
    Shape.found_fromStart t _
  rw [hshape, Bool.or_eq_true, Part.afterOne_eq_true_iff]
  refine or_congr_right ⟨?_, ?_⟩
  · rintro ⟨c, rest, rfl, hc, hrun⟩
    obtain ⟨skipped, more, rfl, hskipped, hslash⟩ := Part.afterRun_eq_true_iff.mp hrun
    obtain ⟨e, behind, rfl, he, hmatches⟩ := Part.afterOne_eq_true_iff.mp hslash
    refine ⟨c :: skipped, behind, by rw [beq_iff_eq.mp he]; rfl, List.cons_ne_nil _ _, ?_, hmatches⟩
    intro hline
    rcases List.mem_cons.mp hline with rfl | hline
    · simp at hc
    · simpa using hskipped _ hline
  · rintro ⟨front, behind, rfl, hne, hline, hmatches⟩
    obtain ⟨c, front, rfl⟩ := List.exists_cons_of_ne_nil hne
    rw [List.mem_cons, not_or] at hline
    refine ⟨c, front ++ '/' :: behind, rfl, by simpa using Ne.symm hline.1,
      Part.afterRun_eq_true_iff.mpr ⟨front, '/' :: behind, rfl, ?_, ?_⟩⟩
    · intro e he
      simpa using fun hnewline : e = '\n' => hline.2 (hnewline ▸ he)
    · exact Part.afterOne_eq_true_iff.mpr ⟨'/', behind, rfl, rfl, hmatches⟩

/-! ## Names -/

section Names

variable {name : Text} {names : List Text}

/-- A text starts with the name in front of its first slash. -/
theorem takeWhile_append_of_slash {rest : Text} (hname : '/' ∉ name)
    (hrest : rest = [] ∨ rest.head? = some '/') : (name ++ rest).takeWhile (· != '/') = name := by
  have hnil : rest.takeWhile (· != '/') = [] := by
    rcases hrest with rfl | hhead
    · rfl
    · obtain ⟨more, rfl⟩ := List.head?_eq_some_iff.mp hhead
      rfl
  rw [List.takeWhile_append_of_pos, hnil, List.append_nil]
  intro c hc
  simpa using fun hslash : c = '/' => hname (hslash ▸ hc)

theorem exists_intercalate_cons (name : Text) (names : List Text) :
    ∃ rest, ['/'].intercalate (name :: names) = name ++ rest ∧
      (rest = [] ∨ rest.head? = some '/') := by
  by_cases hnil : names = []
  · exact ⟨[], by rw [hnil, List.intercalate_singleton, List.append_nil], .inl rfl⟩
  · refine ⟨'/' :: ['/'].intercalate names, ?_, .inr rfl⟩
    rw [List.intercalate_cons_of_ne_nil hnil, List.append_assoc]
    rfl

/-- The last level of the default pattern looks at the first name of a path. -/
theorem matchesLesson_intercalate (hslash : '/' ∉ name)
    (hline : '\n' ∉ ['/'].intercalate (name :: names)) :
    matchesLesson (['/'].intercalate (name :: names)) = true ↔ lessonExtension <:+ name := by
  obtain ⟨rest, heq, hrest⟩ := exists_intercalate_cons name names
  rw [heq] at hline ⊢
  rw [matchesLesson_iff]
  constructor
  · rintro ⟨front, behind, hsplit, hfront, hbehind⟩
    have hbehind : behind = [] ∨ behind.head? = some '/' := by
      rcases hbehind with h | h | rfl
      · exact .inl h
      · exact .inr h
      · exact absurd (by simp [hsplit]) hline
    have hword : '/' ∉ front ++ lessonExtension := by
      rw [List.mem_append, not_or]
      exact ⟨hfront, by decide⟩
    have hname := takeWhile_append_of_slash hslash hrest
    rw [hsplit, takeWhile_append_of_slash hword hbehind] at hname
    exact ⟨front, hname⟩
  · rintro ⟨front, rfl⟩
    rw [List.mem_append, not_or] at hslash
    exact ⟨front, rest, rfl, hslash.1, hrest.imp_right .inl⟩

/-- **The default pattern chooses a path if one of its names ends in the extension of a lesson.** -/
theorem verdict_defaultRules (hne : names ≠ []) (hnames : ∀ name ∈ names, IsName name ∧ '\n' ∉ name) :
    Rule.verdict defaultRules (['/'].intercalate names) = true ↔
      ∃ name ∈ names, lessonExtension <:+ name := by
  have hstep : ∀ name ∈ names, (name ≠ [] ∧ name ≠ Path.here) ∧ '/' ∉ name := by
    intro name hname
    obtain ⟨h, -⟩ := hnames name hname
    exact ⟨⟨h.ne_nil, h.ne_here⟩, h.no_slash⟩
  have hdrop := dropLead_intercalate hne hstep []
  rw [List.append_nil] at hdrop
  have hverdict := Rule.verdict_append_singleton [] ⟨true, [.anyDepth, .glob lessonLevel], false⟩
    (['/'].intercalate names)
  rw [List.nil_append, hdrop, Rule.verdict_nil] at hverdict
  have hlines : ∀ {front : List Text}, front ⊆ names → '\n' ∉ ['/'].intercalate front := by
    intro front hfront hmem
    rcases mem_of_mem_intercalate hmem with hslash | ⟨n, hn, hmem⟩
    · cases hslash
    · exact (hnames n (hfront hn)).2 hmem
  rw [defaultRules, hverdict]
  simp only [Bool.if_false_right, Bool.and_true, decide_eq_true_eq]
  rw [hits_defaultPattern_iff]
  constructor
  · rintro (h | ⟨front, behind, hcut, -, -, h⟩)
    · obtain ⟨name, more, rfl⟩ := List.exists_cons_of_ne_nil hne
      refine ⟨name, List.mem_cons_self, ?_⟩
      exact (matchesLesson_intercalate (hstep name List.mem_cons_self).2 (hlines (List.Subset.refl _))).mp h
    · have hsplit := List.splitOn_intercalate '/' (fun n hn => (hstep n hn).2) hne
      rw [hcut, List.splitOn_append_cons_self] at hsplit
      obtain ⟨name, more, hbehind⟩ := List.exists_cons_of_ne_nil (List.splitOn_ne_nil '/' behind)
      have hmem : name :: more ⊆ names := by
        rw [← hsplit, hbehind]
        exact List.subset_append_right _ _
      have hname := hmem List.mem_cons_self
      have hback : ['/'].intercalate (behind.splitOn '/') = behind := List.intercalate_splitOn '/'
      rw [← hback, hbehind] at h
      exact ⟨name, hname, (matchesLesson_intercalate (hstep name hname).2 (hlines hmem)).mp h⟩
  · rintro ⟨name, hname, hsuffix⟩
    obtain ⟨front, behind, rfl⟩ := List.append_of_mem hname
    have hmatches : matchesLesson (['/'].intercalate (name :: behind)) = true :=
      (matchesLesson_intercalate (hstep name hname).2 (hlines (List.subset_append_right _ _))).mpr hsuffix
    cases front with
    | nil => exact .inl hmatches
    | cons first front =>
      refine .inr ⟨['/'].intercalate (first :: front), _, ?_, ?_, hlines (List.subset_append_left _ _),
        hmatches⟩
      · rw [intercalate_append (List.cons_ne_nil _ _) (List.cons_ne_nil _ _)]
        simp
      · obtain ⟨rest, heq, -⟩ := exists_intercalate_cons first front
        have hfirst := (hstep first (by simp)).1.1
        simp [heq, hfirst]

/-- Names in front that do not end in the extension of a lesson make no difference. -/
theorem verdict_defaultRules_append {front : List Text} (hne : names ≠ [])
    (hnames : ∀ name ∈ front ++ names, IsName name ∧ '\n' ∉ name)
    (hfront : ∀ name ∈ front, ¬ lessonExtension <:+ name) :
    Rule.verdict defaultRules (['/'].intercalate (front ++ names)) = true ↔
      Rule.verdict defaultRules (['/'].intercalate names) = true := by
  rw [verdict_defaultRules (by simp [hne]) hnames,
    verdict_defaultRules hne fun name hname => hnames name (List.mem_append_right _ hname)]
  constructor
  · rintro ⟨name, hname, hsuffix⟩
    rcases List.mem_append.mp hname with hname | hname
    · exact (hfront name hname hsuffix).elim
    · exact ⟨name, hname, hsuffix⟩
  · rintro ⟨name, hname, hsuffix⟩
    exact ⟨name, List.mem_append_right _ hname, hsuffix⟩

end Names

end LessonPages
