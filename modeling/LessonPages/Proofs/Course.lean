import LessonPages.Run
import LessonPages.Proofs.Findings

/-!
# The course of a run

A run goes through its lessons in order and can end at each step. All that is said of runs, of those
that return and of those that fail, is read off the course that the run has taken.

* `Converts` — lessons that are converted one after another.
* `Course` — how a run goes, with one constructor for each way to end; `run_course` — every run has
  a course; `Course.run_eq` — and no other.
* `Course.ok_iff`, `Course.of_error` — a run that returns, and the disk of one that fails.
* `run_grows` — a run adds folders and writes pages and the index, in any tree.
-/

namespace LessonPages

variable {d d' d'' made between last : Disk} {s : Settings} {lesson : Text}
  {lessons pages done later : List Text} {failure : Failure} {result : Except Failure (List Text)}

/-! ## Lesson after lesson -/

/-- Lessons are converted one after another, and the disk becomes another one. -/
inductive Converts (s : Settings) : Disk → List Text → Disk → Prop where
  | done {d : Disk} : Converts s d [] d
  | next {d d' d'' : Disk} {lesson page : Text} {rest : List Text}
      (h : convertFile d s lesson = (d', .ok page)) :
      Converts s d' rest d'' → Converts s d (lesson :: rest) d''

theorem convertFile_page {page : Text} (h : convertFile d s lesson = (d', .ok page)) :
    page = pageName s.extension lesson := by
  unfold convertFile at h
  split at h
  · cases h
  · dsimp only at h
    split at h <;> cases h
    rfl

/-- Converting lessons stops at the first that fails, or gives the pages of all. -/
theorem convertAll_course (d : Disk) (s : Settings) (lessons : List Text) :
    (Converts s d lessons (convertAll d s lessons).disk ∧
      (convertAll d s lessons).result = .ok (lessons.map (pageName s.extension))) ∨
    ∃ done lesson later between failure, lessons = done ++ lesson :: later ∧
      Converts s d done between ∧
      convertFile between s lesson = ((convertAll d s lessons).disk, .error failure) ∧
      (convertAll d s lessons).result = .error failure := by
  induction lessons generalizing d with
  | nil => exact .inl ⟨.done, rfl⟩
  | cons lesson rest ih =>
    rw [convertAll]
    split
    · rename_i d' failure hconvert
      exact .inr ⟨[], lesson, rest, d, failure, rfl, .done, hconvert, rfl⟩
    · rename_i d' page hconvert
      dsimp only
      rcases ih d' with ⟨hconverts, hresult⟩ |
        ⟨done, failing, later, between, failure, rfl, hdone, hfails, hresult⟩
      · refine .inl ⟨.next hconvert hconverts, ?_⟩
        rw [hresult, convertFile_page hconvert]
        rfl
      · refine .inr ⟨lesson :: done, failing, later, between, failure, rfl, .next hconvert hdone,
          hfails, ?_⟩
        rw [hresult]
        rfl

/-- What comes behind lessons that are converted decides on how all of them end. -/
theorem Converts.convertAll_append (h : Converts s d done d') (later : List Text) :
    (convertAll d s (done ++ later)).disk = (convertAll d' s later).disk ∧
      (convertAll d s (done ++ later)).result =
        (convertAll d' s later).result.map (done.map (pageName s.extension) ++ ·) := by
  induction h with
  | @done d =>
    refine ⟨rfl, ?_⟩
    cases h : (convertAll d s later).result <;> rw [List.nil_append, h] <;> rfl
  | @next _ _ d'' _ _ _ hconvert _ ih =>
    obtain ⟨hdisk, hresult⟩ := ih
    rw [List.cons_append, convertAll, hconvert]
    refine ⟨hdisk, ?_⟩
    dsimp only
    rw [hresult, convertFile_page hconvert]
    cases (convertAll d'' s later).result <;> rfl

theorem Converts.convertAll_eq (h : Converts s d lessons d') :
    (convertAll d s lessons).disk = d' ∧
      (convertAll d s lessons).result = .ok (lessons.map (pageName s.extension)) := by
  have happend := h.convertAll_append []
  rw [List.append_nil] at happend
  refine ⟨happend.1, happend.2.trans ?_⟩
  rw [convertAll, Except.map, List.append_nil]

/-- Lessons that are converted change no files but their pages, in any tree. -/
theorem Converts.grows (h : Converts s d lessons d') :
    d.Grows d' fun q => ∃ lesson ∈ lessons, d'.WritesAt (s.pagePath lesson) q := by
  induction h with
  | done => exact .refl _ _
  | @next d d' d'' lesson page rest hconvert _ ih =>
    have hfirst := convertFile_grows d s lesson
    rw [hconvert] at hfirst
    refine (hfirst.mono ?_).trans (ih.mono ?_)
    · exact fun q hq => ⟨lesson, List.mem_cons_self, hq.mono ih⟩
    · rintro q ⟨other, hother, hq⟩
      exact ⟨other, List.mem_cons_of_mem _ hother, hq⟩

/-! ## A whole run -/

/-- How a run goes: the lessons it converts, the disk it leaves and what it gives. -/
inductive Course (d : Disk) (s : Settings) :
    List Text → Disk → Except Failure (List Text) → Prop where
  | noFolder {last : Disk} {failure : Failure}
      (hfolder : d.ensureFolders s.destination = (last, .error failure)) :
      Course d s [] last (.error failure)
  | noLessons {made : Disk} {failure : Failure}
      (hfolder : d.ensureFolders s.destination = (made, .ok ()))
      (hfound : discover made s.source s.pattern s.respectIgnore = .error failure) :
      Course d s [] made (.error failure)
  | lessonFails {made between last : Disk} {done later : List Text} {lesson : Text}
      {failure : Failure} (hfolder : d.ensureFolders s.destination = (made, .ok ()))
      (hfound : discover made s.source s.pattern s.respectIgnore = .ok (done ++ lesson :: later))
      (hdone : Converts s made done between)
      (hlesson : convertFile between s lesson = (last, .error failure)) :
      Course d s done last (.error failure)
  | indexFails {made between last : Disk} {lessons : List Text} {failure : Failure}
      (hfolder : d.ensureFolders s.destination = (made, .ok ()))
      (hfound : discover made s.source s.pattern s.respectIgnore = .ok lessons)
      (hdone : Converts s made lessons between) (hwanted : s.writeIndex = true)
      (hindex : generateIndex between s.destination (lessons.map (pageName s.extension))
        s.indexName = (last, .error failure)) :
      Course d s lessons last (.error failure)
  | indexed {made between last : Disk} {lessons : List Text} {path : Text}
      (hfolder : d.ensureFolders s.destination = (made, .ok ()))
      (hfound : discover made s.source s.pattern s.respectIgnore = .ok lessons)
      (hdone : Converts s made lessons between) (hwanted : s.writeIndex = true)
      (hindex : generateIndex between s.destination (lessons.map (pageName s.extension))
        s.indexName = (last, .ok path)) :
      Course d s lessons last (.ok (lessons.map (pageName s.extension)))
  | unindexed {made last : Disk} {lessons : List Text}
      (hfolder : d.ensureFolders s.destination = (made, .ok ()))
      (hfound : discover made s.source s.pattern s.respectIgnore = .ok lessons)
      (hdone : Converts s made lessons last) (hunwanted : s.writeIndex = false) :
      Course d s lessons last (.ok (lessons.map (pageName s.extension)))

/-- **Every run has a course.** -/
theorem run_course (d : Disk) (s : Settings) :
    ∃ done, Course d s done (run d s).disk (run d s).result := by
  rw [run, Outcome.disk_after, Outcome.result_after]
  split
  · rename_i hfolder
    exact ⟨[], .noFolder hfolder⟩
  · rename_i made hfolder
    rw [Outcome.disk_after, Outcome.result_after]
    cases hfound : discover made s.source s.pattern s.respectIgnore with
    | error failure =>
      rw [show (survey made s.source s.pattern s.respectIgnore).result = _ from hfound]
      exact ⟨[], .noLessons hfolder hfound⟩
    | ok lessons =>
      rw [show (survey made s.source s.pattern s.respectIgnore).result = _ from hfound, withLessons,
        Outcome.disk_after, Outcome.result_after, withIndex]
      rcases convertAll_course made s lessons with
        ⟨hdone, hresult⟩ | ⟨done, lesson, later, between, failure, hlessons, hdone, hlesson, hresult⟩
      · rw [hresult]
        dsimp only
        split
        · rename_i hwanted
          split
          · rename_i hindex
            exact ⟨_, .indexFails hfolder hfound hdone hwanted hindex⟩
          · rename_i hindex
            exact ⟨_, .indexed hfolder hfound hdone hwanted hindex⟩
        · rename_i hunwanted
          rw [hresult]
          exact ⟨_, .unindexed hfolder hfound hdone (by simpa using hunwanted)⟩
      · rw [hresult]
        dsimp only
        rw [hresult]
        exact ⟨done, .lessonFails hfolder (hlessons ▸ hfound) hdone hlesson⟩

/-- A run that has the folder of its pages tells of its folders and of what discovery passes over. Then it
goes on with the lessons that are found, if they are. -/
theorem run_eq_of_folder (hfolder : d.ensureFolders s.destination = (made, .ok ())) :
    ∃ passed : List Text, run d s =
      (withLessons made s (discover made s.source s.pattern s.respectIgnore)).after
        ([.source s.source, .destination s.destination] ++ passed.map .ignored) := by
  refine ⟨(survey made s.source s.pattern s.respectIgnore).passedOver, ?_⟩
  rw [run, hfolder, discover]
  simp only [Outcome.after, List.append_assoc]

/-- **A run has no other course than its own.** -/
theorem Course.run_eq (h : Course d s done last result) :
    (run d s).disk = last ∧ (run d s).result = result := by
  cases h with
  | noFolder hfolder =>
    simp only [run, hfolder, Outcome.disk_after, Outcome.result_after, and_self]
  | noLessons hfolder hfound =>
    obtain ⟨_, hrun⟩ := run_eq_of_folder hfolder
    rw [hrun, hfound]
    exact ⟨rfl, rfl⟩
  | lessonFails hfolder hfound hdone hlesson =>
    obtain ⟨_, hrun⟩ := run_eq_of_folder hfolder
    obtain ⟨hdisk, hresult⟩ := hdone.convertAll_append (_ :: _)
    rw [convertAll, hlesson] at hdisk hresult
    rw [hrun, hfound, Outcome.disk_after, Outcome.result_after, withLessons, Outcome.disk_after,
      Outcome.result_after, withIndex, hresult]
    exact ⟨hdisk, hresult⟩
  | indexFails hfolder hfound hdone hwanted hindex | indexed hfolder hfound hdone hwanted hindex =>
    obtain ⟨_, hrun⟩ := run_eq_of_folder hfolder
    obtain ⟨hdisk, hresult⟩ := hdone.convertAll_eq
    rw [hrun, hfound, Outcome.disk_after, Outcome.result_after, withLessons, Outcome.disk_after,
      Outcome.result_after, withIndex, hresult]
    simp only [hwanted, hdisk, hindex, if_true, and_self]
  | unindexed hfolder hfound hdone hunwanted =>
    obtain ⟨_, hrun⟩ := run_eq_of_folder hfolder
    obtain ⟨hdisk, hresult⟩ := hdone.convertAll_eq
    rw [hrun, hfound, Outcome.disk_after, Outcome.result_after, withLessons, Outcome.disk_after,
      Outcome.result_after, withIndex, hresult]
    simp only [hunwanted, Bool.false_eq_true, if_false]
    exact ⟨hdisk, hresult⟩

/-- What becomes of a disk when all lessons are converted: the index is written, if one is wanted. -/
def Settings.Indexes (s : Settings) (pages : List Text) (between last : Disk) : Prop :=
  if s.writeIndex then
    ∃ path, generateIndex between s.destination pages s.indexName = (last, .ok path)
  else last = between

/-- A run returns exactly if the folder of its pages is made, its lessons are found and converted, and
then the index is written. -/
theorem Course.ok_iff : Course d s done last (.ok pages) ↔ ∃ between,
    (d.ensureFolders s.destination).2 = .ok () ∧
      discover (d.ensureFolders s.destination).1 s.source s.pattern s.respectIgnore = .ok done ∧
      pages = done.map (pageName s.extension) ∧
      Converts s (d.ensureFolders s.destination).1 done between ∧ s.Indexes pages between last := by
  unfold Settings.Indexes
  constructor
  · intro h
    cases h with
    | indexed hfolder hfound hdone hwanted hindex =>
      rw [hfolder]
      exact ⟨_, rfl, hfound, rfl, hdone, by rw [if_pos hwanted]; exact ⟨_, hindex⟩⟩
    | unindexed hfolder hfound hdone hunwanted =>
      rw [hfolder]
      exact ⟨_, rfl, hfound, rfl, hdone, by rw [if_neg (by simp [hunwanted])]⟩
  · rintro ⟨between, hfolder, hfound, rfl, hdone, hindex⟩
    have hfolder : d.ensureFolders s.destination = ((d.ensureFolders s.destination).1, .ok ()) :=
      Prod.ext rfl hfolder
    split at hindex
    · rename_i hwanted
      obtain ⟨path, hindex⟩ := hindex
      exact .indexed hfolder hfound hdone hwanted hindex
    · rename_i hunwanted
      subst hindex
      exact .unindexed hfolder hfound hdone (by simpa using hunwanted)

/-- A run that fails has converted the first of its lessons, and then written nothing. -/
theorem Course.of_error (h : Course d s done last (.error failure)) :
    ∃ between, Converts s (d.ensureFolders s.destination).1 done between ∧
      (between.Plain → between.Extends last []) ∧
      (done = [] ∨ ∃ later, discover (d.ensureFolders s.destination).1 s.source s.pattern
        s.respectIgnore = .ok (done ++ later)) := by
  cases h with
  | noFolder hfolder => exact ⟨last, by rw [hfolder]; exact .done, fun _ => .refl _ _, .inl rfl⟩
  | noLessons hfolder hfound =>
    exact ⟨last, by rw [hfolder]; exact .done, fun _ => .refl _ _, .inl rfl⟩
  | lessonFails hfolder hfound hdone hlesson =>
    rw [hfolder]
    exact ⟨_, hdone, fun hd => convertFile_error hd hlesson, .inr ⟨_, hfound⟩⟩
  | indexFails hfolder hfound hdone hwanted hindex =>
    rw [hfolder]
    refine ⟨_, hdone, fun hd => generateIndex_error hd hindex, .inr ⟨[], ?_⟩⟩
    rwa [List.append_nil]

/-! ## What a run adds -/

/-- The paths that a run writes to, on the disk on which it looks for lessons. -/
inductive Settings.Writes (s : Settings) (made : Disk) : Text → Prop where
  | index : Writes s made s.indexPath
  | page {lessons : List Text} {lesson : Text}
      (hfound : discover made s.source s.pattern s.respectIgnore = .ok lessons)
      (hlesson : lesson ∈ lessons) : Writes s made (s.pagePath lesson)

theorem Course.grows (h : Course d s done last result) :
    d.Grows last fun q =>
      ∃ path, s.Writes (d.ensureFolders s.destination).1 path ∧ last.WritesAt path q := by
  have hmade := Disk.ensureFolders_grows d s.destination
  have hpages : ∀ {made between last : Disk} {done later : List Text} {more : List Text → Prop},
      discover made s.source s.pattern s.respectIgnore = .ok (done ++ later) →
      Converts s made done between → between.Grows last more →
      (∀ q, more q → ∃ path, s.Writes made path ∧ last.WritesAt path q) →
      made.Grows last fun q => ∃ path, s.Writes made path ∧ last.WritesAt path q := by
    intro made between last done later more hfound hdone hlast hmore
    refine (hdone.grows.mono ?_).trans (hlast.mono hmore)
    rintro q ⟨lesson, hlesson, hq⟩
    exact ⟨_, .page hfound (List.mem_append_left _ hlesson), hq.mono hlast⟩
  cases h with
  | noFolder hfolder | noLessons hfolder _ =>
    rw [hfolder] at hmade
    exact hmade _
  | @lessonFails made between _ done later lesson failure hfolder hfound hdone hlesson =>
    rw [hfolder] at hmade ⊢
    have hlast := convertFile_grows between s lesson
    rw [hlesson] at hlast
    refine (hmade _).trans (hpages hfound hdone hlast ?_)
    exact fun q hq => ⟨_, .page hfound (by simp), hq⟩
  | @indexFails made between _ _ failure hfolder hfound hdone _ hindex
  | @indexed made between _ _ path hfolder hfound hdone _ hindex =>
    rw [hfolder] at hmade ⊢
    have hlast := generateIndex_grows between s (done.map (pageName s.extension))
    rw [hindex] at hlast
    refine (hmade _).trans (hpages (by rwa [List.append_nil]) hdone hlast ?_)
    exact fun q hq => ⟨_, .index, hq⟩
  | unindexed hfolder hfound hdone _ =>
    rw [hfolder] at hmade ⊢
    refine (hmade _).trans (hpages (by rwa [List.append_nil]) hdone (.refl _ fun _ => False) ?_)
    exact fun _ hq => hq.elim

/-- **In any tree, a run adds folders and writes its pages and its index, and nothing else.** -/
theorem run_grows (d : Disk) (s : Settings) :
    d.Grows (run d s).disk fun q =>
      ∃ path, s.Writes (d.ensureFolders s.destination).1 path ∧ (run d s).disk.WritesAt path q := by
  obtain ⟨done, hcourse⟩ := run_course d s
  exact hcourse.grows

end LessonPages
