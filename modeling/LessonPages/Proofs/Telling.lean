import LessonPages.Proofs.Effect

/-!
# What a run tells

A run tells of its progress, and somebody may listen. A run that tells while it goes on, with a
listener who keeps whatever they like of each record, does what `run` does and no more: the events of
the outcome are what it has told by its end, so nobody can change the outcome by listening, or by
choosing who is told.

* `Job.Performs` — what a job does, whoever listens.
* `runTelling_performs` — a run that tells while it goes on does what a run does.
* `Course.events_eq` — the events of a run in their order, by its course.
* `run_tells` — listening changes nothing, and a logger is told of each step in its order.
-/

namespace LessonPages

/-! ## Steps while somebody listens -/

variable {σ α β : Type} {hear : σ → Record → σ} {own : Option Logger}
  {d d' d'' made between last : Disk} {s : Settings} {failure : Failure}

namespace Job

/-- What a job does on a disk: it leaves another one with a result, and the listener has then heard
the records of some events, whatever they had kept before. -/
def Performs (hear : σ → Record → σ) (own : Option Logger) (job : Job σ α) (d d' : Disk)
    (events : List Event) (result : Except Failure α) : Prop :=
  ∀ heard, job.run.run (d, heard) = (result, d', (Logger.records own events).foldl hear heard)

variable {job : Job σ α} {next : α → Job σ β} {events more : List Event}

theorem performs_pure (a : α) : Performs hear own (pure a) d d [] (.ok a) := fun _ => rfl

theorem Performs.bind_ok {a : α} {result : Except Failure β}
    (h : job.Performs hear own d d' events (.ok a))
    (hnext : (next a).Performs hear own d' d'' more result) :
    (job >>= next).Performs hear own d d'' (events ++ more) result := by
  intro heard
  rw [ExceptT.run_bind, StateT.run_bind, h heard, Logger.records_append, List.foldl_append]
  exact hnext _

/-- Nothing is told behind a failure. -/
theorem Performs.bind_error (h : job.Performs hear own d d' events (.error failure)) :
    (job >>= next).Performs hear own d d' events (.error failure) := by
  intro heard
  rw [ExceptT.run_bind, StateT.run_bind, h heard]
  rfl

theorem performs_tell (e : Event) : (tell hear own e).Performs hear own d d [e] (.ok ()) := by
  intro heard
  rw [Logger.records, List.filterMap_cons, List.filterMap_nil]
  cases h : e.record? own <;> simp only [tell, h] <;> rfl

theorem performs_onDisk {action : Disk → Disk × Except Failure α} {answer : Except Failure α}
    (h : action d = (d', answer)) : (onDisk action).Performs hear own d d' [] answer := by
  intro heard
  have hrun : (onDisk action).run.run (d, heard) = ((action d).2, (action d).1, heard) := rfl
  rw [hrun, h]
  rfl

theorem performs_look (question : Disk → α) :
    (look question).Performs hear own d d [] (.ok (question d)) := performs_onDisk rfl

theorem performs_give (answer : Except Failure α) :
    (give answer).Performs hear own d d [] answer := performs_onDisk rfl

theorem performs_forM_tell (told : α → Event) (as : List α) :
    (as.forM fun a => tell hear own (told a)).Performs hear own d d (as.map told) (.ok ()) := by
  induction as with
  | nil => exact performs_pure ()
  | cons a rest ih => exact (performs_tell (told a)).bind_ok ih

end Job

/-! ## A run that tells -/

theorem convertTelling_performs_ok {lesson page : Text}
    (h : convertFile d s lesson = (d', .ok page)) :
    (convertTelling hear own s lesson).Performs hear own d d' [.converted lesson page]
      (.ok page) :=
  (Job.performs_onDisk h).bind_ok ((Job.performs_tell _).bind_ok (Job.performs_pure page))

theorem convertTelling_performs_error {lesson : Text}
    (h : convertFile d s lesson = (d', .error failure)) :
    (convertTelling hear own s lesson).Performs hear own d d' [] (.error failure) :=
  (Job.performs_onDisk h).bind_error

theorem mapM_convertTelling_performs (d : Disk) (s : Settings) (lessons : List Text) :
    (lessons.mapM (convertTelling hear own s)).Performs hear own d (convertAll d s lessons).disk
      (convertAll d s lessons).events (convertAll d s lessons).result := by
  induction lessons generalizing d with
  | nil => exact Job.performs_pure []
  | cons lesson rest ih =>
    rw [List.mapM_cons, convertAll]
    split
    · rename_i d' failure hconvert
      exact (convertTelling_performs_error hconvert).bind_error
    · rename_i d' page hconvert
      refine (convertTelling_performs_ok hconvert).bind_ok ?_
      have hrest := ih d'
      dsimp only
      cases hresult : (convertAll d' s rest).result with
      | error failure =>
        rw [hresult] at hrest
        exact hrest.bind_error
      | ok pages =>
        rw [hresult] at hrest
        rw [← List.append_nil (convertAll d' s rest).events]
        exact hrest.bind_ok (Job.performs_pure (page :: pages))

theorem indexTelling_performs {pages : List Text} {o : Outcome} (h : o.result = .ok pages) :
    ∃ events, (withIndex s o).events = o.events ++ events ∧
      (indexTelling hear own s pages >>= fun _ => pure pages).Performs hear own o.disk
        (withIndex s o).disk events (withIndex s o).result := by
  rw [withIndex, h, indexTelling]
  dsimp only
  split
  · split
    · rename_i hindex
      exact ⟨[], (List.append_nil _).symm, (Job.performs_onDisk hindex).bind_error.bind_error⟩
    · rename_i path hindex
      have htold : (Job.onDisk (generateIndex · s.destination pages s.indexName) >>=
          fun path => Job.tell hear own (.indexed path)).Performs hear own o.disk _
            [.indexed path] (.ok ()) :=
        (Job.performs_onDisk hindex).bind_ok (Job.performs_tell _)
      exact ⟨[.indexed path], rfl, htold.bind_ok (Job.performs_pure pages)⟩
  · rw [h]
    exact ⟨[], (List.append_nil _).symm, (Job.performs_pure ()).bind_ok (Job.performs_pure pages)⟩

theorem pagesTelling_performs (d : Disk) (s : Settings) (lessons : List Text) :
    (pagesTelling hear own s lessons).Performs hear own d
      (withIndex s (convertAll d s lessons)).disk (withIndex s (convertAll d s lessons)).events
      (withIndex s (convertAll d s lessons)).result := by
  have hall := @mapM_convertTelling_performs _ hear own d s lessons
  cases hresult : (convertAll d s lessons).result with
  | error failure =>
    rw [hresult] at hall
    simp only [withIndex, hresult]
    exact hall.bind_error
  | ok pages =>
    rw [hresult] at hall
    obtain ⟨events, hevents, hindex⟩ := @indexTelling_performs _ hear own s _ _ hresult
    rw [hevents]
    exact hall.bind_ok hindex

theorem lessonsTelling_performs (d : Disk) (s : Settings) (found : Except Failure (List Text)) :
    (Job.give found >>= fun lessons => Job.tell hear own (.discovered lessons.length) >>= fun _ =>
      pagesTelling hear own s lessons).Performs hear own d
        (withLessons d s found).disk (withLessons d s found).events (withLessons d s found).result := by
  cases found with
  | error failure => exact (Job.performs_give _).bind_error
  | ok lessons =>
    exact (Job.performs_give _).bind_ok ((Job.performs_tell _).bind_ok
      (pagesTelling_performs _ _ _))

/-- **A run that tells does what a run does, and its listener hears the records of its events.** -/
theorem runTelling_performs (hear : σ → Record → σ) (passed : Option Logger) (enabled : Bool)
    (d : Disk) (s : Settings) :
    (runTelling hear passed enabled s).Performs hear
      (Logger.choose passed enabled Logger.runName) d (run d s).disk (run d s).events
      (run d s).result := by
  rcases hfolder : d.ensureFolders s.destination with ⟨made, failure | ⟨⟩⟩
  · simp only [run, hfolder, Outcome.disk_after, Outcome.events_after, Outcome.result_after]
    exact (Job.performs_tell _).bind_ok ((Job.performs_tell _).bind_ok
      (Job.performs_onDisk hfolder).bind_error)
  · simp only [run, hfolder, Outcome.disk_after, Outcome.events_after, Outcome.result_after]
    exact (Job.performs_tell _).bind_ok ((Job.performs_tell _).bind_ok
      ((Job.performs_onDisk hfolder).bind_ok ((Job.performs_look _).bind_ok
        ((Job.performs_forM_tell _ _).bind_ok (lessonsTelling_performs _ _ _)))))

/-! ## The order of the events -/

variable {lesson path : Text} {lessons pages done done' : List Text}
  {result result' : Except Failure (List Text)}

/-- The lessons that a run finds, if it comes to look for them and discovery succeeds. -/
def Settings.found? (s : Settings) (d : Disk) : Option (List Text) :=
  match d.ensureFolders s.destination with
  | (_, .error _) => none
  | (made, .ok ()) => (discover made s.source s.pattern s.respectIgnore).toOption

/-- A run comes to its index and writes it to a path. -/
def Settings.WritesIndex (s : Settings) (d : Disk) (path : Text) : Prop :=
  s.writeIndex = true ∧ ∃ lessons between last, s.found? d = some lessons ∧
    Converts s (d.ensureFolders s.destination).1 lessons between ∧
      generateIndex between s.destination (lessons.map (pageName s.extension)) s.indexName =
        (last, .ok path)

/-- The event of a lesson whose page has been written. -/
def Settings.converted (s : Settings) (lesson : Text) : Event :=
  .converted lesson (pageName s.extension lesson)

/-- The lesson that an event tells to be converted. -/
def Event.lesson? : Event → Option Text
  | .converted lesson _ => some lesson
  | .source _ | .destination _ | .ignored _ | .discovered _ | .indexed _ => none

theorem Settings.found?_eq_some_iff : s.found? d = some lessons ↔
    ∃ made, d.ensureFolders s.destination = (made, .ok ()) ∧
      discover made s.source s.pattern s.respectIgnore = .ok lessons := by
  unfold found?
  rcases d.ensureFolders s.destination with ⟨made, failure | ⟨⟩⟩
  · simp
  · cases hfound : discover made s.source s.pattern s.respectIgnore <;>
      simp [hfound, Except.toOption]

theorem Settings.WritesIndex.result_ok (h : s.WritesIndex d path) :
    ∃ pages, (run d s).result = .ok pages := by
  obtain ⟨hwanted, lessons, between, last, hfound, hdone, hindex⟩ := h
  obtain ⟨made, hfolder, hfound⟩ := Settings.found?_eq_some_iff.mp hfound
  rw [hfolder] at hdone
  exact ⟨_, (Course.indexed hfolder hfound hdone hwanted hindex).run_eq.2⟩

/-- A run that fails has written no index. -/
theorem Course.not_writesIndex (h : Course d s done last (.error failure)) :
    ¬ s.WritesIndex d path := by
  intro hwrites
  obtain ⟨pages, hresult⟩ := hwrites.result_ok
  rw [h.run_eq.2] at hresult
  cases hresult

theorem Settings.none_eq_some_iff (h : ∀ path, ¬ s.WritesIndex d path) (path : Text) :
    none = some path ↔ s.WritesIndex d path :=
  ⟨nofun, fun hwrites => (h path hwrites).elim⟩

theorem Converts.convertAll_events (h : Converts s d done d') (later : List Text) :
    (convertAll d s (done ++ later)).events =
      done.map s.converted ++ (convertAll d' s later).events := by
  induction h with
  | done => rfl
  | next hconvert _ ih =>
    rw [List.cons_append, convertAll, hconvert]
    dsimp only
    rw [ih, convertFile_page hconvert]
    rfl

/-- When all lessons are converted, what is told of the index follows them. -/
theorem Converts.withIndex_events (h : Converts s d lessons between) :
    (withIndex s (convertAll d s lessons)).events = lessons.map s.converted ++
      if s.writeIndex then
        match (generateIndex between s.destination (lessons.map (pageName s.extension))
          s.indexName).2 with
        | .ok path => [.indexed path]
        | .error _ => []
      else [] := by
  have hevents := h.convertAll_events []
  rw [List.append_nil, convertAll, List.append_nil] at hevents
  obtain ⟨hdisk, hresult⟩ := h.convertAll_eq
  rw [withIndex, hresult, hdisk]
  dsimp only
  split
  · rcases generateIndex between s.destination (lessons.map (pageName s.extension)) s.indexName
      with ⟨last, failure | path⟩
    · rw [hevents, List.append_nil]
    · rw [hevents]
  · rw [hevents, List.append_nil]

/-- After a lesson that fails nothing is told any more. -/
theorem Converts.withIndex_events_of_error (h : Converts s d done between)
    (hlesson : convertFile between s lesson = (last, .error failure)) (later : List Text) :
    (withIndex s (convertAll d s (done ++ lesson :: later))).events = done.map s.converted := by
  have hresult := (h.convertAll_append (lesson :: later)).2
  have hevents := h.convertAll_events (lesson :: later)
  rw [convertAll, hlesson] at hresult hevents
  rw [withIndex, hresult]
  dsimp only [Except.map]
  rw [hevents, List.append_nil]

theorem run_events_of_discover (hfolder : d.ensureFolders s.destination = (made, .ok ()))
    (hfound : discover made s.source s.pattern s.respectIgnore = .ok lessons) :
    ∃ passed : List Text, (run d s).events =
      [.source s.source, .destination s.destination] ++ passed.map .ignored ++
        ((s.found? d).toList.map fun lessons => Event.discovered lessons.length) ++
        (withIndex s (convertAll made s lessons)).events := by
  obtain ⟨passed, hrun⟩ := run_eq_of_folder hfolder
  refine ⟨passed, ?_⟩
  rw [hrun, hfound, Outcome.events_after, Settings.found?_eq_some_iff.mpr ⟨_, hfolder, hfound⟩,
    withLessons, Outcome.events_after, List.append_assoc _ _ (withIndex _ _).events]
  rfl

/-- **The events of a run in their order**: its folders, what discovery passes over, how many lessons
there are if discovery succeeds, the lessons that are converted, and the index if it is written. -/
theorem Course.events_eq (h : Course d s done last result) :
    ∃ (passed : List Text) (index : Option Text),
      (∀ path, index = some path ↔ s.WritesIndex d path) ∧
      (run d s).events = [.source s.source, .destination s.destination] ++ passed.map .ignored ++
        ((s.found? d).toList.map fun lessons => Event.discovered lessons.length) ++
        (done.map s.converted ++ index.toList.map .indexed) := by
  cases h with
  | noFolder hfolder =>
    have hcourse := Course.noFolder hfolder
    refine ⟨[], none, Settings.none_eq_some_iff fun path => hcourse.not_writesIndex, ?_⟩
    simp [run, Settings.found?, hfolder]
  | noLessons hfolder hfound =>
    have hcourse := Course.noLessons hfolder hfound
    obtain ⟨passed, hrun⟩ := run_eq_of_folder hfolder
    refine ⟨passed, none, Settings.none_eq_some_iff fun path => hcourse.not_writesIndex, ?_⟩
    rw [hrun, hfound]
    simp [withLessons, Settings.found?, hfolder, hfound, Except.toOption]
  | lessonFails hfolder hfound hdone hlesson =>
    have hcourse := Course.lessonFails hfolder hfound hdone hlesson
    obtain ⟨passed, hevents⟩ := run_events_of_discover hfolder hfound
    refine ⟨passed, none, Settings.none_eq_some_iff fun path => hcourse.not_writesIndex, ?_⟩
    rw [hevents, hdone.withIndex_events_of_error hlesson, Option.toList_none, List.map_nil,
      List.append_nil (done.map _)]
  | indexFails hfolder hfound hdone hwanted hindex =>
    have hcourse := Course.indexFails hfolder hfound hdone hwanted hindex
    obtain ⟨passed, hevents⟩ := run_events_of_discover hfolder hfound
    refine ⟨passed, none, Settings.none_eq_some_iff fun path => hcourse.not_writesIndex, ?_⟩
    rw [hevents, hdone.withIndex_events, if_pos hwanted, hindex]
    rfl
  | @indexed _ _ _ _ path hfolder hfound hdone hwanted hindex =>
    obtain ⟨passed, hevents⟩ := run_events_of_discover hfolder hfound
    refine ⟨passed, some path, fun other => ⟨?_, ?_⟩, ?_⟩
    · rintro ⟨⟩
      have hfound? := Settings.found?_eq_some_iff.mpr ⟨_, hfolder, hfound⟩
      exact ⟨hwanted, _, _, _, hfound?, hfolder ▸ hdone, hindex⟩
    · rintro ⟨-, _, _, _, -, -, hother⟩
      rw [(generateIndex_eq_ok_iff.mp hindex).1, (generateIndex_eq_ok_iff.mp hother).1]
    · rw [hevents, hdone.withIndex_events, if_pos hwanted, hindex]
      rfl
  | unindexed hfolder hfound hdone hunwanted =>
    obtain ⟨passed, hevents⟩ := run_events_of_discover hfolder hfound
    refine ⟨passed, none, Settings.none_eq_some_iff fun path hwrites => ?_, ?_⟩
    · exact absurd hwrites.1 (by simp [hunwanted])
    · rw [hevents, hdone.withIndex_events, if_neg (by simp [hunwanted])]
      rfl

/-- A run tells of the lessons that it has converted, each once and in their order. -/
theorem Course.filterMap_lesson? (h : Course d s done last result) :
    (run d s).events.filterMap Event.lesson? = done := by
  obtain ⟨passed, index, -, hevents⟩ := h.events_eq
  have hconverted : Event.lesson? ∘ s.converted = some := rfl
  have hignored : Event.lesson? ∘ Event.ignored = fun _ => none := rfl
  have hdiscovered : (Event.lesson? ∘ fun lessons : List Text => Event.discovered lessons.length) =
      fun _ => none := rfl
  have hindexed : Event.lesson? ∘ Event.indexed = fun _ => none := rfl
  rw [hevents]
  simp only [List.filterMap_append, List.filterMap_map, hconverted, hignored, hdiscovered, hindexed,
    List.filterMap_cons, Event.lesson?, List.filterMap_nil, List.filterMap_none, List.filterMap_some,
    List.nil_append, List.append_nil]

theorem Course.lessons_eq (h : Course d s done last result)
    (h' : Course d s done' between result') : done = done' :=
  h.filterMap_lesson?.symm.trans h'.filterMap_lesson?

/-! ## What is sent and heard -/

namespace Logger

/-- A record that matters, sent to a logger. -/
def info (l : Logger) (message : Text) : Record := ⟨.info, l.name, message⟩

/-- A record of a detail, sent to a logger. -/
def debug (l : Logger) (message : Text) : Record := ⟨.debug, l.name, message⟩

theorem records_map_ignored (own : Option Logger) (passed : List Text) :
    records own (passed.map .ignored) = passed.map fun lesson =>
      (ofName discoveryName).debug ("Skipping ignored file ".toList ++ lesson) := by
  rw [records, List.filterMap_map, ← List.filterMap_eq_map]
  rfl

/-- What a run has of its own to tell is told to its logger, one record an event. -/
theorem records_map_own {l : Logger} {told : α → Event}
    (h : ∀ a, (told a).logger? (some l) = some l) (as : List α) : records (some l) (as.map told) =
      as.map fun a => ⟨(told a).level, l.name, (told a).message⟩ := by
  rw [records, List.filterMap_map, ← List.filterMap_eq_map]
  congr 1
  funext a
  simp [Event.record?, h a]

/-- A run without a logger of its own tells only what discovery does. -/
theorem records_none_own {told : α → Event} (h : ∀ a, (told a).logger? none = none) (as : List α) :
    records none (as.map told) = [] := by
  rw [records, List.filterMap_map, List.filterMap_eq_nil_iff]
  intro a _
  simp [Event.record?, h a]

end Logger

/-- What a run has told by its end, when it has converted the lessons `done` and perhaps written an
index. -/
structure Told (d : Disk) (s : Settings) (done : List Text) (index : Option Text) : Prop where
  /-- The lessons told to be converted are those that the run converts. -/
  course : Course d s done (run d s).disk (run d s).result
  /-- They come in the order of discovery. -/
  inOrder : done <+: (s.found? d).getD []
  /-- An index is told of exactly if it is written. -/
  index_iff : ∀ path, index = some path ↔ s.WritesIndex d path
  /-- Without a logger of its own a run is silent: what is heard comes from discovery. -/
  silent : ∀ r ∈ Logger.records none (run d s).events, r.logger = Logger.discoveryName
  /-- A logger is told of both folders, of the number of lessons if discovery succeeds, of each
  lesson converted, and of the index. -/
  records : ∀ l : Logger, Logger.records (some l) (run d s).events =
    [l.info ("source ".toList ++ s.source), l.info ("destination ".toList ++ s.destination)] ++
      Logger.records none (run d s).events ++
      ((s.found? d).toList.map fun lessons =>
        l.debug ("discovered ".toList ++ Text.ofNat lessons.length ++ " file(s)".toList)) ++
      ((done.map fun lesson => l.info (lesson ++ " -> ".toList ++ pageName s.extension lesson)) ++
        index.toList.map fun path => l.info ("index written to ".toList ++ path))
  /-- A run that returns has told of all lessons found, and of the pages that it returns. -/
  returned : ∀ pages, (run d s).result = .ok pages →
    s.found? d = some done ∧ done.map (pageName s.extension) = pages
  /-- A run that fails at a lesson has told of those before it and of no other. -/
  failed : ∀ earlier lesson later between after failure,
    s.found? d = some (earlier ++ lesson :: later) →
    Converts s (d.ensureFolders s.destination).1 earlier between →
    convertFile between s lesson = (after, .error failure) → done = earlier

/-- The lessons that a run converts are the first of those that it finds. -/
theorem Course.starts_found? (h : Course d s done last result) :
    done <+: (s.found? d).getD [] := by
  cases h with
  | noFolder | noLessons => exact List.nil_prefix
  | lessonFails hfolder hfound =>
    rw [Settings.found?_eq_some_iff.mpr ⟨_, hfolder, hfound⟩]
    exact List.prefix_append _ _
  | indexFails hfolder hfound | indexed hfolder hfound | unindexed hfolder hfound =>
    rw [Settings.found?_eq_some_iff.mpr ⟨_, hfolder, hfound⟩]
    exact List.prefix_rfl

theorem Course.told (h : Course d s done (run d s).disk (run d s).result) :
    ∃ index, Told d s done index := by
  obtain ⟨passed, index, hindex, hevents⟩ := h.events_eq
  have hsilent : Logger.records none (run d s).events = passed.map fun lesson =>
      (Logger.ofName Logger.discoveryName).debug ("Skipping ignored file ".toList ++ lesson) := by
    rw [hevents]
    simp only [Logger.records_append, Logger.records_map_ignored]
    -- neither the number of lessons nor a lesson nor the index is told without a logger
    rw [Logger.records_none_own (fun _ => rfl), Logger.records_none_own (fun _ => rfl),
      Logger.records_none_own (fun _ => rfl)]
    simp [Logger.records, Event.record?, Event.logger?]
  refine ⟨index, h, h.starts_found?, hindex, ?_, fun l => ?_, fun pages hpages => ?_, ?_⟩
  · rw [hsilent]
    intro r hr
    obtain ⟨lesson, -, rfl⟩ := List.mem_map.mp hr
    rfl
  · rw [hsilent, hevents]
    simp only [Logger.records_append, Logger.records_map_ignored]
    rw [Logger.records_map_own (fun _ => rfl), Logger.records_map_own (fun _ => rfl),
      Logger.records_map_own (fun _ => rfl)]
    rfl
  · rw [hpages] at h
    obtain ⟨between, hfolder, hfound, rfl, -, -⟩ := Course.ok_iff.mp h
    exact ⟨Settings.found?_eq_some_iff.mpr ⟨_, Prod.ext rfl hfolder, hfound⟩, rfl⟩
  · intro earlier lesson later between after failure hfound hdone hlesson
    obtain ⟨made, hfolder, hfound⟩ := Settings.found?_eq_some_iff.mp hfound
    rw [hfolder] at hdone
    exact h.lessons_eq (Course.lessonFails hfolder hfound hdone hlesson)

/-- **Listening does not interfere, and a logger is told of each step in its order.** Whoever is
told of a run and whatever they make of it, the run gives the same result and leaves the same disk;
and what it tells follows from the lessons that it has converted and the index that it has
written. -/
theorem run_tells (d : Disk) (s : Settings) :
    (∀ (σ : Type) (hear : σ → Record → σ) (heard : σ) (passed : Option Logger) (enabled : Bool),
      (runTelling hear passed enabled s).run.run (d, heard) =
        ((run d s).result, (run d s).disk,
          (Logger.records (Logger.choose passed enabled Logger.runName) (run d s).events).foldl hear
            heard)) ∧
      ∃ done index, Told d s done index := by
  refine ⟨fun σ hear heard passed enabled => runTelling_performs hear passed enabled d s heard, ?_⟩
  obtain ⟨done, hcourse⟩ := run_course d s
  exact ⟨done, hcourse.told⟩

/-- The second of two lessons is no text: its run tells of the first page and then of nothing. -/
theorem run_tells_brokenLesson :
    ((runTelling (fun heard r => heard ++ [r]) none true usualRoots).run.run
        (brokenLesson, [])).2.2 =
      [⟨.info, Logger.runName, "source /T/src".toList⟩,
        ⟨.info, Logger.runName, "destination /T/out".toList⟩,
        ⟨.debug, Logger.runName, "discovered 2 file(s)".toList⟩,
        ⟨.info, Logger.runName, "a.ts -> a.md".toList⟩] := by
  obtain ⟨hheard, done, index, htold⟩ := run_tells brokenLesson usualRoots
  have hfound : usualRoots.found? brokenLesson = some ["a.ts".toList, "b.ts".toList] := by
    decide +kernel
  have hdone : done = ["a.ts".toList] := by
    have hfirst : (convertFile (brokenLesson.ensureFolders usualRoots.destination).1 usualRoots
        "a.ts".toList).2 = .ok "a.md".toList := by decide +kernel
    have hsecond : (convertFile (convertFile (brokenLesson.ensureFolders usualRoots.destination).1
        usualRoots "a.ts".toList).1 usualRoots "b.ts".toList).2 =
          .error (.undecodable ⟨0xFF, 0, 1, .invalidStart⟩) := by decide +kernel
    exact htold.failed _ _ [] _ _ _ hfound (.next (Prod.ext rfl hfirst) .done)
      (Prod.ext rfl hsecond)
  have hindex : index = none := by
    have hfails : (run brokenLesson usualRoots).result.isOk = false := by decide +kernel
    refine Option.eq_none_iff_forall_ne_some.mpr fun path hpath => ?_
    obtain ⟨pages, hresult⟩ := ((htold.index_iff path).mp hpath).result_ok
    rw [hresult] at hfails
    cases hfails
  have hnothing : Logger.records none (run brokenLesson usualRoots).events = [] := by decide +kernel
  have hchosen : Logger.choose none true Logger.runName = some (Logger.ofName Logger.runName) := rfl
  rw [hheard, hchosen, htold.records, hnothing, hfound, hdone, hindex]
  decide

end LessonPages
