import LessonPages.Convert
import LessonPages.Log

/-!
# A run

A run converts every lesson below a folder and writes the index. Lessons are taken one at a time in
the order of discovery; the first failure ends the run, and what was written before it stays.

* `convertAll` — some lessons in order.
* `run` — everything, with the events in the end.
* `runTelling` — everything, with each event told as it happens; somebody listens and keeps whatever
  they like of each record.
-/

namespace LessonPages

/-- How a run, or a part of it, ended: the disk as it is, what happened, and the pages or the
failure. -/
structure Outcome where
  disk : Disk
  events : List Event
  result : Except Failure (List Text)

namespace Outcome

/-- An outcome with some more events before all others. -/
def after (events : List Event) (o : Outcome) : Outcome := { o with events := events ++ o.events }

@[simp] theorem disk_after (events : List Event) (o : Outcome) : (o.after events).disk = o.disk :=
  rfl

@[simp] theorem result_after (events : List Event) (o : Outcome) :
    (o.after events).result = o.result := rfl

@[simp] theorem events_after (events : List Event) (o : Outcome) :
    (o.after events).events = events ++ o.events := rfl

end Outcome

/-- Converts lessons one after another, up to the first failure (`run`, its loop). -/
def convertAll (d : Disk) (s : Settings) : List Text → Outcome
  | [] => ⟨d, [], .ok []⟩
  | lesson :: rest =>
    match convertFile d s lesson with
    | (d', .error failure) => ⟨d', [], .error failure⟩
    | (d', .ok page) =>
      let later := convertAll d' s rest
      ⟨later.disk, .converted lesson page :: later.events, later.result.map (page :: ·)⟩

/-- Writes the index for the pages of an outcome, unless that has failed or none is wanted (`run`,
behind its loop). -/
def withIndex (s : Settings) (o : Outcome) : Outcome :=
  match o.result with
  | .error _ => o
  | .ok pages =>
    if s.writeIndex then
      match generateIndex o.disk s.destination pages s.indexName with
      | (d, .error failure) => ⟨d, o.events, .error failure⟩
      | (d, .ok path) => ⟨d, o.events ++ [.indexed path], .ok pages⟩
    else o

/-- What a run does with the lessons of its discovery, unless that has failed (`run`, behind
`discover_files`). -/
def withLessons (d : Disk) (s : Settings) : Except Failure (List Text) → Outcome
  | .error failure => ⟨d, [], .error failure⟩
  | .ok lessons => (withIndex s (convertAll d s lessons)).after [.discovered lessons.length]

/-- Converts all lessons and writes the index (`run`). The folder of the pages is there before lessons
are looked for. -/
def run (d : Disk) (s : Settings) : Outcome :=
  let outcome : Outcome :=
    match d.ensureFolders s.destination with
    | (d', .error failure) => ⟨d', [], .error failure⟩
    | (d', .ok ()) =>
      let found := survey d' s.source s.pattern s.respectIgnore
      (withLessons d' s found.result).after (found.passedOver.map .ignored)
  outcome.after [.source s.source, .destination s.destination]

/-! ## While somebody listens -/

variable {σ α : Type}

/-- Steps on a disk that somebody listens to: they give a result or a failure, and change the disk
and what the listener keeps. -/
abbrev Job (σ : Type) : Type → Type := ExceptT Failure (StateM (Disk × σ))

namespace Job

/-- Tells of an event (a logging call): if a logger is told of it, the listener hears its record. -/
def tell (hear : σ → Record → σ) (own : Option Logger) (e : Event) : Job σ Unit :=
  ExceptT.mk fun (d, heard) => (.ok (), d, (e.record? own).elim heard (hear heard))

/-- A step that only the disk sees. -/
def onDisk (action : Disk → Disk × Except Failure α) : Job σ α :=
  ExceptT.mk fun (d, heard) => ((action d).2, (action d).1, heard)

/-- A look at the disk. -/
def look (question : Disk → α) : Job σ α := onDisk fun d => (d, .ok (question d))

/-- A step that gives a result, or fails as that does. -/
def give (result : Except Failure α) : Job σ α := onDisk fun d => (d, result)

end Job

/-- Converts a lesson and then tells of its page (`run`, one turn of its loop). -/
def convertTelling (hear : σ → Record → σ) (own : Option Logger) (s : Settings) (lesson : Text) :
    Job σ Text := do
  let page ← Job.onDisk (convertFile · s lesson)
  Job.tell hear own (.converted lesson page)
  return page

/-- Writes the index and then tells of it, if one is wanted (`run`, behind its loop). -/
def indexTelling (hear : σ → Record → σ) (own : Option Logger) (s : Settings) (pages : List Text) :
    Job σ Unit := do
  if s.writeIndex then
    let path ← Job.onDisk (generateIndex · s.destination pages s.indexName)
    Job.tell hear own (.indexed path)

/-- Converts lessons one after another and writes the index (`run`, behind `discover_files`). -/
def pagesTelling (hear : σ → Record → σ) (own : Option Logger) (s : Settings)
    (lessons : List Text) : Job σ (List Text) := do
  let pages ← lessons.mapM (convertTelling hear own s)
  indexTelling hear own s pages
  return pages

/-- A run that tells of each step as it is taken (`run`, with its `logger` and `log`): the logger that
was passed, else the run's own one if telling is asked for. -/
def runTelling (hear : σ → Record → σ) (passed : Option Logger) (enabled : Bool) (s : Settings) :
    Job σ (List Text) := do
  let own := Logger.choose passed enabled Logger.runName
  Job.tell hear own (.source s.source)
  Job.tell hear own (.destination s.destination)
  Job.onDisk (·.ensureFolders s.destination)
  let found ← Job.look (survey · s.source s.pattern s.respectIgnore)
  found.passedOver.forM fun lesson => Job.tell hear own (.ignored lesson)
  let lessons ← Job.give found.result
  Job.tell hear own (.discovered lessons.length)
  pagesTelling hear own s lessons

end LessonPages
