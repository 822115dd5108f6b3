import LessonPages.Block
import LessonPages.LineKind
import LessonPages.Text.Lines

/-!
# Splitting a lesson into blocks

One pass over the lines. The classifier holds the lines of the comment or of the code it is in;
`step` takes one more line and gives the blocks which that line completes, `finish` gives those
still held at the end.

* `Classifier.step`, `Classifier.flush`, `Classifier.finish` — one line, the end of a run of
  code, the end of the lesson.
* `Classifier.run` — all lines in order; `run_append` says that it may stop anywhere and go on.
* `classify` — the blocks of a lesson.
-/

namespace LessonPages

/-- What the classifier is inside of (`Mode`). -/
inductive Mode where
  | code
  | blockComment
  deriving DecidableEq, Repr

/-- What is held between two lines (`ClassifierState`): the mode, the lines of an open comment, the
lines of the pending code, and whether a link was asked for since the last flush (`PendingKind`). -/
structure Classifier where
  mode : Mode
  comment : List Text
  code : List Text
  linked : Bool
  deriving DecidableEq, Repr

namespace Classifier

/-- Nothing read yet (`INITIAL_STATE`). -/
def start : Classifier := ⟨.code, [], [], false⟩

/-- The pending code as a block (`flush_code`, what it emits); code that is all blank gives none. -/
def pendingCode (s : Classifier) : List Block :=
  if s.code.any Text.hasContent then
    [⟨if s.linked then .linkedCode else .code, s.code⟩]
  else []

/-- Ends the pending code (`flush_code`). The request for a link is spent even if the code was
blank. -/
def flush (s : Classifier) : Classifier × List Block :=
  ({ s with code := [], linked := false }, s.pendingCode)

/-- Takes one line of the lesson (`step`). -/
def step (s : Classifier) (line : Text) : Classifier × List Block :=
  match LineKind.of line with
  | .marker => ({ s with linked := true }, [])
  | .lineComment => (s.flush.1, s.flush.2 ++ [⟨.comment, [line]⟩])
  | .commentStart =>
    ({ s.flush.1 with mode := .blockComment, comment := s.comment ++ [line.strip] }, s.flush.2)
  | .plain =>
    match s.mode with
    | .code => ({ s with code := s.code ++ [line] }, [])
    | .blockComment =>
      let comment := s.comment ++ [line.strip]
      if commentCloser.isSuffixOf line.strip then
        ({ s with mode := .code, comment := [] }, [⟨.comment, comment⟩])
      else ({ s with comment := comment }, [])

/-- The blocks still held at the end of a lesson (`finish`). A comment that was never closed is
kept. -/
def finish (s : Classifier) : List Block :=
  s.pendingCode ++ if s.comment.isEmpty then [] else [⟨.comment, s.comment⟩]

/-- Takes the lines in order and collects the blocks they complete (`classify`, its loop). -/
def run (s : Classifier) : List Text → Classifier × List Block
  | [] => (s, [])
  | line :: rest =>
    let next := s.step line
    let later := run next.1 rest
    (later.1, next.2 ++ later.2)

@[simp] theorem run_nil (s : Classifier) : s.run [] = (s, []) := rfl

theorem run_append (s : Classifier) (ls ms : List Text) :
    s.run (ls ++ ms) =
      (((s.run ls).1.run ms).1, (s.run ls).2 ++ ((s.run ls).1.run ms).2) := by
  induction ls generalizing s with
  | nil => rfl
  | cons l ls ih => simp [run, ih, List.append_assoc]

end Classifier

/-- The blocks of a lesson given by its lines (`classify`, behind `split_lines`). -/
def classifyLines (lines : List Text) : List Block :=
  let last := Classifier.start.run lines
  last.2 ++ last.1.finish

/-- The blocks of a lesson in order (`classify`). Runs of blank code are dropped. -/
def classify (lesson : Text) : List Block := classifyLines lesson.lines

end LessonPages
