import LessonPages.Command.Options
import LessonPages.Run

/-!
# A call of the program

What a call writes to its two outputs, how it ends, and the disk that it leaves.

* `parse` — a command line, or the report that ends the call before a run.
* `execute` — a whole call.
-/

namespace LessonPages

/-- How a call ends. -/
inductive Ending where
  | exit (status : Nat)
  /-- By a failure that is not the user's to see as a message. -/
  | failure (failure : Failure)
  deriving DecidableEq, Repr

/-- What a call leaves behind, apart from the disk. -/
structure Report where
  out : Text
  err : Text
  ending : Ending
  deriving DecidableEq, Repr

/-- The options of a command line, or the report of a call that ends with its words (`parse_args`). -/
def parse (line : List Text) : Except Report Options :=
  match Request.ofLine line with
  | .ok (.convert options) => .ok options
  | .ok .help => .error ⟨help, [], .exit 0⟩
  | .error fault =>
    .error ⟨[], usage ++ "lessonforge: error: ".toList ++ fault.message ++ ['\n'], .exit 2⟩

/-- Texts as lines, each ended by a newline. -/
def asLines (ts : List Text) : Text := ts.flatMap (· ++ ['\n'])

/-- The lines that tell of a run: all records but the details (`main`, with its `basicConfig`). -/
def progress (options : Options) (events : List Event) : Text :=
  let logger := Logger.choose none options.verbose Logger.runName
  asLines (((Logger.records logger events).filter (·.level = .info)).map Record.line)

/-- The report of a run (`main`, behind its call of `run`). -/
def Outcome.report (options : Options) (o : Outcome) : Report :=
  let told := progress options o.events
  match o.result with
  | .ok pages => ⟨asLines pages, told, .exit 0⟩
  | .error failure =>
    if failure.isDeclared then
      ⟨[], told ++ "error: ".toList ++ failure.message ++ ['\n'], .exit 1⟩
    else ⟨[], told, .failure failure⟩

/-- A call with the words of a command line (`main`). -/
def execute (d : Disk) (line : List Text) : Disk × Report :=
  match parse line with
  | .error report => (d, report)
  | .ok options =>
    let outcome := run d (options.settings d)
    (outcome.disk, outcome.report options)

end LessonPages
