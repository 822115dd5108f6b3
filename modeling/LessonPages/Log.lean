import LessonPages.Text.Basic

/-!
# Progress of a run

What a run tells while it goes on. Events are facts; loggers turn them into records, and an event
without a logger is not told at all. Loggers form a hierarchy by their names: what one is told is
heard by those above it, too.

* `Event.level`, `Event.message` — how an event is told.
* `Logger.choose`, `Event.logger?` — which logger is told of it.
* `Logger.records`, `Logger.heard` — what all loggers are told of a run, and what one of them hears.
-/

namespace LessonPages

/-- Something that a run did (a logging call of `run` or of `discover_files`). -/
inductive Event where
  | source (root : Text)
  | destination (root : Text)
  /-- A lesson was passed over because an ignore file excludes it. -/
  | ignored (lesson : Text)
  | discovered (count : Nat)
  | converted (lesson page : Text)
  | indexed (path : Text)
  deriving DecidableEq, Repr

/-- How much an event matters. -/
inductive Level where
  | debug
  | info
  deriving DecidableEq, Repr

/-- The name of a level. -/
def Level.name : Level → Text
  | .debug => "DEBUG".toList
  | .info => "INFO".toList

namespace Event

/-- What discovery passed over, and how many lessons it found, are details. -/
def level : Event → Level
  | .ignored _ | .discovered _ => .debug
  | .source _ | .destination _ | .converted _ _ | .indexed _ => .info

/-- The event in words. -/
def message : Event → Text
  | .source root => "source ".toList ++ root
  | .destination root => "destination ".toList ++ root
  | .ignored lesson => "Skipping ignored file ".toList ++ lesson
  | .discovered count => "discovered ".toList ++ Text.ofNat count ++ " file(s)".toList
  | .converted lesson page => lesson ++ " -> ".toList ++ page
  | .indexed path => "index written to ".toList ++ path

end Event

/-- A line of a log. -/
structure Record where
  level : Level
  logger : Text
  message : Text
  deriving DecidableEq, Repr

/-- A record as a line: level, logger and message. -/
def Record.line (r : Record) : Text :=
  r.level.name ++ ' ' :: r.logger ++ ": ".toList ++ r.message

/-- Someone who is told of the events of a run, by name. -/
structure Logger where
  name : Text
  deriving DecidableEq, Repr

namespace Logger

/-- The name of the root of all loggers. -/
def rootName : Text := "root".toList

/-- The logger of a name (`getLogger`). The nameless logger is the root of all. -/
def ofName (name : Text) : Logger := ⟨if name.isEmpty then rootName else name⟩

/-- The name of a logger that nobody named (`progress_logger`). -/
def defaultName : Text := "lessonforge".toList

/-- The name of the logger that a run uses of its own (`run`). -/
def runName : Text := "lessonforge.pipeline".toList

/-- The name of the logger that discovery uses (`discover_files`). -/
def discoveryName : Text := "lessonforge.utils.discovery".toList

/-- The logger that is told (`progress_logger`): the one that was passed, else the named one if
telling is asked for. -/
def choose (passed : Option Logger) (enabled : Bool) (name : Text) : Option Logger :=
  passed.or (if enabled then some (ofName name) else none)

end Logger

/-- The logger that is told of an event, when a run tells `run` of its own. Discovery tells what it
passes over whether or not the run tells anything. -/
def Event.logger? (run : Option Logger) : Event → Option Logger
  | .ignored _ => some (Logger.ofName Logger.discoveryName)
  | .source _ | .destination _ | .discovered _ | .converted _ _ | .indexed _ => run

/-- The record of an event, if a logger is told of it. -/
def Event.record? (run : Option Logger) (e : Event) : Option Record :=
  (e.logger? run).map fun l => ⟨e.level, l.name, e.message⟩

namespace Logger

/-- What all loggers are told about some events. -/
def records (run : Option Logger) (events : List Event) : List Record :=
  events.filterMap (Event.record? run)

/-- Whether a logger hears a record: it was told itself, or one below it was, whose name goes on from
its own with a dot. The root hears everything. -/
def hears (l : Logger) (r : Record) : Bool :=
  l.name = rootName || r.logger = l.name || (l.name ++ ['.']).isPrefixOf r.logger

/-- What a logger hears about some events. -/
def heard (listener : Logger) (run : Option Logger) (events : List Event) : List Record :=
  (records run events).filter listener.hears

@[simp] theorem records_append (run : Option Logger) (as bs : List Event) :
    records run (as ++ bs) = records run as ++ records run bs := by
  simp [records]

end Logger

end LessonPages
