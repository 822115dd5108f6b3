import LessonPages.Command.Words
import LessonPages.Settings

/-!
# Options

What a command line asks for: the help text, or a run with some options. Words that are no option
and no value are collected, and refused at the end.

* `Request.ofWords`, `Request.ofLine` — the request, or what is wrong with it.
* `Options.settings` — the settings that options stand for.
* `usage`, `help` — the texts shown to the user.
-/

namespace LessonPages

/-- The options of a run (`build_parser`). -/
structure Options where
  source : Option Text := none
  destination : Option Text := none
  pattern : Option Text := none
  extension : Option Text := none
  noIndex : Bool := false
  noGitignore : Bool := false
  verbose : Bool := false
  deriving DecidableEq, Repr

namespace Options

/-- The options with a value given to one of them. Two hyphens are no value. -/
def give (o : Options) (flag : Flag) (value : Text) : Options :=
  let value := if value = "--".toList then none else some value
  match flag with
  | .source => { o with source := value }
  | .destination => { o with destination := value }
  | .pattern => { o with pattern := value }
  | .extension => { o with extension := value }
  | .help | .noIndex | .noGitignore | .verbose => o

/-- The options with one of them switched on. -/
def switch (o : Options) : Flag → Options
  | .noIndex => { o with noIndex := true }
  | .noGitignore => { o with noGitignore := true }
  | .verbose => { o with verbose := true }
  | .help | .source | .destination | .pattern | .extension => o

/-- The settings that the options stand for (`config_from_args`). An empty value counts as none. -/
def settings (o : Options) (d : Disk) : Settings :=
  let usual := Settings.ofFolder d []
  let given (value : Option Text) (other : Text) : Text :=
    match value with
    | none | some [] => other
    | some t => t
  { usual with
    source := given o.source usual.source
    destination := given o.destination usual.destination
    pattern := given o.pattern usual.pattern
    extension := given o.extension usual.extension
    writeIndex := !o.noIndex
    respectIgnore := !o.noGitignore }

end Options

/-- What a command line asks for. -/
inductive Request where
  | help
  | convert (options : Options)
  deriving DecidableEq, Repr

namespace Request

/-- The options that one hyphen and several letters stand for, from the letters behind the first
option on (`consume_optional`). -/
def cluster (flag : Flag) : Text → Except UsageFault (List Flag)
  | [] => .ok [flag]
  | c :: rest =>
    match Flag.ofSpelling? ['-', c] with
    | some next => (cluster next rest).map (flag :: ·)
    | none => .error (.unexpectedValue flag (c :: rest))

/-- The options of a word whose option has no value. -/
def switches (flag : Flag) (short : Bool) : Option Text → Except UsageFault (List Flag)
  | none => .ok [flag]
  | some value =>
    if short && !value.isEmpty then cluster flag value else .error (.unexpectedValue flag value)

/-- Goes through the words with the options read so far and the words that found no use
(`_parse_known_args`). -/
def ofWordsFrom (o : Options) (unused : List Text) : List Word → Except UsageFault Request
  | [] => if unused.isEmpty then .ok (.convert o) else .error (.unrecognized unused)
  | .operand t :: rest => ofWordsFrom o (unused ++ [t]) rest
  | .unknown t :: rest => ofWordsFrom o (unused ++ [t]) rest
  | .separator :: rest => ofWordsFrom o (unused ++ ["--".toList]) rest
  | .flag flag short attached :: rest =>
    if flag.takesValue then
      match attached, rest with
      | some value, rest => ofWordsFrom (o.give flag value) unused rest
      | none, .operand value :: rest => ofWordsFrom (o.give flag value) unused rest
      | none, _ => .error (.missingValue flag)
    else
      match switches flag short attached with
      | .error fault => .error fault
      | .ok flags =>
        if .help ∈ flags then .ok .help else ofWordsFrom (flags.foldl Options.switch o) unused rest

/-- The request that words stand for. -/
def ofWords (words : List Word) : Except UsageFault Request := ofWordsFrom {} [] words

/-- The request of a command line (`parse_args`). -/
def ofLine (line : List Text) : Except UsageFault Request :=
  match Word.ofAll line with
  | .error fault => .error fault
  | .ok words => ofWords words

end Request

/-- How the program is called (`format_usage`). -/
def usage : Text :=
  ("usage: lessonforge [-h] [--source SOURCE] [--destination DESTINATION]\n"
    ++ "                   [--pattern PATTERN] [--extension EXTENSION] [--no-index]\n"
    ++ "                   [--no-gitignore] [-v]\n").toList

/-- How the program is called and what its options mean (`format_help`). -/
def help : Text :=
  usage ++ ("\nConvert annotated TypeScript lessons into Markdown pages\n\noptions:\n"
    ++ "  -h, --help            show this help message and exit\n"
    ++ "  --source SOURCE       lesson source root (default: ./src)\n"
    ++ "  --destination DESTINATION\n"
    ++ "                        output root (default: ./markdown)\n"
    ++ "  --pattern PATTERN     glob for lesson files (default: **/*.ts)\n"
    ++ "  --extension EXTENSION\n"
    ++ "                        page extension (default: .md)\n"
    ++ "  --no-index            do not write the index page\n"
    ++ "  --no-gitignore        do not honour .gitignore\n"
    ++ "  -v, --verbose         log progress to stderr\n").toList

end LessonPages
