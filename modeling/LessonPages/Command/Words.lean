import LessonPages.Text.Printable
import LessonPages.Text.Quoted

/-!
# Words of a command line

What each word of a command line is: an option, by one of its spellings or the start of one, the
separator, or anything else. Words are looked at one by one, before any option is acted upon.

* `Flag` — the options.
* `Word.of` — what a word is, or that it could be several options.
* `UsageFault.message` — the wording of what is wrong with a command line.
-/

namespace LessonPages

/-- The options of the program (`build_parser`). -/
inductive Flag where
  | help
  | source
  | destination
  | pattern
  | extension
  | noIndex
  | noGitignore
  | verbose
  deriving DecidableEq, Repr

namespace Flag

/-- The spellings of all options, in the order in which they are listed. -/
def spellings : List (Text × Flag) :=
  [("-h".toList, .help), ("--help".toList, .help), ("--source".toList, .source),
   ("--destination".toList, .destination), ("--pattern".toList, .pattern),
   ("--extension".toList, .extension), ("--no-index".toList, .noIndex),
   ("--no-gitignore".toList, .noGitignore), ("-v".toList, .verbose),
   ("--verbose".toList, .verbose)]

/-- Whether an option has a value. -/
def takesValue : Flag → Bool
  | .source | .destination | .pattern | .extension => true
  | .help | .noIndex | .noGitignore | .verbose => false

/-- The option of a spelling. -/
def ofSpelling? (t : Text) : Option Flag := spellings.lookup t

/-- All spellings of an option, as messages name it. -/
def title (f : Flag) : Text :=
  ['/'].intercalate ((spellings.filter (·.2 = f)).map (·.1))

end Flag

/-- What is wrong with a command line. -/
inductive UsageFault where
  /-- The start of several spellings. -/
  | ambiguous (word : Text) (candidates : List Text)
  | missingValue (flag : Flag)
  /-- A value for an option that has none. -/
  | unexpectedValue (flag : Flag) (value : Text)
  | unrecognized (words : List Text)
  deriving DecidableEq, Repr

/-- The fault in words. -/
def UsageFault.message : UsageFault → Text
  | .ambiguous word candidates =>
    "ambiguous option: ".toList ++ word ++ " could match ".toList
      ++ ", ".toList.intercalate candidates
  | .missingValue flag => "argument ".toList ++ flag.title ++ ": expected one argument".toList
  | .unexpectedValue flag value =>
    "argument ".toList ++ flag.title ++ ": ignored explicit argument ".toList ++ value.quoted
  | .unrecognized words => "unrecognized arguments: ".toList ++ [' '].intercalate words

/-- What a word of a command line is. -/
inductive Word where
  /-- An option; `short` says that it is spelled with one letter, `value` is what is attached. -/
  | flag (flag : Flag) (short : Bool) (value : Option Text)
  /-- Something that looks like an option and is none. -/
  | unknown (word : Text)
  /-- The two hyphens after which no word is an option. -/
  | separator
  /-- A value, or a word too many. -/
  | operand (word : Text)
  deriving DecidableEq, Repr

namespace Word

/-- What stands before the first equals sign, and what stands behind it if there is one. -/
def cutEquals (t : Text) : Text × Option Text :=
  match t.dropWhile (· != '=') with
  | [] => (t, none)
  | _ :: value => (t.takeWhile (· != '='), some value)

/-- Whether a text is a negative number, with or without a decimal point
(`_negative_number_matcher`). A newline may follow. -/
def isNegativeNumber : Text → Bool
  | '-' :: t =>
    match t.dropWhile isDecimalDigit with
    | '.' :: rest => endsInDigits rest
    | rest => isEnd rest && !(t.takeWhile isDecimalDigit).isEmpty
  | _ => false
where
  /-- Whether nothing is left but perhaps a newline. -/
  isEnd (t : Text) : Bool := t = [] || t = ['\n']
  /-- Whether digits, at least one, make up a text. -/
  endsInDigits (t : Text) : Bool :=
    isEnd (t.dropWhile isDecimalDigit) && !(t.takeWhile isDecimalDigit).isEmpty

/-- The options that a word can be short for (`_get_option_tuples`), with the spelling of each: the
start of a long spelling, or a letter with something attached. -/
def candidates (t : Text) : List (Text × Word) :=
  if "--".toList.isPrefixOf t then
    let (start, value) := cutEquals t
    (Flag.spellings.filter fun s => start.isPrefixOf s.1).map fun s =>
      (s.1, .flag s.2 false value)
  else
    (Flag.spellings.filter fun s => s.1 = t.take 2).map fun s =>
      (s.1, .flag s.2 true (some (t.drop 2)))

/-- What a word is that starts with a hyphen and is not spelled like an option: a negative number,
or a text with a space, can be a value. -/
def ofRest (t : Text) : Word :=
  if isNegativeNumber t || t.contains ' ' then .operand t else .unknown t

/-- What a word is that starts with a hyphen and goes on. -/
def ofHyphened (t : Text) : Except UsageFault Word :=
  let isShort := !"--".toList.isPrefixOf t
  let (start, value) := cutEquals t
  match Flag.ofSpelling? t, value.bind fun _ => Flag.ofSpelling? start with
  | some f, _ => .ok (.flag f isShort none)
  | none, some f => .ok (.flag f isShort value)
  | none, none =>
    match candidates t with
    | [] => .ok (ofRest t)
    | [(_, word)] => .ok word
    | several => .error (.ambiguous t (several.map (·.1)))

/-- What a word is, unless it can be several options (`_parse_optional`). -/
def of (t : Text) : Except UsageFault Word :=
  match t with
  | '-' :: _ :: _ => ofHyphened t
  | _ => .ok (.operand t)

/-- What the words of a command line are. Behind the separator no word is an option. -/
def ofAll : List Text → Except UsageFault (List Word)
  | [] => .ok []
  | t :: rest =>
    if t = "--".toList then .ok (.separator :: rest.map .operand)
    else
      match of t with
      | .error fault => .error fault
      | .ok word => (ofAll rest).map (word :: ·)

end Word

end LessonPages
