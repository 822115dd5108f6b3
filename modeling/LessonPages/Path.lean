import LessonPages.Text.Basic

/-!
# Paths as texts

A path is a text whose names are separated by slashes. These functions work on the text alone:
they do not look at a disk, so links play no part and `..` just takes the name before it away.

* `Path.join`, `Path.joinAll` — going on from a path.
* `Path.headTail`, `Path.headName`, `Path.parent` — a path without its last name.
* `Path.normal`, `Path.absolute` — without `.`, `..` and doubled slashes; from the root on.
* `Path.relative` — from one folder to a path.
* `Path.dropExtension` — without the extension of the last name.
-/

namespace LessonPages.Path

/-- The name of the folder itself. -/
def here : Text := ['.']

/-- The name of the folder above. -/
def up : Text := ['.', '.']

/-- The characters of a path up to and with its last slash, and those behind it. -/
def cutLastSlash (p : Text) : Text × Text :=
  (Text.trimRight (· != '/') p, (p.reverse.takeWhile (· != '/')).reverse)

/-- Whether a path starts at the root (`os.path.isabs`). -/
def isAbsolute (p : Text) : Bool := p.head? = some '/'

/-- Goes on from a path (`os.path.join`). A part that starts at the root stands for itself. -/
def join (p part : Text) : Text :=
  if isAbsolute part then part
  else if p.isEmpty || p.getLast? = some '/' then p ++ part
  else p ++ '/' :: part

/-- Goes on from a path, part after part (`os.path.join` of several parts). -/
def joinAll (p : Text) (parts : List Text) : Text := parts.foldl join p

/-- A path without the slashes at its end, unless it has nothing else. -/
def dropSlashes (p : Text) : Text := if p.all (· == '/') then p else Text.trimRight (· == '/') p

/-- The path before the last name, and that name (`os.path.split`); the name is empty after a slash. -/
def headTail (p : Text) : Text × Text := (dropSlashes (cutLastSlash p).1, (cutLastSlash p).2)

/-- The path before the last name (`os.path.dirname`). -/
def parent (p : Text) : Text := (headTail p).1

/-- The path before the last name, and that name, when slashes at the end are not counted
(`os.makedirs`, its `head` and `tail`). -/
def headName (p : Text) : Text × Text :=
  if (headTail p).2 = [] then headTail (headTail p).1 else headTail p

/-- The names of a path in order, without empty ones. -/
def names (p : Text) : List Text := (p.splitOn '/').filter fun n => !n.isEmpty

/-- The path of some names, from the root on. -/
def ofNames (names : List Text) : Text := '/' :: ['/'].intercalate names

/-- The slashes that a normal path keeps at its start (`os.path.normpath`): none, one, or exactly
two. -/
def rootSlashes (p : Text) : Text :=
  match (p.takeWhile (· == '/')).length with
  | 0 => []
  | 2 => ['/', '/']
  | _ => ['/']

/-- The names that are left, the last one first, when one more name is gone through
(`os.path.normpath`, one turn of its loop). A name is taken away by a following `..`, which itself
stays only where nothing can be taken away; at the root it is dropped. -/
def follow (rooted : Bool) (before : List Text) (name : Text) : List Text :=
  if name.isEmpty || name = here then before
  else if name = up then
    match before with
    | [] => if rooted then [] else [up]
    | last :: rest => if last = up then up :: before else rest
  else name :: before

/-- A path without empty names, `.` and, where possible, `..` (`os.path.normpath`). -/
def normal (p : Text) : Text :=
  let root := rootSlashes p
  let kept := ((p.splitOn '/').foldl (follow !root.isEmpty) []).reverse
  let whole := root ++ ['/'].intercalate kept
  if whole.isEmpty then here else whole

/-- The normal path from the root, for a path that starts at the folder `cwd` (`os.path.abspath`). -/
def absolute (cwd p : Text) : Text := normal (join cwd p)

/-- How many names two lists have in common at their start (`os.path.commonprefix`). -/
def commonLength : List Text → List Text → Nat
  | a :: as, b :: bs => if a = b then commonLength as bs + 1 else 0
  | _, _ => 0

/-- The way from one folder to a path, both given by their names from the root. -/
def relativeNames (base p : List Text) : List Text :=
  let common := commonLength base p
  List.replicate (base.length - common) up ++ p.drop common

/-- The way from the folder `base` to a path, both normal and from the root (`os.path.relpath`). -/
def relative (base p : Text) : Text :=
  let way := relativeNames (names base) (names p)
  if way.isEmpty then here else ['/'].intercalate way

/-- A last name without its extension: what stands before its last dot, if anything but dots
does. -/
def nameStem (name : Text) : Text :=
  let stem := (Text.trimRight (· != '.') name).dropLast
  if stem.all (· == '.') then name else stem

/-- A path without the extension of its last name (`posixpath.splitext`). -/
def dropExtension (p : Text) : Text := (cutLastSlash p).1 ++ nameStem (cutLastSlash p).2

theorem trimRight_append_takeWhile (f : Char → Bool) (p : Text) :
    Text.trimRight f p ++ (p.reverse.takeWhile f).reverse = p := by
  rw [Text.trimRight, ← List.reverse_append, List.takeWhile_append_dropWhile, List.reverse_reverse]

theorem cutLastSlash_append (p : Text) : (cutLastSlash p).1 ++ (cutLastSlash p).2 = p :=
  trimRight_append_takeWhile _ p

theorem length_trimRight_le (f : Char → Bool) (p : Text) :
    (Text.trimRight f p).length ≤ p.length := by
  have h := congrArg List.length (trimRight_append_takeWhile f p)
  simp only [List.length_append] at h
  omega

theorem length_dropSlashes_le (p : Text) : (dropSlashes p).length ≤ p.length := by
  unfold dropSlashes
  split
  · exact Nat.le_refl _
  · exact length_trimRight_le _ p

/-- The head is shorter than the path when there is a last name. -/
theorem length_headTail_lt {p : Text} (h : (headTail p).2 ≠ []) :
    (headTail p).1.length < p.length := by
  have hcut := congrArg List.length (cutLastSlash_append p)
  have hle := length_dropSlashes_le (cutLastSlash p).1
  have hpos : 0 < (cutLastSlash p).2.length := List.length_pos_iff.mpr h
  simp only [List.length_append] at hcut
  show (dropSlashes (cutLastSlash p).1).length < p.length
  omega

theorem length_headTail_le (p : Text) : (headTail p).1.length ≤ p.length := by
  have hcut := congrArg List.length (cutLastSlash_append p)
  have hle := length_dropSlashes_le (cutLastSlash p).1
  simp only [List.length_append] at hcut
  show (dropSlashes (cutLastSlash p).1).length ≤ p.length
  omega

theorem length_headName_lt {p : Text} (h : (headName p).2 ≠ []) :
    (headName p).1.length < p.length := by
  unfold headName at h ⊢
  split at h
  · rename_i htail
    rw [if_pos htail]
    exact Nat.lt_of_lt_of_le (length_headTail_lt h) (length_headTail_le p)
  · rename_i htail
    rw [if_neg htail]
    exact length_headTail_lt h

end LessonPages.Path
