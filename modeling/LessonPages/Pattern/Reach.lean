import LessonPages.Pattern.Basic

/-!
# Reach

How parts are matched against a text in one pass for each part, whatever the pattern: instead of
trying one way after another, all places that the parts read so far can lead to are kept at once.

* `Marks.anyFrom` — what marks mean: whether a property holds of the text from some marked place on.
* `Part.reach` — the places that a part leads to from the marked ones.
* `Part.reachAll` — whether parts match one after another, from some marked place on.
* `Part.reachAll_eq` — this is what `Part.runAll` says.
-/

namespace LessonPages

/-- Marks on the places of a text, from its start on: one for the place before each character and
one for the end. Places behind the last mark are not marked. -/
abbrev Marks := List Bool

namespace Marks

/-- Whether a property holds of a text from some marked place on. -/
def anyFrom (f : Text → Bool) : Text → Marks → Bool
  | _, [] => false
  | t, b :: rest => (b && f t) || anyFrom f t.tail rest

/-- Marks with one more in front. Unmarked places at the end are left out. -/
def push : Bool → Marks → Marks
  | false, [] => []
  | b, m => b :: m

/-- The places marked in the one or in the other. -/
def or : Marks → Marks → Marks
  | [], n => n
  | m, [] => m
  | a :: m, b :: n => (a || b) :: or m n

/-- The marked places in front of an allowed character. -/
def beforeOne (allowed : Char → Bool) : Text → Marks → Marks
  | c :: cs, b :: m => push (b && allowed c) (beforeOne allowed cs m)
  | _, _ => []

/-- The places that one allowed character leads to from the marked ones. -/
def afterOne (allowed : Char → Bool) (t : Text) (m : Marks) : Marks :=
  push false (beforeOne allowed t m)

/-- The places that a slash leads to from the marked ones. -/
def afterSlash (t : Text) (m : Marks) : Marks := afterOne (· == '/') t m

/-- Goes on with a run of allowed characters; `opened` says that one leads to the start of the text. -/
def extendRun (allowed : Char → Bool) (opened : Bool) : Text → Marks → Marks
  | [], m => [opened || m.any id]
  | c :: cs, [] => if opened then true :: extendRun allowed (allowed c) cs [] else []
  | c :: cs, b :: m => (opened || b) :: extendRun allowed ((opened || b) && allowed c) cs m

/-- The places that a run of allowed characters leads to from the marked ones. -/
def afterRun (allowed : Char → Bool) (t : Text) (m : Marks) : Marks := extendRun allowed false t m

/-- The marked places behind which nothing is left but perhaps one newline. -/
def atEnd : Text → Marks → Marks
  | _, [] => []
  | t, b :: rest => push (b && Part.atEnd t) (atEnd t.tail rest)

/-- A text from its first marked place on, with the marks from there on. -/
def trim : Text → Marks → Text × Marks
  | t, [] => (t, [])
  | t, false :: rest => trim t.tail rest
  | t, true :: rest => (t, true :: rest)

@[simp] theorem anyFrom_nil (f : Text → Bool) (t : Text) : anyFrom f t [] = false := rfl

@[simp] theorem anyFrom_singleton_true (f : Text → Bool) (t : Text) : anyFrom f t [true] = f t := by
  simp [anyFrom]

@[simp] theorem anyFrom_push (f : Text → Bool) (t : Text) (b : Bool) (m : Marks) :
    anyFrom f t (push b m) = ((b && f t) || anyFrom f t.tail m) := by
  cases b <;> cases m <;> simp [push, anyFrom]

theorem anyFrom_of_nil (f : Text → Bool) (m : Marks) : anyFrom f [] m = (m.any id && f []) := by
  induction m with
  | nil => rfl
  | cons b rest ih =>
    show ((b && f []) || anyFrom f [] rest) = _
    rw [ih]
    cases b <;> cases f [] <;> simp

theorem anyFrom_or (f : Text → Bool) (t : Text) (m n : Marks) :
    anyFrom f t (or m n) = (anyFrom f t m || anyFrom f t n) := by
  induction m generalizing t n with
  | nil => simp [or]
  | cons a m ih =>
    cases n with
    | nil => simp [or]
    | cons b n =>
      simp only [or, anyFrom, ih]
      cases a <;> cases b <;> cases f t <;> simp

theorem anyFrom_beforeOne (allowed : Char → Bool) (f : Text → Bool) (t : Text) (m : Marks) :
    anyFrom f t.tail (beforeOne allowed t m) = anyFrom (Part.afterOne allowed f) t m := by
  induction t generalizing m with
  | nil => simp [anyFrom_of_nil, beforeOne, Part.afterOne]
  | cons c cs ih =>
    cases m with
    | nil => rfl
    | cons b m =>
      simp only [beforeOne, anyFrom_push, List.tail_cons, anyFrom, ih, Part.afterOne]
      cases b <;> simp

theorem anyFrom_afterOne (allowed : Char → Bool) (f : Text → Bool) (t : Text) (m : Marks) :
    anyFrom f t (afterOne allowed t m) = anyFrom (Part.afterOne allowed f) t m := by
  simp [afterOne, anyFrom_beforeOne]

theorem anyFrom_afterSlash (f : Text → Bool) (t : Text) (m : Marks) :
    anyFrom f t (afterSlash t m) = anyFrom (Part.afterSlash f) t m :=
  anyFrom_afterOne _ f t m

theorem anyFrom_extendRun (allowed : Char → Bool) (f : Text → Bool) (opened : Bool) (t : Text)
    (m : Marks) :
    anyFrom f t (extendRun allowed opened t m) =
      ((opened && Part.afterRun allowed f t) || anyFrom (Part.afterRun allowed f) t m) := by
  induction t generalizing opened m with
  | nil =>
    simp only [extendRun, anyFrom_of_nil, Part.afterRun]
    cases opened <;> simp
  | cons c cs ih =>
    cases m with
    | nil => cases opened <;> simp [extendRun, anyFrom, ih, Part.afterRun]
    | cons b m =>
      simp only [extendRun, anyFrom, ih, Part.afterRun, List.tail_cons]
      cases opened <;> cases b <;> cases f (c :: cs) <;> simp

theorem anyFrom_afterRun (allowed : Char → Bool) (f : Text → Bool) (t : Text) (m : Marks) :
    anyFrom f t (afterRun allowed t m) = anyFrom (Part.afterRun allowed f) t m := by
  simp [afterRun, anyFrom_extendRun]

theorem anyFrom_atEnd (f : Text → Bool) (t : Text) (m : Marks) :
    anyFrom f t (atEnd t m) = anyFrom (fun s => Part.atEnd s && f s) t m := by
  induction m generalizing t with
  | nil => rfl
  | cons b rest ih => simp [atEnd, anyFrom, ih, Bool.and_assoc]

theorem anyFrom_trim (f : Text → Bool) (t : Text) (m : Marks) :
    anyFrom f (trim t m).1 (trim t m).2 = anyFrom f t m := by
  induction m generalizing t with
  | nil => rfl
  | cons b rest ih =>
    cases b with
    | false => simpa [trim, anyFrom] using ih t.tail
    | true => rfl

theorem anyFrom_or_fun (f g : Text → Bool) (t : Text) (m : Marks) :
    anyFrom (fun s => f s || g s) t m = (anyFrom f t m || anyFrom g t m) := by
  induction m generalizing t with
  | nil => rfl
  | cons b rest ih =>
    simp only [anyFrom, ih]
    cases b <;> cases f t <;> cases g t <;> simp

end Marks

namespace Part

/-- The places that the part leads to from the marked ones. -/
def reach (t : Text) (m : Marks) : Part → Marks
  | .leadingFolders =>
    m.or (Marks.afterSlash t (Marks.afterRun (· != '\n') t (Marks.afterOne (· != '\n') t m)))
  | .innerFolders =>
    m.or (Marks.afterRun (· != '\n') t (Marks.afterOne (· != '\n') t (Marks.afterSlash t m)))
  | .slash => Marks.afterSlash t m
  | .name => Marks.afterRun (· != '/') t (Marks.afterOne (· != '/') t m)
  | .atom (.literal c) => Marks.afterOne (· == c) t m
  | .atom .anyChar => Marks.afterOne (· != '/') t m
  | .atom .anyRun => Marks.afterRun (· != '/') t m
  | .atom (.oneOf negated items) => Marks.afterOne (fun c => items.any (·.has c) != negated) t m
  | .ending => (Marks.afterSlash t m).or (Marks.atEnd t m)

/-- Whether parts match one after another, from some marked place of a text on. -/
def reachAll : List Part → Text → Marks → Bool
  | [], _, m => m.any id
  | part :: rest, t, m =>
    match Marks.trim t (part.reach t m) with
    | (_, []) => false
    | (t', m') => reachAll rest t' m'

theorem anyFrom_reach (next : Text → Bool) (part : Part) (t : Text) (m : Marks) :
    Marks.anyFrom next t (part.reach t m) = Marks.anyFrom (part.run next) t m := by
  rcases part with _ | _ | _ | _ | a | _
  case atom =>
    cases a <;> simp only [reach, Marks.anyFrom_afterOne, Marks.anyFrom_afterRun] <;> rfl
  all_goals
    simp only [reach, Marks.anyFrom_or, Marks.anyFrom_afterSlash, Marks.anyFrom_afterRun, Marks.anyFrom_afterOne,
      Marks.anyFrom_atEnd, ← Marks.anyFrom_or_fun]
    rfl

theorem reachAll_eq (parts : List Part) (t : Text) (m : Marks) :
    reachAll parts t m = Marks.anyFrom (runAll parts) t m := by
  induction parts generalizing t m with
  | nil =>
    show m.any id = _
    induction m generalizing t with
    | nil => rfl
    | cons b rest ih =>
      show (b || rest.any id) = ((b && true) || Marks.anyFrom (runAll []) t.tail rest)
      rw [ih t.tail, Bool.and_true]
  | cons part rest ih =>
    have h : Marks.anyFrom (runAll (part :: rest)) t m =
        Marks.anyFrom (runAll rest) (Marks.trim t (part.reach t m)).1
          (Marks.trim t (part.reach t m)).2 := by
      rw [Marks.anyFrom_trim, anyFrom_reach]
      rfl
    rw [h, reachAll]
    split
    · rename_i heq
      simp [heq]
    · rename_i heq
      rw [ih, heq]

end Part

end LessonPages
