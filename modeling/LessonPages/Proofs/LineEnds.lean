import LessonPages.Proofs.Lines
import LessonPages.Proofs.OwnPages

/-!
# How lines end

A line of a lesson ends with a newline, or with a carriage return and a newline; the last one may have
no end. The lines do not tell which it was, and so neither does the page: it is the same for a text in
memory with its carriage returns and for a file, which is read without them.

* `LineEnd`, `Text.endLines` — lines put together, each with its own end; `Text.lines_endLines_append` —
  the lines are found again.
* `Text.ReturnsPaired`, `Text.unifyPairs` — carriage returns that belong to the end of a line.
* `lineEnds_alike` — what the ends of lines do not change.
-/

namespace LessonPages

/-- The two ways in which a line ends. -/
inductive LineEnd where
  | newline
  | returnNewline
  deriving DecidableEq, Repr

/-- The characters at the end of a line. -/
def LineEnd.text : LineEnd → Text
  | .newline => ['\n']
  | .returnNewline => ['\r', '\n']

namespace Text

variable {t line last : Text} {ls : List (Text × LineEnd)}

/-- What can be a line: a text without newlines that does not end in a carriage return. -/
structure IsLine (line : Text) : Prop where
  no_newline : '\n' ∉ line
  no_return : line.getLast? ≠ some '\r'

instance decidableIsLine (line : Text) : Decidable (IsLine line) :=
  decidable_of_iff ('\n' ∉ line ∧ line.getLast? ≠ some '\r')
    ⟨fun ⟨hnewline, hreturn⟩ => ⟨hnewline, hreturn⟩, fun h => ⟨h.no_newline, h.no_return⟩⟩

theorem isLine_nil : IsLine [] := ⟨List.not_mem_nil, by simp⟩

theorem IsLine.cons (h : IsLine line) {c : Char} (hnewline : c ≠ '\n') (hreturn : c ≠ '\r') :
    IsLine (c :: line) := by
  refine ⟨by simp [h.no_newline, Ne.symm hnewline], ?_⟩
  cases line with
  | nil => simpa using hreturn
  | cons next line => simpa using h.no_return

/-- Lines put together, each with its end. -/
def endLines (ls : List (Text × LineEnd)) : Text := ls.flatMap fun l => l.1 ++ l.2.text

@[simp] theorem endLines_nil : endLines [] = [] := rfl

@[simp] theorem endLines_cons (line : Text) (ending : LineEnd) (ls : List (Text × LineEnd)) :
    endLines ((line, ending) :: ls) = line ++ ending.text ++ endLines ls := rfl

/-! ## Lines and their ends -/

theorem dropReturn_of_isLine (h : IsLine line) : dropReturn line = line := by
  rw [dropReturn, if_neg h.no_return]

/-- A text that ends with a newline and has no other one is one line. -/
theorem lines_append_newline (h : '\n' ∉ t) : lines (t ++ ['\n']) = [dropReturn t] := by
  have hsplit : (t ++ ['\n']).splitOn '\n' = [t, []] := by
    rw [List.splitOn_append_cons_self, List.splitOn_eq_singleton h]
    rfl
  rw [lines, hsplit]
  rfl

theorem lines_append_text (h : IsLine line) (ending : LineEnd) : lines (line ++ ending.text) = [line] := by
  cases ending with
  | newline =>
    rw [LineEnd.text, lines_append_newline h.no_newline, dropReturn_of_isLine h]
  | returnNewline =>
    have hnewline : '\n' ∉ line ++ ['\r'] := by simp [h.no_newline]
    have hdrop : dropReturn (line ++ ['\r']) = line := by simp [dropReturn]
    rw [LineEnd.text, List.append_cons, lines_append_newline hnewline, hdrop]

theorem endsLine_append_text (line : Text) (ending : LineEnd) : (line ++ ending.text).EndsLine := by
  right
  cases ending <;> simp [LineEnd.text]

/-- **The lines of a text are those that it was put together from, however each of them ends.** What
stands behind the last end is a line too, unless it is empty. -/
theorem lines_endLines_append (hls : ∀ l ∈ ls, IsLine l.1) (hlast : IsLine last) :
    lines (endLines ls ++ last) = ls.map (·.1) ++ if last = [] then [] else [last] := by
  induction ls with
  | nil =>
    rw [endLines_nil, List.nil_append, List.map_nil, List.nil_append]
    split
    · rename_i hnil
      rw [hnil, lines_nil]
    · rename_i hne
      rw [lines_of_not_mem hne hlast.no_newline, dropReturn_of_isLine hlast]
  | cons l ls ih =>
    obtain ⟨line, ending⟩ := l
    obtain ⟨hline, hls⟩ := List.forall_mem_cons.mp hls
    rw [endLines_cons, List.append_assoc, lines_append (endsLine_append_text line ending),
      lines_append_text hline, ih hls]
    rfl

/-! ## Carriage returns -/

/-- Whether every carriage return stands right before a newline. -/
def ReturnsPaired (t : Text) : Prop := ∀ front rest, t = front ++ '\r' :: rest → ∃ more, rest = '\n' :: more

/-- A text in which every pair of a carriage return and a newline is one newline. -/
def unifyPairs : Text → Text
  | [] => []
  | '\r' :: '\n' :: rest => '\n' :: unifyPairs rest
  | c :: rest => c :: unifyPairs rest

theorem returnsPaired_cons {c : Char} :
    ReturnsPaired (c :: t) ↔ (c = '\r' → t.head? = some '\n') ∧ ReturnsPaired t := by
  constructor
  · intro h
    refine ⟨?_, fun front rest heq => h (c :: front) rest (by rw [heq]; rfl)⟩
    rintro rfl
    obtain ⟨more, rfl⟩ := h [] t rfl
    rfl
  · rintro ⟨hfirst, h⟩ front rest heq
    cases front with
    | nil =>
      obtain ⟨rfl, rfl⟩ := List.cons.inj heq
      exact List.head?_eq_some_iff.mp (hfirst rfl)
    | cons _ front => exact h front rest (List.cons.inj heq).2

instance decidableReturnsPaired : (t : Text) → Decidable (ReturnsPaired t)
  | [] => .isTrue fun front rest heq => by simp at heq
  | _ :: t =>
    have := decidableReturnsPaired t
    decidable_of_iff _ returnsPaired_cons.symm

theorem ReturnsPaired.tail {c : Char} (h : ReturnsPaired (c :: t)) : ReturnsPaired t :=
  (returnsPaired_cons.mp h).2

/-- A character that begins no pair is no carriage return. -/
theorem ReturnsPaired.ne_return {c : Char} (h : ReturnsPaired (c :: t))
    (hpair : ∀ rest, c = '\r' → t = '\n' :: rest → False) : c ≠ '\r' := by
  intro hreturn
  obtain ⟨more, hmore⟩ := List.head?_eq_some_iff.mp ((returnsPaired_cons.mp h).1 hreturn)
  exact hpair more hreturn hmore

/-- **Where carriage returns stand before newlines only, they are all that is read as something else.** -/
theorem unifyNewlines_eq_unifyPairs (h : ReturnsPaired t) : unifyNewlines t = unifyPairs t := by
  fun_induction unifyPairs t with
  | case1 => rfl
  | case2 rest ih => rw [unifyNewlines, ih h.tail.tail]
  | case3 c rest hpair ih =>
    have hreturn := h.ne_return hpair
    rw [unifyNewlines, ih h.tail]
    · exact hpair
    · exact hreturn

/-- Such a text is made of lines with their ends, and one newline for each pair gives each line the same
end. -/
theorem exists_endLines (h : ReturnsPaired t) : ∃ ls last, (∀ l ∈ ls, IsLine l.1) ∧ IsLine last ∧
    t = endLines ls ++ last ∧
    unifyPairs t = endLines (ls.map fun l => (l.1, LineEnd.newline)) ++ last := by
  fun_induction unifyPairs t with
  | case1 => exact ⟨[], [], by simp, isLine_nil, rfl, rfl⟩
  | case2 rest ih =>
    obtain ⟨ls, last, hls, hlast, hrest, hunified⟩ := ih h.tail.tail
    refine ⟨([], .returnNewline) :: ls, last, ?_, hlast, ?_, ?_⟩
    · exact List.forall_mem_cons.mpr ⟨isLine_nil, hls⟩
    · simp [LineEnd.text, ← hrest]
    · simp [LineEnd.text, hunified]
  | case3 c rest hpair ih =>
    obtain ⟨ls, last, hls, hlast, hrest, hunified⟩ := ih h.tail
    by_cases hnewline : c = '\n'
    · subst hnewline
      refine ⟨([], .newline) :: ls, last, ?_, hlast, ?_, ?_⟩
      · exact List.forall_mem_cons.mpr ⟨isLine_nil, hls⟩
      · simp [LineEnd.text, ← hrest]
      · simp [LineEnd.text, hunified]
    · -- any other character goes in front of the first line
      have hreturn := h.ne_return hpair
      cases ls with
      | nil =>
        refine ⟨[], c :: last, hls, hlast.cons hnewline hreturn, ?_, ?_⟩
        · simp [hrest]
        · simp [hunified]
      | cons first ls =>
        obtain ⟨line, ending⟩ := first
        obtain ⟨hline, hls⟩ := List.forall_mem_cons.mp hls
        refine ⟨(c :: line, ending) :: ls, last, ?_, hlast, ?_, ?_⟩
        · exact List.forall_mem_cons.mpr ⟨hline.cons hnewline hreturn, hls⟩
        · simp [hrest]
        · simp [hunified]

/-- One newline for each pair changes no line. -/
theorem lines_unifyPairs (h : ReturnsPaired t) : lines (unifyPairs t) = lines t := by
  obtain ⟨ls, last, hls, hlast, ht, hunified⟩ := exists_endLines h
  have hsame : ∀ l ∈ ls.map fun l => (l.1, LineEnd.newline), IsLine l.1 := by
    intro l hl
    obtain ⟨old, hold, rfl⟩ := List.mem_map.mp hl
    exact hls old hold
  rw [hunified, lines_endLines_append hsame hlast, ht, lines_endLines_append hls hlast, List.map_map]
  rfl

end Text

open Text

/-- **How lines end does not matter.** A text put together from lines, each with an end of its own, has
these lines. Where every carriage return stands before a newline, the page is the same with one newline
for each such pair; a file with that text is read as the text with the newlines, and is converted to the
page of the text as it stands in the file. -/
theorem lineEnds_alike :
    (∀ (ls : List (Text × LineEnd)) (last : Text), (∀ l ∈ ls, IsLine l.1) → IsLine last →
      lines (endLines ls ++ last) = ls.map (·.1) ++ if last = [] then [] else [last]) ∧
    ∀ text, ReturnsPaired text →
      (∀ language, Page.ofLesson language text = Page.ofLesson language (unifyPairs text)) ∧
      ∀ (d : Disk) (s : Settings) (lesson : Text) (bytes : Utf8.Bytes),
        d.read (s.lessonPath lesson) = .ok bytes → Utf8.decode bytes = .ok text →
        d.readText (s.lessonPath lesson) = .ok (unifyPairs text) ∧
          convertFile d s lesson =
            (d.writeInFolder (Path.parent (s.pagePath lesson)) (s.pagePath lesson)
              (Page.ofLesson s.language text)).map id
                (Except.map fun _ => pageName s.extension lesson) := by
  refine ⟨fun _ _ => lines_endLines_append, ?_⟩
  intro text htext
  have hpage : ∀ language, Page.ofLesson language text = Page.ofLesson language (unifyPairs text) := by
    intro language
    rw [Page.ofLesson, Page.ofLesson, classify, classify, lines_unifyPairs htext]
  refine ⟨hpage, ?_⟩
  intro d s lesson bytes hbytes hdecode
  have hread : d.readText (s.lessonPath lesson) = .ok (unifyPairs text) := by
    unfold Disk.readText
    rw [hbytes]
    simp only [hdecode, unifyNewlines_eq_unifyPairs htext]
  refine ⟨hread, ?_⟩
  rw [Settings.lessonPath] at hread
  rw [hpage, Settings.pagePath]
  simp only [convertFile, hread]
  split
  · rename_i heq
    rw [heq]
    rfl
  · rename_i heq
    rw [heq]
    rfl

/-- A disk with a lesson in the folder `/T/src` whose lines end in different ways, the last one in none. -/
def mixedEnds : Disk :=
  ⟨.folder "T".toList (.folder "src".toList
    (.file "a.ts".toList (Utf8.encode "// a\r\n\nb\r\nc".toList) .empty) .empty) .empty, ["T".toList]⟩

theorem lineEnds_alike_mixedEnds :
    mixedEnds.readText (usualRoots.lessonPath "a.ts".toList) = .ok "// a\n\nb\nc".toList ∧
      lines "// a\r\n\nb\r\nc".toList = ["// a".toList, [], "b".toList, "c".toList] := by
  obtain ⟨hlines, htexts⟩ := lineEnds_alike
  obtain ⟨-, hfiles⟩ := htexts "// a\r\n\nb\r\nc".toList (by decide)
  obtain ⟨hread, -⟩ := hfiles mixedEnds usualRoots "a.ts".toList (Utf8.encode "// a\r\n\nb\r\nc".toList)
    (by decide +kernel) (by decide +kernel)
  refine ⟨hread, ?_⟩
  exact hlines [("// a".toList, .returnNewline), ([], .newline), ("b".toList, .returnNewline)] "c".toList
    (by decide) (by decide)

end LessonPages
