import Mathlib.Data.List.Induction
import LessonPages.Proofs.BlockLines
import LessonPages.Proofs.Shape

/-!
# The states between two lines

Not every state of the classifier comes up between the lines of a lesson: one that holds code inside
of a block comment, or a comment outside of one, would give out blocks that no lesson has. `Shaped` is
kept by every step. Here it is shown to leave nothing out: each state of that shape comes up behind
some lines. What it leaves open, the request for a link, is read off the lines that were taken.

* `LinkAsked` — a marker stands behind the last line that ends code.
* `Classifier.linked_step`, `Classifier.linked_run_start` — how one step moves the request for a link,
  and when it is there behind any lines.
* `Classifier.history`, `Classifier.Shaped.run_history` — lines that lead to a given state.
* `Classifier.states_reached` — the states that come up are those of the right shape.
-/

namespace LessonPages

/-- A link is asked for and no code has ended since: behind some marker there is no cut line. -/
def LinkAsked (lines : List Text) : Prop :=
  ∃ before marker after, lines = before ++ marker :: after ∧ isMarkerLine marker = true ∧
    ∀ line ∈ after, isCutLine line = false

namespace LinkAsked

theorem not_nil : ¬ LinkAsked [] := by
  rintro ⟨before, marker, after, hsplit, -⟩
  simp at hsplit

/-- The last line asks for a link, or leaves alone what the lines before it asked for. -/
theorem snoc_iff {lines : List Text} {last : Text} :
    LinkAsked (lines ++ [last]) ↔
      isMarkerLine last = true ∨ LinkAsked lines ∧ isCutLine last = false := by
  constructor
  · rintro ⟨before, marker, after, hsplit, hmarker, hafter⟩
    -- the last line is the marker itself, or the last of the lines behind it
    rcases List.eq_nil_or_concat after with rfl | ⟨after, x, rfl⟩
    · obtain ⟨-, hlast⟩ := List.append_inj' hsplit rfl
      obtain rfl := List.singleton_inj.mp hlast
      exact .inl hmarker
    · rw [List.concat_eq_append, ← List.cons_append, ← List.append_assoc] at hsplit
      obtain ⟨hlines, hlast⟩ := List.append_inj' hsplit rfl
      obtain rfl := List.singleton_inj.mp hlast
      rw [List.concat_eq_append] at hafter
      refine .inr ⟨⟨before, marker, after, hlines, hmarker, ?_⟩, hafter last (by simp)⟩
      exact fun line hline => hafter line (List.mem_append_left _ hline)
  · rintro (hmarker | ⟨⟨before, marker, after, rfl, hmarker, hafter⟩, hlast⟩)
    · exact ⟨lines, last, [], rfl, hmarker, by simp⟩
    · refine ⟨before, marker, after ++ [last], by simp, hmarker, ?_⟩
      intro line hline
      rcases List.mem_append.mp hline with hline | hline
      · exact hafter line hline
      · rwa [List.mem_singleton.mp hline]

end LinkAsked

namespace Classifier

variable {s : Classifier} {P : Text → Prop}

/-! ## The request for a link -/

/-- A marker asks for a link, and a line that ends code spends the request. -/
theorem linked_step (s : Classifier) (line : Text) :
    (s.step line).1.linked = (isMarkerLine line || (s.linked && !isCutLine line)) := by
  rw [LineKind.isMarkerLine_eq, ← LineKind.cuts_of, step]
  cases LineKind.of line with
  | marker | lineComment | commentStart => simp [flush, LineKind.cuts]
  | plain =>
    cases s.mode with
    | code => simp [LineKind.cuts]
    | blockComment =>
      simp only
      split <;> simp [LineKind.cuts]

theorem linked_run_start (lines : List Text) :
    (start.run lines).1.linked = true ↔ LinkAsked lines := by
  induction lines using List.reverseRecOn with
  | nil => simp [start, LinkAsked.not_nil]
  | append_singleton lines last ih =>
    have hstep : (start.run (lines ++ [last])).1 = ((start.run lines).1.step last).1 := by
      rw [run_append]
      rfl
    rw [hstep, linked_step, LinkAsked.snoc_iff, ← ih]
    simp

/-! ## What is held -/

/-- What holds of the lines that are taken, stripped or not, holds of those that are held. -/
theorem Holds.run (hstrip : ∀ l, P l → P l.strip) (h : s.Holds P) {lines : List Text}
    (hlines : ∀ line ∈ lines, P line) : (s.run lines).1.Holds P := by
  induction lines generalizing s with
  | nil => exact h
  | cons line rest ih =>
    have hheld := (step_has hstrip h (hlines line List.mem_cons_self)).2
    exact ih hheld fun l hl => hlines l (List.mem_cons_of_mem _ hl)

theorem shaped_iff :
    s.Shaped ↔
      (s.mode = .blockComment ↔ s.comment ≠ []) ∧
        (s.mode = .blockComment → s.code = []) ∧
        (∀ first ∈ s.comment.head?, commentOpener <+: first) ∧
        (∀ line ∈ s.comment, line.strip = line ∧ ¬ commentCloser <:+ line) ∧
        ∀ line ∈ s.code, ¬ lineCommentMark <+: line ∧ ¬ commentOpener <+: line.strip := by
  constructor
  · intro h
    cases hmode : s.mode with
    | code =>
      rw [h.comment_nil hmode]
      exact ⟨by simp, fun hcomment => (by cases hcomment), by simp, by simp, h.code⟩
    | blockComment =>
      have hopen := h.comment hmode
      obtain ⟨first, rest, hfirst, hopener⟩ := hopen.opened
      refine ⟨by simp [hopen.ne_nil], fun _ => h.code_nil hmode, ?_, ?_, h.code⟩
      · rw [hfirst]
        rintro l ⟨⟩
        exact hopener
      · exact fun line hline => ⟨hopen.stripped line hline, hopen.unclosed line hline⟩
  · rintro ⟨hmode, hcode, hfirst, hheld, hplain⟩
    refine ⟨⟨?_, hcode⟩, ?_, hplain⟩
    · intro hincode
      by_contra hne
      rw [hmode.mpr hne] at hincode
      cases hincode
    · intro hcomment
      obtain ⟨first, rest, hcons⟩ := List.exists_cons_of_ne_nil (hmode.mp hcomment)
      exact ⟨⟨first, rest, hcons, hfirst first (by rw [hcons]; rfl)⟩,
        fun line hline => (hheld line hline).1, fun line hline => (hheld line hline).2⟩

/-! ## Lines that lead to a state -/

/-- Lines that lead to a state: the code that it holds, the lines of its comment, and a marker if it
asks for a link. A blank goes before each line of the comment, so that none is a line comment. -/
def history (s : Classifier) : List Text :=
  s.code ++ s.comment.map (' ' :: ·) ++ if s.linked then [linkMarker] else []

/-- Plain lines add up to the code. -/
theorem run_plain {lines : List Text} (hlines : ∀ line ∈ lines, LineKind.of line = .plain)
    (code : List Text) :
    ((⟨.code, [], code, false⟩ : Classifier).run lines).1 = ⟨.code, [], code ++ lines, false⟩ := by
  induction lines generalizing code with
  | nil => rw [run_nil, List.append_nil]
  | cons line rest ih =>
    have hstep : ((⟨.code, [], code, false⟩ : Classifier).step line).1 =
        ⟨.code, [], code ++ [line], false⟩ := by
      simp only [step, hlines line List.mem_cons_self]
    rw [run, hstep, ih fun l hl => hlines l (List.mem_cons_of_mem _ hl), List.append_assoc]
    rfl

theorem strip_blank_cons {line : Text} (h : line.strip = line) :
    Text.strip (' ' :: line) = line := by
  have hblank : isBlank ' ' = true := by decide
  rw [Text.strip, List.dropWhile_cons, if_pos hblank]
  exact h

/-- Behind a blank, a line of an open comment stands for itself: it opens the comment, or goes on
with it if one is open. -/
theorem step_indented {line : Text} (hstrip : line.strip = line) (hcloser : ¬ commentCloser <:+ line)
    {mode : Mode} (hmode : commentOpener <+: line ∨ mode = .blockComment) (comment : List Text) :
    ((⟨mode, comment, [], false⟩ : Classifier).step (' ' :: line)).1 =
      ⟨.blockComment, comment ++ [line], [], false⟩ := by
  have hline := strip_blank_cons hstrip
  by_cases hopener : commentOpener <+: line
  · have hkind : LineKind.of (' ' :: line) = .commentStart := by
      rw [LineKind.of_eq_commentStart_iff, hline]
      exact ⟨hopener, hcloser⟩
    simp only [step, hkind, flush, hline]
  · have hkind : LineKind.of (' ' :: line) = .plain := by
      rw [LineKind.of_eq_plain_iff, hline]
      exact ⟨by simp [lineCommentMark], hopener⟩
    obtain rfl := hmode.resolve_left hopener
    rw [← List.isSuffixOf_iff_suffix] at hcloser
    simp only [step, hkind, hline, if_neg hcloser]

/-- Inside of a block comment, the lines of an open comment add up behind blanks. -/
theorem run_indented {lines : List Text}
    (hlines : ∀ line ∈ lines, line.strip = line ∧ ¬ commentCloser <:+ line) (comment : List Text) :
    ((⟨.blockComment, comment, [], false⟩ : Classifier).run (lines.map (' ' :: ·))).1 =
      ⟨.blockComment, comment ++ lines, [], false⟩ := by
  induction lines generalizing comment with
  | nil => rw [List.map_nil, run_nil, List.append_nil]
  | cons line rest ih =>
    obtain ⟨hstrip, hcloser⟩ := hlines line List.mem_cons_self
    rw [List.map_cons, run, step_indented hstrip hcloser (.inr rfl),
      ih fun l hl => hlines l (List.mem_cons_of_mem _ hl), List.append_assoc]
    rfl

/-- The lines of an open comment lead into it behind blanks. -/
theorem run_unclosed {comment : List Text} (h : IsUnclosed comment) :
    (start.run (comment.map (' ' :: ·))).1 = ⟨.blockComment, comment, [], false⟩ := by
  obtain ⟨first, rest, rfl, hopener⟩ := h.opened
  have hlines : ∀ line ∈ first :: rest, line.strip = line ∧ ¬ commentCloser <:+ line :=
    fun line hline => ⟨h.stripped line hline, h.unclosed line hline⟩
  obtain ⟨hstrip, hcloser⟩ := hlines first List.mem_cons_self
  have hfirst : (start.step (' ' :: first)).1 = ⟨.blockComment, [first], [], false⟩ :=
    step_indented hstrip hcloser (.inl hopener) []
  rw [List.map_cons, run, hfirst]
  exact run_indented (fun line hline => hlines line (List.mem_cons_of_mem _ hline)) [first]

/-- A state of the right shape comes up, whatever it holds and whether or not it asks for a link. -/
theorem Shaped.run_history (h : s.Shaped) : (start.run s.history).1 = s := by
  obtain ⟨mode, comment, code, linked⟩ := s
  -- only one of the two buffers is filled, so its lines alone lead to the state without the request
  have hheld : (start.run (code ++ comment.map (' ' :: ·))).1 = ⟨mode, comment, code, false⟩ := by
    cases mode with
    | code =>
      obtain rfl : comment = [] := h.comment_nil rfl
      rw [List.map_nil, List.append_nil]
      exact run_plain (fun line hline => LineKind.of_eq_plain_iff.mpr (h.code line hline)) []
    | blockComment =>
      obtain rfl : code = [] := h.code_nil rfl
      exact run_unclosed (h.comment rfl)
  have hmarker : LineKind.of linkMarker = .marker := by decide
  rw [history, run_append, hheld]
  cases linked with
  | false => rfl
  | true => simp [Classifier.run, Classifier.step, hmarker]

/-- A line of an open comment may look like a line comment, as long as it is indented. -/
example : (start.run ["/* a".toList, "  // b".toList, linkMarker]).1 =
    ⟨.blockComment, ["/* a".toList, "// b".toList], [], true⟩ := by decide

theorem newline_not_mem_history (h : s.Holds ('\n' ∉ ·)) : ∀ line ∈ s.history, '\n' ∉ line := by
  intro line hline
  rcases List.mem_append.mp hline with hline | hline
  · rcases List.mem_append.mp hline with hline | hline
    · exact h.code line hline
    · obtain ⟨held, hheld, rfl⟩ := List.mem_map.mp hline
      simpa using h.comment held hheld
  · split at hline
    · rw [List.mem_singleton.mp hline]
      decide
    · cases hline

/-! ## The states that come up -/

/-- **The states between two lines.** Behind lines without newlines the classifier is in a block comment
exactly if it holds lines of one, and then it holds no code; the first of these lines opens the comment,
all of them are stripped, and none closes it; and no line of the code that it holds starts a comment.
Each such state comes up. A link is asked for exactly if a marker stands behind the last line that ends
code. -/
theorem states_reached :
    (∀ s : Classifier,
      (∃ lines : List Text, (∀ line ∈ lines, '\n' ∉ line) ∧ (start.run lines).1 = s) ↔
        ((s.mode = .blockComment ↔ s.comment ≠ []) ∧
          (s.mode = .blockComment → s.code = []) ∧
          (∀ first ∈ s.comment.head?, commentOpener <+: first) ∧
          (∀ line ∈ s.comment, line.strip = line ∧ ¬ commentCloser <:+ line) ∧
          ∀ line ∈ s.code, ¬ lineCommentMark <+: line ∧ ¬ commentOpener <+: line.strip) ∧
        ∀ line ∈ s.code ++ s.comment, '\n' ∉ line) ∧
      ∀ lines : List Text, (start.run lines).1.linked = true ↔ LinkAsked lines := by
  refine ⟨?_, linked_run_start⟩
  intro s
  rw [← shaped_iff]
  constructor
  · rintro ⟨lines, hlines, rfl⟩
    have hstrip : ∀ line : Text, '\n' ∉ line → '\n' ∉ line.strip :=
      fun line hline hmem => hline (line.strip_subset hmem)
    have hheld : (start.run lines).1.Holds ('\n' ∉ ·) :=
      Holds.run hstrip ⟨by simp [start], by simp [start]⟩ hlines
    refine ⟨(shaped_start.run lines).1, ?_⟩
    intro line hline
    rcases List.mem_append.mp hline with hline | hline
    · exact hheld.code line hline
    · exact hheld.comment line hline
  · rintro ⟨hshaped, hlines⟩
    refine ⟨s.history, newline_not_mem_history ⟨?_, ?_⟩, hshaped.run_history⟩
    · exact fun line hline => hlines line (List.mem_append_left _ hline)
    · exact fun line hline => hlines line (List.mem_append_right _ hline)

end Classifier

end LessonPages
