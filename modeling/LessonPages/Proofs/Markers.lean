import Mathlib.Logic.Function.Iterate
import LessonPages.Proofs.OneLine

/-!
# Markers taken off a line

A pass over a comment line looks for four markers, one after another, each in what the one before it
has left. It takes off nothing but markers and the blanks around them, so prose is never touched. One
pass may bring another marker to the front; passes repeated come to a line without markers.

* `TakesOff` — a pass that shortens exactly the lines that are marked; `TakesOff.comp` — one pass after
  another, `TakesOff.settles` — a pass repeated.
* `Markers`, `exists_markers` — a line is its markers with the prose between them.
* `toProse_takesOff` — a pass shortens exactly the lines with a marker.
* `toProse_settles` — what is left of a line, by one pass and by many.
-/

namespace LessonPages.Comment

variable {line rest : Text}

/-! ## Passes -/

/-- A pass over lines that shortens exactly those that are marked. -/
structure TakesOff (pass : Text → Text) (marked : Text → Prop) : Prop where
  shorter : ∀ {line}, marked line → (pass line).length < line.length
  same : ∀ {line}, ¬ marked line → pass line = line

namespace TakesOff

variable {pass later : Text → Text} {marked other : Text → Prop}

theorem length_le (h : TakesOff pass marked) (line : Text) : (pass line).length ≤ line.length := by
  by_cases hline : marked line
  · exact Nat.le_of_lt (h.shorter hline)
  · rw [h.same hline]

/-- The lines that a pass leaves as they are are those without a mark. -/
theorem eq_self_iff (h : TakesOff pass marked) : pass line = line ↔ ¬ marked line := by
  refine ⟨?_, h.same⟩
  intro heq hline
  have hlt := h.shorter hline
  rw [heq] at hlt
  omega

/-- **A pass after another one shortens the lines that either of them shortens**: the later one sees the
line as it is, unless the earlier one has shortened it already. -/
theorem comp (h : TakesOff pass marked) (hlater : TakesOff later other) :
    TakesOff (fun line => later (pass line)) fun line => marked line ∨ other line := by
  constructor
  · intro line hline
    have hle := hlater.length_le (pass line)
    by_cases hmarked : marked line
    · have hlt := h.shorter hmarked
      omega
    · rw [h.same hmarked]
      exact hlater.shorter (hline.resolve_left hmarked)
  · intro line hline
    rw [not_or] at hline
    rw [h.same hline.1, hlater.same hline.2]

/-- **A pass that is repeated shortens a line every time until no mark is left**, at the latest after as
many times as the line has characters. -/
theorem settles (h : TakesOff pass marked) (line : Text) : ∃ n ≤ line.length,
    (∀ k < n, (pass^[k + 1] line).length < (pass^[k] line).length) ∧
      ¬ marked (pass^[n] line) ∧ ∀ k, n ≤ k → pass^[k] line = pass^[n] line := by
  by_cases hline : marked line
  · have hlt := h.shorter hline
    obtain ⟨n, hn, hshorter, hsettled, hstays⟩ := h.settles (pass line)
    refine ⟨n + 1, by omega, ?_, hsettled, ?_⟩
    · intro k hk
      cases k with
      | zero => exact hlt
      | succ k => exact hshorter k (by omega)
    · intro k hk
      obtain ⟨k, rfl⟩ : ∃ j, k = j + 1 := ⟨k - 1, by omega⟩
      exact hstays k (by omega)
  · refine ⟨0, Nat.zero_le _, by omega, hline, ?_⟩
    intro k _
    exact Function.iterate_fixed (h.same hline) k
termination_by line.length

end TakesOff

/-! ## The four markers -/

/-- An opener, with the indentation before it. -/
inductive IsOpener : Text → Prop where
  | block {before : Text} (hbefore : ∀ c ∈ before, isIndent c = true) : IsOpener (before ++ commentOpener)
  | doc {before : Text} (hbefore : ∀ c ∈ before, isIndent c = true) : IsOpener (before ++ docOpener)

/-- A closer, with the blanks behind it. -/
inductive IsCloser : Text → Prop where
  | block {behind : Text} (hbehind : ∀ c ∈ behind, isIndent c = true) : IsCloser (commentCloser ++ behind)

/-- What may stand behind a closer: nothing, or the newline that ends the line. -/
def IsEnding (ending : Text) : Prop := ending = [] ∨ ending = ['\n']

/-- Whether a line starts with an opener. -/
def Opens (line : Text) : Prop := ∃ opener rest, IsOpener opener ∧ line = opener ++ rest

/-- Whether a line ends with a closer. -/
def Closes (line : Text) : Prop :=
  ∃ front closer ending, IsCloser closer ∧ IsEnding ending ∧ line = front ++ closer ++ ending

/-- Whether one of the four markers stands where it is looked for. -/
def IsMarked (line : Text) : Prop :=
  Opens line ∨ Closes line ∨ lineCommentMark <+: line ∨ ['*'] <+: line

/-! ### The opener -/

theorem dropOpener_eq (line : Text) : ∃ opener, (opener = [] ∨ IsOpener opener) ∧
    line = opener ++ dropOpener line := by
  have hblanks : ∀ c ∈ line.takeWhile isIndent, isIndent c = true := fun c => List.mem_takeWhile_imp
  have hline := List.takeWhile_append_dropWhile (p := isIndent) (l := line)
  unfold dropOpener
  split
  · rename_i rest heq
    refine ⟨_, .inr (.doc hblanks), ?_⟩
    rw [heq] at hline
    simpa [docOpener] using hline.symm
  · rename_i rest _ heq
    refine ⟨_, .inr (.block hblanks), ?_⟩
    rw [heq] at hline
    simpa [commentOpener] using hline.symm
  · exact ⟨[], .inl rfl, rfl⟩

theorem dropOpener_takesOff : TakesOff dropOpener Opens := by
  constructor
  · rintro _ ⟨_, rest, ⟨hbefore⟩ | ⟨hbefore⟩, rfl⟩
    · have hle := length_dropStar_le rest
      rw [dropOpener_append hbefore]
      simp only [commentOpener, List.length_append, List.length_cons, List.length_nil]
      omega
    · rename_i before
      have hsplit : before ++ docOpener ++ rest = before ++ commentOpener ++ ('*' :: rest) := by
        simp [docOpener, commentOpener]
      rw [hsplit, dropOpener_append hbefore]
      simp only [dropStar, commentOpener, List.length_append, List.length_cons, List.length_nil]
      omega
  · intro line hline
    obtain ⟨opener, rfl | hopener, heq⟩ := dropOpener_eq line
    · exact heq.symm
    · exact (hline ⟨opener, _, hopener, heq⟩).elim

/-! ### The closer -/

/-- The first two characters are a closer if nothing but blanks follows, up to the ending. -/
theorem afterCloser?_eq_some_iff : afterCloser? line = some rest ↔
    IsEnding rest ∧ ∃ closer, IsCloser closer ∧ line = closer ++ rest := by
  constructor
  · intro h
    unfold afterCloser? at h
    split at h
    · rename_i behind
      have hblanks : ∀ c ∈ behind.takeWhile isIndent, isIndent c = true :=
        fun c => List.mem_takeWhile_imp
      have hbehind := List.takeWhile_append_dropWhile (p := isIndent) (l := behind)
      have hcloser : behind.dropWhile isIndent = rest ∧ IsEnding rest := by
        split at h
        · rename_i hend
          cases h
          exact ⟨hend, .inl rfl⟩
        · rename_i hend
          cases h
          exact ⟨hend, .inr rfl⟩
        · cases h
      refine ⟨hcloser.2, _, .block hblanks, ?_⟩
      rw [hcloser.1] at hbehind
      simp [commentCloser, hbehind]
    · cases h
  · rintro ⟨hending, _, ⟨hbehind⟩, rfl⟩
    rename_i behind
    have hdrop : (behind ++ rest).dropWhile isIndent = rest := by
      rw [List.dropWhile_append_of_pos hbehind]
      rcases hending with rfl | rfl <;> rfl
    have hline : commentCloser ++ behind ++ rest = '*' :: '/' :: (behind ++ rest) := rfl
    rw [hline, afterCloser?, hdrop]
    rcases hending with rfl | rfl <;> rfl

theorem length_lt_of_afterCloser? (h : afterCloser? line = some rest) : rest.length < line.length := by
  obtain ⟨-, _, ⟨_⟩, rfl⟩ := afterCloser?_eq_some_iff.mp h
  simp only [commentCloser, List.length_append, List.length_cons]
  omega

theorem dropCloser_of_some (h : afterCloser? line = some rest) : dropCloser line = rest := by
  cases line with
  | nil => cases h
  | cons c line => rw [dropCloser, h]

theorem dropCloser_eq (line : Text) : ∃ front closer ending, (closer = [] ∨ IsCloser closer) ∧
    IsEnding ending ∧ line = front ++ closer ++ ending ∧ dropCloser line = front ++ ending := by
  induction line with
  | nil => exact ⟨[], [], [], .inl rfl, .inl rfl, rfl, rfl⟩
  | cons c line ih =>
    rw [dropCloser]
    split
    · rename_i rest hafter
      obtain ⟨hending, closer, hcloser, heq⟩ := afterCloser?_eq_some_iff.mp hafter
      exact ⟨[], closer, rest, .inr hcloser, hending, heq, rfl⟩
    · obtain ⟨front, closer, ending, hcloser, hending, heq, hdrop⟩ := ih
      exact ⟨c :: front, closer, ending, hcloser, hending, by simp [heq], by simp [hdrop]⟩

theorem dropCloser_takesOff : TakesOff dropCloser Closes := by
  constructor
  · rintro _ ⟨front, closer, ending, hcloser, hending, rfl⟩
    induction front with
    | nil =>
      have hafter := afterCloser?_eq_some_iff.mpr ⟨hending, closer, hcloser, rfl⟩
      rw [List.nil_append, dropCloser_of_some hafter]
      exact length_lt_of_afterCloser? hafter
    | cons c front ih =>
      rw [List.cons_append, List.cons_append, dropCloser]
      split
      · exact length_lt_of_afterCloser? ‹_›
      · simpa using ih
  · intro line hline
    obtain ⟨front, closer, ending, rfl | hcloser, hending, heq, hdrop⟩ := dropCloser_eq line
    · rw [hdrop, heq, List.append_nil]
    · exact (hline ⟨front, closer, ending, hcloser, hending, heq⟩).elim

/-! ### Slashes and the star -/

theorem dropSlashes_eq (line : Text) : ∃ slashes, (slashes = [] ∨ slashes = lineCommentMark) ∧
    line = slashes ++ dropSlashes line := by
  unfold dropSlashes
  split
  · exact ⟨lineCommentMark, .inr rfl, rfl⟩
  · exact ⟨[], .inl rfl, rfl⟩

theorem dropSlashes_takesOff : TakesOff dropSlashes (lineCommentMark <+: ·) := by
  constructor
  · rintro _ ⟨rest, rfl⟩
    simp only [lineCommentMark, List.cons_append, List.nil_append, dropSlashes, List.length_cons]
    omega
  · intro line hline
    exact dropSlashes_of_not hline

theorem dropStar_eq (line : Text) : ∃ star, (star = [] ∨ star = ['*']) ∧ line = star ++ dropStar line := by
  unfold dropStar
  split
  · exact ⟨['*'], .inr rfl, rfl⟩
  · exact ⟨[], .inl rfl, rfl⟩

theorem dropStar_takesOff : TakesOff dropStar (['*'] <+: ·) := by
  constructor
  · rintro _ ⟨rest, rfl⟩
    simp [dropStar]
  · intro line hline
    exact dropStar_of_not hline

/-! ## All markers -/

/-- **A pass shortens exactly the lines with a marker.** -/
theorem toProse_takesOff : TakesOff toProse IsMarked :=
  dropOpener_takesOff.comp
    (dropCloser_takesOff.comp (dropSlashes_takesOff.comp dropStar_takesOff))

/-- The markers that a pass takes off a line; those that are not there are empty. -/
structure Markers where
  opener : Text
  slashes : Text
  star : Text
  closer : Text
  opener_ok : opener = [] ∨ IsOpener opener
  slashes_ok : slashes = [] ∨ slashes = lineCommentMark
  star_ok : star = [] ∨ star = ['*']
  closer_ok : closer = [] ∨ IsCloser closer

/-- The markers in front of the prose. -/
def Markers.head (m : Markers) : Text := m.opener ++ m.slashes ++ m.star

/-- The characters that no marker is made of, and no blank around one. -/
def isProse (c : Char) : Bool := !(c = '/' || c = '*' || isIndent c)

/-- A marker in front of what a closer leaves stands before the ending. -/
theorem exists_of_append_eq {marker front ending : Text} (hmarker : '\n' ∉ marker)
    (hending : IsEnding ending) (h : front ++ ending = marker ++ rest) :
    ∃ front', front = marker ++ front' ∧ rest = front' ++ ending := by
  rcases List.append_eq_append_iff.mp h with ⟨more, hmore, hend⟩ | ⟨front', hfront, hrest⟩
  · have hnil : more = [] := by
      rcases hending with rfl | rfl
      · exact (List.append_eq_nil_iff.mp hend.symm).1
      · rcases List.append_eq_singleton_iff.mp hend.symm with ⟨hnil, -⟩ | ⟨hline, -⟩
        · exact hnil
        · exact (hmarker (by simp [hmore, hline])).elim
    subst hnil
    exact ⟨[], by simpa using hmore.symm, by simpa using hend.symm⟩
  · exact ⟨front', hfront, hrest⟩

/-- **A line is made of the markers that a pass takes off, and of the prose between them.** A newline at
the end, behind the closer, counts as prose. -/
theorem exists_markers (line : Text) : ∃ (m : Markers) (front ending : Text), IsEnding ending ∧
    line = m.head ++ front ++ m.closer ++ ending ∧ toProse line = front ++ ending := by
  obtain ⟨opener, hopener, hline⟩ := dropOpener_eq line
  obtain ⟨front, closer, ending, hcloser, hending, hrest, hdrop⟩ := dropCloser_eq (dropOpener line)
  obtain ⟨slashes, hslashes, hsplit⟩ := dropSlashes_eq (front ++ ending)
  obtain ⟨front₁, rfl, hleft⟩ := exists_of_append_eq
    (by rcases hslashes with rfl | rfl <;> decide) hending hsplit
  obtain ⟨star, hstar, hsplit'⟩ := dropStar_eq (front₁ ++ ending)
  obtain ⟨front₂, rfl, hleft'⟩ := exists_of_append_eq
    (by rcases hstar with rfl | rfl <;> decide) hending hsplit'
  refine ⟨⟨opener, slashes, star, closer, hopener, hslashes, hstar, hcloser⟩, front₂, ending, hending,
    ?_, ?_⟩
  · rw [hline, hrest]
    simp [Markers.head]
  · rw [toProse, hdrop, hleft, hleft']

theorem isProse_of_isIndent {c : Char} (h : isIndent c = true) : isProse c = false := by
  simp [isProse, h]

theorem IsOpener.not_isProse {opener : Text} (h : IsOpener opener) : ∀ c ∈ opener, isProse c = false := by
  have hmark : ∀ c ∈ docOpener, isProse c = false := by simp [docOpener, isProse]
  have hshort : commentOpener ⊆ docOpener := by simp [commentOpener, docOpener]
  cases h with
  | block hbefore =>
    intro c hc
    rcases List.mem_append.mp hc with hc | hc
    · exact isProse_of_isIndent (hbefore c hc)
    · exact hmark c (hshort hc)
  | doc hbefore =>
    intro c hc
    rcases List.mem_append.mp hc with hc | hc
    · exact isProse_of_isIndent (hbefore c hc)
    · exact hmark c hc

theorem IsCloser.not_isProse {closer : Text} (h : IsCloser closer) : ∀ c ∈ closer, isProse c = false := by
  have hmark : ∀ c ∈ commentCloser, isProse c = false := by simp [commentCloser, isProse]
  obtain ⟨hbehind⟩ := h
  intro c hc
  rcases List.mem_append.mp hc with hc | hc
  · exact hmark c hc
  · exact isProse_of_isIndent (hbehind c hc)

/-- No character of prose is among the markers. -/
theorem Markers.filter_isProse (m : Markers) :
    m.head.filter isProse = [] ∧ m.closer.filter isProse = [] := by
  have hnone : ∀ t : Text, (∀ c ∈ t, isProse c = false) → t.filter isProse = [] := by
    intro t ht
    exact List.filter_eq_nil_iff.mpr fun c hc => by simp [ht c hc]
  have hopener : m.opener.filter isProse = [] := by
    rcases m.opener_ok with h | h
    · rw [h, List.filter_nil]
    · exact hnone _ h.not_isProse
  have hslashes : m.slashes.filter isProse = [] := by
    rcases m.slashes_ok with h | h <;> rw [h] <;> decide
  have hstar : m.star.filter isProse = [] := by
    rcases m.star_ok with h | h <;> rw [h] <;> decide
  refine ⟨by simp only [Markers.head, List.filter_append, hopener, hslashes, hstar, List.append_nil], ?_⟩
  rcases m.closer_ok with h | h
  · rw [h, List.filter_nil]
  · exact hnone _ h.not_isProse

theorem filter_isProse_toProse (line : Text) : (toProse line).filter isProse = line.filter isProse := by
  obtain ⟨m, front, ending, -, hline, hprose⟩ := exists_markers line
  obtain ⟨hhead, hcloser⟩ := m.filter_isProse
  rw [hprose, hline]
  simp only [List.filter_append, hhead, hcloser, List.nil_append, List.append_nil]

/-- **A pass takes off nothing but markers, and passes repeated come to a line without markers.** The
characters of prose stay, all of them and in order; on a line without newlines what stays is one piece,
between the markers at the two ends. Every pass shortens the line until no marker is left. -/
theorem toProse_settles (line : Text) :
    (toProse line).filter isProse = line.filter isProse ∧
      ('\n' ∉ line → ∃ m : Markers, line = m.head ++ toProse line ++ m.closer) ∧
      (toProse line = line ↔ ¬ IsMarked line) ∧
      ∃ n ≤ line.length,
        (∀ k < n, (toProse^[k + 1] line).length < (toProse^[k] line).length) ∧
          ¬ IsMarked (toProse^[n] line) ∧ ∀ k, n ≤ k → toProse^[k] line = toProse^[n] line := by
  refine ⟨filter_isProse_toProse line, ?_, toProse_takesOff.eq_self_iff, toProse_takesOff.settles line⟩
  intro hnewline
  obtain ⟨m, front, ending, hending, hline, hprose⟩ := exists_markers line
  have hnil : ending = [] := hending.resolve_right fun hend => hnewline (by simp [hline, hend])
  subst hnil
  rw [List.append_nil] at hline hprose
  exact ⟨m, by rw [hprose, ← hline]⟩

example : toProse "//   /* x */".toList = "   /* x ".toList ∧
    toProse^[2] "//   /* x */".toList = " x ".toList := by
  decide

end LessonPages.Comment
