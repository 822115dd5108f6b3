import LessonPages.Page
import LessonPages.Proofs.LineKind
import LessonPages.Proofs.Lines

/-!
# Comments on one line

A block comment that starts and ends on one line is told by the two ends of the stripped line, but
the line is kept as it is, and its markers are looked for once more when the page is made. The two
agree where nothing but spaces and tabs stands around the comment. Other blanks are taken off by the
one and not by the other, and then the markers next to them stay in the page.

* `Comment.dropOpener_append`, `Comment.dropCloser_append` — a marker is taken off with the
  indentation around it; `Comment.dropOpener_of_blank`, `Comment.dropCloser_of_blank` — it stays
  where another blank stands.
* `Comment.toProse_oneLine` — what a comment on one line leaves.
* `classify_oneLine`, `ofLesson_oneLine` — the block and the page of such a comment.
-/

namespace LessonPages

namespace Comment

variable {before behind body rest line : Text}

/-- What opens a comment that documents something. -/
def docOpener : Text := ['/', '*', '*']

/-- A comment on one line, with what stands before and behind it. -/
def oneLine (before opener body behind : Text) : Text :=
  before ++ opener ++ body ++ commentCloser ++ behind

/-! ## One marker -/

theorem dropStar_of_not (h : ¬ ['*'] <+: line) : dropStar line = line := by
  unfold dropStar
  split
  · simp at h
  · rfl

theorem dropSlashes_of_not (h : ¬ lineCommentMark <+: line) : dropSlashes line = line := by
  unfold dropSlashes
  split
  · simp [lineCommentMark] at h
  · rfl

/-- An opener takes a second star with it. -/
theorem dropOpener_append (hbefore : ∀ c ∈ before, isIndent c = true) (rest : Text) :
    dropOpener (before ++ commentOpener ++ rest) = dropStar rest := by
  have hindent : (before ++ commentOpener ++ rest).dropWhile isIndent = '/' :: '*' :: rest := by
    rw [List.append_assoc, List.dropWhile_append_of_pos hbefore]
    rfl
  rw [dropOpener, hindent]
  cases rest with
  | nil => rfl
  | cons c rest =>
    by_cases hc : c = '*'
    · subst hc
      rfl
    · rw [dropStar_of_not (by simpa using Ne.symm hc)]
      simp [hc]

/-- An opener is not seen behind a blank that is no indentation. -/
theorem dropOpener_of_blank (hbefore : ∀ c ∈ before, isBlank c = true)
    (hother : ¬ ∀ c ∈ before, isIndent c = true) (rest : Text) :
    dropOpener (before ++ rest) = before ++ rest := by
  have hhead : ∀ behind, (before ++ rest).dropWhile isIndent ≠ '/' :: behind := by
    intro behind heq
    rw [List.dropWhile_append, if_neg (by simpa [List.dropWhile_eq_nil_iff] using hother)] at heq
    cases hdrop : before.dropWhile isIndent with
    | nil => exact hother (List.dropWhile_eq_nil_iff.mp hdrop)
    | cons c behind' =>
      rw [hdrop, List.cons_append] at heq
      have hmem : c ∈ before := (List.dropWhile_sublist _).subset (hdrop ▸ List.mem_cons_self)
      have hblank := hbefore c hmem
      rw [(List.cons.inj heq).1] at hblank
      revert hblank
      decide
  unfold dropOpener
  split
  · rename_i heq
    exact (hhead _ heq).elim
  · rename_i heq
    exact (hhead _ heq).elim
  · rfl

/-- Where more than indentation follows, two characters are no closer. -/
theorem afterCloser?_eq_none {a b c : Char} (hmem : c ∈ rest) (hindent : isIndent c = false)
    (hnewline : c ≠ '\n') : afterCloser? (a :: b :: rest) = none := by
  have hdrop : c ∈ rest.dropWhile isIndent := by
    rw [← List.takeWhile_append_dropWhile (p := isIndent) (l := rest), List.mem_append] at hmem
    rcases hmem with hmem | hmem
    · rw [List.mem_takeWhile_imp hmem] at hindent
      cases hindent
    · exact hmem
  unfold afterCloser?
  split
  · rename_i behind heq
    obtain ⟨-, -, rfl⟩ : a = '*' ∧ b = '/' ∧ rest = behind := by simpa using heq
    split
    · rename_i hnil
      rw [hnil] at hdrop
      cases hdrop
    · rename_i hlast
      rw [hlast, List.mem_singleton] at hdrop
      exact (hnewline hdrop).elim
    · rfl
  · rfl

theorem afterCloser?_of_ne {a b : Char} (h : b ≠ '/') : afterCloser? (a :: b :: rest) = none := by
  unfold afterCloser?
  split
  · rename_i heq
    exact (h (List.cons.inj (List.cons.inj heq).2).1).elim
  · rfl

/-- A closer is taken off the end, whatever stands before it. -/
theorem dropCloser_append (hbehind : ∀ c ∈ behind, isIndent c = true) (body : Text) :
    dropCloser (body ++ commentCloser ++ behind) = body := by
  rw [List.append_assoc]
  induction body with
  | nil =>
    have hnil : behind.dropWhile isIndent = [] := List.dropWhile_eq_nil_iff.mpr hbehind
    simp [commentCloser, dropCloser, afterCloser?, hnil]
  | cons c body ih =>
    -- the star of the closer is the second character at the front, or it stands behind both
    have hnone : afterCloser? (c :: (body ++ (commentCloser ++ behind))) = none := by
      cases body with
      | nil => exact afterCloser?_of_ne (by decide)
      | cons d body =>
        exact afterCloser?_eq_none (c := '*') (by simp [commentCloser]) (by decide) (by decide)
    rw [List.cons_append, dropCloser, hnone]
    simp only [ih]

theorem dropCloser_of_not_mem (h : '*' ∉ line) : dropCloser line = line := by
  induction line with
  | nil => rfl
  | cons c line ih =>
    rw [List.mem_cons, not_or] at h
    have hnone : afterCloser? (c :: line) = none := by
      unfold afterCloser?
      split
      · rename_i heq
        exact (h.1 (List.cons.inj heq).1.symm).elim
      · rfl
    rw [dropCloser, hnone]
    simp only [ih h.2]

/-- No closer is seen before a blank that is no indentation. -/
theorem dropCloser_of_blank (hbehind : ∀ c ∈ behind, isBlank c = true ∧ c ≠ '\n')
    (hother : ¬ ∀ c ∈ behind, isIndent c = true) (front : Text) :
    dropCloser (front ++ behind) = front ++ behind := by
  obtain ⟨c, hc, hindent⟩ : ∃ c ∈ behind, isIndent c = false := by simpa using hother
  have hfar : ∀ a ∈ behind, a ≠ '*' ∧ a ≠ '/' := by
    intro a ha
    have hblank := (hbehind a ha).1
    constructor <;> rintro rfl <;> revert hblank <;> decide
  induction front with
  | nil => exact dropCloser_of_not_mem fun hstar => (hfar _ hstar).1 rfl
  | cons a front ih =>
    have hnone : afterCloser? (a :: (front ++ behind)) = none := by
      cases front with
      | cons b front =>
        exact afterCloser?_eq_none (List.mem_append_right _ hc) hindent (hbehind c hc).2
      | nil =>
        cases behind with
        | nil => cases hc
        | cons b behind => exact afterCloser?_of_ne (hfar b List.mem_cons_self).2
    rw [List.cons_append, dropCloser, hnone]
    simp only [ih]

/-! ## All markers -/

/-- What starts with no mark of a comment is prose already. -/
theorem dropStar_dropSlashes (hstar : ¬ ['*'] <+: line) (hslashes : ¬ lineCommentMark <+: line) :
    dropStar (dropSlashes line) = line := by
  rw [dropSlashes_of_not hslashes, dropStar_of_not hstar]

/-- Text that does not start with a star does not do so either when more follows. -/
theorem not_star_prefix_append (hne : body ≠ []) (hstar : ¬ ['*'] <+: body) (rest : Text) :
    ¬ ['*'] <+: body ++ rest := by
  obtain ⟨c, body, rfl⟩ := List.exists_cons_of_ne_nil hne
  simpa using hstar

/-- **A comment on one line leaves its text.** If there is no text, the star of the closer counts as
the second one of the opener, and the slash stays. -/
theorem toProse_oneLine (hbefore : ∀ c ∈ before, isIndent c = true)
    (hbehind : ∀ c ∈ behind, isIndent c = true) (hstar : ¬ ['*'] <+: body)
    (hslashes : ¬ lineCommentMark <+: body) :
    toProse (oneLine before commentOpener body behind) =
        (if body = [] then '/' :: behind else body) ∧
      toProse (oneLine before docOpener body behind) = body := by
  have hopener : ∀ rest, toProse (before ++ commentOpener ++ rest) =
      dropStar (dropSlashes (dropCloser (dropStar rest))) := by
    intro rest
    rw [toProse, dropOpener_append hbefore]
  constructor
  · have hline : oneLine before commentOpener body behind =
        before ++ commentOpener ++ (body ++ commentCloser ++ behind) := by
      simp only [oneLine, List.append_assoc]
    rw [hline, hopener]
    by_cases hne : body = []
    · subst hne
      have hslash : ∀ c ∈ '/' :: behind, c ≠ '*' := by
        intro c hc
        rcases List.mem_cons.mp hc with rfl | hc
        · decide
        · have hindent := hbehind c hc
          rintro rfl
          revert hindent
          decide
      have hleft : dropStar ([] ++ commentCloser ++ behind) = '/' :: behind := rfl
      rw [if_pos rfl, hleft, dropCloser_of_not_mem fun hmem => hslash _ hmem rfl]
      apply dropStar_dropSlashes
      · simp
      · intro hprefix
        cases behind with
        | nil => simp [lineCommentMark] at hprefix
        | cons c behind =>
          have hindent := hbehind c List.mem_cons_self
          obtain rfl : '/' = c := by simpa [lineCommentMark] using hprefix
          revert hindent
          decide
    · have hfront := not_star_prefix_append hne hstar (commentCloser ++ behind)
      rw [← List.append_assoc] at hfront
      rw [if_neg hne, dropStar_of_not hfront, dropCloser_append hbehind,
        dropStar_dropSlashes hstar hslashes]
  · have hline : oneLine before docOpener body behind =
        before ++ commentOpener ++ ('*' :: (body ++ commentCloser ++ behind)) := by
      simp [oneLine, docOpener, commentOpener]
    have hleft : dropStar ('*' :: (body ++ commentCloser ++ behind)) =
        body ++ commentCloser ++ behind := rfl
    rw [hline, hopener, hleft, dropCloser_append hbehind, dropStar_dropSlashes hstar hslashes]

theorem toProse_oneLine_slashes :
    toProse (oneLine "\t ".toList commentOpener "/*/ */".toList " ".toList) = "/*/ */".toList ∧
      toProse (oneLine "\t ".toList docOpener "/*/ */".toList " ".toList) = "/*/ */".toList :=
  toProse_oneLine (List.all_eq_true.mp (by decide)) (List.all_eq_true.mp (by decide)) (by decide)
    (by decide)

/-- **The shortest comment leaves its last slash.** -/
theorem toProse_shortest :
    oneLine [] commentOpener [] [] = "/**/".toList ∧
      toProse (oneLine [] commentOpener [] []) = "/".toList ∧
      toProse (oneLine [] docOpener [] []) = [] :=
  ⟨rfl, by decide, by decide⟩

/-! ## Blanks around a comment -/

/-- What a page keeps of a comment on one line up to its text: the opener stays behind a blank that
is no indentation. -/
def keptBefore (before body : Text) : Text :=
  if before.all isIndent then body else before ++ commentOpener ++ body

/-- What a page keeps behind the text of a comment on one line: the closer stays before a blank that
is no indentation. -/
def keptBehind (behind : Text) : Text :=
  if behind.all isIndent then [] else commentCloser ++ behind

theorem kept_eq_body_iff : keptBefore before body ++ keptBehind behind = body ↔
    before.all isIndent = true ∧ behind.all isIndent = true := by
  unfold keptBefore keptBehind
  constructor
  · intro h
    have hlength := congrArg List.length h
    split at hlength <;> split at hlength <;>
      simp only [List.length_append, commentOpener, commentCloser, List.length_cons] at hlength
    · exact ⟨‹_›, ‹_›⟩
    all_goals omega
  · rintro ⟨hbefore, hbehind⟩
    rw [if_pos hbefore, if_pos hbehind, List.append_nil]

/-- What is kept of a comment does not start with a mark of another one. -/
theorem not_prefix_kept (hbefore : ∀ c ∈ before, isBlank c = true) (hne : body ≠ [])
    (hstar : ¬ ['*'] <+: body) (hslashes : ¬ lineCommentMark <+: body) (behind : Text) :
    ¬ ['*'] <+: keptBefore before body ++ keptBehind behind ∧
      ¬ lineCommentMark <+: keptBefore before body ++ keptBehind behind := by
  unfold keptBefore
  split
  · refine ⟨not_star_prefix_append hne hstar _, ?_⟩
    intro hprefix
    -- two slashes are both of the text, since what is kept behind it starts with a star
    match body with
    | [] => exact hne rfl
    | [c] =>
      unfold keptBehind at hprefix
      split at hprefix
      · simp [lineCommentMark] at hprefix
      · simp [lineCommentMark, commentCloser] at hprefix
    | c :: d :: body =>
      apply hslashes
      simpa [lineCommentMark] using hprefix
  · rename_i hother
    cases before with
    | nil => exact (hother rfl).elim
    | cons c before =>
      have hblank := hbefore c List.mem_cons_self
      constructor
      · intro hprefix
        obtain rfl : '*' = c := by simpa using hprefix
        revert hblank
        decide
      · intro hprefix
        obtain ⟨rfl, -⟩ : '/' = c ∧ _ := by simpa [lineCommentMark] using hprefix
        revert hblank
        decide

/-- What is left of a comment on one line with blanks of any kind around it. -/
theorem toProse_oneLine_blank (hbefore : ∀ c ∈ before, isBlank c = true)
    (hbehind : ∀ c ∈ behind, isBlank c = true ∧ c ≠ '\n') (hne : body ≠ [])
    (hstar : ¬ ['*'] <+: body) (hslashes : ¬ lineCommentMark <+: body) :
    toProse (oneLine before commentOpener body behind) =
      keptBefore before body ++ keptBehind behind := by
  have hopener : dropOpener (oneLine before commentOpener body behind) =
      keptBefore before body ++ commentCloser ++ behind := by
    unfold keptBefore
    split
    · rename_i hindent
      have hfront := not_star_prefix_append hne hstar (commentCloser ++ behind)
      rw [← List.append_assoc] at hfront
      rw [oneLine, List.append_assoc, List.append_assoc, ← List.append_assoc body,
        dropOpener_append (List.all_eq_true.mp hindent), dropStar_of_not hfront]
    · rename_i hother
      rw [List.all_eq_true] at hother
      simp only [oneLine, List.append_assoc]
      exact dropOpener_of_blank hbefore hother _
  have hcloser : ∀ front, dropCloser (front ++ commentCloser ++ behind) =
      front ++ keptBehind behind := by
    intro front
    unfold keptBehind
    split
    · rename_i hindent
      rw [dropCloser_append (List.all_eq_true.mp hindent), List.append_nil]
    · rename_i hother
      rw [List.all_eq_true] at hother
      rw [dropCloser_of_blank hbehind hother, List.append_assoc]
  obtain ⟨hkeptStar, hkeptSlashes⟩ := not_prefix_kept hbefore hne hstar hslashes behind
  rw [toProse, hopener, hcloser, dropStar_dropSlashes hkeptStar hkeptSlashes]

end Comment

/-! ## The block and the page -/

open Comment

variable {language before behind body : Text}

/-- Stripping takes off exactly what stands around a comment. -/
theorem strip_oneLine (hbefore : ∀ c ∈ before, isBlank c = true)
    (hbehind : ∀ c ∈ behind, isBlank c = true) (body : Text) :
    (oneLine before commentOpener body behind).strip = commentOpener ++ body ++ commentCloser := by
  have hfront : (oneLine before commentOpener body behind).dropWhile isBlank =
      commentOpener ++ body ++ commentCloser ++ behind := by
    rw [oneLine, List.append_assoc, List.append_assoc, List.append_assoc,
      List.dropWhile_append_of_pos hbefore, List.append_assoc, List.append_assoc]
    rfl
  have hback : ∀ c ∈ behind.reverse, isBlank c = true := by
    intro c hc
    exact hbehind c (List.mem_reverse.mp hc)
  rw [Text.strip, hfront, Text.trimRight, List.reverse_append, List.dropWhile_append_of_pos hback,
    List.reverse_append]
  have hlast : (commentCloser.reverse ++ (commentOpener ++ body).reverse).dropWhile isBlank =
      commentCloser.reverse ++ (commentOpener ++ body).reverse := rfl
  rw [hlast, List.reverse_append, List.reverse_reverse, List.reverse_reverse]

/-- A comment on one line is a block by itself, with the line as it is. -/
theorem classifyLines_oneLine {line : Text} (hopener : commentOpener <+: line.strip)
    (hcloser : commentCloser <:+ line.strip) : classifyLines [line] = [⟨.comment, [line]⟩] := by
  have hkind := LineKind.of_eq_lineComment_iff.mpr (.inr ⟨hopener, hcloser⟩)
  simp [classifyLines, Classifier.run, Classifier.step, hkind, Classifier.start, Classifier.flush,
    Classifier.pendingCode, Classifier.finish]

/-- A return at the end of the line is not among what stands behind a comment. -/
theorem dropReturn_oneLine (before opener body behind : Text) :
    Text.dropReturn (oneLine before opener body behind) =
      oneLine before opener body (Text.dropReturn behind) := by
  unfold oneLine Text.dropReturn
  by_cases hnil : behind = []
  · subst hnil
    simp [commentCloser]
  · rw [List.getLast?_append_of_ne_nil _ hnil, List.dropLast_append_of_ne_nil hnil]
    split <;> rfl

theorem dropReturn_subset (t : Text) : Text.dropReturn t ⊆ t := by
  unfold Text.dropReturn
  split
  · exact List.dropLast_subset t
  · exact List.Subset.refl t

theorem classify_oneLine (hbefore : ∀ c ∈ before, isBlank c = true ∧ c ≠ '\n')
    (hbehind : ∀ c ∈ behind, isBlank c = true ∧ c ≠ '\n') (hnewline : '\n' ∉ body) :
    classify (oneLine before commentOpener body behind) =
      [⟨.comment, [oneLine before commentOpener body (Text.dropReturn behind)]⟩] := by
  have hwhole : '\n' ∉ oneLine before commentOpener body behind := by
    simp only [oneLine, List.mem_append, not_or]
    exact ⟨⟨⟨⟨fun hmem => (hbefore _ hmem).2 rfl, by decide⟩, hnewline⟩, by decide⟩,
      fun hmem => (hbehind _ hmem).2 rfl⟩
  have hne : oneLine before commentOpener body behind ≠ [] := by simp [oneLine, commentOpener]
  have hstrip : (oneLine before commentOpener body (Text.dropReturn behind)).strip =
      commentOpener ++ body ++ commentCloser :=
    strip_oneLine (fun c hc => (hbefore c hc).1)
      (fun c hc => (hbehind c (dropReturn_subset behind hc)).1) body
  rw [classify, Text.lines_of_not_mem hne hwhole, dropReturn_oneLine]
  apply classifyLines_oneLine
  · rw [hstrip, List.append_assoc]
    exact List.prefix_append _ _
  · rw [hstrip]
    exact List.suffix_append _ _

/-- **The page of a comment on one line is its text exactly if nothing but spaces and tabs stands
around the markers.** The line is classified as a comment whatever blanks stand there, and a marker
next to another blank stays in the page together with the blanks. -/
theorem ofLesson_oneLine (language : Text) (hbefore : ∀ c ∈ before, isBlank c = true ∧ c ≠ '\n')
    (hbehind : ∀ c ∈ behind, isBlank c = true ∧ c ≠ '\n') (hne : body ≠ []) (hnewline : '\n' ∉ body)
    (hstar : ¬ ['*'] <+: body) (hslashes : ¬ lineCommentMark <+: body) :
    classify (oneLine before commentOpener body behind) =
        [⟨.comment, [oneLine before commentOpener body (Text.dropReturn behind)]⟩] ∧
      Page.ofLesson language (oneLine before commentOpener body behind) =
        keptBefore before body ++ keptBehind (Text.dropReturn behind) ∧
      (Page.ofLesson language (oneLine before commentOpener body behind) = body ↔
        (∀ c ∈ before, isIndent c = true) ∧ ∀ c ∈ Text.dropReturn behind, isIndent c = true) := by
  have hblock := classify_oneLine hbefore hbehind hnewline
  have hprose : toProse (oneLine before commentOpener body (Text.dropReturn behind)) =
      keptBefore before body ++ keptBehind (Text.dropReturn behind) :=
    toProse_oneLine_blank (fun c hc => (hbefore c hc).1)
      (fun c hc => hbehind c (dropReturn_subset behind hc)) hne hstar hslashes
  have hpage : Page.ofLesson language (oneLine before commentOpener body behind) =
      keptBefore before body ++ keptBehind (Text.dropReturn behind) := by
    rw [Page.ofLesson, hblock, ← hprose]
    exact List.append_nil _
  refine ⟨hblock, hpage, ?_⟩
  rw [hpage, kept_eq_body_iff, List.all_eq_true, List.all_eq_true]

theorem ofLesson_oneLine_tabs :
    Page.ofLesson defaultLanguage
      (oneLine "\t ".toList commentOpener "/ note".toList " \r".toList) = "/ note".toList := by
  have hblank : ∀ t : Text, t.all (fun c => isBlank c && c != '\n') = true →
      ∀ c ∈ t, isBlank c = true ∧ c ≠ '\n' := by
    intro t h
    simpa using h
  obtain ⟨-, -, hpage⟩ := ofLesson_oneLine defaultLanguage (hblank "\t ".toList (by decide))
    (hblank " \r".toList (by decide)) (show "/ note".toList ≠ [] by decide) (by decide) (by decide)
    (by decide)
  exact hpage.mpr ⟨List.all_eq_true.mp (by decide), List.all_eq_true.mp (by decide)⟩

/-- **Behind a space that does not break, an opener stays in the page.** -/
theorem ofLesson_noBreakSpace :
    isBlank '\u00A0' = true ∧
      classify (oneLine ['\u00A0'] commentOpener " note ".toList []) =
        [⟨.comment, ["\u00A0/* note */".toList]⟩] ∧
      Page.ofLesson defaultLanguage (oneLine ['\u00A0'] commentOpener " note ".toList []) =
        "\u00A0/* note ".toList :=
  ⟨by decide, by decide, by decide⟩

end LessonPages
