import LessonPages.Proofs.Bits
import LessonPages.Proofs.BlockLines
import LessonPages.Proofs.Lines

/-!
# Pages are read back into their blocks

A page is one list of lines: fences, code, links and prose stand side by side in it. Where no line of
code is a fence and no line of prose opens one, a reader that knows nothing but the language finds the
sections again, and with the kinds of the code blocks it tells links from prose.

* `PageReading`, `PageReading.ofPage` — what a reader of a page finds.
* `PageReading.Tells` — what a reading says about the blocks of a lesson.
* `PageReading.ofLines_tells` — the lines of blocks are read as these blocks.
* `PageReading.ofPage_tells` — the page of a lesson is read as the blocks of the lesson.
-/

namespace LessonPages

/-- What is found in a page that is read line by line. -/
structure PageReading where
  /-- The lines before the first fence. -/
  before : List Text
  /-- The fenced sections in order, each with the lines that stand between it and the next one. -/
  sections : List (List Text × List Text)
  /-- What stands behind a fence that is never closed. -/
  unclosed : Option (List Text)
  deriving DecidableEq, Repr

namespace PageReading

/-- A reading with one more line in front, outside of fences. -/
def withLine (line : Text) (r : PageReading) : PageReading := { r with before := line :: r.before }

/-- A reading with one more fenced section in front. -/
def withSection (code : List Text) (r : PageReading) : PageReading :=
  ⟨[], (code, r.before) :: r.sections, r.unclosed⟩

/-- Reads lines from a place on that is outside of fences, or inside of one behind some lines. -/
def ofLines (language : Text) : Option (List Text) → List Text → PageReading
  | none, [] => ⟨[], [], none⟩
  | some code, [] => ⟨[], [], some code⟩
  | none, line :: rest =>
    if line = fence ++ language then ofLines language (some []) rest
    else (ofLines language none rest).withLine line
  | some code, line :: rest =>
    if line = fence then (ofLines language none rest).withSection code
    else ofLines language (some (code ++ [line])) rest

/-- Reads a page whose fences name a language. -/
def ofPage (language page : Text) : PageReading := ofLines language none (page.splitOn '\n')

/-- The prose behind the section of a block: a linked block has its link there first. -/
def proseBehind (b : Block) (behind : List Text) : List Text :=
  if b.kind = .linkedCode then behind.tail else behind

/-- A reading tells the blocks of a lesson. -/
structure Tells (r : PageReading) (blocks : List Block) : Prop where
  closed : r.unclosed = none
  /-- The fenced sections are the code blocks, line by line. -/
  sections : r.sections.map (·.1) = (blocks.filter Block.isCode).map Block.lines
  /-- Right behind the section of a linked block stands the link for the lines of that section. -/
  links : List.Forall₂ (fun b s => b.kind = .linkedCode →
    s.2.head? = some (Link.markdown Link.editor (Text.joinLines s.1)))
    (blocks.filter Block.isCode) r.sections
  /-- All other lines outside of fences are the comments, without their markers. -/
  prose : r.before ++ (List.zipWith (fun b s => proseBehind b s.2)
      (blocks.filter Block.isCode) r.sections).flatten =
    (blocks.filter fun b => !b.isCode).flatMap fun b => b.lines.map Comment.toProse

variable {language : Text} {r : PageReading} {blocks : List Block} {b : Block}

/-! ## Reading the lines of a block -/

theorem ofLines_prose {prose : List Text} (h : ∀ line ∈ prose, line ≠ fence ++ language)
    (rest : List Text) : ofLines language none (prose ++ rest) =
      { ofLines language none rest with before := prose ++ (ofLines language none rest).before } := by
  induction prose with
  | nil => rfl
  | cons line prose ih =>
    have hprose := ih fun l hl => h l (List.mem_cons_of_mem _ hl)
    rw [List.cons_append, ofLines, if_neg (h line List.mem_cons_self), hprose]
    rfl

theorem ofLines_inside {more : List Text} (h : fence ∉ more) (code rest : List Text) :
    ofLines language (some code) (more ++ fence :: rest) =
      (ofLines language none rest).withSection (code ++ more) := by
  induction more generalizing code with
  | nil => rw [List.nil_append, List.append_nil, ofLines, if_pos rfl]
  | cons line more ih =>
    rw [List.mem_cons, not_or] at h
    rw [List.cons_append, ofLines, if_neg (Ne.symm h.1), ih h.2, List.append_assoc]
    rfl

theorem ofLines_section {code : List Text} (h : fence ∉ code) (rest : List Text) :
    ofLines language none ((fence ++ language) :: (code ++ fence :: rest)) =
      (ofLines language none rest).withSection code := by
  rw [ofLines, if_pos rfl, ofLines_inside h, List.nil_append]

/-! ## One block more -/

theorem Tells.code (h : r.Tells blocks) (hkind : b.kind = .code) :
    (r.withSection b.lines).Tells (b :: blocks) := by
  have hcode : b.isCode = true := by rw [Block.isCode, hkind]
  have hbehind : proseBehind b r.before = r.before := if_neg (by rw [hkind]; decide)
  refine ⟨h.closed, ?_, ?_, ?_⟩
  · simpa [withSection, hcode] using h.sections
  · simp only [withSection, List.filter_cons_of_pos hcode]
    exact .cons (fun hlinked => by rw [hkind] at hlinked; cases hlinked) h.links
  · simpa [withSection, hcode, hbehind] using h.prose

theorem Tells.linkedCode (h : r.Tells blocks) (hkind : b.kind = .linkedCode) :
    ((r.withLine (Link.markdown Link.editor b.text)).withSection b.lines).Tells (b :: blocks) := by
  have hcode : b.isCode = true := by rw [Block.isCode, hkind]
  have hbehind : ∀ line, proseBehind b (line :: r.before) = r.before := fun _ => if_pos hkind
  refine ⟨h.closed, ?_, ?_, ?_⟩
  · simpa [withSection, withLine, hcode] using h.sections
  · simp only [withSection, withLine, List.filter_cons_of_pos hcode]
    exact .cons (fun _ => rfl) h.links
  · simpa [withSection, withLine, hcode, hbehind] using h.prose

theorem Tells.comment (h : r.Tells blocks) (hkind : b.kind = .comment) :
    Tells { r with before := b.lines.map Comment.toProse ++ r.before } (b :: blocks) := by
  have hcode : b.isCode = false := by rw [Block.isCode, hkind]
  refine ⟨h.closed, ?_, ?_, ?_⟩
  · simpa [hcode] using h.sections
  · simpa [hcode] using h.links
  · simpa [hcode] using h.prose

/-- A link is no fence. -/
theorem markdown_ne_fence (base code language : Text) :
    Link.markdown base code ≠ fence ++ language := by
  intro h
  have hhead := congrArg List.head? h
  cases hhead

/-- **The lines of blocks are read as these blocks**, if no line of code is a fence and no comment opens
one. -/
theorem ofLines_tells (hcode : ∀ b ∈ blocks, b.isCode = true → fence ∉ b.lines)
    (hprose : ∀ b ∈ blocks, b.isCode = false →
      ∀ line ∈ b.lines, Comment.toProse line ≠ fence ++ language) :
    (ofLines language none (blocks.flatMap (Block.pageLines language))).Tells blocks := by
  induction blocks with
  | nil => exact ⟨rfl, rfl, .nil, rfl⟩
  | cons b rest ih =>
    have htells := ih (fun c hc => hcode c (List.mem_cons_of_mem _ hc))
      (fun c hc => hprose c (List.mem_cons_of_mem _ hc))
    have hfence := hcode b List.mem_cons_self
    rw [List.flatMap_cons]
    cases hkind : b.kind with
    | code =>
      simp only [Block.isCode, hkind, forall_const] at hfence
      simp only [Block.pageLines, hkind, List.cons_append, List.append_assoc, List.nil_append]
      rw [ofLines_section hfence]
      exact htells.code hkind
    | linkedCode =>
      simp only [Block.isCode, hkind, forall_const] at hfence
      simp only [Block.pageLines, hkind, List.cons_append, List.append_assoc, List.nil_append]
      rw [ofLines_section hfence, ofLines, if_neg (markdown_ne_fence _ _ _)]
      exact htells.linkedCode hkind
    | comment =>
      have hopens : ∀ line ∈ b.lines.map Comment.toProse, line ≠ fence ++ language := by
        intro line hline
        obtain ⟨raw, hraw, rfl⟩ := List.mem_map.mp hline
        exact hprose b List.mem_cons_self (by rw [Block.isCode, hkind]) raw hraw
      simp only [Block.pageLines, hkind]
      rw [ofLines_prose hopens]
      exact htells.comment hkind

end PageReading

/-! ## The lines of a page -/

namespace Comment

theorem dropOpener_sublist (line : Text) : (dropOpener line).Sublist line := by
  have hsuffix := List.dropWhile_suffix isIndent (l := line)
  unfold dropOpener
  split
  · rename_i rest h
    rw [h] at hsuffix
    exact ((List.suffix_append ['/', '*', '*'] rest).trans hsuffix).sublist
  · rename_i rest _ h
    rw [h] at hsuffix
    exact ((List.suffix_append ['/', '*'] rest).trans hsuffix).sublist
  · exact List.Sublist.refl _

theorem afterCloser?_sublist {line rest : Text} (h : afterCloser? line = some rest) :
    rest.Sublist line := by
  unfold afterCloser? at h
  split at h
  · rename_i behind
    have hsuffix := List.dropWhile_suffix isIndent (l := behind)
    split at h
    · cases h
      exact List.nil_sublist _
    · rename_i hend
      cases h
      rw [hend] at hsuffix
      exact (hsuffix.trans (List.suffix_append ['*', '/'] behind)).sublist
    · cases h
  · cases h

theorem dropCloser_sublist (line : Text) : (dropCloser line).Sublist line := by
  induction line with
  | nil => exact List.Sublist.refl _
  | cons c rest ih =>
    rw [dropCloser]
    split
    · exact afterCloser?_sublist ‹_›
    · exact ih.cons_cons c

theorem dropSlashes_sublist (line : Text) : (dropSlashes line).Sublist line := by
  unfold dropSlashes
  split
  · exact (List.suffix_append ['/', '/'] _).sublist
  · exact List.Sublist.refl _

theorem dropStar_sublist (line : Text) : (dropStar line).Sublist line := by
  unfold dropStar
  split
  · exact (List.suffix_append ['*'] _).sublist
  · exact List.Sublist.refl _

/-- Prose is what is left of a comment line, in order. -/
theorem toProse_sublist (line : Text) : (toProse line).Sublist line :=
  (dropStar_sublist _).trans ((dropSlashes_sublist _).trans
    ((dropCloser_sublist _).trans (dropOpener_sublist line)))

end Comment

theorem newline_not_mem_strip {line : Text} (h : '\n' ∉ line) : '\n' ∉ line.strip :=
  fun hmem => h (line.strip_subset hmem)

theorem newline_not_mem_markdown (code : Text) : '\n' ∉ Link.markdown Link.editor code := by
  have hpayload : '\n' ∉ Link.payload code := by
    intro h
    have halphabet := Link.Bits.mem_alphabet_of_mem_toLetters h
    revert halphabet
    decide
  have hfront : '\n' ∉ "[".toList ++ Link.label ++ "](".toList ++ Link.editor := by decide
  have hback : '\n' ∉ ")".toList := by decide
  unfold Link.markdown Link.address
  simp only [List.mem_append, not_or] at hfront ⊢
  exact ⟨⟨hfront.1, hfront.2, hpayload⟩, hback⟩

theorem Block.newline_not_mem_pageLines {b : Block} {language : Text} (hlanguage : '\n' ∉ language)
    (h : ∀ line ∈ b.lines, '\n' ∉ line) : ∀ line ∈ b.pageLines language, '\n' ∉ line := by
  have hopener : '\n' ∉ fence ++ language := by
    rw [List.mem_append, not_or]
    exact ⟨by decide, hlanguage⟩
  have hfence : '\n' ∉ fence := by decide
  unfold pageLines
  split
  · simp only [List.mem_append, List.mem_cons, List.not_mem_nil, or_false]
    rintro line ((rfl | hline) | rfl)
    · exact hopener
    · exact h line hline
    · exact hfence
  · simp only [List.mem_append, List.mem_cons, List.not_mem_nil, or_false]
    rintro line ((rfl | hline) | rfl | rfl)
    · exact hopener
    · exact h line hline
    · exact hfence
    · exact newline_not_mem_markdown _
  · intro line hline
    obtain ⟨raw, hraw, rfl⟩ := List.mem_map.mp hline
    exact fun hmem => h raw hraw ((Comment.toProse_sublist raw).subset hmem)

/-- The page of a lesson that has blocks has the lines of the blocks. -/
theorem splitOn_ofLesson {lesson language : Text} (hne : classify lesson ≠ [])
    (hlanguage : '\n' ∉ language) : (Page.ofLesson language lesson).splitOn '\n' =
      (classify lesson).flatMap (Block.pageLines language) := by
  have hblocks := classify_has (P := fun line => '\n' ∉ line) (fun _ => newline_not_mem_strip)
    (fun _ => Text.newline_not_mem_of_mem_lines (t := lesson))
  apply List.splitOn_intercalate '\n' ?_ (flatMap_pageLines_ne_nil hne language)
  intro line hline
  obtain ⟨b, hb, hline⟩ := List.mem_flatMap.mp hline
  exact Block.newline_not_mem_pageLines hlanguage (hblocks b hb).all line hline

/-- **A page is read back into the blocks of its lesson.** If no line of code is a fence and no prose
opens one, then the fenced sections of the page are the code blocks, verbatim and in order; right behind
the section of each linked block stands the link for the lines of that section; and the other lines
outside of fences are the comments without their markers. -/
theorem PageReading.ofPage_tells {lesson language : Text} (hne : classify lesson ≠ [])
    (hlanguage : '\n' ∉ language)
    (hcode : ∀ b ∈ classify lesson, b.isCode = true → fence ∉ b.lines)
    (hprose : ∀ b ∈ classify lesson, b.isCode = false →
      ∀ line ∈ b.lines, Comment.toProse line ≠ fence ++ language) :
    (PageReading.ofPage language (Page.ofLesson language lesson)).Tells (classify lesson) := by
  rw [PageReading.ofPage, splitOn_ofLesson hne hlanguage]
  exact PageReading.ofLines_tells hcode hprose

/-- A comment of which a closing fence is left, and linked code in which an opening one stands. -/
theorem ofPage_tells_fences :
    classify "//```\n// @playground-link\n```ts\n/* end */".toList =
        [⟨.comment, ["//```".toList]⟩, ⟨.linkedCode, ["```ts".toList]⟩,
          ⟨.comment, ["/* end */".toList]⟩] ∧
      (PageReading.ofPage defaultLanguage
        (Page.ofLesson defaultLanguage "//```\n// @playground-link\n```ts\n/* end */".toList)).Tells
        [⟨.comment, ["//```".toList]⟩, ⟨.linkedCode, ["```ts".toList]⟩,
          ⟨.comment, ["/* end */".toList]⟩] := by
  have hblocks : classify "//```\n// @playground-link\n```ts\n/* end */".toList =
      [⟨.comment, ["//```".toList]⟩, ⟨.linkedCode, ["```ts".toList]⟩,
        ⟨.comment, ["/* end */".toList]⟩] := by decide
  refine ⟨hblocks, ?_⟩
  rw [← hblocks]
  apply PageReading.ofPage_tells
  · rw [hblocks]
    decide
  · decide
  · rw [hblocks]
    decide
  · rw [hblocks]
    decide

end LessonPages
