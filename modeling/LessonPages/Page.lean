import LessonPages.Classifier
import LessonPages.Comment
import LessonPages.Link.Basic

/-!
# Pages

A page is a lesson in Markdown: code stands in fences, a link follows linked code, comments are
prose.

* `Block.pageLines`, `Page.ofBlocks` — the lines of a block, and a page made of blocks.
* `Page.ofLesson` — the page of a lesson.
-/

namespace LessonPages

/-- What stands on the lines before and behind a piece of code (`FENCE`). -/
def fence : Text := "```".toList

/-- The language that code is taken for unless another one is named (`DEFAULT_LANGUAGE`). -/
def defaultLanguage : Text := "ts".toList

/-- The lines of a block in a page (`_render_code`, or the prose of a comment). -/
def Block.pageLines (language : Text) (b : Block) : List Text :=
  match b.kind with
  | .code => (fence ++ language) :: b.lines ++ [fence]
  | .linkedCode => (fence ++ language) :: b.lines ++ [fence, Link.markdown Link.editor b.text]
  | .comment => b.lines.map Comment.toProse

namespace Page

/-- The page of a sequence of blocks (`render_blocks`). -/
def ofBlocks (language : Text) (blocks : List Block) : Text :=
  Text.joinLines (blocks.flatMap (Block.pageLines language))

/-- The page of a lesson (`convert_text`). -/
def ofLesson (language lesson : Text) : Text := ofBlocks language (classify lesson)

end Page

end LessonPages
