import LessonPages.Naming

/-!
# The index page

One heading, an empty line, and one item for each page in the given order.
-/

namespace LessonPages.Index

/-- The name of the index page unless another one is asked for (`INDEX_NAME`). -/
def defaultName : Text := "index.md".toList

/-- The heading of the index page (`INDEX_TITLE`). -/
def heading : Text := "# Pages".toList

/-- The line of one page (`render_index`, one turn of its loop). -/
def line (page : Text) : Text :=
  let entry := IndexEntry.of page
  "- [".toList ++ entry.label ++ "](".toList ++ entry.link ++ ")".toList

/-- The index of some pages (`render_index`). The last line ends with a newline, too. -/
def page (pages : List Text) : Text :=
  Text.joinLines (heading :: [] :: pages.map line) ++ ['\n']

end LessonPages.Index
