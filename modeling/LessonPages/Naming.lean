import LessonPages.Path

/-!
# Names of pages

How a page is named after its lesson, and how the index speaks of it.

* `pageName` — the lesson's name with another extension.
* `indexLabel`, `IndexEntry.of` — the entry of a page in the index.
-/

namespace LessonPages

/-- The extension of a page unless another one is asked for (`DOC_EXTENSION`). -/
def defaultExtension : Text := ".md".toList

/-- An extension with the dot it may lack (`destination_name`); the empty one stays empty. -/
def dotted (extension : Text) : Text :=
  if extension.isEmpty || extension.head? = some '.' then extension else '.' :: extension

/-- The name of the page of a lesson (`destination_name`): backslashes become slashes, the last
extension is exchanged. A name without an extension just gets one. -/
def pageName (extension lesson : Text) : Text :=
  Path.dropExtension (lesson.replaceChar '\\' '/') ++ dotted extension

/-- What the index shows for a page: hyphens and slashes of its name become spaces (`index_label`). -/
def indexLabel (page : Text) : Text := (page.replaceChar '-' ' ').replaceChar '/' ' '

/-- A page as the index lists it (`PageIndexEntry`). -/
structure IndexEntry where
  name : Text
  label : Text
  link : Text
  deriving DecidableEq, Repr

/-- The entry of a page (`index_entry`); its link starts at the folder of the index. -/
def IndexEntry.of (page : Text) : IndexEntry := ⟨page, indexLabel page, '.' :: '/' :: page⟩

end LessonPages
