import LessonPages.Discovery
import LessonPages.Index
import LessonPages.Page

/-!
# Settings

Where a run finds lessons, where it puts pages, and how it names them.
-/

namespace LessonPages

/-- The settings of a run (`ConvertConfig`). -/
structure Settings where
  /-- The folder of the lessons. -/
  source : Text
  /-- The folder of the pages. -/
  destination : Text
  /-- Which files are lessons. -/
  pattern : Text := Discovery.defaultPattern
  /-- The extension of a page. -/
  extension : Text := defaultExtension
  /-- The language that fences name. -/
  language : Text := defaultLanguage
  /-- The name of the index page. -/
  indexName : Text := Index.defaultName
  writeIndex : Bool := true
  respectIgnore : Bool := true
  deriving DecidableEq, Repr

/-- The settings for a folder (`ConvertConfig.from_cwd`): lessons in `src`, pages in `markdown`, all
else as usual. The empty path stands for the current folder. -/
def Settings.ofFolder (d : Disk) (folder : Text) : Settings :=
  let base := Path.absolute d.cwdPath folder
  { source := Path.join base "src".toList, destination := Path.join base "markdown".toList }

end LessonPages
