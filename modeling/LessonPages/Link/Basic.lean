import LessonPages.Link.Bits
import LessonPages.Text.Units

/-!
# Links to the online editor

A link carries a whole piece of code behind the address of the editor: the code's UTF-16 units,
compressed, in letters that need no escape in an address or in a page.

* `Link.payload` — code as letters.
* `Link.address`, `Link.markdown` — the link itself and its line in a page.
-/

namespace LessonPages.Link

/-- The address of the online editor, up to the code (`PLAYGROUND_URL`). -/
def editor : Text := "https://www.typescriptlang.org/play?#code/".toList

/-- What a reader of the page clicks on (`LINK_TEXT`). -/
def label : Text := "open code in online editor".toList

/-- The code as the letters behind the address (lz-string's `compressToEncodedURIComponent`). -/
def payload (code : Text) : Text :=
  Bits.toLetters (Bits.ofPhrases 0 (Phrase.ofUnits (Units.ofText code)))

/-- The link that opens the editor with some code (`encode_playground_link`). -/
def address (base code : Text) : Text := base ++ payload code

/-- The link as a line of a page (`playground_markdown_link`). -/
def markdown (base code : Text) : Text :=
  "[".toList ++ label ++ "](".toList ++ address base code ++ ")".toList

theorem payload_ne_nil (code : Text) : payload code ≠ [] := Bits.toLetters_ne_nil _

end LessonPages.Link
