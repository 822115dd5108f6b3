import LessonPages.Text.Basic

/-!
# Blocks

A lesson is a sequence of blocks: code, code that is linked to an online editor, and comments.
-/

namespace LessonPages

/-- What a run of lines is (`BlockKind`). -/
inductive BlockKind where
  | code
  | comment
  /-- Code with a link that opens it in the online editor. -/
  | linkedCode
  deriving DecidableEq, Repr

/-- A run of lines of one kind (`Block`). -/
structure Block where
  kind : BlockKind
  lines : List Text
  deriving DecidableEq, Repr

namespace Block

/-- The lines of a block as one text (`Block.text`). -/
def text (b : Block) : Text := Text.joinLines b.lines

/-- Whether a block is code, linked or not (`Block.is_code`). -/
def isCode (b : Block) : Bool :=
  match b.kind with
  | .code | .linkedCode => true
  | .comment => false

end Block

end LessonPages
