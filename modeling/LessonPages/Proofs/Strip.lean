import Mathlib.Data.List.DropRight
import LessonPages.Text.Blank

/-!
# Stripped texts

* `Text.strip_strip` — stripping twice is stripping once.
* `Text.strip_eq_nil_iff` — nothing is left of a text exactly if it has no content.
* `Text.prefix_strip_of_prefix` — a start without blanks stays when the text is stripped.
-/

namespace LessonPages.Text

theorem trimRight_eq_rdropWhile (p : Char → Bool) (t : Text) : trimRight p t = t.rdropWhile p := rfl

theorem strip_prefix_dropWhile (t : Text) : strip t <+: t.dropWhile isBlank :=
  List.rdropWhile_prefix _ _

theorem strip_subset (t : Text) : strip t ⊆ t :=
  fun _ hc => (List.dropWhile_suffix isBlank).subset ((strip_prefix_dropWhile t).subset hc)

theorem hasContent_eq_false_iff {t : Text} : hasContent t = false ↔ ∀ c ∈ t, isBlank c = true := by
  simp [hasContent]

theorem strip_eq_nil_iff {t : Text} : strip t = [] ↔ hasContent t = false := by
  rw [hasContent_eq_false_iff, strip, trimRight_eq_rdropWhile, List.rdropWhile_eq_nil_iff]
  constructor
  · intro h c hc
    rw [← List.takeWhile_append_dropWhile (p := isBlank) (l := t)] at hc
    rcases List.mem_append.mp hc with hc | hc
    · exact List.mem_takeWhile_imp hc
    · exact h c hc
  · intro h c hc
    exact h c ((List.dropWhile_sublist _).subset hc)

theorem strip_ne_nil_iff {t : Text} : strip t ≠ [] ↔ hasContent t = true := by
  rw [ne_eq, strip_eq_nil_iff, Bool.not_eq_false]

/-- A stripped text starts with no blank. -/
theorem dropWhile_strip (t : Text) : (strip t).dropWhile isBlank = strip t := by
  cases hstrip : strip t with
  | nil => rfl
  | cons c rest =>
    obtain ⟨tail, htail⟩ := strip_prefix_dropWhile t
    rw [hstrip, List.cons_append] at htail
    have hne : t.dropWhile isBlank ≠ [] := by simp [← htail]
    have hhead := List.head_dropWhile_not isBlank hne
    simp only [← htail, List.head_cons] at hhead
    rw [List.dropWhile_cons, hhead, if_neg Bool.false_ne_true]

@[simp] theorem strip_strip (t : Text) : strip (strip t) = strip t := by
  calc strip (strip t) = trimRight isBlank (strip t) := by rw [strip, dropWhile_strip]
    _ = strip t := List.rdropWhile_idempotent _ _

/-- A start without blanks stays where it is. -/
theorem prefix_strip_of_prefix {start t : Text} (hstart : start.all (!isBlank ·) = true)
    (h : start <+: t) : start <+: strip t := by
  have hstart : ∀ c ∈ start, isBlank c = false := by simpa using hstart
  obtain ⟨rest, rfl⟩ := h
  rw [strip, trimRight_eq_rdropWhile]
  cases start with
  | nil => exact List.nil_prefix
  | cons c start =>
    have hhead : isBlank c = false := hstart c List.mem_cons_self
    rw [List.cons_append, List.dropWhile_cons, hhead, if_neg Bool.false_ne_true]
    -- what the right end loses lies behind the start, since the start has no blanks
    have hsplit : (c :: (start ++ rest)).rdropWhile isBlank ++
        (c :: (start ++ rest)).rtakeWhile isBlank = (c :: start) ++ rest :=
      List.rdropWhile_append_rtakeWhile
    rcases List.prefix_or_prefix_of_prefix (List.prefix_append (c :: start) rest)
      (hsplit ▸ List.prefix_append _ _) with hle | ⟨lost, hlost⟩
    · exact hle
    · rw [← hlost, List.append_assoc] at hsplit
      have hblank := List.append_cancel_left hsplit
      have hnil : lost = [] := by
        rw [List.eq_nil_iff_forall_not_mem]
        intro b hb
        have hyes : isBlank b = true :=
          List.mem_rtakeWhile_imp (l := c :: (start ++ rest))
            (by rw [hblank]; exact List.mem_append_left _ hb)
        have hno : isBlank b = false := hstart b (by rw [← hlost]; exact List.mem_append_right _ hb)
        rw [hno] at hyes
        cases hyes
      rw [hnil, List.append_nil] at hlost
      exact hlost ▸ List.prefix_rfl

end LessonPages.Text
