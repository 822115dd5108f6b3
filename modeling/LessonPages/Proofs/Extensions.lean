import LessonPages.Proofs.PageNames

/-!
# Names and their extensions

A page is named after its lesson, with another extension. What the extension of a name is can be said
without looking for it: nothing but dots before the last dot makes it part of the stem, and all else makes
it the start of the extension. So every name has its parts, and only one of them is exchanged.

* `FinalExtension` — a name is a stem and its extension; `FinalExtension.nameStem_eq` — the stem is the
  one that is taken.
* `NameParts` — the parts of a name; `exists_nameParts`, `NameParts.unique` — each name has them, in one
  way.
* `NameParts.exchange` — a name with another extension.
* `pageName_exchanges` — what becomes of the parts of a lesson's name.
-/

namespace LessonPages

variable {name stem ending p front own lesson extension : Text}

/-- A last name is a stem and its final extension, which may be empty. -/
inductive FinalExtension : Text → Text → Text → Prop where
  /-- The extension starts at the last dot, with something other than dots before it. -/
  | dotted {stem ending : Text} (hstem : ∃ c ∈ stem, c ≠ '.') (hending : '.' ∉ ending) :
      FinalExtension (stem ++ '.' :: ending) stem ('.' :: ending)
  /-- Before the last dot, if there is one, stand dots only. -/
  | none {name : Text}
      (hname : ∀ stem ending, name = stem ++ '.' :: ending → '.' ∉ ending → ∀ c ∈ stem, c = '.') :
      FinalExtension name name []

/-- The parts of a name that is given from a folder on: all up to the last slash, and the stem and the
final extension of the last name. -/
structure NameParts (p front stem ending : Text) : Prop where
  eq_append : p = front ++ (stem ++ ending)
  front_end : front = [] ∨ front.getLast? = some '/'
  no_slash : '/' ∉ stem ++ ending
  extension : FinalExtension (stem ++ ending) stem ending

theorem all_dots_eq_false_iff : stem.all (· == '.') = false ↔ ∃ c ∈ stem, c ≠ '.' := by
  simp

/-! ## Stems and extensions -/

theorem FinalExtension.eq_append (h : FinalExtension name stem ending) : name = stem ++ ending := by
  cases h with
  | dotted _ _ => rfl
  | none _ => exact (List.append_nil _).symm

/-- **The stem that is taken from a name is the one before its final extension.** -/
theorem FinalExtension.nameStem_eq (h : FinalExtension name stem ending) :
    Path.nameStem name = stem := by
  cases h with
  | dotted hstem hending => exact nameStem_append_cons (all_dots_eq_false_iff.mpr hstem) hending
  | none hname =>
    by_cases hdot : '.' ∈ name
    · obtain ⟨before, behind, hcut, hbehind⟩ := exists_last hdot
      have hdots : before.all (· == '.') = true := by
        simpa using hname before behind hcut hbehind
      rw [Path.nameStem, hcut, trimRight_append_cons before hbehind, List.dropLast_concat,
        if_pos hdots]
    · rw [Path.nameStem, trimRight_of_not_mem hdot]
      rfl

theorem exists_finalExtension (name : Text) : ∃ stem ending, FinalExtension name stem ending := by
  by_cases hcut : ∃ stem ending, name = stem ++ '.' :: ending ∧ '.' ∉ ending ∧ ∃ c ∈ stem, c ≠ '.'
  · obtain ⟨stem, ending, rfl, hending, hstem⟩ := hcut
    exact ⟨stem, '.' :: ending, .dotted hstem hending⟩
  · refine ⟨name, [], .none ?_⟩
    intro stem ending hname hending c hc
    by_contra hdot
    exact hcut ⟨stem, ending, hname, hending, c, hc, hdot⟩

/-- A stem has other characters than dots, if its name has. -/
theorem FinalExtension.stem_not_dots (h : FinalExtension name stem ending) (hname : ∃ c ∈ name, c ≠ '.') :
    ∃ c ∈ stem, c ≠ '.' := by
  cases h with
  | dotted hstem _ => exact hstem
  | none _ => exact hname

/-! ## The parts of a name -/

namespace NameParts

theorem cutLastSlash_eq (h : NameParts p front stem ending) :
    Path.cutLastSlash p = (front, stem ++ ending) := by
  rw [h.eq_append]
  rcases h.front_end with rfl | hlast
  · exact cutLastSlash_of_not_mem h.no_slash
  · obtain ⟨before, rfl⟩ := List.getLast?_eq_some_iff.mp hlast
    rw [List.append_assoc]
    exact cutLastSlash_append_cons before h.no_slash

theorem dropExtension_eq (h : NameParts p front stem ending) :
    Path.dropExtension p = front ++ stem := by
  rw [Path.dropExtension, h.cutLastSlash_eq, h.extension.nameStem_eq]

/-- **A name has its parts in one way only.** -/
theorem unique {front' stem' ending' : Text} (h : NameParts p front stem ending)
    (h' : NameParts p front' stem' ending') : front = front' ∧ stem = stem' ∧ ending = ending' := by
  have hcut := h.cutLastSlash_eq.symm.trans h'.cutLastSlash_eq
  obtain ⟨hfront, hlast⟩ := Prod.mk.inj hcut
  have hstem : stem = stem' := by
    rw [← h.extension.nameStem_eq, hlast, h'.extension.nameStem_eq]
  subst hstem
  exact ⟨hfront, rfl, List.append_cancel_left hlast⟩

/-- **Another extension leaves the other parts of a name as they are.** -/
theorem exchange (h : NameParts p front stem own) (hname : ∃ c ∈ stem ++ own, c ≠ '.')
    (hdot : '.' ∉ ending) (hslash : '/' ∉ ending) :
    NameParts (front ++ (stem ++ '.' :: ending)) front stem ('.' :: ending) := by
  refine ⟨rfl, h.front_end, ?_, .dotted (h.extension.stem_not_dots hname) hdot⟩
  have hstem : '/' ∉ stem := fun hmem => h.no_slash (List.mem_append_left own hmem)
  simp [hstem, hslash]

theorem pageName_eq (h : NameParts (lesson.replaceChar '\\' '/') front stem own) :
    pageName extension lesson = front ++ (stem ++ dotted extension) := by
  rw [pageName, h.dropExtension_eq, List.append_assoc]

end NameParts

/-- **Every name has parts.** -/
theorem exists_nameParts (p : Text) : ∃ front stem ending, NameParts p front stem ending := by
  by_cases hslash : '/' ∈ p
  · obtain ⟨before, last, rfl, hlast⟩ := exists_last hslash
    obtain ⟨stem, ending, hextension⟩ := exists_finalExtension last
    obtain rfl := hextension.eq_append
    refine ⟨before ++ ['/'], stem, ending, ?_, .inr ?_, hlast, hextension⟩
    · rw [List.append_assoc, List.singleton_append]
    · exact List.getLast?_concat
  · obtain ⟨stem, ending, hextension⟩ := exists_finalExtension p
    obtain rfl := hextension.eq_append
    exact ⟨[], stem, ending, rfl, .inl rfl, hslash, hextension⟩

/-! ## Pages -/

/-- An extension is asked for with its dot or without. -/
theorem dotted_eq (hextension : extension = '.' :: ending ∨ extension = ending ∧ ending ≠ [])
    (hdot : '.' ∉ ending) : dotted extension = '.' :: ending := by
  rcases hextension with rfl | ⟨rfl, hne⟩
  · rfl
  · obtain ⟨c, rest, rfl⟩ := List.exists_cons_of_ne_nil hne
    have hc : c ≠ '.' := fun hc => hdot (by simp [hc])
    rw [dotted, if_neg (by simp [hc])]

/-- **The page of a lesson has all parts of the lesson's name but the extension.** A page is its own
page; and lessons of one extension, without backslashes in their names, have different pages. -/
theorem pageName_exchanges {extension ending : Text}
    (hextension : extension = '.' :: ending ∨ extension = ending ∧ ending ≠ [])
    (hdot : '.' ∉ ending) (hslash : '/' ∉ ending) (hback : '\\' ∉ ending) :
    (∀ lesson : Text, ∃ front stem own, NameParts (lesson.replaceChar '\\' '/') front stem own ∧
      ((∃ c ∈ stem ++ own, c ≠ '.') →
        NameParts (pageName extension lesson) front stem ('.' :: ending) ∧
          pageName extension (pageName extension lesson) = pageName extension lesson)) ∧
    ∀ (lesson other : Text) {front stem front' stem' own : Text}, '\\' ∉ lesson → '\\' ∉ other →
      NameParts lesson front stem own → NameParts other front' stem' own →
        pageName extension lesson = pageName extension other → lesson = other := by
  have hdotted := dotted_eq hextension hdot
  constructor
  · intro lesson
    obtain ⟨front, stem, own, hparts⟩ := exists_nameParts (lesson.replaceChar '\\' '/')
    refine ⟨front, stem, own, hparts, ?_⟩
    intro hname
    have hpage : pageName extension lesson = front ++ (stem ++ '.' :: ending) := by
      rw [hparts.pageName_eq, hdotted]
    have hexchanged := hparts.exchange hname hdot hslash
    rw [hpage]
    refine ⟨hexchanged, ?_⟩
    -- no backslash is left in the page, so it is read as it stands
    have hclean : '\\' ∉ front ++ (stem ++ '.' :: ending) := by
      have hreplaced : '\\' ∉ front ++ (stem ++ own) :=
        hparts.eq_append ▸ Text.not_mem_replaceChar (by decide) lesson
      simp_all
    rw [NameParts.pageName_eq (by rwa [replaceChar_of_not_mem hclean]), hdotted]
  · intro lesson other front stem front' stem' own hlesson hother hparts hparts' hpage
    rw [NameParts.pageName_eq (by rwa [replaceChar_of_not_mem hlesson]),
      NameParts.pageName_eq (by rwa [replaceChar_of_not_mem hother]), ← List.append_assoc,
      ← List.append_assoc, List.append_left_inj] at hpage
    rw [hparts.eq_append, hparts'.eq_append, ← List.append_assoc, hpage, List.append_assoc]

theorem pageName_exchanges_testLesson :
    NameParts (pageName "md".toList "v1.0\\.a.test.ts".toList) "v1.0/".toList ".a.test".toList
        ".md".toList ∧
      pageName "md".toList (pageName "md".toList "v1.0\\.a.test.ts".toList) =
        pageName "md".toList "v1.0\\.a.test.ts".toList ∧
      pageName "md".toList "a.d/b.ts".toList ≠ pageName "md".toList "a/b.ts".toList := by
  obtain ⟨hparts, hdiffer⟩ := @pageName_exchanges "md".toList "md".toList
    (.inr ⟨rfl, by decide⟩) (by decide) (by decide) (by decide)
  have hstem : ∃ c ∈ ".a.test".toList, c ≠ '.' := ⟨'a', by decide, by decide⟩
  have hlesson : NameParts (Text.replaceChar '\\' '/' "v1.0\\.a.test.ts".toList) "v1.0/".toList
      ".a.test".toList ".ts".toList := ⟨rfl, .inr rfl, by decide, .dotted hstem (by decide)⟩
  obtain ⟨front, stem, own, hown, hpage⟩ := hparts "v1.0\\.a.test.ts".toList
  obtain ⟨rfl, rfl, rfl⟩ := hown.unique hlesson
  obtain ⟨hexchanged, hagain⟩ := hpage ⟨'a', by decide, by decide⟩
  refine ⟨hexchanged, hagain, ?_⟩
  have hb : ∃ c ∈ "b".toList, c ≠ '.' := ⟨'b', by decide, by decide⟩
  have hnested : ∀ front : Text, front.getLast? = some '/' →
      NameParts (front ++ "b.ts".toList) front "b".toList ".ts".toList := by
    intro front hfront
    exact ⟨rfl, .inr hfront, by decide, .dotted hb (by decide)⟩
  intro hsame
  have heq := hdiffer "a.d/b.ts".toList "a/b.ts".toList (by decide) (by decide)
    (hnested "a.d/".toList rfl) (hnested "a/".toList rfl) hsame
  revert heq
  decide

end LessonPages
