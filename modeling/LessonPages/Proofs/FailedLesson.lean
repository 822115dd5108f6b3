import LessonPages.Proofs.Pages

/-!
# What a conversion leaves that fails

A lesson is read before anything is made, and its page is written after everything that can still
fail. So a conversion that fails leaves every file and every link as it was, in any tree: what can
be new are folders on the way to the page, and not even these where the lesson could not be read. A
text has no lone surrogates, so its bytes can always be written.

* `Disk.OnTheWay` — the places that a path leads by; `Disk.Makes.onTheWay` — folders are made there
  and nowhere else.
* `convertFile_eq_error` — the two ways for a conversion to fail.
* `convertFile_leaves` — what is left then.
-/

namespace LessonPages

namespace Disk

variable {d d' : Disk} {path front : Text} {q : List Text} {spots : List Text → Prop}

/-- A place on the way of a path: some start of the path leads there. -/
def OnTheWay (d : Disk) (path : Text) (q : List Text) : Prop :=
  ∃ front place, front <+: path ∧ d.locate .look front = .ok place ∧ place.names = q

theorem OnTheWay.mono (h : d.OnTheWay path q) (hgrows : d.Grows d' spots) : d'.OnTheWay path q := by
  obtain ⟨front, place, hfront, hplace, hq⟩ := h
  exact ⟨front, place, hfront, hgrows.locate hplace, hq⟩

theorem OnTheWay.of_isPrefix (h : d.OnTheWay front q) (hfront : front <+: path) :
    d.OnTheWay path q := by
  obtain ⟨start, place, hstart, hplace, hq⟩ := h
  exact ⟨start, place, hstart.trans hfront, hplace, hq⟩

/-- A folder that is made stands where its path leads. -/
theorem makeFolder_onTheWay (h : d.makeFolder path = .ok d') (hnone : d.root.node? q = none)
    (hnew : d'.root.node? q ≠ none) : d'.OnTheWay path q := by
  have hgrows := makeFolder_grows h fun _ => False
  obtain ⟨-, dir, name, slash, hrouted, -, hfree, hd'⟩ := makeFolder_eq_ok_routed h
  have hq : q = dir ++ [name] := by
    by_contra hne
    have hdir : d.root.node? dir = some .folder := hrouted.base_folder
    rw [hd', Folder.node?_set .empty hdir (by rw [hfree]; simp), if_neg hne] at hnew
    exact hnew hnone
  -- nothing stood there, so the path does not end at a link, and looking leads to the same place
  have hlook : d.Routed .look path (.slot dir name slash) := by
    refine hrouted.look ?_
    intro target hlink
    rw [Place.names, hfree] at hlink
    cases hlink
  exact ⟨path, _, List.prefix_rfl, hgrows.locate (locate_eq_ok_iff_routed.mpr hlook), hq.symm⟩

theorem ensureFolder_onTheWay {result : Except DiskFault Unit}
    (h : d.ensureFolder path = (d', result)) (hnone : d.root.node? q = none)
    (hnew : d'.root.node? q ≠ none) : d'.OnTheWay path q := by
  rcases ensureFolder_fst h with rfl | hmade
  · exact (hnew hnone).elim
  · exact makeFolder_onTheWay hmade hnone hnew

theorem ensureFolder_grows {result : Except DiskFault Unit} (h : d.ensureFolder path = (d', result))
    (spots : List Text → Prop) : d.Grows d' spots := by
  rcases ensureFolder_fst h with rfl | hmade
  · exact .refl _ spots
  · exact makeFolder_grows hmade spots

/-- **Folders are made on the way of the path only**, also where the path is not made to its end. -/
theorem Makes.onTheWay {result : Except DiskFault Unit} (h : Makes d path d' result)
    (hnone : d.root.node? q = none) (hnew : d'.root.node? q ≠ none) : d'.OnTheWay path q := by
  induction h with
  | atOnce _ hlast => exact ensureFolder_onTheWay hlast hnone hnew
  | @behind made d' path _ _ _ _ _ _ hlast ih =>
    by_cases hmid : made.root.node? q = none
    · exact ensureFolder_onTheWay hlast hmid hnew
    · have hgrows := ensureFolder_grows hlast fun _ => False
      exact ((ih hmid).mono hgrows).of_isPrefix (Path.headName_isPrefix path)
  | toDot _ _ _ _ ih | stops _ _ _ ih => exact (ih hnew).of_isPrefix (Path.headName_isPrefix _)

/-- What is written to a folder and cannot be written leaves the folder made as far as possible. -/
theorem writeInFolder_error_fst {folder text : Text} {failure : Failure}
    (h : d.writeInFolder folder path text = (d', .error failure)) :
    d' = (d.ensureFolders folder).1 := by
  unfold writeInFolder at h
  split at h
  · rename_i hmade
    cases h
    rw [hmade]
  · rename_i hmade
    rw [hmade]
    split at h <;> cases h
    rfl

end Disk

variable {d d' : Disk} {s : Settings} {lesson : Text} {failure : Failure}

/-- A conversion fails before anything is made, or else when its lesson is read and folders are
made. -/
theorem convertFile_eq_error (h : convertFile d s lesson = (d', .error failure)) :
    (d.readText (s.lessonPath lesson) = .error failure ∧ d' = d) ∨
      ∃ text, d.readText (s.lessonPath lesson) = .ok text ∧
        d' = (d.ensureFolders (Path.parent (s.pagePath lesson))).1 := by
  unfold convertFile at h
  split at h
  · rename_i hread
    cases h
    exact .inl ⟨hread, rfl⟩
  · rename_i text hread
    dsimp only at h
    split at h
    · rename_i hwrite
      cases h
      exact .inr ⟨text, hread, Disk.writeInFolder_error_fst hwrite⟩
    · cases h

/-- **A conversion that fails leaves all files and links as they were.** What is new are folders on
the way to the page, and nothing is new where the lesson could not be read or is no text. -/
theorem convertFile_leaves (h : convertFile d s lesson = (d', .error failure)) :
    d'.cwd = d.cwd ∧
      (∀ q, d'.root.node? q = d.root.node? q ∨
        (d.root.node? q = none ∧ d'.root.node? q = some .folder ∧
          d'.OnTheWay (Path.parent (s.pagePath lesson)) q)) ∧
      ∀ cause, d.readText (s.lessonPath lesson) = .error cause → failure = cause ∧ d' = d := by
  rcases convertFile_eq_error h with ⟨hread, rfl⟩ | ⟨text, hread, rfl⟩
  · refine ⟨rfl, fun _ => .inl rfl, ?_⟩
    intro cause hcause
    exact ⟨Except.error.inj (hread.symm.trans hcause), rfl⟩
  · have hgrows := Disk.ensureFolders_grows d (Path.parent (s.pagePath lesson)) fun _ => False
    refine ⟨hgrows.cwd_eq, ?_, ?_⟩
    · intro q
      rcases hgrows.node? q with hsame | ⟨hnone, hnew⟩ | ⟨hspot, -⟩
      · exact .inl hsame
      · have hmakes := Disk.makes d (Path.parent (s.pagePath lesson))
        rw [← Disk.ensureFolders_fst] at hmakes
        exact .inr ⟨hnone, hnew, hmakes.onTheWay hnone (by rw [hnew]; simp)⟩
      · exact hspot.elim
    · intro cause hcause
      rw [hread] at hcause
      cases hcause

/-- A disk with a lesson in the folder `/T/src`, and a link `/T/out` to nowhere. -/
def danglingPages : Disk :=
  ⟨.folder "T".toList (.folder "src".toList (.file "a.ts".toList (Utf8.encode "x\n".toList) .empty)
    (.link "out".toList "nowhere".toList .empty)) .empty, ["T".toList]⟩

/-- Settings under which pages come behind that link, by way of a folder that is not there. -/
def detour : Settings := { source := "/T/src".toList, destination := "/T/new/../out".toList }

theorem convertFile_leaves_danglingPages :
    (∃ d' failure, convertFile danglingPages detour "a.ts".toList = (d', .error failure) ∧
      danglingPages.root.node? ["T".toList, "new".toList] = none ∧
      d'.OnTheWay "/T/new/../out".toList ["T".toList, "new".toList] ∧
      d'.root.node? ["T".toList, "out".toList] = some (.link "nowhere".toList)) ∧
    ∃ failure,
      convertFile danglingPages detour "b.ts".toList = (danglingPages, .error failure) := by
  have hfails : ∀ lesson, (convertFile danglingPages detour lesson).2.isOk = false →
      ∃ failure, convertFile danglingPages detour lesson =
        ((convertFile danglingPages detour lesson).1, .error failure) := by
    intro lesson hnot
    cases hresult : (convertFile danglingPages detour lesson).2 with
    | ok page =>
      rw [hresult] at hnot
      cases hnot
    | error failure => exact ⟨failure, Prod.ext rfl hresult⟩
  constructor
  · obtain ⟨failure, hfailure⟩ := hfails "a.ts".toList (by decide +kernel)
    obtain ⟨-, hnode, -⟩ := convertFile_leaves hfailure
    have hnone : danglingPages.root.node? ["T".toList, "new".toList] = none := by decide +kernel
    have hnew : (convertFile danglingPages detour "a.ts".toList).1.root.node?
        ["T".toList, "new".toList] ≠ none := by decide +kernel
    have hlink : danglingPages.root.node? ["T".toList, "out".toList] =
        some (.link "nowhere".toList) := by decide +kernel
    refine ⟨_, failure, hfailure, hnone, ?_, ?_⟩
    · rcases hnode ["T".toList, "new".toList] with hsame | ⟨-, -, hway⟩
      · exact (hnew (hsame.trans hnone)).elim
      · exact hway
    · rcases hnode ["T".toList, "out".toList] with hsame | ⟨hgone, -⟩
      · exact hsame.trans hlink
      · rw [hlink] at hgone
        cases hgone
  · obtain ⟨failure, hfailure⟩ := hfails "b.ts".toList (by decide +kernel)
    have hcause : danglingPages.readText (detour.lessonPath "b.ts".toList) =
        .error (.page ⟨.read, "/T/src/b.ts".toList, ⟨.notFound, "/T/src/b.ts".toList⟩⟩) := by
      decide +kernel
    obtain ⟨-, -, hread⟩ := convertFile_leaves hfailure
    obtain ⟨-, hdisk⟩ := hread _ hcause
    exact ⟨failure, hfailure.trans (by rw [hdisk])⟩

end LessonPages
