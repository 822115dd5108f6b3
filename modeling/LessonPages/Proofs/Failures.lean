import LessonPages.Command.Execute
import LessonPages.Proofs.Absolute
import LessonPages.Proofs.Effect
import LessonPages.Proofs.Entered

/-!
# Which failures are announced

A discovery and a conversion announce how they fail, with two exceptions: a line of the ignore file that
counts can be no pattern, and the bytes of a lesson can be no text. Both faults pass through as they
are, and a call that comes upon one ends without a message.

* `BrokenRules`, `Undecodable` — the two exceptions, told by what is on the disk.
* `discover_failures` — a discovery fails as it announces, or by broken rules;
  `discover_brokenRules` — a discovery that does.
* `ComesTo`, `ComesTo.report` — how a call ends that comes to a lesson and fails there.
* `convertFile_failures` — a conversion fails as it announces, or by an undecodable lesson;
  `convertFile_undecodable` — a conversion that does.
-/

namespace LessonPages

/-! ## Discoveries -/

section Discovery

variable {d : Disk} {root pattern top : Text} {respectIgnore : Bool} {failure : Failure}
  {fault : PatternFault}

/-- Reading rules stops at the first line that is no pattern. -/
theorem Rule.ofLines_eq_error_iff {lines : List Text} :
    Rule.ofLines lines = .error fault ↔ ∃ before line after, lines = before ++ line :: after ∧
      (∀ other ∈ before, ∃ rule, Rule.ofLine other = .ok rule) ∧ Rule.ofLine line = .error fault := by
  induction lines with
  | nil => simp [Rule.ofLines]
  | cons first rest ih =>
    rw [Rule.ofLines]
    cases hfirst : Rule.ofLine first with
    | error e =>
      dsimp only
      constructor
      · rintro ⟨⟩
        exact ⟨[], first, rest, rfl, by simp, hfirst⟩
      · rintro ⟨before, line, after, hlines, hbefore, hline⟩
        cases before with
        | nil =>
          obtain ⟨rfl, rfl⟩ := List.cons.inj hlines
          rw [Except.error.inj (hfirst.symm.trans hline)]
        | cons _ before =>
          obtain ⟨rfl, -⟩ := List.cons.inj hlines
          obtain ⟨rule, hrule⟩ := hbefore first List.mem_cons_self
          cases hfirst.symm.trans hrule
    | ok rule =>
      have hrest : (Rule.ofLines rest).map (rule.toList ++ ·) = .error fault ↔
          Rule.ofLines rest = .error fault := by
        cases Rule.ofLines rest <;> simp [Except.map]
      rw [hrest, ih]
      constructor
      · rintro ⟨before, line, after, rfl, hbefore, hline⟩
        refine ⟨first :: before, line, after, rfl, ?_, hline⟩
        rintro other (_ | ⟨_, hother⟩)
        · exact ⟨rule, hfirst⟩
        · exact hbefore other hother
      · rintro ⟨before, line, after, hlines, hbefore, hline⟩
        cases before with
        | nil =>
          obtain ⟨rfl, -⟩ := List.cons.inj hlines
          cases hfirst.symm.trans hline
        | cons _ before =>
          obtain ⟨-, rfl⟩ := List.cons.inj hlines
          exact ⟨before, line, after, rfl, fun o ho => hbefore o (List.mem_cons_of_mem _ ho), hline⟩

/-- The ignore file that counts for a folder is a text, and one of its lines is no pattern; the first
such line has the fault. -/
def BrokenRules (d : Disk) (root : Text) (fault : PatternFault) : Prop :=
  ∃ path text before line after, Ignore.find? d root = some path ∧
    IgnoreRules.readText d path = .ok text ∧ text.entryLines = before ++ line :: after ∧
    (∀ other ∈ before, ∃ rule, Rule.ofLine other = .ok rule) ∧ Rule.ofLine line = .error fault

/-- An ignore file that has been found can be read, so it holds no text at worst. -/
theorem IgnoreRules.readText_error {path : Text} (hfound : Ignore.find? d top = some path)
    (h : IgnoreRules.readText d path = .error failure) : ∃ fault, failure = .discovery fault := by
  obtain ⟨content, hread⟩ := Disk.isFile_iff_read.mp (List.find?_some hfound)
  unfold IgnoreRules.readText at h
  rw [hread] at h
  dsimp only at h
  split at h
  · cases h
    exact ⟨_, rfl⟩
  · cases h

/-- Loading rules fails as a discovery announces, or because they are broken. -/
theorem IgnoreRules.load_eq_error_iff (hfailure : ∀ fault, failure ≠ .discovery fault) :
    IgnoreRules.load d top = .error failure ↔
      ∃ fault, failure = .badRule fault ∧ BrokenRules d top fault := by
  unfold IgnoreRules.load
  constructor
  · intro h
    split at h
    · cases h
    · rename_i path hfound
      split at h
      · rename_i hread
        cases h
        obtain ⟨fault, rfl⟩ := IgnoreRules.readText_error hfound hread
        exact (hfailure fault rfl).elim
      · rename_i text hread
        split at h
        · rename_i fault hlines
          cases h
          obtain ⟨before, line, after, hsplit, hbefore, hline⟩ := Rule.ofLines_eq_error_iff.mp hlines
          exact ⟨fault, rfl, path, text, before, line, after, hfound, hread, hsplit, hbefore, hline⟩
        · cases h
  · rintro ⟨fault, rfl, path, text, before, line, after, hfound, hread, hsplit, hbefore, hline⟩
    have hlines := Rule.ofLines_eq_error_iff.mpr ⟨before, line, after, hsplit, hbefore, hline⟩
    simp only [hfound, hread, hlines]

/-- The folder that a discovery walks through is listed, or the discovery fails as it announces. -/
theorem listFolder_absolute (hd : d.Named) (hroot : d.isFolder root = true)
    (hfailure : ∀ fault, failure ≠ .discovery fault) :
    Discovery.listFolder d (Path.absolute d.cwdPath root) ≠ .error failure := by
  obtain ⟨inside, hlist⟩ := Disk.isFolder_iff_list.mp hroot
  have hnul := Disk.hasNul_absolute hd (Disk.list_eq_ok hlist).1
  rw [Discovery.listFolder, Disk.list, if_neg (by simp [hnul])]
  intro h
  split at h
  · rename_i hlook
    split at hlook <;> cases hlook
  · cases h
    exact hfailure _ rfl
  · cases h

/-- A discovery fails as it announces, or because of broken rules. -/
theorem discover_unannounced_iff (hd : d.Named) (hfailure : ∀ fault, failure ≠ .discovery fault) :
    discover d root pattern respectIgnore = .error failure ↔
      ∃ fault, failure = .badRule fault ∧ d.isFolder root = true ∧
        (∃ chosen, Discovery.readPattern pattern = .ok chosen) ∧ respectIgnore = true ∧
        BrokenRules d root fault := by
  have hbroken : ∀ fault, BrokenRules d (Path.absolute d.cwdPath root) fault ↔
      BrokenRules d root fault := by
    intro fault
    rw [BrokenRules, Ignore.find?_absolute hd.cwd, ← BrokenRules]
  constructor
  · intro h
    have hsurvey := Discovery.Survey.result_eq_error_iff.mp h
    unfold survey at hsurvey
    split at hsurvey
    · cases hsurvey
      exact (hfailure _ rfl).elim
    · rename_i hfolder
      have hfolder : d.isFolder root = true := by simpa using hfolder
      dsimp only at hsurvey
      split at hsurvey
      · rename_i hpattern
        cases hsurvey
        unfold Discovery.readPattern at hpattern
        split at hpattern <;> cases hpattern
        exact (hfailure _ rfl).elim
      · rename_i chosen hchosen
        split at hsurvey
        · rename_i hignored
          cases hsurvey
          split at hignored
          · rename_i hrespect
            obtain ⟨fault, rfl, hrules⟩ := (IgnoreRules.load_eq_error_iff hfailure).mp hignored
            exact ⟨fault, rfl, hfolder, ⟨chosen, hchosen⟩, hrespect, (hbroken fault).mp hrules⟩
          · cases hignored
        · rename_i ignored hignored
          split at hsurvey
          · rename_i hlist
            cases hsurvey
            exact (listFolder_absolute hd hfolder hfailure hlist).elim
          · -- the walk itself fails only at a path that is too long
            rename_i inside hlist
            have hlist := Discovery.listFolder_eq_ok_iff.mp hlist
            obtain ⟨names, -, rfl⟩ :=
              (discover_eq_error_iff hd hfolder (fun _ => hlist) hchosen hignored).mp h
            exact (hfailure _ rfl).elim
  · rintro ⟨fault, rfl, hfolder, ⟨chosen, hchosen⟩, rfl, hrules⟩
    have hload : IgnoreRules.load d (Path.absolute d.cwdPath root) = .error (.badRule fault) :=
      (IgnoreRules.load_eq_error_iff hfailure).mpr ⟨fault, rfl, (hbroken fault).mpr hrules⟩
    simp only [discover, survey, hfolder, hchosen, hload, Bool.not_true, Bool.false_eq_true, if_false,
      if_true]
    rfl

/-- **Unless the ignore file that counts has a line that is no pattern, a discovery gives lessons or fails
as it announces. Any other failure is that of such a line, and it is met wherever there is a folder to
look into and a pattern to look for.** -/
theorem discover_failures (hd : d.Named) (root pattern : Text) (respectIgnore : Bool) :
    (¬ (respectIgnore = true ∧ ∃ fault, BrokenRules d root fault) →
      (∃ lessons, discover d root pattern respectIgnore = .ok lessons) ∨
        ∃ fault, discover d root pattern respectIgnore = .error (.discovery fault)) ∧
    ∀ failure, (∀ fault, failure ≠ .discovery fault) →
      (discover d root pattern respectIgnore = .error failure ↔
        ∃ fault, failure = .badRule fault ∧ d.isFolder root = true ∧
          (∃ chosen, Discovery.readPattern pattern = .ok chosen) ∧ respectIgnore = true ∧
          BrokenRules d root fault) := by
  refine ⟨?_, fun failure hfailure => discover_unannounced_iff hd hfailure⟩
  intro hwhole
  cases hresult : discover d root pattern respectIgnore with
  | ok lessons => exact .inl ⟨lessons, rfl⟩
  | error failure =>
    by_cases hfailure : ∃ fault, failure = .discovery fault
    · obtain ⟨fault, rfl⟩ := hfailure
      exact .inr ⟨fault, rfl⟩
    · rw [not_exists] at hfailure
      obtain ⟨fault, -, -, -, hrespect, hrules⟩ := (discover_unannounced_iff hd hfailure).mp hresult
      exact (hwhole ⟨hrespect, fault, hrules⟩).elim

/-- A disk with a lesson and an ignore file in the folder `/T`. -/
def withRules (content : Utf8.Bytes) : Disk :=
  ⟨.folder "T".toList (.file ignoreFileName content
    (.file "a.ts".toList (Utf8.encode "x\n".toList) .empty)) .empty, ["T".toList]⟩

/-- An ignore file that is no text is announced. -/
theorem discover_failures_undecodable :
    ∃ fault, discover (withRules [0xFF]) "/T".toList Discovery.defaultPattern true =
      .error (.discovery fault) := by
  have hnamed : (withRules [0xFF]).Named := ⟨by decide, by decide⟩
  have hread : IgnoreRules.readText (withRules [0xFF]) "/T/.gitignore".toList =
      .error (.discovery (.unreadableRules "/T/.gitignore".toList
        (.undecodable ⟨0xFF, 0, 1, .invalidStart⟩))) := by decide +kernel
  have hfind : Ignore.find? (withRules [0xFF]) "/T".toList = some "/T/.gitignore".toList := by
    decide +kernel
  have hwhole : ¬ ∃ fault, BrokenRules (withRules [0xFF]) "/T".toList fault := by
    rintro ⟨fault, path, text, before, line, after, hfound, htext, -⟩
    obtain rfl : "/T/.gitignore".toList = path := Option.some.inj (hfind.symm.trans hfound)
    cases hread.symm.trans htext
  obtain ⟨hannounced, -⟩ := discover_failures hnamed "/T".toList Discovery.defaultPattern true
  obtain ⟨lessons, hlessons⟩ | hfails := hannounced fun h => hwhole h.2
  · have hnot : (discover (withRules [0xFF]) "/T".toList Discovery.defaultPattern true).isOk = false := by
      decide +kernel
    rw [hlessons] at hnot
    cases hnot
  · exact hfails

/-- **A line that ends in a backslash makes a discovery fail as it does not announce.** -/
theorem discover_brokenRules :
    (withRules (Utf8.encode "a\\\n".toList)).Named ∧
      discover (withRules (Utf8.encode "a\\\n".toList)) "/T".toList Discovery.defaultPattern true =
        .error (.badRule (.malformed "a\\".toList)) ∧
      (Failure.badRule (.malformed "a\\".toList)).isDeclared = false :=
  ⟨⟨by decide, by decide⟩, by decide +kernel, rfl⟩

end Discovery

/-! ## Conversions -/

section Conversion

variable {d made before : Disk} {s : Settings} {lesson path text : Text} {failure : Failure}
  {options : Options} {line : List Text}

namespace Disk

theorem read_ne_nul (h : hasNul path = false) : d.read path ≠ .error .nulInPath := by
  unfold read
  rw [if_neg (by simp [h])]
  split <;> simp [refuse]

theorem write_ne_nul (h : hasNul path = false) (content : Utf8.Bytes) :
    d.write path content ≠ .error .nulInPath := by
  unfold write
  rw [if_neg (by simp [h])]
  split <;> simp [refuse]

theorem ensureFolder_ne_nul (h : hasNul path = false) :
    (d.ensureFolder path).2 ≠ .error .nulInPath := by
  unfold ensureFolder makeFolder
  rw [if_neg (by simp [h])]
  split
  · simp
  · split <;> simp
  · rename_i hmade
    split at hmade <;> simp [refuse] at hmade

/-- Making folders asks for starts of the path only. -/
theorem Makes.ne_nul {result : Except DiskFault Unit} (h : Makes d path made result)
    (hnul : hasNul path = false) : result ≠ .error .nulInPath := by
  induction h with
  | atOnce _ hlast | behind _ _ _ _ hlast _ =>
    intro hfails
    exact ensureFolder_ne_nul hnul ((congrArg Prod.snd hlast).trans hfails)
  | toDot _ _ _ _ _ => simp
  | stops _ _ _ ih => exact ih (hasNul_of_isPrefix (Path.headName_isPrefix _) hnul)

theorem ofDisk_eq_page {action : PageAction} {fault : DiskFault} (h : fault ≠ .nulInPath) :
    ∃ pageFault, Failure.ofDisk action path fault = .page pageFault := by
  cases fault with
  | nulInPath => exact (h rfl).elim
  | refused refusal => exact ⟨_, rfl⟩

/-- A page that cannot be written, and a folder that cannot be made, are announced. -/
theorem writeInFolder_failure {folder : Text} (hfolder : hasNul folder = false)
    (hpath : hasNul path = false) (h : d.writeInFolder folder path text = (made, .error failure)) :
    ∃ fault, failure = .page fault := by
  unfold writeInFolder at h
  split at h
  · rename_i hmade
    cases h
    unfold ensureFolders at hmade
    split at hmade
    · rename_i hfails
      cases hmade
      refine ofDisk_eq_page ?_
      rintro rfl
      exact (makes d folder).ne_nul hfolder (by rw [hfails])
    · cases hmade
  · split at h
    · rename_i hwrite
      cases h
      unfold writeText at hwrite
      split at hwrite
      · rename_i hfails
        cases hwrite
        refine ofDisk_eq_page ?_
        rintro rfl
        exact write_ne_nul hpath _ hfails
      · cases hwrite
    · cases h

end Disk

/-- The bytes of a lesson are no text; the first fault in them is given. -/
def Undecodable (d : Disk) (s : Settings) (lesson : Text) (fault : Utf8.Fault) : Prop :=
  ∃ bytes, d.read (s.lessonPath lesson) = .ok bytes ∧ Utf8.decode bytes = .error fault

/-- Reading a lesson fails as a conversion announces, or because it is no text. -/
theorem readText_eq_error_iff (hpath : Disk.hasNul (s.lessonPath lesson) = false)
    (hfailure : ∀ fault, failure ≠ .page fault) :
    d.readText (s.lessonPath lesson) = .error failure ↔
      ∃ fault, failure = .undecodable fault ∧ Undecodable d s lesson fault := by
  unfold Disk.readText
  constructor
  · intro h
    split at h
    · rename_i fault hread
      cases h
      have hnul : fault ≠ .nulInPath := by
        rintro rfl
        exact Disk.read_ne_nul hpath hread
      obtain ⟨pageFault, hpage⟩ := Disk.ofDisk_eq_page hnul
      exact (hfailure pageFault hpage).elim
    · rename_i bytes hread
      split at h
      · rename_i fault hdecode
        cases h
        exact ⟨fault, rfl, bytes, hread, hdecode⟩
      · cases h
  · rintro ⟨fault, rfl, bytes, hread, hdecode⟩
    simp only [hread, hdecode]

/-- The name of a page holds no NUL character that its lesson and its extension do not hold. -/
theorem hasNul_pageName {extension : Text} (hextension : Disk.hasNul extension = false)
    (hlesson : Disk.hasNul lesson = false) : Disk.hasNul (pageName extension lesson) = false := by
  rw [Disk.hasNul_eq_false_iff] at hextension hlesson ⊢
  have hreplaced : '\x00' ∉ lesson.replaceChar '\\' '/' := by
    intro hmem
    obtain ⟨c, hc, heq⟩ := List.mem_map.mp hmem
    split at heq
    · cases heq
    · exact hlesson (heq ▸ hc)
  have hcut := Path.cutLastSlash_append (lesson.replaceChar '\\' '/')
  rw [← hcut, List.mem_append, not_or] at hreplaced
  rw [pageName, Path.dropExtension, List.mem_append, List.mem_append, not_or, not_or]
  refine ⟨⟨hreplaced.1, ?_⟩, ?_⟩
  · rcases nameStem_cases (Path.cutLastSlash (lesson.replaceChar '\\' '/')).2 with
      hstem | ⟨ending, hname, -⟩
    · rw [hstem]
      exact hreplaced.2
    · intro hmem
      exact hreplaced.2 (by rw [hname]; exact List.mem_append_left _ hmem)
  · unfold dotted
    split
    · exact hextension
    · simp [hextension]

/-- A conversion fails as it announces, or because the lesson is no text. -/
theorem convertFile_eq_error_iff (hsource : Disk.hasNul s.source = false)
    (hdestination : Disk.hasNul s.destination = false) (hextension : Disk.hasNul s.extension = false)
    (hlesson : Disk.hasNul lesson = false) (hfailure : ∀ fault, failure ≠ .page fault) :
    (convertFile d s lesson).2 = .error failure ↔
      ∃ fault, failure = .undecodable fault ∧ Undecodable d s lesson fault := by
  have hread := readText_eq_error_iff (d := d) (Disk.hasNul_pathBelow hsource hlesson) hfailure
  have hpage := Disk.hasNul_pathBelow hdestination (hasNul_pageName hextension hlesson)
  rw [← hread, convertFile, Settings.lessonPath]
  split
  · rename_i hfails
    rw [hfails]
  · rename_i text htext
    rw [htext]
    simp only [reduceCtorEq, iff_false]
    split
    · rename_i hwrite
      obtain ⟨fault, rfl⟩ := Disk.writeInFolder_failure
        (Disk.hasNul_of_isPrefix (Path.parent_isPrefix _) hpage) hpage hwrite
      rintro ⟨⟩
      exact hfailure fault rfl
    · simp

/-- A run that starts on one disk comes to a lesson on another. -/
def ComesTo (before : Disk) (s : Settings) (lesson : Text) (d : Disk) : Prop :=
  ∃ made done later, before.ensureFolders s.destination = (made, .ok ()) ∧
    discover made s.source s.pattern s.respectIgnore = .ok (done ++ lesson :: later) ∧
    Converts s made done d

/-- A run that comes to a lesson fails where the lesson does. -/
theorem ComesTo.run_result (h : ComesTo before s lesson d)
    (hfails : (convertFile d s lesson).2 = .error failure) :
    (run before s).result = .error failure := by
  obtain ⟨made, done, later, hfolder, hfound, hdone⟩ := h
  exact (Course.lessonFails hfolder hfound hdone (Prod.ext rfl hfails)).run_eq.2

/-- A call that comes to a lesson ends with the message of its failure, if that is announced. -/
theorem ComesTo.report (h : ComesTo before (options.settings before) lesson d)
    (hparse : parse line = .ok options) {fault : PageFault}
    (hfails : (convertFile d (options.settings before) lesson).2 = .error (.page fault)) :
    ∃ told, (execute before line).2 =
      ⟨[], told ++ "error: ".toList ++ fault.message ++ ['\n'], .exit 1⟩ := by
  have hrun := h.run_result hfails
  refine ⟨progress options (run before (options.settings before)).events, ?_⟩
  rw [execute, hparse]
  dsimp only
  rw [Outcome.report, hrun]
  rfl

/-- **Unless a lesson is no text, a conversion gives the name of its page or fails as it announces, and a
call that comes to the lesson then ends with the message of the failure and with status 1. Any other
failure is that of a lesson that is no text, and every such lesson has it.** -/
theorem convertFile_failures (d : Disk) (s : Settings) (lesson : Text)
    (hsource : Disk.hasNul s.source = false) (hdestination : Disk.hasNul s.destination = false)
    (hextension : Disk.hasNul s.extension = false) (hlesson : Disk.hasNul lesson = false) :
    (¬ (∃ fault, Undecodable d s lesson fault) →
      (convertFile d s lesson).2 = .ok (pageName s.extension lesson) ∨
        ∃ fault, (convertFile d s lesson).2 = .error (.page fault) ∧
          ∀ before line options, parse line = .ok options → s = options.settings before →
            ComesTo before s lesson d → ∃ told, (execute before line).2 =
              ⟨[], told ++ "error: ".toList ++ fault.message ++ ['\n'], .exit 1⟩) ∧
    ∀ failure, (∀ fault, failure ≠ .page fault) →
      ((convertFile d s lesson).2 = .error failure ↔
        ∃ fault, failure = .undecodable fault ∧ Undecodable d s lesson fault) := by
  have hiff : ∀ failure, (∀ fault, failure ≠ .page fault) →
      ((convertFile d s lesson).2 = .error failure ↔
        ∃ fault, failure = .undecodable fault ∧ Undecodable d s lesson fault) := by
    intro failure hfailure
    exact convertFile_eq_error_iff hsource hdestination hextension hlesson hfailure
  refine ⟨?_, hiff⟩
  intro hwhole
  cases hresult : (convertFile d s lesson).2 with
  | ok page => exact .inl (by rw [convertFile_page (Prod.ext rfl hresult)])
  | error failure =>
    by_cases hfailure : ∃ fault, failure = .page fault
    · obtain ⟨fault, rfl⟩ := hfailure
      refine .inr ⟨fault, rfl, ?_⟩
      rintro before line options hparse rfl hcomes
      exact hcomes.report hparse hresult
    · rw [not_exists] at hfailure
      obtain ⟨fault, -, hbytes⟩ := (hiff failure hfailure).mp hresult
      exact (hwhole ⟨fault, hbytes⟩).elim

/-- A disk with a lesson in the folder `/T/src`, and a folder where its page has to be. -/
def blockedPage : Disk :=
  ⟨.folder "T".toList (.folder "src".toList (.file "a.ts".toList (Utf8.encode "x\n".toList) .empty)
    (.folder "out".toList (.folder "a.md".toList .empty .empty) .empty)) .empty, ["T".toList]⟩

/-- A call for lessons in `/T/src` and pages in `/T/out`. -/
def usualCall : List Text := ["--source=/T/src".toList, "--destination=/T/out".toList]

theorem convertFile_failures_blockedPage :
    ∃ fault told, (convertFile blockedPage usualRoots "a.ts".toList).2 = .error (.page fault) ∧
      (execute blockedPage usualCall).2 =
        ⟨[], told ++ "error: ".toList ++ fault.message ++ ['\n'], .exit 1⟩ := by
  have hread : blockedPage.readText (usualRoots.lessonPath "a.ts".toList) = .ok "x\n".toList := by
    decide +kernel
  have hwhole : ¬ ∃ fault, Undecodable blockedPage usualRoots "a.ts".toList fault := by
    rintro ⟨fault, bytes, hbytes, hdecode⟩
    rw [Disk.readText, hbytes] at hread
    simp only [hdecode, reduceCtorEq] at hread
  obtain ⟨options, hparse, hsettings⟩ : ∃ options, parse usualCall = .ok options ∧
      usualRoots = options.settings blockedPage :=
    ⟨{ source := some "/T/src".toList, destination := some "/T/out".toList }, by decide +kernel,
      by decide +kernel⟩
  have hcomes : ComesTo blockedPage usualRoots "a.ts".toList blockedPage :=
    ⟨blockedPage, [], [], by decide +kernel, by decide +kernel, .done⟩
  obtain ⟨hannounced, -⟩ := convertFile_failures blockedPage usualRoots "a.ts".toList (by decide)
    (by decide) (by decide) (by decide)
  obtain hpage | ⟨fault, hfails, hcall⟩ := hannounced hwhole
  · have hnot : (convertFile blockedPage usualRoots "a.ts".toList).2.isOk = false := by decide +kernel
    rw [hpage] at hnot
    cases hnot
  · obtain ⟨told, htold⟩ := hcall blockedPage usualCall options hparse hsettings hcomes
    exact ⟨fault, told, hfails, htold⟩

/-- **A lesson that is no text makes a conversion, and a call that comes to it, fail as neither
announces.** -/
theorem convertFile_undecodable :
    (convertFile brokenLesson usualRoots "b.ts".toList).2 =
        .error (.undecodable ⟨0xFF, 0, 1, .invalidStart⟩) ∧
      (execute brokenLesson usualCall).2 =
        ⟨[], [], .failure (.undecodable ⟨0xFF, 0, 1, .invalidStart⟩)⟩ :=
  ⟨by decide +kernel, by decide +kernel⟩

end Conversion

end LessonPages
