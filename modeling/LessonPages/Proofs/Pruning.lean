import LessonPages.Proofs.Absolute
import LessonPages.Proofs.DefaultPattern
import LessonPages.Proofs.Exact

/-!
# Leaving ignored folders out

A walk does not enter an ignored folder. Where an ignore file only ignores, and without character
classes, this changes nothing in what is found: what is below an ignored folder is ignored as well. The
rules see what is below a folder as they see the folder, followed by more names, unless the way to it is
a part of the way to the ignore file. Only a walk that enters ignored folders may come to one whose path
is too long, and fail there.

* `relativeNames_append` — how the way to a path goes on from the way to a folder.
* `ignores_below` — what is below an ignored folder is ignored.
* `isLesson_iff` — files alone tell the lessons.
* `discover_filtered`, `discover_eq_filter` — what a discovery gives, and that it ends as a walk through
  all folders does where no path is too long.
* `pruning_exact` — a discovery gives the files of a walk through all folders that are not ignored.
* `ignored_above` — a folder above that of the ignore file may be ignored, and a file below it not; and a
  walk through all folders may fail where the discovery does not.
-/

namespace LessonPages

open Discovery

variable {d : Disk} {ignored : IgnoreRules} {rules : List Rule} {base folder names : List Text}

/-! ## Verdicts -/

/-- Rules that only ignore select what one of them matches. -/
theorem verdict_eq_any (h : ∀ r ∈ rules, r.selects = true) (path : Text) :
    Rule.verdict rules path = rules.any fun r => r.pattern.hits (Rule.dropLead path) := by
  unfold Rule.verdict
  cases hfound : rules.reverse.find? fun r => r.pattern.hits (Rule.dropLead path) with
  | none =>
    rw [List.find?_eq_none] at hfound
    symm
    rw [List.any_eq_false]
    intro r hr
    exact hfound r (List.mem_reverse.mpr hr)
  | some r =>
    have hr := List.mem_reverse.mp (List.mem_of_find?_eq_some hfound)
    have hhits := List.find?_some hfound
    show r.selects = _
    rw [h r hr]
    exact (List.any_eq_true.mpr ⟨r, hr, hhits⟩).symm

/-- What rules select as a folder they select with more behind it. -/
theorem verdict_append (h : ∀ r ∈ rules, r.Classless) {path more u : Text} {rest : Text}
    (hpath : Rule.dropLead path = u) (hmore : Rule.dropLead more = u ++ rest) (hu : EndsLevel u)
    (hverdict : Rule.verdict rules path = true) : Rule.verdict rules more = true := by
  have hselects : ∀ r ∈ rules, r.selects = true := fun r hr => (h r hr).selects
  rw [verdict_eq_any hselects, List.any_eq_true] at hverdict ⊢
  obtain ⟨r, hr, hhits⟩ := hverdict
  rw [hpath] at hhits
  refine ⟨r, hr, ?_⟩
  rw [hmore]
  exact Pattern.goesOn_hits (h r hr).pattern u rest hu hhits

/-! ## How the rules see a path -/

/-- Behind a folder, names have no more in common with those of a base than the folder has, unless the
next one leads to the base. -/
theorem commonLength_append_right
    (h : ∀ next, names.head? = some next → ¬ folder ++ [next] <+: base) :
    Path.commonLength base (folder ++ names) = Path.commonLength base folder := by
  induction base generalizing folder with
  | nil => rfl
  | cons b base ih =>
    cases folder with
    | nil =>
      cases names with
      | nil => rfl
      | cons next names =>
        have hne : b ≠ next := by
          rintro rfl
          exact h b rfl ⟨base, rfl⟩
        rw [List.nil_append, Path.commonLength, if_neg hne]
        rfl
    | cons f folder =>
      rw [List.cons_append, Path.commonLength, Path.commonLength]
      split
      · rename_i heq
        rw [ih]
        intro next hnext hprefix
        exact h next hnext (heq ▸ (List.prefix_cons_inj b).mpr hprefix)
      · rfl

theorem commonLength_le (base folder : List Text) : Path.commonLength base folder ≤ folder.length := by
  fun_induction Path.commonLength base folder with
  | case1 => simpa using ‹_›
  | case2 | case3 => exact Nat.zero_le _

/-- **The way from a base to a path goes through the folder of the path, unless the base lies in the
same entry of the folder.** -/
theorem relativeNames_append (h : ∀ next, names.head? = some next → ¬ folder ++ [next] <+: base) :
    Path.relativeNames base (folder ++ names) = Path.relativeNames base folder ++ names := by
  rw [Path.relativeNames, commonLength_append_right h,
    List.drop_append_of_le_length (commonLength_le base folder), ← List.append_assoc]
  rfl

/-- What the rules see of a path, if nothing has to be dropped from its start. -/
def seenNames (way : List Text) (isFolder : Bool) : Text :=
  if way = [] then [] else ['/'].intercalate way ++ if isFolder then ['/'] else []

theorem endsLevel_seenNames (way : List Text) : EndsLevel (seenNames way true) := by
  unfold seenNames
  split
  · exact .inl rfl
  · exact .inr (List.getLast?_concat)

theorem seenNames_append (way : List Text) (hne : names ≠ []) (isFolder : Bool) :
    seenNames (way ++ names) isFolder = seenNames way true ++ seenNames names isFolder := by
  rw [seenNames, seenNames, seenNames, if_neg (by simp [hne]), if_neg hne]
  by_cases hway : way = []
  · rw [if_pos hway, hway]
    rfl
  · rw [if_neg hway, intercalate_append hway hne]
    simp

/-- Rules see a path by the names of the way to it. -/
theorem dropLead_seen (hcwd : ∀ name ∈ d.cwd, IsName name) {path : Text} {way : List Text}
    (hway : Path.relativeNames (Path.names ignored.base) (d.target path) = way) {isFolder : Bool}
    (hshown : way ≠ [] ∨ isFolder = true) :
    Rule.dropLead (ignored.seen d path isFolder) = seenNames way isFolder := by
  have hnames : ∀ name ∈ way, (name ≠ [] ∧ name ≠ Path.here) ∧ '/' ∉ name := by
    intro name hname
    rw [← hway, Path.relativeNames] at hname
    rcases List.mem_append.mp hname with hup | hname
    · rw [List.eq_of_mem_replicate hup]
      decide
    · have hstep := Disk.isStep_of_mem_target hcwd path name (List.mem_of_mem_drop hname)
      exact ⟨⟨hstep.1.ne_nil, hstep.1.ne_here⟩, hstep.2⟩
  rw [IgnoreRules.seen, Path.relative, Disk.names_absolute hcwd, hway, seenNames]
  by_cases hnil : way = []
  · rw [if_pos hnil, hnil, hshown.resolve_left (not_not.mpr hnil)]
    rfl
  · rw [if_neg hnil]
    simp only [hnil, List.isEmpty_iff, if_false]
    exact dropLead_intercalate hnil hnames _

/-- **What is below an ignored folder is ignored, unless the ignore file lies there.** -/
theorem ignores_below (hcwd : ∀ name ∈ d.cwd, IsName name)
    (hrules : ∀ r ∈ ignored.rules, r.Classless) {folder path : Text} {names : List Text}
    (hpath : d.target path = d.target folder ++ names) (hne : names ≠ [])
    (haway : ∀ next, names.head? = some next → ¬ d.target folder ++ [next] <+: Path.names ignored.base)
    (hignored : ignored.ignores d folder true = true) (isFolder : Bool) :
    ignored.ignores d path isFolder = true := by
  have hway := relativeNames_append haway
  rw [← hpath] at hway
  have hfolder : Rule.dropLead (ignored.seen d folder true) = seenNames _ true :=
    dropLead_seen hcwd rfl (.inr rfl)
  have hmore : Rule.dropLead (ignored.seen d path isFolder) = seenNames _ isFolder :=
    dropLead_seen hcwd hway (.inl (by simp [hne]))
  rw [seenNames_append _ hne] at hmore
  exact verdict_append hrules hfolder hmore (endsLevel_seenNames _) hignored

/-! ## Discoveries -/

variable {top : Text} {inside : Folder} {chosen : List Rule}

/-- **Files alone tell the lessons: where no rule takes back, each lesson is a file that would be a
lesson without rules and that the rules do not ignore.** -/
theorem isLesson_iff (hcwd : ∀ name ∈ d.cwd, IsName name) (hinside : inside.Proper)
    (hrules : ∀ r ∈ ignored.rules, r.Classless) {above : List Text}
    (hbase : d.target top = Path.names ignored.base ++ above) :
    IsLesson d top inside chosen (some ignored) names ↔
      IsLesson d top inside chosen none names ∧
        ignored.ignores d (Path.joinAll top names) false = false := by
  constructor
  · intro h
    have hnames := h.isName hinside
    refine ⟨{ h with
      kept := not_exclude_none _ _ _, entered := fun _ _ _ _ _ => not_exclude_none _ _ _ }, ?_⟩
    rw [← Bool.not_eq_true, ignores_iff hcwd hbase h.ne_nil hnames]
    exact h.kept
  · rintro ⟨h, hkept⟩
    have hnames := h.isName hinside
    rw [← Bool.not_eq_true] at hkept
    refine { h with kept := mt (ignores_iff hcwd hbase h.ne_nil hnames false).mpr hkept, entered := ?_ }
    rintro front behind rfl hfront hbehind hout
    have hin : ∀ name ∈ front, IsName name := fun name hname => hnames name (by simp [hname])
    have hfolder : d.target (Path.joinAll top front) = d.target top ++ front :=
      Disk.target_joinAll_of_names hin top
    have hignored := (ignores_iff hcwd hbase hfront hin true).mpr hout
    -- the ignore file lies in the folder of the discovery or above it, so not below this folder
    refine hkept (ignores_below hcwd hrules ?_ hbehind ?_ hignored false)
    · rw [Disk.target_joinAll_of_names hnames, hfolder, List.append_assoc]
    · intro next _ hprefix
      have hle := hprefix.length_le
      rw [hfolder, hbase] at hle
      simp only [List.length_append, List.length_singleton] at hle
      omega

variable {root pattern : Text}

/-- Sorted lessons without ignored ones are those of a discovery that does not look at the files. -/
theorem lessons_eq_filter (hinside : inside.Proper) {lessons all : List Text}
    (hsorted : lessons.Pairwise (· < ·)) (hsortedAll : all.Pairwise (· < ·))
    (hmem : ∀ lesson, lesson ∈ lessons ↔ ∃ names, lesson = ['/'].intercalate names ∧
      IsLesson d top inside chosen none names ∧
        ignored.ignores d (Path.joinAll top names) false = false)
    (hmemAll : ∀ lesson, lesson ∈ all ↔ ∃ names, lesson = ['/'].intercalate names ∧
      IsLesson d top inside chosen none names) :
    lessons = all.filter fun lesson => !ignored.ignores d (pathBelow top lesson) false := by
  apply hsorted.eq_of_mem_iff (hsortedAll.filter _)
  intro lesson
  rw [List.mem_filter, hmem, hmemAll]
  have hbelow : ∀ {names}, IsLesson d top inside chosen none names →
      pathBelow top (['/'].intercalate names) = Path.joinAll top names := by
    intro names h
    rw [pathBelow, List.splitOn_intercalate '/' (fun n hn => (h.isName hinside n hn).no_slash) h.ne_nil]
  constructor
  · rintro ⟨names, rfl, h, hkept⟩
    exact ⟨⟨names, rfl, h⟩, by rw [hbelow h, hkept, Bool.not_false]⟩
  · rintro ⟨⟨names, rfl, h⟩, hkept⟩
    rw [hbelow h, Bool.not_eq_true'] at hkept
    exact ⟨names, rfl, h, hkept⟩

/-- **What a discovery gives are the visible files that the pattern chooses and that the rules, asked about
files alone, do not ignore.** -/
theorem discover_filtered (hd : d.Named) (hrules : ∀ r ∈ ignored.rules, r.Classless)
    (hload : IgnoreRules.load d (Path.absolute d.cwdPath root) = .ok (some ignored))
    (hlist : d.list (Path.absolute d.cwdPath root) = .ok inside)
    (hchosen : readPattern pattern = .ok chosen) {lessons : List Text}
    (h : discover d root pattern true = .ok lessons) :
    lessons.Pairwise (· < ·) ∧ ∀ lesson, lesson ∈ lessons ↔ ∃ names,
      lesson = ['/'].intercalate names ∧
        IsLesson d (Path.absolute d.cwdPath root) inside chosen none names ∧
        ignored.ignores d (Path.joinAll (Path.absolute d.cwdPath root) names) false = false := by
  obtain ⟨above, hbase⟩ := load_base hd.cwd hload
  obtain ⟨hsorted, hmem⟩ :=
    discover_lessons hd (fun _ => hlist) hchosen ((if_pos rfl).trans hload) h
  refine ⟨hsorted, fun lesson => ?_⟩
  rw [hmem]
  simp only [isLesson_iff hd.cwd (Disk.proper_of_list hd.proper hlist) hrules hbase]

/-- **A discovery gives what is left of a discovery without ignore file when the files that the rules
ignore are taken out**, unless a visible folder has a path that is too long. -/
theorem discover_eq_filter (hd : d.Named) (hrules : ∀ r ∈ ignored.rules, r.Classless)
    (hload : IgnoreRules.load d (Path.absolute d.cwdPath root) = .ok (some ignored))
    (hshort : ∀ inside names, d.list (Path.absolute d.cwdPath root) = .ok inside →
      IsEntered d (Path.absolute d.cwdPath root) inside none names →
      isLongPath (Path.joinAll (Path.absolute d.cwdPath root) names) = false) :
    discover d root pattern true = (discover d root pattern false).map
      (List.filter fun lesson =>
        !ignored.ignores d (pathBelow (Path.absolute d.cwdPath root) lesson) false) := by
  by_cases hroot : d.isFolder root = true
  · cases hchosen : readPattern pattern with
    | error _ => simp [discover, survey, hroot, hchosen, Survey.failed, Survey.result, Except.map]
    | ok chosen =>
      cases hlist : listFolder d (Path.absolute d.cwdPath root) with
      | error fault =>
        simp [discover, survey, hroot, hchosen, hload, hlist, Survey.failed, Survey.result, Except.map]
      | ok inside =>
        have hlist := listFolder_eq_ok_iff.mp hlist
        have hshort := fun names => hshort inside names hlist
        obtain ⟨lessons, hfound⟩ := (exists_discover_iff hd hroot (fun _ => hlist) hchosen
          ((if_pos rfl).trans hload)).mpr fun names hentered => hshort names hentered.without_rules
        obtain ⟨all, hall⟩ : ∃ all, discover d root pattern false = .ok all :=
          (exists_discover_iff hd hroot (fun _ => hlist) hchosen rfl).mpr hshort
        obtain ⟨hsorted, hmem⟩ := discover_filtered hd hrules hload hlist hchosen hfound
        obtain ⟨hsortedAll, hmemAll⟩ := discover_lessons hd (fun _ => hlist) hchosen rfl hall
        rw [hfound, hall, Except.map, Except.ok.injEq]
        exact lessons_eq_filter (Disk.proper_of_list hd.proper hlist) hsorted hsortedAll hmem hmemAll
  · simp [discover, survey, hroot, Survey.failed, Survey.result, Except.map]

/-- What is loaded for a folder is what the nearest ignore file says. -/
theorem load_eq (hcwd : ∀ name ∈ d.cwd, IsName name) {file text : Text}
    (hfile : Ignore.find? d root = some file) (htext : IgnoreRules.readText d file = .ok text)
    (hrules : Rule.ofLines text.entryLines = .ok rules) :
    IgnoreRules.load d (Path.absolute d.cwdPath root) = .ok (some ⟨Path.parent file, rules⟩) := by
  rw [IgnoreRules.load, Ignore.find?_absolute hcwd, hfile]
  simp only [htext, hrules]

/-- **Leaving ignored folders out costs nothing where the lines of the ignore file only ignore, and
without character classes.** What is below an ignored folder is ignored, however deep, unless the ignore
file lies in the entry of the folder that leads there. So what a discovery gives are the visible files
that the pattern chooses, without those that the rules ignore; and it ends as walking through all visible
folders does, with these files taken out, if none of these folders has a path that is too long. -/
theorem pruning_exact (hd : d.Named) {lines : List Text} (hlines : ∀ line ∈ lines, OnlyIgnores line)
    (hrules : Rule.ofLines lines = .ok rules) :
    (∀ (base folder path : Text) (names : List Text), d.target path = d.target folder ++ names →
      names ≠ [] →
      (∀ next, names.head? = some next → ¬ d.target folder ++ [next] <+: Path.names base) →
      IgnoreRules.ignores ⟨base, rules⟩ d folder true = true →
      IgnoreRules.ignores ⟨base, rules⟩ d path false = true) ∧
    ∀ root pattern file text : Text, Ignore.find? d root = some file →
      IgnoreRules.readText d file = .ok text → text.entryLines = lines →
      ((∀ inside names, d.list (Path.absolute d.cwdPath root) = .ok inside →
          IsEntered d (Path.absolute d.cwdPath root) inside none names →
          isLongPath (Path.joinAll (Path.absolute d.cwdPath root) names) = false) →
        discover d root pattern true = (discover d root pattern false).map (List.filter fun lesson =>
          !IgnoreRules.ignores ⟨Path.parent file, rules⟩ d
            (pathBelow (Path.absolute d.cwdPath root) lesson) false)) ∧
      ∀ inside chosen lessons, d.list (Path.absolute d.cwdPath root) = .ok inside →
        readPattern pattern = .ok chosen → discover d root pattern true = .ok lessons →
        lessons.Pairwise (· < ·) ∧ ∀ lesson, lesson ∈ lessons ↔ ∃ names,
          lesson = ['/'].intercalate names ∧
            IsLesson d (Path.absolute d.cwdPath root) inside chosen none names ∧
            IgnoreRules.ignores ⟨Path.parent file, rules⟩ d
              (Path.joinAll (Path.absolute d.cwdPath root) names) false = false := by
  have hclassless := Rule.classless_ofLines hlines hrules
  constructor
  · intro base folder path names hpath hne haway hignored
    exact ignores_below hd.cwd hclassless hpath hne haway hignored false
  · rintro root pattern file text hfile htext rfl
    have hload := load_eq hd.cwd hfile htext hrules
    constructor
    · intro hshort
      exact discover_eq_filter hd hclassless hload hshort
    · intro inside chosen lessons hlist hchosen hfound
      exact discover_filtered hd hclassless hload hlist hchosen hfound

/-- A disk with an ignored folder `/T/out`, which has a lesson below it. -/
def ignoredFolder : Disk :=
  ⟨.folder "T".toList (.file ignoreFileName (Utf8.encode "out/\n".toList)
    (.folder "out".toList (.folder "deep".toList (.file "a.ts".toList [] .empty) .empty)
      (.file "b.ts".toList [] .empty))) .empty, ["T".toList]⟩

/-- The rules of its ignore file. -/
def outRules : List Rule :=
  [⟨true, [.anyDepth, .glob ("out".toList.map .literal), .anyDepth], true⟩]

theorem pruning_exact_ignoredFolder :
    IgnoreRules.ignores ⟨"/T".toList, outRules⟩ ignoredFolder "/T/out".toList true = true ∧
      IgnoreRules.ignores ⟨"/T".toList, outRules⟩ ignoredFolder "/T/out/deep/a.ts".toList false = true ∧
      discover ignoredFolder "/T".toList defaultPattern true = .ok ["b.ts".toList] := by
  have hd : ignoredFolder.Named := ⟨by decide, by decide⟩
  obtain ⟨hbelow, hdiscover⟩ := pruning_exact hd
    (by decide : ∀ line ∈ ["out/".toList], OnlyIgnores line)
    (by decide +kernel : Rule.ofLines ["out/".toList] = .ok outRules)
  have hfolder : IgnoreRules.ignores ⟨"/T".toList, outRules⟩ ignoredFolder "/T/out".toList true =
      true := by decide +kernel
  refine ⟨hfolder, ?_, ?_⟩
  · exact hbelow _ _ "/T/out/deep/a.ts".toList ["deep".toList, "a.ts".toList] (by decide +kernel)
      (by simp) (by decide +kernel) hfolder
  · have hall : discover ignoredFolder "/T".toList defaultPattern false =
        .ok ["b.ts".toList, "out/deep/a.ts".toList] := by decide +kernel
    rw [(hdiscover "/T".toList defaultPattern "/T/.gitignore".toList "out/\n".toList (by decide +kernel)
      (by decide +kernel) (by decide +kernel)).1 ?_, hall]
    · decide +kernel
    · -- the walk through all folders has not failed, so it has met no path that is too long
      obtain ⟨hroot, chosen, _, there, hchosen, ⟨⟩, hlist, -⟩ := discover_eq_ok_iff.mp hall
      intro inside names hinside hentered
      obtain rfl := Except.ok.inj (hinside.symm.trans hlist)
      exact (exists_discover_iff hd hroot (fun _ => hlist) hchosen rfl).mp ⟨_, hall⟩ names hentered

/-- A disk with an ignore file in the folder `/T/a`, beside a lesson. -/
def ignoredParent : Disk :=
  ⟨.folder "T".toList (.folder "a".toList (.file ignoreFileName (Utf8.encode ".*\n".toList)
    (.file "x.ts".toList [] .empty)) .empty) .empty, ["T".toList]⟩

/-- **A folder above the ignore file can be ignored, and a lesson below it not:** rules see the folder
above theirs as two dots. **And an ignored folder can keep a discovery from failing:** where the path of a
folder below it is too long, only the walk through all folders comes there. -/
theorem ignored_above :
    (∃ ignored, IgnoreRules.load ignoredParent "/T/a".toList = .ok (some ignored) ∧
      IgnoreRules.readText ignoredParent "/T/a/.gitignore".toList = .ok ".*\n".toList ∧
      (∀ line ∈ Text.entryLines ".*\n".toList, OnlyIgnores line) ∧
      ignored.ignores ignoredParent "/T".toList true = true ∧
      ignoredParent.target "/T/a/x.ts".toList =
        ignoredParent.target "/T".toList ++ ["a".toList, "x.ts".toList] ∧
      ignored.ignores ignoredParent "/T/a/x.ts".toList false = false) ∧
    Ignore.find? deepDisk "/T".toList = some "/T/.gitignore".toList ∧
      IgnoreRules.readText deepDisk "/T/.gitignore".toList = .ok "d*/\n".toList ∧
      (∀ line ∈ Text.entryLines "d*/\n".toList, OnlyIgnores line) ∧
      discover deepDisk "/T".toList defaultPattern true = .ok ["a.ts".toList] ∧
      discover deepDisk "/T".toList defaultPattern false =
        .error (tooLong (Path.joinAll "/T".toList (List.replicate 17 longName))) := by
  refine ⟨⟨⟨"/T/a".toList, [⟨true, [.anyDepth, .glob [.literal '.', .anyRun]], false⟩]⟩, ?_⟩, ?_⟩
  · decide +kernel
  · refine ⟨by decide +kernel, by decide +kernel, by decide +kernel, by decide +kernel, ?_⟩
    exact discover_deepDisk readPattern_defaultPattern

end LessonPages
