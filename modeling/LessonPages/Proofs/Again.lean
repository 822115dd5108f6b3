import LessonPages.Proofs.Confined
import LessonPages.Proofs.Effect
import LessonPages.Proofs.Elsewhere

/-!
# Running again

A second run finds what the first one has left: the same lessons, every folder that it needs, and files
where it writes. It writes the same texts at the same places in the same order, so each place says again
what it said at the same point of the first run, and in the end what it said in the end.

* `Disk.Retraces` — a second run has come as far as the first one;
  `Disk.Retraces.writeInFolder` — it goes on as that does.
* `Disk.Retraces.converts` — lesson after lesson.
* `Settings.Apart.spots_elsewhere` — a run writes no lesson and no ignore file of its discovery;
  `node?_source` — it leaves the folder of its lessons as it is.
* `run_again_error` — a run that only seems to make the folder of its pages.
* `run_again` — the whole run; `run_again_behind_dot` — a folder that a run only seems to make.
-/

namespace LessonPages

variable {d d' first first' second between last : Disk} {s : Settings} {folder path text : Text}
  {lesson page : Text} {lessons pages : List Text} {spots done : List (List Text)}

/-! ## Single steps -/

/-- A folder that is there, and a place for a file in it, are all that writing takes. -/
theorem Disk.writeInFolder_eq_ok (hd : d.Plain) (hfolder : d.isFolder folder = true)
    (hreaches : d.Reaches path) (hnot : d.root.node? (d.target path) ≠ some .folder) (text : Text) :
    ∃ d', d.writeInFolder folder path text = (d', .ok ()) ∧ d'.Plain ∧ d'.cwd = d.cwd ∧
      ∀ q, d'.root.node? q =
        if q = d.target path then some (.file (Utf8.encode text)) else d.root.node? q := by
  have hwrite : d.write path (Utf8.encode text) = .ok _ :=
    (write_eq_ok_iff hd).mpr ⟨hreaches, hnot, rfl⟩
  refine ⟨_, ?_, (write_extends hd hwrite).1.plain hd, rfl, node?_of_write hd hwrite⟩
  simp only [writeInFolder, ensureFolders_of_isFolder hd hfolder, writeText, hwrite]

namespace Disk

/-- A second run, from the disk `last` that the first one left, has come as far as the first one had
when its disk was `first`: at the places written so far it says the same, and elsewhere nothing has
changed. -/
structure Retraces (first second last : Disk) (done : List (List Text)) : Prop where
  plain : second.Plain
  cwd_eq : second.cwd = last.cwd
  folder : ∀ q, last.root.node? q = some .folder → second.root.node? q = some .folder
  same : ∀ q ∈ done, ∃ content, first.root.node? q = some (.file content) ∧
    second.root.node? q = some (.file content)
  kept : ∀ q, q ∉ done → second.root.node? q = last.root.node? q

namespace Retraces

theorem start (hlast : last.Plain) : Retraces first last last [] :=
  ⟨hlast, rfl, fun _ => id, by simp, fun _ _ => rfl⟩

/-- When the first run is over, the second one has left the same. -/
theorem sameTree (h : Retraces last second last done) : last.SameTree second := by
  refine ⟨h.cwd_eq, ?_⟩
  intro q
  by_cases hq : q ∈ done
  · obtain ⟨content, hfirst, hsecond⟩ := h.same q hq
    rw [hfirst, hsecond]
  · exact h.kept q hq

theorem target_eq (h : Retraces first second last done) (path : Text) :
    second.target path = last.target path :=
  target_congr h.cwd_eq path

theorem isFolder (h : Retraces first second last done) (hlast : last.Plain)
    (hfolder : last.isFolder path = true) : second.isFolder path = true := by
  obtain ⟨hnul, ⟨place, hleads⟩, hnode⟩ := isFolder_eq_true hlast hfolder
  rw [← hleads.names_eq hlast] at hnode
  exact (hleads.mono h.cwd_eq h.folder).isFolder h.plain hnul (h.folder _ hnode)

/-- **Where the first run writes, the second one does.** -/
theorem writeInFolder (h : Retraces first second last done) (hd : first.Plain)
    (hwrite : first.writeInFolder folder path text = (first', .ok ()))
    (hlast : first'.Extends last spots) (hfolder : last.isFolder folder = true) :
    ∃ second', second.writeInFolder folder path text = (second', .ok ()) ∧
      Retraces first' second' last (last.target path :: done) := by
  obtain ⟨hext, htext⟩ := writeInFolder_ok hd hwrite
  have hd' := hext.plain hd
  have htarget : first.target path = last.target path := by
    rw [hlast.target_eq, hext.target_eq]
  -- what the first run has written is a file in the end, whatever has been written over it
  have hnot : second.root.node? (second.target path) ≠ some .folder := by
    rw [h.target_eq]
    by_cases hmem : last.target path ∈ done
    · obtain ⟨content, -, hsecond⟩ := h.same _ hmem
      rw [hsecond]
      simp
    · obtain ⟨content, hnode⟩ := hlast.exists_file htext.node?
      rw [h.kept _ hmem, hlast.target_eq, hnode]
      simp
  have hreaches : second.Reaches path :=
    (hlast.reaches htext.reaches).mono h.cwd_eq h.folder
  obtain ⟨second', hsecond, hplain, hcwd, hnode⟩ :=
    writeInFolder_eq_ok h.plain (h.isFolder (hlast.plain hd') hfolder) hreaches hnot text
  rw [h.target_eq] at hnode hnot
  refine ⟨second', hsecond, hplain, hcwd.trans h.cwd_eq, ?_, ?_, ?_⟩
  · intro q hq
    have hfolder := h.folder q hq
    rw [hnode, if_neg]
    · exact hfolder
    · rintro rfl
      exact hnot hfolder
  · intro q hq
    by_cases heq : q = last.target path
    · refine ⟨Utf8.encode text, ?_, ?_⟩
      · rw [heq, hlast.target_eq]
        exact htext.node?
      · rw [hnode, if_pos heq]
    · obtain ⟨content, hfirst, hsame⟩ := h.same q ((List.mem_cons.mp hq).resolve_left heq)
      refine ⟨content, (hext.file_iff ?_).mpr hfirst, ?_⟩
      · rw [htarget]
        simpa using heq
      · rw [hnode, if_neg heq, hsame]
  · intro q hq
    rw [List.mem_cons, not_or] at hq
    rw [hnode, if_neg hq.1, h.kept q hq.2]

/-- A text that the first run reads, and does not write over, is read by the second run. -/
theorem readText (h : Retraces first second last done) (hd : first.Plain)
    (hread : first.readText path = .ok text) (hlast : first.Extends last spots)
    (hsub : done ⊆ spots) (hspot : last.target path ∉ spots) : second.readText path = .ok text := by
  obtain ⟨hreaches, hnul, hshort, bytes, raw, hnode, hdecode, htext⟩ :=
    (readText_eq_ok_iff hd).mp hread
  refine (readText_eq_ok_iff h.plain).mpr
    ⟨(hlast.reaches hreaches).mono h.cwd_eq h.folder, hnul, hshort, bytes, raw, ?_, hdecode, htext⟩
  rw [h.target_eq, h.kept _ fun hmem => hspot (hsub hmem), hlast.file_iff hspot, hlast.target_eq]
  exact hnode

/-- **A lesson that the first run converts is converted again.** -/
theorem convertFile (h : Retraces first second last done) (hd : first.Plain)
    (hconvert : LessonPages.convertFile first s lesson = (first', .ok page))
    (hlast : first'.Extends last spots) (hsub : done ⊆ spots)
    (hplace : s.pagePlace last lesson ∈ spots) (hlesson : last.target (s.lessonPath lesson) ∉ spots) :
    ∃ second', LessonPages.convertFile second s lesson = (second', .ok page) ∧
      Retraces first' second' last (s.pagePlace last lesson :: done) := by
  obtain ⟨rfl, text, hread, hwrite⟩ := convertFile_eq_ok_iff.mp hconvert
  obtain ⟨hext, htext⟩ := writeInFolder_ok hd hwrite
  have hd' := hext.plain hd
  have hplace' : [first.target (s.pagePath lesson)] ⊆ spots := by
    rw [← hext.target_eq, ← hlast.target_eq]
    simpa [Settings.pagePlace] using hplace
  have hparent : Path.parent (s.pagePath lesson) ≠ [] := by
    intro hnil
    rw [hnil, Disk.writeInFolder, ensureFolders_nil] at hwrite
    cases hwrite
  have hfolder := (hlast.reaches htext.reaches).isFolder_parent (hlast.plain hd') hparent
  obtain ⟨second', hsecond, hretraces⟩ := h.writeInFolder hd hwrite hlast hfolder
  refine ⟨second', convertFile_eq_ok_iff.mpr ⟨rfl, text, ?_, hsecond⟩, hretraces⟩
  exact h.readText hd hread ((hext.mono hplace').trans hlast) hsub hlesson

/-- **Lessons that the first run converts are converted again.** -/
theorem converts (h : Retraces first second last done) (hconverts : Converts s first lessons between)
    (hd : first.Plain) (hlast : between.Extends last spots) (hsub : done ⊆ spots)
    (hplaces : lessons.map (s.pagePlace last) ⊆ spots)
    (hlessons : ∀ lesson ∈ lessons, last.target (s.lessonPath lesson) ∉ spots) :
    ∃ second' done', Converts s second lessons second' ∧ Retraces between second' last done' := by
  induction hconverts generalizing second done with
  | done => exact ⟨second, done, .done, h⟩
  | @next first first' between lesson page rest hconvert hrest ih =>
    obtain ⟨-, hext, -⟩ := convertFile_ok hd hconvert
    have hd' := hext.plain hd
    rw [List.map_cons, List.cons_subset] at hplaces
    have hrest' := hrest.extends hd'
    have hlast' : first'.Extends last spots := by
      refine (hrest'.mono ?_).trans hlast
      rw [← pagePlace_eq hrest', ← pagePlace_eq hlast]
      exact hplaces.2
    obtain ⟨second', hsecond, hretraces⟩ := h.convertFile hd hconvert hlast' hsub hplaces.1
      (hlessons lesson List.mem_cons_self)
    obtain ⟨second'', done', hconverts, hretraces⟩ := ih hretraces hd' hlast
      (List.cons_subset.mpr ⟨hplaces.1, hsub⟩) hplaces.2
      fun other hother => hlessons other (List.mem_cons_of_mem _ hother)
    exact ⟨second'', done', .next hsecond hconverts, hretraces⟩

end Retraces

end Disk

/-! ## What a run writes and what its discovery reads -/

/-- A name that leads to a file's place leads below the folder that it goes on from. -/
theorem Disk.Reaches.target_join (hd : d.Plain) {name : Text} (hname : '/' ∉ name)
    (h : d.Reaches (Path.join path name)) : d.target (Path.join path name) = d.target path ++ [name] := by
  obtain ⟨n, hlast, hstep⟩ := h.getLast?_isStep hd
  have hslash : ∀ part ∈ [name], '/' ∉ part := by simpa using hname
  have hlast' := getLast?_splitOn_joinAll hslash (List.cons_ne_nil _ _) path
  obtain rfl : name = n := Option.some.inj (hlast'.symm.trans hlast)
  rw [Disk.target_join hname, follow_step hstep, List.reverse_cons, List.reverse_reverse]

/-- What is below the folder of the pages is neither below that of the lessons nor an ignore file that
counts for it. -/
theorem Settings.Apart.elsewhere (hs : s.Apart d) {names : List Text} (hne : names ≠ []) :
    ¬ d.target s.source <+: d.target s.destination ++ names ∧
      ∀ above, above <+: d.target s.source →
        d.target s.destination ++ names ≠ above ++ [ignoreFileName] := by
  refine ⟨?_, ?_⟩
  · intro hsource
    rcases List.prefix_or_prefix_of_prefix hsource (List.prefix_append _ names) with h | h
    · exact hs.below h
    · exact hs.above h
  · intro above habove heq
    have hprefix : d.target s.destination <+: above ++ [ignoreFileName] := ⟨names, heq⟩
    rcases List.prefix_concat_iff.mp hprefix with hwhole | h
    · rw [← hwhole] at heq
      exact hne (by simpa using heq)
    · exact hs.above (h.trans habove)

/-- **A run writes neither below the folder of its lessons nor an ignore file that counts for it.** -/
theorem Settings.Apart.spots_elsewhere (hs : s.Apart d) (hd : d.Plain) (hlessons : PlainNames lessons)
    (hindex : s.writeIndex = true → d.Reaches s.indexPath) :
    ∀ q ∈ lessons.map (s.pagePlace d) ++ s.indexPlaces d, ¬ d.target s.source <+: q ∧
      ∀ above, above <+: d.target s.source → q ≠ above ++ [ignoreFileName] := by
  intro q hq
  rcases List.mem_append.mp hq with hpage | hpage
  · obtain ⟨lesson, hlesson, rfl⟩ := List.mem_map.mp hpage
    rw [pagePlace_of_plain hlessons (slash_not_mem_dotted hs.extension) hlesson]
    exact hs.elsewhere (List.splitOn_ne_nil _ _)
  · obtain ⟨hwanted, rfl⟩ := Settings.mem_indexPlaces.mp hpage
    have htarget : d.target s.indexPath = d.target s.destination ++ [s.indexName] :=
      (hindex hwanted).target_join hd hs.indexName
    rw [htarget]
    exact hs.elsewhere (List.cons_ne_nil _ _)

/-- What is not below the folder of the pages is not below that of the lessons. -/
theorem Settings.Apart.not_isPrefix (hs : s.Apart d) (names : List Text) :
    ¬ d.target s.destination <+: d.target s.source ++ names := by
  intro hbelow
  rcases List.prefix_or_prefix_of_prefix hbelow (List.prefix_append _ names) with h | h
  · exact hs.above h
  · exact hs.below h

theorem Settings.Apart.congr (hs : s.Apart d) (htarget : ∀ path, d'.target path = d.target path) :
    s.Apart d' :=
  ⟨hs.extension, hs.indexName, by rw [htarget, htarget]; exact hs.below,
    by rw [htarget, htarget]; exact hs.above⟩

/-- The pages of lessons that have been converted can be reached. -/
theorem Converts.reaches (h : Converts s d lessons d') (hd : d.Plain) :
    ∀ lesson ∈ lessons, d'.Reaches (s.pagePath lesson) := by
  induction h with
  | done => simp
  | next hconvert hrest ih =>
    obtain ⟨-, hext, _, -, htext⟩ := convertFile_ok hd hconvert
    rintro lesson (_ | ⟨_, hlesson⟩)
    · exact (hrest.extends (hext.plain hd)).reaches htext.reaches
    · exact ih (hext.plain hd) lesson hlesson

/-! ## A whole run -/

/-- The index that the first run writes is written again. -/
theorem Disk.Retraces.indexes (h : Disk.Retraces between second last done) (hd : between.Plain)
    (hindex : s.Indexes pages between last) (hfolder : last.isFolder s.destination = true) :
    ∃ second', s.Indexes pages second second' ∧ last.SameTree second' := by
  unfold Settings.Indexes at hindex ⊢
  split at hindex
  · rename_i hwanted
    obtain ⟨path, hindex⟩ := hindex
    obtain ⟨rfl, hwrite⟩ := generateIndex_eq_ok_iff.mp hindex
    obtain ⟨second', hsecond, hretraces⟩ := h.writeInFolder hd hwrite (.refl last []) hfolder
    simp only [if_pos hwanted]
    exact ⟨second', ⟨_, generateIndex_eq_ok_iff.mpr ⟨rfl, hsecond⟩⟩, hretraces.sameTree⟩
  · rename_i hunwanted
    subst hindex
    simp only [if_neg hunwanted]
    exact ⟨second, rfl, h.sameTree⟩

/-- A run that returns has made the folder of its pages, unless it has written nothing and the path of
the folder ends in a dot. -/
theorem isFolder_destination (hd : d.Plain) (hs : s.Apart d) (hrun : (run d s).result = .ok pages)
    (hmakes : pages ≠ [] ∨ s.writeIndex = true ∨ (Path.headName s.destination).2 ≠ Path.here) :
    (run d s).disk.isFolder s.destination = true := by
  obtain ⟨lessons, hcourse⟩ := run_course d s
  rw [hrun] at hcourse
  obtain ⟨between, hmade, -, rfl, hdone, hindex⟩ := Course.ok_iff.mp hcourse
  have hd' := (Disk.ensureFolders_extends hd s.destination).plain hd
  have hbetween := hdone.extends hd'
  obtain ⟨hlast, hindex⟩ := hindex.extends (hbetween.plain hd')
  have hplain := hlast.plain (hbetween.plain hd')
  have hne : s.destination ≠ [] := by
    intro hnil
    rw [hnil, Disk.ensureFolders_nil] at hmade
    cases hmade
  rcases hmakes with hpages | hwanted | hhere
  · obtain ⟨lesson, hlesson⟩ := List.exists_mem_of_ne_nil lessons (by simpa using hpages)
    exact (hlast.reaches (hdone.reaches hd' lesson hlesson)).isFolder_joinAll hplain
      (fun part hpart => (mem_splitOn hpart).1) (List.splitOn_ne_nil _ _) hne
  · have hslash : ∀ part ∈ [s.indexName], '/' ∉ part := by simpa using hs.indexName
    exact (hindex hwanted).reaches.isFolder_joinAll hplain hslash (List.cons_ne_nil _ _) hne
  · have hfolder := (Disk.makes_of_ensureFolders (Prod.ext rfl hmade)).isFolder hd rfl hhere
    exact hlast.isFolder (hbetween.plain hd') (hbetween.isFolder hd' hfolder)

/-- **A run that has made the folder of its pages changes nothing below the folder of its lessons.** -/
theorem node?_source {made : Disk} (hd : made.Plain) (hs : s.Apart made)
    (hne : s.destination ≠ []) (hstands : made.Stands s.destination) (hlessons : PlainNames lessons)
    (hdone : Converts s made lessons between) (hindex : s.Indexes pages between last)
    (names : List Text) :
    last.root.node? (made.target s.source ++ names) = made.root.node? (made.target s.source ++ names) := by
  have hbetween := hdone.extends hd
  obtain ⟨hlast, hindexed⟩ := hindex.extends (hbetween.plain hd)
  have hbelow : s.writeIndex = true → between.target s.destination <+: between.target s.indexPath := by
    intro hwanted
    have htarget := (hindexed hwanted).reaches.target_join (hlast.plain (hbetween.plain hd)) hs.indexName
    rw [← hlast.target_eq, ← hlast.target_eq, Settings.indexPath, htarget]
    exact List.prefix_append _ _
  have hindexed := hindex.changesBelow (hbetween.plain hd) (hstands.extends hbetween) hbelow
  rw [hbetween.target_eq] at hindexed
  have hconverted := hdone.changesBelow hd hne hstands hlessons (slash_not_mem_dotted hs.extension)
  by_contra hchanged
  exact hs.not_isPrefix names (hconverted.trans hindexed _ hchanged)

/-- A run that starts from what a run has left goes through the same lessons to the same end. -/
theorem run_from_last {made : Disk} (hd : made.Plain) (hs : s.Apart last)
    (hne : s.destination ≠ []) (hstands : made.Stands s.destination)
    (hfound : discover made s.source s.pattern s.respectIgnore = .ok lessons)
    (hlessons : PlainNames lessons) (hdone : Converts s made lessons between)
    (hindex : s.Indexes (lessons.map (pageName s.extension)) between last)
    (hfolder : last.isFolder s.destination = true) :
    (run last s).result = .ok (lessons.map (pageName s.extension)) ∧
      last.SameTree (run last s).disk := by
  have hbetween := hdone.extends hd
  have hplain := hbetween.plain hd
  obtain ⟨hlast, hindexed⟩ := hindex.extends hplain
  have hplain' := hlast.plain hplain
  have hmade : s.Apart made :=
    hs.congr fun path => ((hlast.target_eq path).trans (hbetween.target_eq path)).symm
  have hsource := node?_source hd hmade hne hstands hlessons hdone hindex
  have hspots := hs.spots_elsewhere hplain' hlessons fun hwanted => (hindexed hwanted).reaches
  rw [← pagePlace_eq hbetween, ← pagePlace_eq hlast] at hbetween
  rw [← indexPlaces_eq hlast] at hlast
  replace hlast := hlast.mono (List.subset_append_right (lessons.map (s.pagePlace last)) _)
  have hwhole := (hbetween.mono (List.subset_append_left _ (s.indexPlaces last))).trans hlast
  have hfound' : discover last s.source s.pattern s.respectIgnore = .ok lessons := by
    apply hwhole.discover hd hsource ?_ hfound
    rw [← hwhole.target_eq]
    exact fun q hq => (hspots q hq).2
  have hread : ∀ lesson ∈ lessons, last.target (s.lessonPath lesson) ∉
      lessons.map (s.pagePlace last) ++ s.indexPlaces last := by
    intro lesson hlesson hmem
    refine (hspots _ hmem).1 ?_
    rw [Settings.lessonPath, Disk.target_pathBelow_of_steps (hlessons lesson hlesson).2]
    exact List.prefix_append _ _
  obtain ⟨second, done, hconverts, hretraces⟩ := (Disk.Retraces.start hplain').converts hdone hd
    hlast (List.nil_subset _) (List.subset_append_left _ _) hread
  obtain ⟨second', hindex', hsame⟩ := hretraces.indexes hplain hindex hfolder
  have hagain := Disk.ensureFolders_of_isFolder hplain' hfolder
  have hcourse : Course last s lessons second' (.ok (lessons.map (pageName s.extension))) := by
    refine Course.ok_iff.mpr ⟨second, ?_⟩
    rw [hagain]
    exact ⟨rfl, hfound', rfl, hconverts, hindex'⟩
  obtain ⟨hdisk, hresult⟩ := hcourse.run_eq
  rw [hdisk]
  exact ⟨hresult, hsame⟩

/-- If a run returns and leaves no folder where its pages go, running again fails. -/
theorem run_again_error (hd : d.Plain) (hs : s.Apart d) (hrun : (run d s).result = .ok pages)
    (hnot : (run d s).disk.isFolder s.destination = false) :
    ∃ failure, (run (run d s).disk s).result = .error failure := by
  have hmakes : ¬ (pages ≠ [] ∨ s.writeIndex = true ∨ (Path.headName s.destination).2 ≠ Path.here) := by
    intro hmakes
    rw [isFolder_destination hd hs hrun hmakes] at hnot
    cases hnot
  rw [not_or, not_or, not_not] at hmakes
  obtain ⟨lessons, hcourse⟩ := run_course d s
  rw [hrun] at hcourse
  obtain ⟨between, hmade, -, rfl, hdone, hindex⟩ := Course.ok_iff.mp hcourse
  -- nothing has been written, so the second run starts from where the folder seemed to be made
  obtain rfl : lessons = [] := List.map_eq_nil_iff.mp hmakes.1
  cases hdone
  unfold Settings.Indexes at hindex
  rw [if_neg hmakes.2.1] at hindex
  rw [hindex] at hnot ⊢
  obtain ⟨failure, hfails⟩ := Disk.ensureFolders_again hd (Prod.ext rfl hmade) hnot
  exact ⟨failure, (Course.noFolder (Prod.ext rfl hfails)).run_eq.2⟩

/-- **If a run returns, and leaves a folder where its pages go, running again gives the same pages and
leaves everything as it is. If it leaves none there, running again fails.** It leaves the folder if it has
written anything, and wherever the path of the folder does not end in a dot. -/
theorem run_again (hd : d.Plain) (hs : s.Apart d) (hrun : (run d s).result = .ok pages)
    (hback : ∀ lessons,
      discover (d.ensureFolders s.destination).1 s.source s.pattern s.respectIgnore = .ok lessons →
        ∀ lesson ∈ lessons, '\\' ∉ lesson) :
    ((run d s).disk.isFolder s.destination = true →
      (run (run d s).disk s).result = .ok pages ∧
        (run d s).disk.SameTree (run (run d s).disk s).disk) ∧
    ((run d s).disk.isFolder s.destination = false →
      ∃ failure, (run (run d s).disk s).result = .error failure) ∧
    (pages ≠ [] ∨ s.writeIndex = true ∨ (Path.headName s.destination).2 ≠ Path.here →
      (run d s).disk.isFolder s.destination = true) := by
  refine ⟨?_, run_again_error hd hs hrun, isFolder_destination hd hs hrun⟩
  intro hfolder
  obtain ⟨lessons, hcourse⟩ := run_course d s
  rw [hrun] at hcourse
  obtain ⟨between, hok, hfound, rfl, hdone, hindex⟩ := Course.ok_iff.mp hcourse
  have hmade := Disk.ensureFolders_extends hd s.destination
  have hd' := hmade.plain hd
  have hne : s.destination ≠ [] := by
    intro hnil
    rw [hnil, Disk.ensureFolders_nil] at hok
    cases hok
  have hbetween := hdone.extends hd'
  have hlast := (hindex.extends (hbetween.plain hd')).1
  have htarget : ∀ path, (run d s).disk.target path = d.target path := by
    intro path
    rw [hlast.target_eq, hbetween.target_eq, hmade.target_eq]
  exact run_from_last hd' (hs.congr htarget) hne (Disk.ensureFolders_stands hd (Prod.ext rfl hok)) hfound
    (plainNames_of_discover hd' hfound (hback lessons hfound)) hdone hindex hfolder

/-- The page of a lesson that is named after the index is written twice in each run. -/
theorem run_again_indexLesson :
    (run (run (oneLesson "index.ts".toList "x\n".toList) usualRoots).disk usualRoots).result =
        .ok ["index.md".toList] ∧
      (run (oneLesson "index.ts".toList "x\n".toList) usualRoots).disk.SameTree
        (run (run (oneLesson "index.ts".toList "x\n".toList) usualRoots).disk usualRoots).disk := by
  have hname : IsName "index.ts".toList := by decide
  have hrun : (run (oneLesson "index.ts".toList "x\n".toList) usualRoots).result =
      .ok ["index.md".toList] := by decide +kernel
  have hfound : discover ((oneLesson "index.ts".toList "x\n".toList).ensureFolders
      usualRoots.destination).1 usualRoots.source usualRoots.pattern usualRoots.respectIgnore =
        .ok ["index.ts".toList] := by decide +kernel
  have hback : ∀ lessons, discover ((oneLesson "index.ts".toList "x\n".toList).ensureFolders
      usualRoots.destination).1 usualRoots.source usualRoots.pattern usualRoots.respectIgnore =
        .ok lessons → ∀ lesson ∈ lessons, '\\' ∉ lesson := by
    intro lessons hlessons
    obtain rfl : ["index.ts".toList] = lessons := Except.ok.inj (hfound.symm.trans hlessons)
    decide
  obtain ⟨hagain, -, hfolder⟩ := run_again (plain_oneLesson hname _)
    ⟨by decide, by decide, by decide, by decide⟩ hrun hback
  exact hagain (hfolder (.inr (.inl rfl)))

/-- A disk with a file `/T/f` and no lessons in the folder `/T/src`. -/
def fileBeside : Disk :=
  ⟨.folder "T".toList (.folder "src".toList .empty (.file "f".toList [] .empty)) .empty, ["T".toList]⟩

/-- Settings for pages in a folder whose path goes through one that is not there, and ends in a dot. -/
def dottedRoots : Settings :=
  { source := "/T/src".toList, destination := "/T/a/../f/.".toList, writeIndex := false }

/-- **A run that has nothing to write takes a file before a dot for the folder of its pages, if the way to
it has to be made first. Then the way is there, and running again fails.** -/
theorem run_again_behind_dot :
    fileBeside.Plain ∧ dottedRoots.Apart fileBeside ∧
      (run fileBeside dottedRoots).result = .ok [] ∧
      discover (fileBeside.ensureFolders dottedRoots.destination).1 dottedRoots.source
        dottedRoots.pattern dottedRoots.respectIgnore = .ok [] ∧
      (run (run fileBeside dottedRoots).disk dottedRoots).result =
        .error (.page ⟨.makeFolder, dottedRoots.destination, ⟨.notFolder, dottedRoots.destination⟩⟩) :=
  ⟨⟨by decide, by decide, by decide⟩, ⟨by decide, by decide, by decide, by decide⟩,
    by decide +kernel, by decide +kernel, by decide +kernel⟩

end LessonPages
