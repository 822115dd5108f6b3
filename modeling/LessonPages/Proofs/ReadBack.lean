import LessonPages.Proofs.LineEnds
import LessonPages.Proofs.Utf8

/-!
# What is written is read back

A text is written as it is and read with a newline for each end of a line. So it comes back as it was
exactly if it holds no carriage return, and nothing else on the disk says anything new. The text is written
to the file that the path leads to: the one at the path, or the one behind a link there.

* `Text.unifyNewlines_eq_self_iff` — the texts that are read as they are written.
* `Route.lookAtLink` — where a path leads whose last link is not followed.
* `Disk.read_of_write` — bytes that are written; `Disk.readText_of_writeText` — a text.
-/

namespace LessonPages

namespace Text

variable {t : Text}

/-- A text is read with one newline for each pair of a carriage return and a newline, and then one for
each other carriage return. -/
theorem unifyNewlines_eq_replaceChar (t : Text) :
    unifyNewlines t = (unifyPairs t).replaceChar '\r' '\n' := by
  fun_induction unifyNewlines t with
  | case1 => rfl
  | case2 rest ih =>
    rw [unifyPairs, ih]
    rfl
  | case3 rest hpair ih =>
    rw [unifyPairs, ih]
    · rfl
    · simpa using hpair
  | case4 c rest hpair hreturn ih =>
    rw [unifyPairs, ih]
    · rw [replaceChar, replaceChar, List.map_cons, if_neg hreturn]
    · exact hpair

theorem unifyPairs_of_not_mem (h : '\r' ∉ t) : unifyPairs t = t := by
  fun_induction unifyPairs t with
  | case1 => rfl
  | case2 rest _ => simp at h
  | case3 c rest _ ih => rw [ih fun hmem => h (List.mem_cons_of_mem c hmem)]

/-- **A text is read as it is exactly if it holds no carriage return.** -/
theorem unifyNewlines_eq_self_iff : unifyNewlines t = t ↔ '\r' ∉ t := by
  rw [unifyNewlines_eq_replaceChar]
  constructor
  · intro h
    rw [← h]
    exact not_mem_replaceChar (by decide) _
  · intro h
    rw [unifyPairs_of_not_mem h, replaceChar_of_not_mem h]

end Text

/-- **A path that is written to leads to the file itself, or to a link that leads to the file.** -/
theorem Route.lookAtLink {root : Folder} {links : Nat} {dir names dir' : List Text} {name : Text}
    {place : Place} (h : Route root .write links dir names place) (hplace : place = .slot dir' name false) :
    ∃ front, Route root .lookAtLink links dir names front ∧
      (front = place ∨ ∃ target, root.node? front.names = some (.link target)) := by
  induction h with
  | stay => cases hplace
  | skip hname _ ih =>
    obtain ⟨front, hroute, hfront⟩ := ih hplace
    exact ⟨front, .skip hname hroute, hfront⟩
  | up _ ih =>
    obtain ⟨front, hroute, hfront⟩ := ih hplace
    exact ⟨front, .up hroute, hfront⟩
  | last hname hrest _ =>
    have hslash := (Place.slot.inj hplace).2.2
    exact ⟨_, .last hname hrest fun _ _ => hslash, .inl rfl⟩
  | into hname hrest hshort hfolder _ ih =>
    obtain ⟨front, hroute, hfront⟩ := ih hplace
    exact ⟨front, .into hname hrest hshort hfolder hroute, hfront⟩
  | @link links dir rest name target place hname hlink hlast hshort _ ih =>
    by_cases hrest : rest.all List.isEmpty = true
    · -- the last link: nothing but its own name is left, so it can be looked at
      have hnil : (!rest.isEmpty) = false := by simpa [Purpose.followsLast] using hlast hrest
      refine ⟨_, .last hname hrest fun _ _ => hnil, .inr ⟨target, hlink⟩⟩
    · obtain ⟨front, hroute, hfront⟩ := ih hplace
      exact ⟨front, .link hname hlink (fun hall => (hrest hall).elim) hshort hroute, hfront⟩

namespace Disk

variable {d d' : Disk} {path text : Text} {content : Utf8.Bytes}

/-- **Bytes that are written are read back**, and nothing changes but the file to which the path leads. -/
theorem read_of_write (h : d.write path content = .ok d') :
    d'.read path = .ok content ∧ d'.cwd = d.cwd ∧ ∃ front place,
      d.locate .lookAtLink path = .ok front ∧ d'.locate .look path = .ok place ∧
      (front = place ∨ ∃ target, d.root.node? front.names = some (.link target)) ∧
      ∀ q, d'.root.node? q = if q = place.names then some (.file content) else d.root.node? q := by
  have hgrows := write_grows h
  obtain ⟨hnul, dir, name, hrouted, hshort, hfolder, hd'⟩ := write_eq_ok_iff_routed.mp h
  have hnode : ∀ q, d'.root.node? q =
      if q = dir ++ [name] then some (.file content) else d.root.node? q := by
    rw [hd']
    exact Folder.node?_set (.file content) hrouted.base_folder hfolder
  have hfile : d'.root.node? (dir ++ [name]) = some (.file content) := by rw [hnode, if_pos rfl]
  have hlook : d'.locate .look path = .ok (.slot dir name false) := by
    have hrouted' := locate_eq_ok_iff_routed.mp (hgrows.locate (locate_eq_ok_iff_routed.mpr hrouted))
    refine locate_eq_ok_iff_routed.mpr (hrouted'.look ?_)
    intro target hlink
    rw [Place.names, hfile] at hlink
    cases hlink
  obtain ⟨front, hroute, hfront⟩ := hrouted.route.lookAtLink rfl
  have hfrontPlace : d.locate .lookAtLink path = .ok front :=
    locate_eq_ok_iff_routed.mpr ⟨hrouted.ne_nil, hrouted.short, hrouted.start, hroute⟩
  refine ⟨?_, hgrows.cwd_eq, front, _, hfrontPlace, hlook, hfront, hnode⟩
  rw [read_eq_ok_iff_look, look, hlook]
  refine ⟨hnul, ?_⟩
  simp only [entryAt, hshort, Folder.node?_eq_file_iff.mp hfile, Bool.false_eq_true, if_false]

/-- **A text that is written is read back with one newline for each pair of a carriage return and a
newline, and for each other carriage return**; so it is itself exactly if it holds none. It is in the file
to which the path leads: the one at the path, or the one that a link there leads to. All else stands as it
stood. -/
theorem readText_of_writeText (h : d.writeText path text = .ok d') :
    d'.readText path = .ok ((Text.unifyPairs text).replaceChar '\r' '\n') ∧
      (d'.readText path = .ok text ↔ '\r' ∉ text) ∧
      d'.cwd = d.cwd ∧ ∃ front place,
        d.locate .lookAtLink path = .ok front ∧ d'.locate .look path = .ok place ∧
        (front = place ∨ ∃ target, d.root.node? front.names = some (.link target)) ∧
        d'.root.node? place.names = some (.file (Utf8.encode text)) ∧
        ∀ q, q ≠ place.names → d'.root.node? q = d.root.node? q := by
  unfold writeText at h
  split at h
  · cases h
  · rename_i written hwrite
    cases h
    obtain ⟨hread, hcwd, front, place, hfront, hplace, hlink, hnode⟩ := read_of_write hwrite
    have htext : d'.readText path = .ok text.unifyNewlines := by
      unfold readText
      rw [hread]
      simp only [Utf8.decode_encode]
    refine ⟨?_, ?_, hcwd, front, place, hfront, hplace, hlink, ?_, ?_⟩
    · rw [htext, Text.unifyNewlines_eq_replaceChar]
    · rw [htext, Except.ok.injEq, Text.unifyNewlines_eq_self_iff]
    · rw [hnode, if_pos rfl]
    · intro q hq
      rw [hnode, if_neg hq]

end Disk

/-- A disk with a note, and with a link to it beside the folder where it is kept. -/
def noteDisk (text : Text) : Disk :=
  ⟨.folder "T".toList (.folder "kept".toList (.file "note".toList (Utf8.encode text) .empty)
    (.link "latest".toList "kept/note".toList .empty)) .empty, ["T".toList]⟩

/-- All kinds of carriage returns are written through the link, over a longer note. -/
theorem readText_of_writeText_noteDisk :
    (noteDisk "a longer note\n".toList).writeText "latest".toList "a\r\r\nb\r".toList =
        .ok (noteDisk "a\r\r\nb\r".toList) ∧
      (noteDisk "a\r\r\nb\r".toList).readText "latest".toList = .ok "a\n\nb\n".toList ∧
      (noteDisk "a\r\r\nb\r".toList).readText "latest".toList ≠ .ok "a\r\r\nb\r".toList := by
  have hwrite : (noteDisk "a longer note\n".toList).writeText "latest".toList "a\r\r\nb\r".toList =
      .ok (noteDisk "a\r\r\nb\r".toList) := by decide +kernel
  obtain ⟨hread, hsame, -⟩ := Disk.readText_of_writeText hwrite
  exact ⟨hwrite, hread, hsame.not.mpr (by decide)⟩

end LessonPages
