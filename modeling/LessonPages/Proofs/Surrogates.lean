import Mathlib.Data.List.Chain
import LessonPages.Proofs.Units

/-!
# Which units are those of a text

A character above U+FFFF is a high surrogate and a low one behind it, and surrogates come from nowhere
else. So they stand in pairs in the units of a text. Pairs are also all that is asked of units: those in
which surrogates stand in pairs only are the units of one text and of no other.

* `Units.octets`, `Units.ofOctets` — a text in octets, the low one of each unit first, and the numbers
  that octets are, two at a time; `Units.ofOctets_octets` — these are the units.
* `Units.Paired` — surrogates stand in pairs only; `Units.paired_ofText` — in the units of a text they
  do.
* `Units.ofText_of_toText?`, `Units.Paired.exists_toText?` — units that are read as a text are those of
  that text, and units in which surrogates are paired are read as a text.
* `Units.ofText_faithful` — texts and units with paired surrogates are the same.
-/

namespace LessonPages.Units

/-! ## Octets -/

/-- The octets of a character, the low one of each unit first. What a character has above U+10000 is a
number of twenty bits: the upper ten go into the first two octets, the lower ten into the other two. -/
def octetsOfChar (c : Char) : List UInt8 :=
  if c.toNat < 0x10000 then [UInt8.ofNat c.toNat, UInt8.ofNat (c.toNat / 0x100)]
  else
    let v := c.toNat - 0x10000
    [UInt8.ofNat (v / 0x400), UInt8.ofNat (0xD8 + v / 0x40000),
      UInt8.ofNat v, UInt8.ofNat (0xDC + v / 0x100 % 4)]

/-- The octets of a text (`to_utf16_units`, its `data`). -/
def octets (t : Text) : List UInt8 := t.flatMap octetsOfChar

/-- The numbers that octets are, two at a time, the low one first (`to_utf16_units`, what it joins). -/
def ofOctets : List UInt8 → List Nat
  | [] => []
  | [low] => [low.toNat]
  | low :: high :: rest => (low.toNat + 0x100 * high.toNat) :: ofOctets rest

/-- The units of a character are read off its octets. -/
theorem ofOctets_octetsOfChar_append (c : Char) (rest : List UInt8) :
    ofOctets (octetsOfChar c ++ rest) = (ofChar c).map UInt16.toNat ++ ofOctets rest := by
  have hvalid := toNat_valid c
  unfold octetsOfChar ofChar
  split
  · have hunit : c.toNat % 2 ^ 8 + 0x100 * (c.toNat / 0x100 % 2 ^ 8) = c.toNat % 2 ^ 16 := by omega
    simp only [List.cons_append, List.nil_append, ofOctets, List.map_cons, List.map_nil,
      UInt8.toNat_ofNat', UInt16.toNat_ofNat', hunit]
  · obtain ⟨v, hv⟩ : ∃ v, v = c.toNat - 0x10000 := ⟨_, rfl⟩
    have hhigh : v / 0x400 % 2 ^ 8 + 0x100 * ((0xD8 + v / 0x40000) % 2 ^ 8) =
        (0xD800 + v / 0x400) % 2 ^ 16 := by omega
    have hlow : v % 2 ^ 8 + 0x100 * ((0xDC + v / 0x100 % 4) % 2 ^ 8) =
        (0xDC00 + v % 0x400) % 2 ^ 16 := by omega
    simp only [← hv, List.cons_append, List.nil_append, ofOctets, List.map_cons, List.map_nil,
      UInt8.toNat_ofNat', UInt16.toNat_ofNat', hhigh, hlow]

theorem ofOctets_octets (t : Text) : ofOctets (octets t) = (ofText t).map UInt16.toNat := by
  induction t with
  | nil => rfl
  | cons c t ih =>
    have hoctets : octets (c :: t) = octetsOfChar c ++ octets t := List.flatMap_cons
    rw [hoctets, ofText_cons, ofOctets_octetsOfChar_append, ih, List.map_append]

/-- The last character of one unit, and the first and the last one of two. -/
example : ofOctets (octets [Char.ofNat 0xFFFF, Char.ofNat 0x10000, Char.ofNat 0x10FFFF]) =
    [0xFFFF, 0xD800, 0xDC00, 0xDBFF, 0xDFFF] := by decide

/-! ## One character -/

theorem isHigh_iff {u : UInt16} : isHigh u = true ↔ 0xD800 ≤ u.toNat ∧ u.toNat ≤ 0xDBFF := by
  simp [isHigh, UInt16.le_iff_toNat_le]

theorem isLow_iff {u : UInt16} : isLow u = true ↔ 0xDC00 ≤ u.toNat ∧ u.toNat ≤ 0xDFFF := by
  simp [isLow, UInt16.le_iff_toNat_le]

/-- No unit is both halves of a pair. -/
theorem isHigh_eq_false {u : UInt16} (h : isLow u = true) : isHigh u = false := by
  rw [isLow_iff] at h
  rw [Bool.eq_false_iff, ne_eq, isHigh_iff]
  omega

theorem isLow_eq_false {u : UInt16} (h : isHigh u = true) : isLow u = false := by
  rw [Bool.eq_false_iff]
  intro hlow
  rw [isHigh_eq_false hlow] at h
  cases h

/-- A unit that is no surrogate is the unit of a character. -/
theorem ofChar_ofNat {u : UInt16} (hhigh : isHigh u = false) (hlow : isLow u = false) :
    ofChar (Char.ofNat u.toNat) = [u] := by
  have hlt : u.toNat < 0x10000 := u.toNat_lt
  rw [Bool.eq_false_iff, ne_eq, isHigh_iff] at hhigh
  rw [Bool.eq_false_iff, ne_eq, isLow_iff] at hlow
  have hvalid : u.toNat.isValidChar := by
    unfold Nat.isValidChar
    omega
  obtain ⟨c, hc⟩ : ∃ c : Char, c.toNat = u.toNat := ⟨Char.ofNatAux u.toNat hvalid, rfl⟩
  rw [← hc, Char.ofNat_toNat, ofChar, hc, if_pos hlt, UInt16.ofNat_toNat]

/-- A high surrogate and a low one are the units of the character that they are joined to. -/
theorem ofChar_joinPair {high low : UInt16} (hhigh : isHigh high = true) (hlow : isLow low = true) :
    ofChar (joinPair high low) = [high, low] := by
  rw [isHigh_iff] at hhigh
  rw [isLow_iff] at hlow
  obtain ⟨n, hn⟩ : ∃ n, n = 0x10000 + (high.toNat - 0xD800) * 0x400 + (low.toNat - 0xDC00) :=
    ⟨_, rfl⟩
  have hvalid : n.isValidChar := by
    unfold Nat.isValidChar
    omega
  obtain ⟨c, hc⟩ : ∃ c : Char, c.toNat = n := ⟨Char.ofNatAux n hvalid, rfl⟩
  have hlarge : ¬ n < 0x10000 := by omega
  have hfirst : 0xD800 + (n - 0x10000) / 0x400 = high.toNat := by omega
  have hsecond : 0xDC00 + (n - 0x10000) % 0x400 = low.toNat := by omega
  rw [joinPair, ← hn, ← hc, Char.ofNat_toNat, ofChar, hc, if_neg hlarge]
  simp only [hfirst, hsecond, UInt16.ofNat_toNat]

/-- A character is two units exactly if it lies above U+FFFF. -/
theorem length_ofChar (c : Char) :
    (ofChar c).length = 1 + if 0xFFFF < c.toNat then 1 else 0 := by
  unfold ofChar
  split
  · rename_i hsmall
    rw [if_neg (by omega)]
    rfl
  · rename_i hlarge
    rw [if_pos (by omega)]
    rfl

theorem length_ofText (t : Text) :
    (ofText t).length = t.length + t.countP (fun c => 0xFFFF < c.toNat) := by
  induction t with
  | nil => rfl
  | cons c t ih =>
    rw [ofText_cons, List.length_append, length_ofChar, ih, List.length_cons, List.countP_cons]
    simp only [decide_eq_true_eq]
    omega

/-! ## Paired surrogates -/

/-- Surrogates stand in pairs only: of two neighbours the first is a high surrogate exactly if the
second is a low one, and no low one comes first and no high one last. -/
structure Paired (units : List UInt16) : Prop where
  neighbours : units.IsChain fun u v => isHigh u = isLow v
  first : ∀ u ∈ units.head?, isLow u = false
  last : ∀ u ∈ units.getLast?, isHigh u = false

variable {units more : List UInt16} {u : UInt16}

theorem Paired.append (hunits : Paired units) (hmore : Paired more) : Paired (units ++ more) := by
  refine ⟨hunits.neighbours.append hmore.neighbours ?_, ?_, ?_⟩
  · intro u hu v hv
    rw [hunits.last u hu, hmore.first v hv]
  · intro u hu
    rw [List.head?_append] at hu
    rcases Option.or_eq_some_iff.mp hu with hu | ⟨-, hu⟩
    · exact hunits.first u hu
    · exact hmore.first u hu
  · intro u hu
    rw [List.getLast?_append] at hu
    rcases Option.or_eq_some_iff.mp hu with hu | ⟨-, hu⟩
    · exact hmore.last u hu
    · exact hunits.last u hu

/-- A character is a unit that is no surrogate, or a high surrogate and a low one. -/
theorem ofChar_cases (c : Char) :
    (∃ u, ofChar c = [u] ∧ isHigh u = false ∧ isLow u = false) ∨
      ∃ high low, ofChar c = [high, low] ∧ isHigh high = true ∧ isLow low = true := by
  have hvalid := toNat_valid c
  unfold ofChar
  split
  · rename_i hsmall
    refine .inl ⟨_, rfl, ?_, ?_⟩
    · rw [isHigh_ofNat hsmall, decide_eq_false_iff_not]
      omega
    · rw [isLow_ofNat hsmall, decide_eq_false_iff_not]
      omega
  · rename_i hlarge
    refine .inr ⟨_, _, rfl, ?_, ?_⟩
    · rw [isHigh_ofNat (by omega), decide_eq_true_iff]
      omega
    · rw [isLow_ofNat (by omega), decide_eq_true_iff]
      omega

theorem paired_ofChar (c : Char) : Paired (ofChar c) := by
  rcases ofChar_cases c with ⟨u, hu, hhigh, hlow⟩ | ⟨high, low, hpair, hhigh, hlow⟩
  · rw [hu]
    exact ⟨List.isChain_singleton u, by simpa using hlow, by simpa using hhigh⟩
  · rw [hpair]
    refine ⟨List.isChain_pair.mpr (hhigh.trans hlow.symm), ?_, ?_⟩
    · simpa using isLow_eq_false hhigh
    · simpa using isHigh_eq_false hlow

theorem paired_ofText (t : Text) : Paired (ofText t) := by
  induction t with
  | nil => exact ⟨List.isChain_nil, by simp, by simp⟩
  | cons c t ih =>
    rw [ofText_cons]
    exact (paired_ofChar c).append ih

/-- Behind a unit that is no high surrogate, paired surrogates start anew. -/
theorem paired_of_cons (hchain : (u :: units).IsChain fun u v => isHigh u = isLow v)
    (hlast : ∀ v ∈ (u :: units).getLast?, isHigh v = false) (hhigh : isHigh u = false) :
    Paired units := by
  obtain ⟨hnext, hrest⟩ := List.isChain_cons.mp hchain
  refine ⟨hrest, ?_, ?_⟩
  · intro v hv
    rw [← hnext v hv, hhigh]
  · intro v hv
    apply hlast v
    rw [List.getLast?_cons, Option.mem_def.mp hv]
    rfl

/-! ## Units as a text -/

/-- Units that are read as a text are the units of that text. -/
theorem ofText_of_toText? {t : Text} (h : toText? units = some t) : ofText t = units := by
  fun_induction toText? units generalizing t with
  | case1 =>
    cases h
    rfl
  | case2 => cases h
  | case3 u hnone =>
    simp only [Bool.or_eq_true, not_or, Bool.not_eq_true] at hnone
    cases h
    rw [ofText_cons, ofChar_ofNat hnone.1 hnone.2]
    rfl
  | case4 u v rest hhigh hlow ih =>
    obtain ⟨later, hlater, rfl⟩ := Option.map_eq_some_iff.mp h
    rw [ofText_cons, ofChar_joinPair hhigh hlow, ih hlater]
    rfl
  | case5 => cases h
  | case6 => cases h
  | case7 u v rest hhigh hlow ih =>
    obtain ⟨later, hlater, rfl⟩ := Option.map_eq_some_iff.mp h
    rw [ofText_cons, ofChar_ofNat (Bool.eq_false_iff.mpr hhigh) (Bool.eq_false_iff.mpr hlow), ih hlater]
    rfl

/-- Units in which surrogates are paired are read as a text. -/
theorem Paired.exists_toText? (h : Paired units) : ∃ t, toText? units = some t := by
  fun_induction toText? units with
  | case1 => exact ⟨[], rfl⟩
  | case2 u hsurrogate =>
    rw [h.last u rfl, h.first u rfl] at hsurrogate
    cases hsurrogate
  | case3 u => exact ⟨_, rfl⟩
  | case4 u v rest hhigh hlow ih =>
    have hbehind := (List.isChain_cons_cons.mp h.neighbours).2
    obtain ⟨t, ht⟩ := ih (paired_of_cons hbehind h.last (isHigh_eq_false hlow))
    exact ⟨_, by rw [ht]; rfl⟩
  | case5 u v rest hhigh hlow =>
    rw [← (List.isChain_cons_cons.mp h.neighbours).1] at hlow
    exact absurd hhigh hlow
  | case6 u v rest hhigh hlow =>
    rw [h.first u rfl] at hlow
    cases hlow
  | case7 u v rest hhigh hlow ih =>
    obtain ⟨t, ht⟩ := ih (paired_of_cons h.neighbours h.last (Bool.eq_false_iff.mpr hhigh))
    exact ⟨_, by rw [ht]; rfl⟩

/-- **Texts and units with paired surrogates are the same.** The units of a text are what its octets are
two at a time, and numbers of sixteen bits; there is one for each character, and one more for each above
U+FFFF; the units of two texts, one behind the other, are those of both. Surrogates stand in pairs only,
and the text is read off by joining them. Units in which surrogates stand in pairs only, and no others,
are the units of exactly one text. -/
theorem ofText_faithful :
    (∀ t : Text,
      (ofText t).map UInt16.toNat = ofOctets (octets t) ∧
        (∀ n ∈ (ofText t).map UInt16.toNat, n < 0x10000) ∧
        (ofText t).length = t.length + t.countP (fun c => 0xFFFF < c.toNat) ∧
        (∀ s, ofText (t ++ s) = ofText t ++ ofText s) ∧
        Paired (ofText t) ∧
        toText? (ofText t) = some t) ∧
      ∀ units, Paired units ↔ ∃! t, ofText t = units := by
  constructor
  · intro t
    refine ⟨(ofOctets_octets t).symm, ?_, length_ofText t, ofText_append t, paired_ofText t,
      toText?_ofText t⟩
    intro n hn
    obtain ⟨u, -, rfl⟩ := List.mem_map.mp hn
    exact u.toNat_lt
  · intro units
    constructor
    · intro hpaired
      obtain ⟨t, ht⟩ := hpaired.exists_toText?
      refine ⟨t, ofText_of_toText? ht, ?_⟩
      rintro s rfl
      exact Option.some.inj ((toText?_ofText s).symm.trans ht)
    · rintro ⟨t, rfl, -⟩
      exact paired_ofText t

end LessonPages.Units
