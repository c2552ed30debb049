import HashedAssets.Fingerprint
import HashedAssets.Proofs.Encoding.Base64Url

/-!
# Telling public paths apart

The text of a digest has neither a dot nor a slash in it, so the place where it was put into a path can be found again.

* `splitSegment_append`, `splitLast?_append_cons`, `splitLast?_of_not_mem`: a path in parts;
* `Extended`, `Bare`, `extended_or_bare`: paths with an extension and paths without one, with what is made of each;
* `spliceText_inj`: texts of one length that are put into paths;
* `hashText_eq_ok_iff`, `publicPath_eq_iff`: texts of digests that are put into paths.
-/

namespace HashedAssets

variable {c : Char} {cs front back directories directories' segment segment' extension : List Char}

/-! ### Paths in parts -/

/-- What stands up to the last `c` and what stands behind it is told by the whole. -/
theorem eq_of_append_cons_eq {front' back' : List Char} (h : front ++ c :: back = front' ++ c :: back')
    (hback : c ∉ back) (hback' : c ∉ back') : front = front' ∧ back = back' := by
  rcases List.append_eq_append_iff.1 h with ⟨l, hfront, hl⟩ | ⟨l, hfront, hl⟩
  · cases l with
    | nil => exact ⟨by simpa using hfront.symm, (List.cons.inj hl).2⟩
    | cons d l =>
        obtain ⟨rfl, rfl⟩ := List.cons.inj hl
        exact absurd (by simp) hback
  · cases l with
    | nil => exact ⟨by simpa using hfront, (List.cons.inj hl).2.symm⟩
    | cons d l =>
        obtain ⟨rfl, rfl⟩ := List.cons.inj hl
        exact absurd (by simp) hback'

/-- Directories in front of a segment: none, or they end with a slash. -/
def Directories (cs : List Char) : Prop := cs = [] ∨ ∃ ds, cs = ds ++ ['/']

theorem Directories.eq_of_append_eq (h : Directories directories) (h' : Directories directories')
    (hs : '/' ∉ segment) (hs' : '/' ∉ segment') (heq : directories ++ segment = directories' ++ segment') :
    directories = directories' ∧ segment = segment' := by
  rcases h with rfl | ⟨ds, rfl⟩ <;> rcases h' with rfl | ⟨ds', rfl⟩
  · exact ⟨rfl, heq⟩
  · rw [List.nil_append] at heq
    exact absurd (heq ▸ by simp) hs
  · rw [List.nil_append] at heq
    exact absurd (heq ▸ by simp) hs'
  · rw [List.append_assoc, List.append_assoc] at heq
    obtain ⟨rfl, rfl⟩ := eq_of_append_cons_eq heq hs hs'
    exact ⟨rfl, rfl⟩

theorem takeWhile_ne_reverse_append (hback : c ∉ back) (h : front = [] ∨ ∃ ds, front = ds ++ [c]) :
    (front ++ back).reverse.takeWhile (· != c) = back.reverse := by
  have hall : ∀ d ∈ back.reverse, (d != c) = true := fun d hd => by
    rw [bne_iff_ne]
    exact fun hdc => hback (hdc ▸ List.mem_reverse.1 hd)
  rw [List.reverse_append, List.takeWhile_append_of_pos hall]
  rcases h with rfl | ⟨ds, rfl⟩
  · simp
  · simp

/-- There is a last one. -/
theorem exists_append_cons (h : c ∈ cs) : ∃ front back, cs = front ++ c :: back ∧ c ∉ back := by
  obtain ⟨back, front, hcs, hback⟩ := List.eq_append_cons_of_mem (List.mem_reverse.2 h)
  refine ⟨front.reverse, back.reverse, ?_, by simpa using hback⟩
  rw [← List.reverse_reverse cs, hcs]
  simp

theorem exists_directories (cs : List Char) :
    ∃ directories segment, cs = directories ++ segment ∧ Directories directories ∧ '/' ∉ segment := by
  by_cases h : '/' ∈ cs
  · obtain ⟨front, back, rfl, hback⟩ := exists_append_cons h
    exact ⟨front ++ ['/'], back, by simp, .inr ⟨front, rfl⟩, hback⟩
  · exact ⟨[], cs, rfl, .inl rfl, h⟩

theorem splitSegment_append (h : Directories directories) (hs : '/' ∉ segment) :
    splitSegment (directories ++ segment) = (directories, segment) := by
  unfold splitSegment
  simp only [takeWhile_ne_reverse_append hs h, List.reverse_reverse]
  simp

theorem splitLast?_of_not_mem (h : c ∉ cs) : splitLast? c cs = none := by
  unfold splitLast?
  rw [if_neg (by simpa using h)]

theorem splitLast?_append_cons (h : c ∉ back) : splitLast? c (front ++ c :: back) = some (front, c :: back) := by
  have htail : ((front ++ [c] ++ back).reverse.takeWhile (· != c)) = back.reverse :=
    takeWhile_ne_reverse_append h (.inr ⟨front, rfl⟩)
  rw [List.append_assoc, List.singleton_append] at htail
  have hlength : (front ++ c :: back).length - back.reverse.length - 1 = front.length := by simp; omega
  unfold splitLast?
  rw [if_pos (by simp), htail]
  simp only [hlength, List.take_left, List.drop_left]

/-! ### Where a text is put -/

/-- The last segment of a path has an extension: a dot that is not its first character, and what stands behind the last
one. In front of this dot stand the directories and the rest of the segment. -/
structure Extended (cs front extension : List Char) : Prop where
  eq : cs = front ++ '.' :: extension
  dot : '.' ∉ extension
  slash : '/' ∉ extension
  front : ∃ directories d stem, front = directories ++ d :: stem ∧ Directories directories ∧ '/' ∉ d :: stem

/-- The last segment of a path has no extension. -/
def Bare (cs : List Char) : Prop :=
  ∃ directories segment, cs = directories ++ segment ∧ Directories directories ∧ '/' ∉ segment ∧ '.' ∉ segment.tail

/-- A text is put before the extension, or behind a path that has none. -/
theorem extended_or_bare (path : String) :
    (∃ front extension, Extended path.toList front extension ∧
      ∀ text, (spliceText path text).toList = (front ++ '.' :: text.toList) ++ '.' :: extension) ∨
    Bare path.toList ∧ ∀ text, (spliceText path text).toList = path.toList ++ '-' :: text.toList := by
  obtain ⟨directories, segment, hpath, hdirectories, hslash⟩ := exists_directories path.toList
  have hsplit : splitSegment path.toList = (directories, segment) := by
    rw [hpath, splitSegment_append hdirectories hslash]
  have hbehind (text : String) : (path ++ "-" ++ text).toList = path.toList ++ '-' :: text.toList := by simp
  by_cases hdot : '.' ∈ segment
  · obtain ⟨stem, extension, rfl, hextension⟩ := exists_append_cons hdot
    have hlast : splitLast? '.' (stem ++ '.' :: extension) = some (stem, '.' :: extension) :=
      splitLast?_append_cons hextension
    simp only [List.mem_append, List.mem_cons, not_or] at hslash
    cases stem with
    | nil =>
        refine .inr ⟨⟨directories, '.' :: extension, hpath, hdirectories, by simp [hslash], hextension⟩, fun text => ?_⟩
        rw [← hbehind, spliceText, hsplit]
        simp only [hlast]
    | cons d stem =>
        refine .inl ⟨directories ++ d :: stem, extension, ⟨by rw [hpath, List.append_assoc], hextension, hslash.2.2,
          directories, d, stem, rfl, hdirectories, by simpa using hslash.1⟩, fun text => ?_⟩
        rw [spliceText, hsplit]
        simp only [hlast]
        simp
  · refine .inr ⟨⟨directories, segment, hpath, hdirectories, hslash, fun h => hdot (List.mem_of_mem_tail h)⟩,
      fun text => ?_⟩
    rw [← hbehind, spliceText, hsplit]
    simp only [splitLast?_of_not_mem hdot]

/-- A text that is put before an extension never gives what a text gives that is put behind a path: there is no dot in
the last segment of the latter, but for its first character. -/
theorem Extended.ne_of_bare {cs' text text' : List Char} (h : Extended cs front extension) (h' : Bare cs')
    (hslash : '/' ∉ text) (hdot' : '.' ∉ text') (hslash' : '/' ∉ text') :
    (front ++ '.' :: text) ++ '.' :: extension ≠ cs' ++ '-' :: text' := by
  obtain ⟨directories, d, stem, rfl, hdirectories, hstem⟩ := h.front
  obtain ⟨directories', segment', rfl, hdirectories', hsegment', htail⟩ := h'
  intro heq
  rw [List.append_assoc, List.append_assoc, List.append_assoc] at heq
  have hno : '.' ∉ (segment' ++ '-' :: text').tail := by
    cases segment' with
    | nil => exact hdot'
    | cons e rest => simpa [hdot'] using htail
  obtain ⟨-, hsegments⟩ := hdirectories.eq_of_append_eq hdirectories'
    (by simpa [hslash, h.slash] using hstem) (by simpa [hslash'] using hsegment') heq
  rw [← hsegments] at hno
  exact hno (by simp)

/-- Of texts of one length that have neither a dot nor a slash in them, and paths that they are put into, both can be
told from what comes out. -/
theorem spliceText_inj {path path' text text' : String} (hlength : text.length = text'.length)
    (hdot : '.' ∉ text.toList) (hslash : '/' ∉ text.toList) (hdot' : '.' ∉ text'.toList) (hslash' : '/' ∉ text'.toList) :
    spliceText path text = spliceText path' text' ↔ path = path' ∧ text = text' := by
  refine ⟨fun h => ?_, fun ⟨hpath, htext⟩ => hpath ▸ htext ▸ rfl⟩
  replace h := congrArg String.toList h
  rw [← String.length_toList, ← String.length_toList] at hlength
  rw [← String.toList_inj, ← String.toList_inj]
  rcases extended_or_bare path with ⟨front, extension, hpath, hplace⟩ | ⟨hpath, hplace⟩ <;>
    rcases extended_or_bare path' with ⟨front', extension', hpath', hplace'⟩ | ⟨hpath', hplace'⟩ <;>
      rw [hplace, hplace'] at h
  · obtain ⟨hfront, rfl⟩ := eq_of_append_cons_eq h hpath.dot hpath'.dot
    obtain ⟨rfl, htext⟩ := List.append_inj' hfront (by simpa using hlength)
    exact ⟨by rw [hpath.eq, hpath'.eq], (List.cons.inj htext).2⟩
  · exact absurd h (hpath.ne_of_bare hpath' hslash hdot' hslash')
  · exact absurd h.symm (hpath'.ne_of_bare hpath hslash' hdot hslash)
  · obtain ⟨hpaths, htext⟩ := List.append_inj' h (by simpa using hlength)
    exact ⟨hpaths, (List.cons.inj htext).2⟩

/-- Dots in directories count for nothing, and one at the beginning of the last segment neither. -/
example : spliceText "lib.v/a.b.js" "H" = "lib.v/a.b.H.js" ∧ spliceText "lib.v/.env" "H" = "lib.v/.env-H" := by
  decide +kernel

/-! ### The text of a digest -/

variable {d d' : Bytes} {n : Int}

theorem hashText_eq_ok_iff {text : String} : hashText d n = .ok text ↔
    (1 ≤ n ∧ n ≤ d.length) ∧ text = Base64Url.encode (d.take n.toNat) := by
  unfold hashText
  split
  · next h =>
      simp only [reduceCtorEq, false_iff]
      omega
  · next h =>
      rw [Except.ok.injEq, eq_comm]
      exact (and_iff_right (by omega)).symm

theorem publicPath_eq_ok_iff {path q : String} : publicPath path d n none = .ok q ↔
    (1 ≤ n ∧ n ≤ d.length) ∧ q = spliceText path (Base64Url.encode (d.take n.toNat)) := by
  unfold publicPath
  cases htext : hashText d n with
  | error f =>
      simp only [Except.map, reduceCtorEq, false_iff]
      rintro ⟨hn, -⟩
      rw [hashText_eq_ok_iff.2 ⟨hn, rfl⟩] at htext
      cases htext
  | ok text =>
      obtain ⟨hn, rfl⟩ := hashText_eq_ok_iff.1 htext
      simp only [Except.map, Except.ok.injEq, hn, and_self, true_and, eq_comm]

/-- What is made of two paths with digests is one public path just if the paths are one and the digests begin alike. -/
theorem publicPath_eq_iff {path path' q q' : String} (h : publicPath path d n none = .ok q)
    (h' : publicPath path' d' n none = .ok q') :
    q = q' ↔ path = path' ∧ d.take n.toNat = d'.take n.toNat := by
  obtain ⟨hn, rfl⟩ := publicPath_eq_ok_iff.1 h
  obtain ⟨hn', rfl⟩ := publicPath_eq_ok_iff.1 h'
  have hlength : (Base64Url.encode (d.take n.toNat)).length = (Base64Url.encode (d'.take n.toNat)).length := by
    rw [Base64Url.length_encode, Base64Url.length_encode, List.length_take_of_le (by omega),
      List.length_take_of_le (by omega)]
  have hdot (b : Bytes) := Base64Url.not_mem_toList_encode (c := '.') b (by decide)
  have hslash (b : Bytes) := Base64Url.not_mem_toList_encode (c := '/') b (by decide)
  rw [spliceText_inj hlength (hdot _) (hslash _) (hdot _) (hslash _), Base64Url.encode_inj]

end HashedAssets
