import HashedAssets.Digest.Sha256
import HashedAssets.Fingerprint
import HashedAssets.PathMap
import Mathlib.Data.List.Flatten
import Mathlib.Data.List.Nodup

/-!
# What a digest tells

What is hashed for an asset is its content with the digests that it depends on behind it, and nothing marks
where the content ends. Since all digests are of one length, content and digests can be told apart once it is
known how many digests there are; and a digest more may as well be the end of a longer content.

* `orderedDigests`: the digests behind a content; `inPathOrder_eq_of_perm`: the order in which they are given
  does not matter;
* `Absorbs`: a content that ends with the digests that another one has more; `append_flatten_eq_iff`: the
  bytes are the same just in this case;
* `digest_eq_iff_absorbs`: when two assets have the same digest;
* `digest_eq_of_absorbed`: a content can be chosen so.
-/

namespace HashedAssets

variable {hash : Bytes → Bytes} {n : Nat} {content content' : Bytes} {deps deps' : List (String × Bytes)}
  {digests digests' : List Bytes}

/-! ### The digests behind a content -/

/-- The digests that are hashed for an asset, in ascending order of the paths that they belong to. -/
def orderedDigests (deps : List (String × Bytes)) : List Bytes := (inPathOrder deps).map (·.2)

theorem preimage_eq_append (content : Bytes) (deps : List (String × Bytes)) :
    preimage content deps = content ++ (orderedDigests deps).flatten := by
  rw [preimage, List.flatMap_def, orderedDigests]

@[simp] theorem length_orderedDigests (deps : List (String × Bytes)) :
    (orderedDigests deps).length = deps.length := by
  rw [orderedDigests, List.length_map, inPathOrder, List.length_mergeSort]

theorem length_of_mem_orderedDigests (h : ∀ y ∈ deps, y.2.length = n) :
    ∀ d ∈ orderedDigests deps, d.length = n := fun d hd => by
  obtain ⟨y, hy, rfl⟩ := List.mem_map.1 hd
  exact h y ((List.mergeSort_perm _ _).mem_iff.1 hy)

/-- Digests for different paths are put into one order, in whatever order they are given. -/
theorem inPathOrder_eq_of_perm (h : deps.Perm deps') (hpaths : (deps.map (·.1)).Nodup) :
    inPathOrder deps = inPathOrder deps' := by
  have hperm : (inPathOrder deps).Perm (inPathOrder deps') :=
    ((List.mergeSort_perm deps _).trans h).trans (List.mergeSort_perm deps' _).symm
  refine hperm.eq_of_pairwise (fun y y' hy hy' hle hge => ?_) (pairwise_mergeSort_fst deps)
    (pairwise_mergeSort_fst deps')
  -- a path has one digest
  have hmem : y ∈ deps := (List.mergeSort_perm _ _).mem_iff.1 hy
  have hmem' : y' ∈ deps := h.mem_iff.2 ((List.mergeSort_perm _ _).mem_iff.1 hy')
  exact List.inj_on_of_nodup_map hpaths hmem hmem' (String.le_antisymm hle hge)

/-! ### Reading contents and digests apart -/

theorem length_flatten_of_length (h : ∀ d ∈ digests, d.length = n) :
    digests.flatten.length = digests.length * n := by
  rw [List.length_flatten, List.map_congr_left h, List.map_const', List.sum_replicate_nat]

/-- Equally many digests of one length can be told apart. -/
theorem eq_of_flatten_eq (h : ∀ d ∈ digests, d.length = n) (h' : ∀ d ∈ digests', d.length = n)
    (hcount : digests.length = digests'.length) (heq : digests.flatten = digests'.flatten) :
    digests = digests' := by
  refine List.eq_iff_flatten_eq.2 ⟨heq, ?_⟩
  rw [List.map_congr_left h, List.map_congr_left h', List.map_const', List.map_const', hcount]

/-- There are some digests more behind the second content, and the first one ends with them: it is the second
content with these digests behind it. -/
def Absorbs (content : Bytes) (digests : List Bytes) (content' : Bytes) (digests' : List Bytes) : Prop :=
  ∃ more, digests' = more ++ digests ∧ content = content' ++ more.flatten

theorem Absorbs.append_flatten_eq (h : Absorbs content digests content' digests') :
    content ++ digests.flatten = content' ++ digests'.flatten := by
  obtain ⟨more, rfl, rfl⟩ := h
  rw [List.flatten_append, List.append_assoc]

/-- Of equally many digests none is absorbed. -/
theorem Absorbs.eq_of_length (h : Absorbs content digests content' digests')
    (hcount : digests.length = digests'.length) : content = content' ∧ digests = digests' := by
  obtain ⟨more, rfl, rfl⟩ := h
  have hmore : more = [] := List.eq_nil_of_length_eq_zero (by simpa using hcount)
  subst hmore
  exact ⟨by simp, rfl⟩

/-- Of digests that are not empty none is absorbed by a content that is not longer. -/
theorem Absorbs.eq_of_length_content (h : Absorbs content digests content' digests') (hn : 0 < n)
    (hdigests : ∀ d ∈ digests', d.length = n) (hlength : content.length = content'.length) :
    content = content' ∧ digests = digests' := by
  obtain ⟨more, rfl, rfl⟩ := h
  have hzero : more.length * n = 0 := by
    rw [← length_flatten_of_length fun d hd => hdigests d (List.mem_append_left _ hd)]
    simpa using hlength
  have hmore : more = [] :=
    List.eq_nil_of_length_eq_zero ((Nat.mul_eq_zero.1 hzero).resolve_right (Nat.ne_of_gt hn))
  subst hmore
  exact ⟨by simp, rfl⟩

/-- What stands behind the shorter row of digests is the end of the longer one. -/
theorem absorbs_of_append_flatten_eq (h : ∀ d ∈ digests, d.length = n)
    (h' : ∀ d ∈ digests', d.length = n) (hcount : digests.length ≤ digests'.length)
    (heq : content ++ digests.flatten = content' ++ digests'.flatten) :
    Absorbs content digests content' digests' := by
  -- the longer row in two parts, of which the second is as long as the shorter row
  have hsplit := List.take_append_drop (digests'.length - digests.length) digests'
  generalize digests'.take (digests'.length - digests.length) = more at hsplit
  have hlast : (digests'.drop (digests'.length - digests.length)).length = digests.length := by
    rw [List.length_drop]
    omega
  generalize digests'.drop (digests'.length - digests.length) = last at hsplit hlast
  subst hsplit
  have hlengths : ∀ d ∈ last, d.length = n := fun d hd => h' d (List.mem_append_right _ hd)
  rw [List.flatten_append, ← List.append_assoc] at heq
  obtain ⟨hcontent, hdigests⟩ := List.append_inj' heq (by
    rw [length_flatten_of_length h, length_flatten_of_length hlengths, hlast])
  exact ⟨more, by rw [eq_of_flatten_eq h hlengths hlast.symm hdigests], hcontent⟩

/-- Contents with digests behind them are the same bytes just if one of them absorbs what the other has
more. -/
theorem append_flatten_eq_iff (h : ∀ d ∈ digests, d.length = n) (h' : ∀ d ∈ digests', d.length = n) :
    content ++ digests.flatten = content' ++ digests'.flatten ↔
      Absorbs content digests content' digests' ∨ Absorbs content' digests' content digests := by
  constructor
  · intro heq
    rcases Nat.le_total digests.length digests'.length with hle | hge
    · exact .inl (absorbs_of_append_flatten_eq h h' hle heq)
    · exact .inr (absorbs_of_append_flatten_eq h' h hge heq.symm)
  · rintro (habs | habs)
    · exact habs.append_flatten_eq
    · exact habs.append_flatten_eq.symm

/-! ### Samples -/

namespace Sheets

/-- The first four bytes, as digests of a sample. -/
def firstBytes (b : Bytes) : Bytes := (b ++ List.replicate 4 0).take 4

/-- Two style sheets with digests of four bytes. -/
def both : List (String × Bytes) := [("a.css", [1, 2, 3, 4]), ("b.css", [5, 6, 7, 8])]

theorem inPathOrder_both : inPathOrder both = both := List.mergeSort_of_pairwise (by decide)

theorem inPathOrder_singleton (y : String × Bytes) : inPathOrder [y] = [y] := List.mergeSort_singleton y

/-- A page whose content is the public path of `b.css`, for the digest that `b.css` has with the text
"one". -/
def page : Bytes := Bytes.ofText "b.dpLDrTVAu4A8Ags67mbNiIcSMjTqDG5xQ8Ct1z_0Me0.css"

/-- The digest of `b.css`. -/
def sheet : Bytes := Sha256.hash (Bytes.ofText "one")

end Sheets

/-! ### Equal digests -/

/-- **What a digest tells of content and dependencies.** Let all digests be of one length, and let the hash
function tell apart what is hashed for two assets. These have the same digest just if the content of one is
that of the other with some digests behind it, the first ones in path order that the other has more, and all
else is the same. So with equally many dependencies, or with contents of one length and digests that are not
empty, equal digests stand for equal contents and equal digests in path order. And a digest does not depend on
the order in which the dependencies are given. -/
theorem digest_eq_iff_absorbs (hdeps : ∀ y ∈ deps, y.2.length = n) (hdeps' : ∀ y ∈ deps', y.2.length = n)
    (hpaths : (deps.map (·.1)).Nodup)
    (hfree : hash (preimage content deps) = hash (preimage content' deps') →
      preimage content deps = preimage content' deps') :
    (digest hash content deps = digest hash content' deps' ↔
      Absorbs content (orderedDigests deps) content' (orderedDigests deps') ∨
        Absorbs content' (orderedDigests deps') content (orderedDigests deps)) ∧
    (deps.length = deps'.length ∨ 0 < n ∧ content.length = content'.length →
      (digest hash content deps = digest hash content' deps' ↔
        content = content' ∧ orderedDigests deps = orderedDigests deps')) ∧
    ∀ permuted, deps.Perm permuted → digest hash content permuted = digest hash content deps := by
  have hlengths := length_of_mem_orderedDigests hdeps
  have hlengths' := length_of_mem_orderedDigests hdeps'
  have hiff : digest hash content deps = digest hash content' deps' ↔
      Absorbs content (orderedDigests deps) content' (orderedDigests deps') ∨
        Absorbs content' (orderedDigests deps') content (orderedDigests deps) := by
    rw [← append_flatten_eq_iff hlengths hlengths', ← preimage_eq_append, ← preimage_eq_append]
    exact ⟨hfree, congrArg hash⟩
  refine ⟨hiff, fun hsame => ?_, fun permuted hperm => ?_⟩
  · constructor
    · intro hdigest
      rcases hsame with hcount | ⟨hn, hlength⟩
      · rcases hiff.1 hdigest with habs | habs
        · exact habs.eq_of_length (by simpa using hcount)
        · exact (habs.eq_of_length (by simpa using hcount.symm)).imp Eq.symm Eq.symm
      · rcases hiff.1 hdigest with habs | habs
        · exact habs.eq_of_length_content hn hlengths' hlength
        · exact (habs.eq_of_length_content hn hlengths hlength.symm).imp Eq.symm Eq.symm
    · rintro ⟨rfl, hdigests⟩
      exact hiff.2 (.inl ⟨[], by simp [hdigests], by simp⟩)
  · rw [digest, digest, preimage, preimage, inPathOrder_eq_of_perm hperm hpaths]

/-- In the sample contents of one length with the same digests behind them have different digests, a content
that ends with the digest of `a.css` has the same one as a content that depends on `a.css`, and it does not
matter which of the sheets comes first. -/
theorem digest_of_sheets :
    digest Sheets.firstBytes (Bytes.ofText "v1") Sheets.both ≠
      digest Sheets.firstBytes (Bytes.ofText "v2") Sheets.both ∧
    digest Sheets.firstBytes (Bytes.ofText "v1" ++ [1, 2, 3, 4]) [("b.css", [5, 6, 7, 8])] =
      digest Sheets.firstBytes (Bytes.ofText "v1") Sheets.both ∧
    digest Sheets.firstBytes (Bytes.ofText "v1") Sheets.both.reverse =
      digest Sheets.firstBytes (Bytes.ofText "v1") Sheets.both := by
  obtain ⟨-, hsame, hperm⟩ := @digest_eq_iff_absorbs Sheets.firstBytes 4 (Bytes.ofText "v1")
    (Bytes.ofText "v2") Sheets.both Sheets.both (by decide) (by decide) (by decide) (by decide +kernel)
  obtain ⟨hiff, -, -⟩ := @digest_eq_iff_absorbs Sheets.firstBytes 4 (Bytes.ofText "v1" ++ [1, 2, 3, 4])
    (Bytes.ofText "v1") [("b.css", [5, 6, 7, 8])] Sheets.both
    (by decide) (by decide) (by decide) fun _ => by
      rw [preimage, preimage, Sheets.inPathOrder_both, Sheets.inPathOrder_singleton]
      rfl
  refine ⟨fun heq => ?_, hiff.2 (.inl ⟨[[1, 2, 3, 4]], ?_, rfl⟩),
    hperm _ (List.reverse_perm _).symm⟩
  · exact absurd ((hsame (.inl rfl)).1 heq).1 (by decide +kernel)
  · rw [orderedDigests, orderedDigests, Sheets.inPathOrder_both, Sheets.inPathOrder_singleton]
    rfl

/-- A page that refers to `b.css` has the same digest as a page that refers to nothing and ends with the
digest of `b.css`: the contents differ, and the digests behind them. The hash function is as it should be, and
the bytes hashed for the pages are the same. -/
theorem digest_eq_of_absorbed : (∀ b, (Sha256.hash b).length = 32) ∧
    (∀ b ∈ [preimage Sheets.page [("b.css", Sheets.sheet)], preimage (Sheets.page ++ Sheets.sheet) []],
      ∀ b' ∈ [preimage Sheets.page [("b.css", Sheets.sheet)], preimage (Sheets.page ++ Sheets.sheet) []],
        Sha256.hash b = Sha256.hash b' → b = b') ∧
    ([("b.css", Sheets.sheet)].map (·.1)).Nodup ∧ Sheets.sheet.length = 32 ∧
    digest Sha256.hash Sheets.page [("b.css", Sheets.sheet)] =
      digest Sha256.hash (Sheets.page ++ Sheets.sheet) [] ∧
    Sheets.page ≠ Sheets.page ++ Sheets.sheet ∧
    orderedDigests [("b.css", Sheets.sheet)] ≠ orderedDigests [] := by
  have hsheet : Sheets.sheet.length = 32 := Sha256.length_hash _
  have hpre : preimage Sheets.page [("b.css", Sheets.sheet)] =
      preimage (Sheets.page ++ Sheets.sheet) [] := by
    simp [preimage, inPathOrder]
  refine ⟨Sha256.length_hash, ?_, by simp, hsheet, congrArg Sha256.hash hpre, fun heq => ?_,
    fun heq => ?_⟩
  · simp [hpre]
  · have hlength := congrArg List.length heq
    simp [hsheet] at hlength
  · have hcount := congrArg List.length heq
    simp at hcount

end HashedAssets
