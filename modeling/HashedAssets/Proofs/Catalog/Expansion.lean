import HashedAssets.Proofs.Resolution.Equations
import Mathlib.Data.List.Forall2
import Mathlib.Data.List.Pairwise
import Mathlib.Data.String.Basic

/-!
# What the expansion of a directory registers

The entries of a listing are put in the order of the names as listed; only then are slashes written
for backslashes and slashes in front taken off. So the definitions ascend by path unless this turns
the order of two names around.

* `Registers`: what an entry is registered as;
* `addEntries_eq_ok`, `exists_addEntries_eq_ok_iff`: how the entries of a listing are registered;
* `entryPath_lt_iff`: paths in one directory are in the order of the names;
* `expansion_of_addDirectory`: what is given back, in which order, and what is registered afterwards;
* `exists_expansion_descending`: a listing for which the paths do not ascend.
-/

namespace HashedAssets

namespace Catalog

variable {c : Catalog} {directory pattern : String} {choices : Choices}

/-! ### One entry after the other -/

/-- Whether an entry of a listing is among those of a pattern. -/
def isSelected (pattern : String) (e : String × Bytes) : Bool :=
  Text.Glob.matchesGlob pattern (entryName e.1)

/-- A definition is that of an entry of a listing. -/
structure Registers (directory : String) (choices : Choices) (d : Definition)
    (e : String × Bytes) : Prop where
  path : d.path = entryPath directory (entryName e.1)
  source : d.source = .directory e.2
  options : d.options = choices.options true

theorem matching_eq (pattern : String) (listing : List (String × Bytes)) :
    matching pattern listing =
      ((inNameOrder listing).filter (isSelected pattern)).map fun e => (entryName e.1, e.2) := by
  rw [matching, List.filter_map]
  rfl

theorem make_eq_ok_iff {d : Definition} {e : String × Bytes} :
    Definition.make (entryPath directory (entryName e.1)) (.directory e.2) (choices.options true)
      = .ok d ↔ Registers directory choices d e := by
  unfold Definition.make
  split
  · next h =>
      refine ⟨(nomatch ·), fun hd => ?_⟩
      exact absurd (hd.path.trans h) d.named
  · refine ⟨?_, fun hd => ?_⟩
    · rintro ⟨⟩
      exact ⟨rfl, rfl, rfl⟩
    · obtain ⟨path, source, options, named⟩ := d
      obtain ⟨rfl, rfl, rfl⟩ := hd
      rfl

/-- Registering the bytes of an entry counts no calls. -/
theorem calls_add {d : Definition} {b : Bytes} (h : d.source = .directory b) :
    (c.add d).calls = c.calls := by
  simp [add, h, Source.loader?]

/-- The entries are registered in their order, so that the last definition of a path stays. -/
theorem addEntries_eq_ok {es : List (String × Bytes)} {ds : List Definition} {c c' : Catalog}
    (h : c.addEntries directory choices (es.map fun e => (entryName e.1, e.2)) = (.ok ds, c')) :
    List.Forall₂ (Registers directory choices) ds es ∧ c'.calls = c.calls ∧
      ∀ q, c'.entries.get? q = (ds.reverse.find? (·.path == q)).or (c.entries.get? q) := by
  induction es generalizing c ds with
  | nil =>
      cases h
      exact ⟨.nil, rfl, fun q => rfl⟩
  | cons e rest ih =>
      rw [List.map_cons, addEntries] at h
      split at h
      · cases h
      · next d hd =>
          obtain ⟨hds, hc⟩ := Prod.ext_iff.1 h
          obtain ⟨ds', hds', rfl⟩ := map_eq_ok.1 hds
          obtain ⟨hall, hcalls, hget⟩ := ih (Prod.ext hds' hc)
          have hreg : Registers directory choices d e := make_eq_ok_iff.1 hd
          refine ⟨.cons hreg hall, hcalls.trans (calls_add hreg.source), fun q => ?_⟩
          rw [hget, entries_add, PathMap.get?_insert, List.reverse_cons, List.find?_append,
            Option.or_assoc]
          congr 1
          by_cases hq : d.path = q
          · simp [hq]
          · simp [hq, Ne.symm hq]

/-- All entries can be registered unless the path of one is empty. -/
theorem exists_addEntries_eq_ok_iff {es : List (String × Bytes)} (c : Catalog) :
    (∃ ds, (c.addEntries directory choices (es.map fun e => (entryName e.1, e.2))).1 = .ok ds) ↔
      ∀ e ∈ es, entryPath directory (entryName e.1) ≠ "" := by
  induction es generalizing c with
  | nil => simp [addEntries]
  | cons e rest ih =>
      rw [List.map_cons, addEntries, List.forall_mem_cons]
      split
      · next f hf =>
          refine ⟨fun ⟨_, hds⟩ => (nomatch hds), fun ⟨hne, _⟩ => ?_⟩
          simp [Definition.make, hne] at hf
      · next d hd =>
          have hne : entryPath directory (entryName e.1) ≠ "" :=
            (make_eq_ok_iff.1 hd).path ▸ d.named
          rw [and_iff_right hne, ← ih (c.add d)]
          simp only [map_eq_ok]
          exact ⟨fun ⟨_, ds, hds, _⟩ => ⟨ds, hds⟩, fun ⟨ds, hds⟩ => ⟨_, ds, hds, rfl⟩⟩

/-! ### The order -/

theorem append_lt_append_iff {s t u : String} : s ++ t < s ++ u ↔ t < u := by
  simp only [String.lt_iff_toList_lt, String.toList_append]
  refine ⟨fun h => ?_, List.append_left_lt⟩
  by_contra hle
  exact absurd h (List.not_lt.2 (List.append_left_le (List.not_lt.1 hle)))

/-- Paths in one directory are in the order of the names. -/
theorem entryPath_lt_iff {a b : String} : entryPath directory a < entryPath directory b ↔ a < b := by
  unfold entryPath
  split
  · rfl
  · exact append_lt_append_iff

/-- Of two entries the one whose name comes first as listed comes behind the other once the names
are written with slashes. -/
def TurnedAround (a b : String × Bytes) : Prop := a.1 < b.1 ∧ entryName b.1 < entryName a.1

/-- Entries in the order of the names as listed ascend by path exactly when no two are turned
around. -/
theorem pairwise_entryPath_iff {es : List (String × Bytes)} (h : es.Pairwise (·.1 ≤ ·.1)) :
    es.Pairwise (fun a b => entryPath directory (entryName a.1) ≤ entryPath directory (entryName b.1))
      ↔ ∀ a ∈ es, ∀ b ∈ es, ¬TurnedAround a b := by
  constructor
  · rintro hp a ha b hb ⟨hlt, hturn⟩
    -- one of the two stands in front of the other in both orders
    let Along (x y : String × Bytes) : Prop := x.1 ≤ y.1 ∧
      entryPath directory (entryName x.1) ≤ entryPath directory (entryName y.1)
    have hsymm : Std.Symm fun x y => Along x y ∨ Along y x := ⟨fun _ _ => Or.symm⟩
    have hall : es.Pairwise fun x y => Along x y ∨ Along y x := (h.and hp).imp Or.inl
    have hne : a ≠ b := fun hab => String.lt_irrefl _ (hab ▸ hlt)
    rcases hall.forall ha hb hne with hab | hba
    · exact String.not_le.2 (entryPath_lt_iff.2 hturn) hab.2
    · exact String.not_le.2 hlt hba.1
  · intro hnone
    refine h.imp_of_mem fun {a b} ha hb hab => ?_
    by_contra hlt
    rw [String.not_le, entryPath_lt_iff] at hlt
    refine hnone a ha b hb ⟨String.not_le.1 fun hba => ?_, hlt⟩
    rw [String.le_antisymm hab hba] at hlt
    exact String.lt_irrefl _ hlt

/-- The paths of definitions are those of their entries. -/
theorem map_path_of_registers {ds : List Definition} {es : List (String × Bytes)}
    (h : List.Forall₂ (Registers directory choices) ds es) :
    ds.map Definition.path = es.map fun e => entryPath directory (entryName e.1) := by
  induction h with
  | nil => rfl
  | cons hd _ ih => rw [List.map_cons, List.map_cons, hd.path, ih]

/-! ### The expansion -/

variable {listing : List (String × Bytes)} {ds : List Definition}

/-- A directory is expanded unless the path of a selected entry is empty. -/
theorem exists_addDirectory_eq_ok_iff (c : Catalog) :
    (∃ ds, (c.addDirectory directory pattern listing choices).1 = .ok ds) ↔
      ∀ e ∈ listing, isSelected pattern e → entryPath directory (entryName e.1) ≠ "" := by
  rw [addDirectory, matching_eq, exists_addEntries_eq_ok_iff]
  simp only [List.mem_filter, inNameOrder, List.mem_mergeSort, and_imp]

/-- What is given back: one definition for each selected entry, in the order of the names. -/
theorem exists_registers_of_addDirectory
    (h : (c.addDirectory directory pattern listing choices).1 = .ok ds) :
    ∃ es : List (String × Bytes), es.Perm (listing.filter (isSelected pattern)) ∧
      es.Pairwise (·.1 ≤ ·.1) ∧ List.Forall₂ (Registers directory choices) ds es := by
  rw [addDirectory, matching_eq] at h
  exact ⟨(inNameOrder listing).filter (isSelected pattern), (List.mergeSort_perm _ _).filter _,
    (pairwise_mergeSort_fst listing).filter _, (addEntries_eq_ok (Prod.ext h rfl)).1⟩

/-- What is given back ascends by path exactly when no two selected entries are turned around. -/
theorem pairwise_path_iff_of_addDirectory
    (h : (c.addDirectory directory pattern listing choices).1 = .ok ds) :
    ds.Pairwise (·.path ≤ ·.path) ↔
      ∀ a ∈ listing, isSelected pattern a → ∀ b ∈ listing, isSelected pattern b → ¬TurnedAround a b := by
  obtain ⟨es, hperm, hes, hall⟩ := exists_registers_of_addDirectory h
  rw [← List.pairwise_map (f := Definition.path) (R := (· ≤ ·)), map_path_of_registers hall,
    List.pairwise_map, pairwise_entryPath_iff hes]
  simp only [hperm.mem_iff, List.mem_filter, and_imp]

/-- A directory is expanded unless the path of a selected entry is empty. What is given back is one
definition for each selected entry, in the order of the names as listed; each of their paths is then
registered with the last of its definitions, and nothing else has changed. The paths ascend exactly
when no two selected entries are turned around. -/
theorem expansion_of_addDirectory (c : Catalog) (directory pattern : String)
    (listing : List (String × Bytes)) (choices : Choices) :
    ((∃ ds, (c.addDirectory directory pattern listing choices).1 = .ok ds) ↔
      ∀ e ∈ listing, isSelected pattern e → entryPath directory (entryName e.1) ≠ "") ∧
    ∀ ds, (c.addDirectory directory pattern listing choices).1 = .ok ds →
      (∃ es : List (String × Bytes), es.Perm (listing.filter (isSelected pattern)) ∧
        es.Pairwise (·.1 ≤ ·.1) ∧ List.Forall₂ (Registers directory choices) ds es) ∧
      (∀ q, (c.addDirectory directory pattern listing choices).2.entries.get? q =
        (ds.reverse.find? (·.path == q)).or (c.entries.get? q)) ∧
      (c.addDirectory directory pattern listing choices).2.calls = c.calls ∧
      (ds.Pairwise (·.path ≤ ·.path) ↔
        ∀ a ∈ listing, isSelected pattern a → ∀ b ∈ listing, isSelected pattern b →
          ¬TurnedAround a b) := by
  refine ⟨exists_addDirectory_eq_ok_iff c, fun ds h => ?_⟩
  have hafter := h
  rw [addDirectory, matching_eq] at hafter ⊢
  obtain ⟨-, hcalls, hget⟩ := addEntries_eq_ok (Prod.ext hafter rfl)
  exact ⟨exists_registers_of_addDirectory h, hget, hcalls, pairwise_path_iff_of_addDirectory h⟩

/-! ### Names with a slash in front -/

namespace Icons

/-- Three icons, two of them for one path, and a file that is none. -/
def listed : List (String × Bytes) :=
  [("logo.png", [1]), ("icons/home.png", [2]), ("notes.txt", [3]), ("/logo.png", [4])]

theorem filter_listed : listed.filter (isSelected "*.png")
    = [("logo.png", [1]), ("icons/home.png", [2]), ("/logo.png", [4])] := by
  decide +kernel

theorem eq_of_perm_of_pairwise {es : List (String × Bytes)}
    (hperm : es.Perm (listed.filter (isSelected "*.png"))) (hes : es.Pairwise (·.1 ≤ ·.1)) :
    es = [("/logo.png", [4]), ("icons/home.png", [2]), ("logo.png", [1])] := by
  rw [filter_listed] at hperm
  refine (hperm.trans (by decide)).eq_of_pairwise (fun a b ha hb hab hba => ?_) hes (by decide)
  have hname : a.1 = b.1 := String.le_antisymm hab hba
  rw [hperm.mem_iff] at ha
  simp only [List.mem_cons, List.not_mem_nil, or_false] at ha hb
  rcases ha with rfl | rfl | rfl <;> rcases hb with rfl | rfl | rfl <;>
    first | rfl | exact absurd hname (by decide)

end Icons

/-- The two logos take turns under one path, and home comes between them. -/
theorem expansion_icons :
    ∃ ds, ((∅ : Catalog).addDirectory "img" "*.png" Icons.listed {}).1 = .ok ds ∧
      ds.map Definition.path = ["img/logo.png", "img/icons/home.png", "img/logo.png"] ∧
      (((∅ : Catalog).addDirectory "img" "*.png" Icons.listed {}).2.entries.get? "img/logo.png").map
        Definition.source = some (.directory [1]) ∧
      ¬ds.Pairwise (·.path ≤ ·.path) := by
  obtain ⟨hok, hexp⟩ := expansion_of_addDirectory ∅ "img" "*.png" Icons.listed {}
  obtain ⟨ds, hds⟩ := hok.2 fun e _ _ => by simp [entryPath]
  obtain ⟨⟨es, hperm, hes, hall⟩, hget, -, horder⟩ := hexp ds hds
  obtain rfl := Icons.eq_of_perm_of_pairwise hperm hes
  obtain ⟨first, _, -, htwo, rfl⟩ := List.forall₂_cons_right_iff.1 hall
  obtain ⟨home, _, -, hone, rfl⟩ := List.forall₂_cons_right_iff.1 htwo
  obtain ⟨last, _, hlast, hnone, rfl⟩ := List.forall₂_cons_right_iff.1 hone
  obtain rfl := List.forall₂_nil_right_iff.1 hnone
  have hpath : last.path = "img/logo.png" := hlast.path.trans (by decide +kernel)
  refine ⟨_, hds, (map_path_of_registers hall).trans (by decide +kernel), ?_, fun hp => ?_⟩
  · rw [hget]
    simp [hpath, hlast.source]
  · refine horder.1 hp ("/logo.png", [4]) (by decide) ?_ ("icons/home.png", [2]) (by decide) ?_ ?_
    · decide +kernel
    · decide +kernel
    · exact ⟨by decide, by decide +kernel⟩

/-- The name with a slash in front is listed before the other, and its path comes behind. -/
theorem exists_expansion_descending :
    ∃ ds, ((∅ : Catalog).addDirectory "img" "*.png" [("/b.png", [98]), ("a.png", [97])] {}).1
        = .ok ds ∧ ¬ds.Pairwise (·.path ≤ ·.path) := by
  have hnamed : ∀ name, entryPath "img" name ≠ "" := fun name => by simp [entryPath]
  obtain ⟨ds, hds⟩ := (exists_addDirectory_eq_ok_iff ∅).2 fun e _ _ => hnamed (entryName e.1)
  refine ⟨ds, hds, fun hp => ?_⟩
  have hnone := (pairwise_path_iff_of_addDirectory hds).1 hp
  refine hnone ("/b.png", [98]) (by decide) ?_ ("a.png", [97]) (by decide) ?_ ?_
  · decide +kernel
  · decide +kernel
  · exact ⟨by decide, by decide +kernel⟩

end Catalog

end HashedAssets
