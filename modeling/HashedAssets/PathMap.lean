/-!
# Finite maps keyed by paths

`PathMap α` is a list of pairs whose keys ascend strictly by code point, so that a map has one
representation only: two maps with the same bindings are equal (`PathMap.ext_get?`), whatever the
order in which the bindings were made.

* `get?`, `contains`, `keys`, `values`, `size`: what a map holds;
* `insert`, `erase`, `modify`, `ofList`: building maps;
* `ascending`: a list of paths as a strictly ascending list.
-/

namespace HashedAssets

universe u v

/-! ### Ascending lists of paths -/

/-- Put a path into an ascending list, unless it is there. -/
def insertAscending (p : String) : List String → List String
  | [] => [p]
  | q :: rest =>
      if p < q then p :: q :: rest
      else if p = q then q :: rest
      else q :: insertAscending p rest

/-- The paths of a list in ascending order, each once. -/
def ascending (ps : List String) : List String := ps.foldr insertAscending []

theorem lt_of_not_lt_of_ne {p q : String} (h : ¬p < q) (hne : p ≠ q) : q < p := by
  by_cases h' : q < p
  · exact h'
  · exact absurd (String.le_antisymm (String.not_lt.1 h') (String.not_lt.1 h)) hne

@[simp] theorem mem_insertAscending {p q : String} {l : List String} :
    q ∈ insertAscending p l ↔ q = p ∨ q ∈ l := by
  induction l with
  | nil => simp [insertAscending]
  | cons r rest ih =>
      rw [insertAscending]
      split
      · simp
      · split
        · next h => subst h; simp
        · simp only [List.mem_cons, ih]
          constructor <;> rintro (h | h | h) <;> simp [h]

theorem pairwise_insertAscending {p : String} {l : List String} (h : l.Pairwise (· < ·)) :
    (insertAscending p l).Pairwise (· < ·) := by
  induction l with
  | nil => simp [insertAscending]
  | cons r rest ih =>
      obtain ⟨hr, hrest⟩ := List.pairwise_cons.1 h
      rw [insertAscending]
      split
      · next hlt =>
          refine List.pairwise_cons.2 ⟨fun q hq => ?_, h⟩
          rcases List.mem_cons.1 hq with rfl | hq
          · exact hlt
          · exact String.lt_trans hlt (hr q hq)
      · split
        · exact h
        · next hnlt hne =>
            refine List.pairwise_cons.2 ⟨fun q hq => ?_, ih hrest⟩
            rcases mem_insertAscending.1 hq with rfl | hq
            · exact lt_of_not_lt_of_ne hnlt hne
            · exact hr q hq

@[simp] theorem mem_ascending {p : String} {ps : List String} : p ∈ ascending ps ↔ p ∈ ps := by
  induction ps with
  | nil => simp [ascending]
  | cons q rest ih => simpa [ascending] using or_congr_right ih

theorem pairwise_ascending (ps : List String) : (ascending ps).Pairwise (· < ·) := by
  induction ps with
  | nil => simp [ascending]
  | cons q rest ih => exact pairwise_insertAscending ih

/-- Pairs that are sorted by their paths are in ascending order of these. -/
theorem pairwise_mergeSort_fst {α : Type u} (l : List (String × α)) :
    (l.mergeSort fun a b => decide (a.1 ≤ b.1)).Pairwise (·.1 ≤ ·.1) := by
  refine (List.pairwise_mergeSort (fun a b c hab hbc => ?_) (fun a b => ?_) l).imp of_decide_eq_true
  · exact decide_eq_true (String.le_trans (of_decide_eq_true hab) (of_decide_eq_true hbc))
  · simpa using String.le_total a.1 b.1

/-! ### Maps -/

/-- A finite map from paths, as its bindings in ascending order of the path. -/
structure PathMap (α : Type u) where
  bindings : List (String × α)
  ascending : bindings.Pairwise (·.1 < ·.1)

namespace PathMap

variable {α : Type u} {β : Type v}

/-- The map without bindings. -/
def empty : PathMap α := ⟨[], .nil⟩

instance : EmptyCollection (PathMap α) := ⟨empty⟩

instance : Inhabited (PathMap α) := ⟨empty⟩

/-- The value bound to a path. -/
def get? (m : PathMap α) (p : String) : Option α := m.bindings.lookup p

/-- Whether a path is bound. -/
def contains (m : PathMap α) (p : String) : Bool := (m.get? p).isSome

instance : Membership String (PathMap α) := ⟨fun m p => m.contains p = true⟩

instance (p : String) (m : PathMap α) : Decidable (p ∈ m) :=
  inferInstanceAs (Decidable (m.contains p = true))

/-- The bound paths, ascending. -/
def keys (m : PathMap α) : List String := m.bindings.map (·.1)

/-- The bound values, in ascending order of their paths. -/
def values (m : PathMap α) : List α := m.bindings.map (·.2)

/-- The number of bindings. -/
def size (m : PathMap α) : Nat := m.bindings.length

/-- Put a binding into an ascending list of bindings, in place of one of the same path. -/
def put (p : String) (a : α) : List (String × α) → List (String × α)
  | [] => [(p, a)]
  | (q, b) :: rest =>
      if p < q then (p, a) :: (q, b) :: rest
      else if p = q then (p, a) :: rest
      else (q, b) :: put p a rest

theorem fst_of_mem_put {p : String} {a : α} {l : List (String × α)} {x : String × α}
    (h : x ∈ put p a l) : x.1 = p ∨ x ∈ l := by
  induction l with
  | nil => simp [put] at h; simp [h]
  | cons y rest ih =>
      rw [put] at h
      split at h
      · rcases List.mem_cons.1 h with rfl | h
        · exact .inl rfl
        · exact .inr h
      · split at h
        · rcases List.mem_cons.1 h with rfl | h
          · exact .inl rfl
          · exact .inr (List.mem_cons_of_mem _ h)
        · rcases List.mem_cons.1 h with rfl | h
          · exact .inr List.mem_cons_self
          · exact (ih h).imp_right (List.mem_cons_of_mem _)

theorem pairwise_put {p : String} {a : α} {l : List (String × α)}
    (h : l.Pairwise (·.1 < ·.1)) : (put p a l).Pairwise (·.1 < ·.1) := by
  induction l with
  | nil => simp [put]
  | cons y rest ih =>
      obtain ⟨hy, hrest⟩ := List.pairwise_cons.1 h
      rw [put]
      split
      · next hlt =>
          refine List.pairwise_cons.2 ⟨fun x hx => ?_, h⟩
          rcases List.mem_cons.1 hx with rfl | hx
          · exact hlt
          · exact String.lt_trans hlt (hy x hx)
      · split
        · next heq =>
            refine List.pairwise_cons.2 ⟨fun x hx => ?_, hrest⟩
            have := hy x hx
            rwa [← heq] at this
        · next hnlt hne =>
            refine List.pairwise_cons.2 ⟨fun x hx => ?_, ih hrest⟩
            rcases fst_of_mem_put hx with hp | hx
            · rw [hp]; exact lt_of_not_lt_of_ne hnlt hne
            · exact hy x hx

/-- Bind a path, in place of an earlier binding. -/
def insert (m : PathMap α) (p : String) (a : α) : PathMap α :=
  ⟨put p a m.bindings, pairwise_put m.ascending⟩

/-- Take a binding out. -/
def erase (m : PathMap α) (p : String) : PathMap α :=
  ⟨m.bindings.filter (·.1 != p), m.ascending.filter _⟩

/-- Change the value of each binding. -/
def mapValues (f : String → α → β) (m : PathMap α) : PathMap β :=
  ⟨m.bindings.map fun x => (x.1, f x.1 x.2), by
    simpa [List.pairwise_map] using m.ascending⟩

/-- Change the value bound to one path, if it is bound. -/
def modify (m : PathMap α) (p : String) (f : α → α) : PathMap α :=
  match m.get? p with
  | none => m
  | some a => m.insert p (f a)

/-- The map of a list of bindings; of two bindings of one path the later counts. -/
def ofList (l : List (String × α)) : PathMap α :=
  l.foldl (fun m x => m.insert x.1 x.2) empty

instance [Repr α] : Repr (PathMap α) := ⟨fun m n => reprPrec m.bindings n⟩

instance [BEq α] : BEq (PathMap α) := ⟨fun m n => m.bindings == n.bindings⟩

theorem ext_bindings {m n : PathMap α} (h : m.bindings = n.bindings) : m = n := by
  cases m; cases n; congr

instance [DecidableEq α] : DecidableEq (PathMap α) := fun m n =>
  decidable_of_iff (m.bindings = n.bindings) ⟨ext_bindings, fun h => h ▸ rfl⟩

/-! ### Looking up -/

@[simp] theorem get?_empty (p : String) : (∅ : PathMap α).get? p = none := rfl

theorem lookup_cons_ite (q : String) (x : String × α) (l : List (String × α)) :
    (x :: l).lookup q = if q = x.1 then some x.2 else l.lookup q := by
  rw [List.lookup_cons]
  by_cases h : q = x.1
  · simp [h]
  · have : (q == x.1) = false := by simpa using h
    simp [h, this]

theorem lookup_put (p q : String) (a : α) (l : List (String × α)) :
    (put p a l).lookup q = if q = p then some a else l.lookup q := by
  induction l with
  | nil => rw [put, lookup_cons_ite]
  | cons y rest ih =>
      rw [put]
      split
      · rw [lookup_cons_ite]
      · split
        · next heq =>
            rw [lookup_cons_ite, lookup_cons_ite]
            by_cases h : q = p
            · simp [h]
            · simp [h, show ¬q = y.1 from heq ▸ h]
        · next hne =>
            rw [lookup_cons_ite, lookup_cons_ite, ih]
            by_cases h : q = p
            · subst h; simp [hne]
            · simp [h]

@[simp] theorem get?_insert (m : PathMap α) (p q : String) (a : α) :
    (m.insert p a).get? q = if q = p then some a else m.get? q :=
  lookup_put p q a m.bindings

theorem get?_insert_self (m : PathMap α) (p : String) (a : α) : (m.insert p a).get? p = some a := by
  simp

@[simp] theorem get?_erase (m : PathMap α) (p q : String) :
    (m.erase p).get? q = if q = p then none else m.get? q := by
  simp only [get?, erase]
  induction m.bindings with
  | nil => simp
  | cons y rest ih =>
      by_cases hy : y.1 = p
      · rw [List.filter_cons_of_neg (by simp [hy]), ih, lookup_cons_ite]
        by_cases h : q = p
        · simp [h]
        · simp [h, show ¬q = y.1 from hy ▸ h]
      · rw [List.filter_cons_of_pos (by simpa using hy), lookup_cons_ite, lookup_cons_ite, ih]
        by_cases h : q = p
        · subst h; simp [show ¬q = y.1 from fun he => hy he.symm]
        · simp [h]

theorem get?_modify (m : PathMap α) (p q : String) (f : α → α) :
    (m.modify p f).get? q = if q = p then (m.get? p).map f else m.get? q := by
  unfold modify
  split
  · next h => by_cases hq : q = p <;> simp [h, hq]
  · next a h => by_cases hq : q = p <;> simp [h, hq]

theorem mem_iff_get?_isSome {m : PathMap α} {p : String} : p ∈ m ↔ (m.get? p).isSome = true :=
  Iff.rfl

theorem mem_keys_of_lookup {l : List (String × α)} {p : String} :
    (l.lookup p).isSome = true ↔ p ∈ l.map (·.1) := by
  induction l with
  | nil => simp
  | cons y rest ih =>
      rw [List.lookup_cons]
      by_cases h : p = y.1
      · simp [h]
      · have : (p == y.1) = false := by simpa using h
        simp only [this, List.map_cons, List.mem_cons, h, false_or]
        exact ih

@[simp] theorem mem_keys {m : PathMap α} {p : String} : p ∈ m.keys ↔ p ∈ m :=
  mem_keys_of_lookup.symm

theorem pairwise_keys (m : PathMap α) : m.keys.Pairwise (· < ·) := by
  simpa [keys, List.pairwise_map] using m.ascending

theorem lookup_eq_some_iff {l : List (String × α)} (hl : l.Pairwise (·.1 < ·.1)) {p : String}
    {a : α} : l.lookup p = some a ↔ (p, a) ∈ l := by
  induction l with
  | nil => simp
  | cons y rest ih =>
      obtain ⟨hy, hrest⟩ := List.pairwise_cons.1 hl
      rw [List.lookup_cons]
      by_cases h : p = y.1
      · subst h
        simp only [BEq.rfl, Option.some.injEq, List.mem_cons]
        constructor
        · rintro rfl; exact .inl rfl
        · rintro (h | h)
          · rw [← h]
          · exact absurd (hy _ h) (String.lt_irrefl _)
      · have : (p == y.1) = false := by simpa using h
        simp only [this, List.mem_cons]
        rw [ih hrest]
        constructor
        · exact .inr
        · rintro (h' | h')
          · exact absurd (by rw [← h']) h
          · exact h'

theorem get?_eq_some_iff {m : PathMap α} {p : String} {a : α} :
    m.get? p = some a ↔ (p, a) ∈ m.bindings :=
  lookup_eq_some_iff m.ascending

theorem eq_of_pairwise_of_mem_iff : ∀ {l k : List (String × α)}, l.Pairwise (·.1 < ·.1) →
    k.Pairwise (·.1 < ·.1) → (∀ x, x ∈ l ↔ x ∈ k) → l = k
  | [], [], _, _, _ => rfl
  | [], y :: _, _, _, h => absurd ((h y).2 List.mem_cons_self) (by simp)
  | x :: _, [], _, _, h => absurd ((h x).1 List.mem_cons_self) (by simp)
  | x :: l, y :: k, hl, hk, h => by
      obtain ⟨hx, hl'⟩ := List.pairwise_cons.1 hl
      obtain ⟨hy, hk'⟩ := List.pairwise_cons.1 hk
      have hxy : x = y := by
        rcases List.mem_cons.1 ((h x).1 List.mem_cons_self) with he | he
        · exact he
        · rcases List.mem_cons.1 ((h y).2 List.mem_cons_self) with he' | he'
          · exact he'.symm
          · exact absurd (String.lt_trans (hx y he') (hy x he)) (String.lt_irrefl _)
      subst hxy
      congr 1
      refine eq_of_pairwise_of_mem_iff hl' hk' fun z => ⟨fun hz => ?_, fun hz => ?_⟩
      · rcases List.mem_cons.1 ((h z).1 (List.mem_cons_of_mem _ hz)) with rfl | hz'
        · exact absurd (hx _ hz) (String.lt_irrefl _)
        · exact hz'
      · rcases List.mem_cons.1 ((h z).2 (List.mem_cons_of_mem _ hz)) with rfl | hz'
        · exact absurd (hy _ hz) (String.lt_irrefl _)
        · exact hz'

theorem lookup_of_mem {l : List (String × α)} (h : (l.map (·.1)).Nodup) {x : String × α}
    (hx : x ∈ l) : l.lookup x.1 = some x.2 := by
  induction l with
  | nil => cases hx
  | cons y rest ih =>
      obtain ⟨hy, hrest⟩ := List.nodup_cons.1 h
      rw [lookup_cons_ite]
      rcases List.mem_cons.1 hx with rfl | hx
      · rw [if_pos rfl]
      · have hmem : x.1 ∈ rest.map (·.1) := List.mem_map_of_mem hx
        rw [if_neg (fun he => hy (by rwa [he] at hmem)), ih hrest hx]

theorem get?_ofList {l : List (String × α)} (h : (l.map (·.1)).Nodup) (p : String) :
    (ofList l).get? p = l.lookup p := by
  have hall : ∀ m : PathMap α, (l.foldl (fun m x => m.insert x.1 x.2) m).get? p
      = (l.lookup p).or (m.get? p) := by
    induction l with
    | nil => exact fun m => rfl
    | cons x rest ih =>
        intro m
        obtain ⟨hx, hrest⟩ := List.nodup_cons.1 h
        rw [List.foldl_cons, ih hrest, get?_insert, lookup_cons_ite]
        split
        · next hp =>
            have hnone : rest.lookup p = none := by
              rw [← Option.not_isSome_iff_eq_none, mem_keys_of_lookup, hp]
              exact hx
            rw [hnone]
            rfl
        · rfl
  exact (hall ∅).trans (Option.or_none)

/-- Maps with the same bindings are equal. -/
theorem ext_get? {m n : PathMap α} (h : ∀ p, m.get? p = n.get? p) : m = n := by
  refine ext_bindings (eq_of_pairwise_of_mem_iff m.ascending n.ascending fun x => ?_)
  obtain ⟨p, a⟩ := x
  rw [← get?_eq_some_iff, ← get?_eq_some_iff, h p]

@[simp] theorem ofList_bindings (m : PathMap α) : ofList m.bindings = m :=
  ext_get? fun p => get?_ofList (m.pairwise_keys.imp String.ne_of_lt) p

end PathMap

end HashedAssets
