import HashedAssets.Proofs.Resolution.Equations
import HashedAssets.Settings.Read

/-!
# Reading settings part by part

Each part of a document is read with a result, with a complaint that tells what is wrong, or with a fault of an
operation that does not fit a value. The last of these escapes whoever looks for complaints.

* `SettingsFault.isComplaint`, `Escapes`, `Passes`: how reading a part ends;
* `escapes_bind`, `escapes_mapM`: one part behind the other;
* `Value.IsPair`, `Value.IsMisfit`, `Value.Incomparable`, `ListedAsset.Fits`: what the parts are judged by;
* `escapes_variablesOf_iff`, `escapes_overridesOf_iff`, `escapes_listedOf_iff`, `escapes_check_iff`: which parts escape.
-/

namespace HashedAssets

universe u v

/-! ### Complaints -/

/-- Whether a fault tells what is wrong with a description. The others are those of operations that do not fit a value. -/
def SettingsFault.isComplaint : SettingsFault → Bool
  | .notTruth => false
  | .withoutMembers => false
  | .unsuitable => false
  | .tooGreat => false
  | .tooDeep => false
  | _ => true

section Ends

variable {α : Type u} {β : Type u} {x : Except SettingsFault α} {f : SettingsFault}

/-- A fault that is no complaint comes out. -/
def Escapes (x : Except SettingsFault α) : Prop := ∃ f, x = .error f ∧ f.isComplaint = false

/-- A result comes out. -/
def Passes (x : Except SettingsFault α) : Prop := ∃ a, x = .ok a

@[simp] theorem escapes_ok {a : α} : ¬ Escapes (.ok a : Except SettingsFault α) := by
  rintro ⟨f, ⟨⟩, -⟩

@[simp] theorem escapes_pure {a : α} : ¬ Escapes (pure a : Except SettingsFault α) := escapes_ok

@[simp] theorem escapes_error : Escapes (.error f : Except SettingsFault α) ↔ f.isComplaint = false := by
  simp [Escapes]

@[simp] theorem escapes_throw : Escapes (throw f : Except SettingsFault α) ↔ f.isComplaint = false := escapes_error

@[simp] theorem passes_ok {a : α} : Passes (.ok a : Except SettingsFault α) := ⟨a, rfl⟩

@[simp] theorem passes_error : ¬ Passes (.error f : Except SettingsFault α) := by
  rintro ⟨a, ⟨⟩⟩

theorem escapes_bind {k : α → Except SettingsFault β} :
    Escapes (x >>= k) ↔ Escapes x ∨ ∃ a, x = .ok a ∧ Escapes (k a) := by
  cases x with
  | error f => simp [bind, Except.bind]
  | ok a => simp [bind, Except.bind]

theorem passes_bind {k : α → Except SettingsFault β} : Passes (x >>= k) ↔ ∃ a, x = .ok a ∧ Passes (k a) := by
  cases x with
  | error f => simp [bind, Except.bind]
  | ok a => simp [bind, Except.bind]

@[simp] theorem escapes_map {g : α → β} : Escapes (x.map g) ↔ Escapes x := by
  cases x <;> simp [Except.map]

@[simp] theorem passes_map {g : α → β} : Passes (x.map g) ↔ Passes x := by
  cases x <;> simp [Except.map]

end Ends

/-! ### One item behind the other -/

/-- The first of some items that is not fine is bad. -/
inductive First {α : Type u} (fine bad : α → Prop) : List α → Prop
  | here {a : α} {l : List α} (h : bad a) : First fine bad (a :: l)
  | later {a : α} {l : List α} (ha : fine a) (h : First fine bad l) : First fine bad (a :: l)

section Items

variable {α : Type u} {β : Type u} {fine bad : α → Prop} {a : α} {l : List α}

@[simp] theorem first_nil : ¬ First fine bad [] := by
  rintro ⟨⟩

theorem first_cons : First fine bad (a :: l) ↔ bad a ∨ fine a ∧ First fine bad l := by
  constructor
  · rintro (h | ⟨ha, h⟩)
    · exact .inl h
    · exact .inr ⟨ha, h⟩
  · rintro (h | ⟨ha, h⟩)
    · exact .here h
    · exact .later ha h

/-- Items are judged alone, whatever their numbers are. -/
theorem first_zipIdx (n : Nat) : First (fun x => fine x.1) (fun x => bad x.1) (l.zipIdx n) ↔ First fine bad l := by
  induction l generalizing n with
  | nil => simp
  | cons a l ih => rw [List.zipIdx_cons, first_cons, first_cons, ih]

theorem passes_mapM {f : α → Except SettingsFault β} : Passes (l.mapM f) ↔ ∀ a ∈ l, Passes (f a) := by
  induction l with
  | nil => simp [Passes, pure, Except.pure]
  | cons a l ih =>
      rw [List.mapM_cons, passes_bind, List.forall_mem_cons, ← ih]
      constructor
      · rintro ⟨b, hb, hl⟩
        obtain ⟨bs, hbs, -⟩ := passes_bind.1 hl
        exact ⟨⟨b, hb⟩, bs, hbs⟩
      · rintro ⟨⟨b, hb⟩, bs, hbs⟩
        exact ⟨b, hb, passes_bind.2 ⟨bs, hbs, _, rfl⟩⟩

/-- Items are read up to the first one that does not pass, and it escapes. -/
theorem escapes_mapM {f : α → Except SettingsFault β} :
    Escapes (l.mapM f) ↔ First (fun a => Passes (f a)) (fun a => Escapes (f a)) l := by
  induction l with
  | nil => simp
  | cons a l ih =>
      rw [List.mapM_cons, escapes_bind, first_cons, ← ih]
      refine or_congr_right ?_
      constructor
      · rintro ⟨b, hb, hl⟩
        rcases escapes_bind.1 hl with h | ⟨bs, -, h⟩
        · exact ⟨⟨b, hb⟩, h⟩
        · exact absurd h escapes_pure
      · rintro ⟨⟨b, hb⟩, h⟩
        exact ⟨b, hb, escapes_bind.2 (.inl h)⟩

end Items

/-! ### Values -/

namespace Value

variable {v w : Value} {ks : List Value}

@[simp] theorem not_escapes_checkWritable (v : Value) : ¬ Escapes v.checkWritable := by
  unfold checkWritable
  split <;> simp [SettingsFault.isComplaint]

theorem checkWritable_eq_ok_iff {a : Unit} : v.checkWritable = .ok a ↔ v.isWritable = true := by
  unfold checkWritable
  split <;> simp [*]

theorem passes_checkWritable_iff : Passes v.checkWritable ↔ v.isWritable = true := by
  simp [Passes, checkWritable_eq_ok_iff]

/-- Two of these keys cannot be compared. -/
def Incomparable (ks : List Value) : Prop := 2 ≤ ks.length ∧ ∃ k ∈ ks, ∃ k' ∈ ks, k.atMost? k' = none

theorem not_incomparable_nil : ¬ Incomparable [] := fun h => absurd h.1 (by decide)

theorem sortKeys?_eq_none_iff : sortKeys? ks = none ↔ Incomparable ks := by
  unfold sortKeys? Incomparable
  split
  · next h =>
      simp only [reduceCtorEq, false_iff]
      rintro ⟨hlength, k, hk, k', hk', hnone⟩
      rcases h with h | h
      · omega
      · have := List.all_eq_true.1 (List.all_eq_true.1 h k hk) k' hk'
        rw [hnone] at this
        cases this
  · next h =>
      rw [not_or, not_le] at h
      exact iff_of_true rfl ⟨h.1, by simpa using h.2⟩

theorem escapes_ordered_iff : Escapes (ordered ks) ↔ Incomparable ks := by
  rw [← sortKeys?_eq_none_iff]
  unfold ordered
  split
  · next h => simp [h]
  · next h => simp [h, SettingsFault.isComplaint]

/-- A value of two items the first of which may be a key. -/
def IsPair (v : Value) : Prop := ∃ k w, v.items? = some [k, w] ∧ k.isKey = true

/-- A value without items, or of two items the first of which may not be a key. -/
def IsMisfit (v : Value) : Prop := v.items? = none ∨ ∃ k w, v.items? = some [k, w] ∧ k.isKey = false

theorem passes_pair_iff (n : Nat) : Passes (v.pair n) ↔ v.IsPair := by
  unfold pair IsPair
  split
  · next k w h => split <;> simp_all
  · next items h hne => simp_all
  · next h => simp_all

theorem escapes_pair_iff (n : Nat) : Escapes (v.pair n) ↔ v.IsMisfit := by
  unfold pair IsMisfit
  split
  · next k w h => split <;> simp_all [SettingsFault.isComplaint]
  · next items h hne => simp_all [SettingsFault.isComplaint]
  · next h => simp_all [SettingsFault.isComplaint]

end Value

/-! ### Parts of a document -/

/-- The keys of a mapping that are none of those that are known. -/
def Value.strange (known : List String) (es : List (Value × Value)) : List Value :=
  (es.map (·.1)).filter fun k => !known.any fun n => k.sameKey (.text n)

namespace ListedAsset

variable {v : Value} {a : ListedAsset}

/-- A path, or a mapping with a path and with keys that are known. -/
def Fits (v : Value) : Prop :=
  (∃ s, v = .text s) ∨ ∃ es path, v = .map es ∧ Value.field? "path" es = some path ∧ path.isWritable = true ∧
    Value.strange keys es = []

/-- A mapping with a path and with keys that are not known and cannot be compared. -/
def IsMisfit (v : Value) : Prop :=
  ∃ es path, v = .map es ∧ Value.field? "path" es = some path ∧ path.isWritable = true ∧
    Value.Incomparable (Value.strange keys es)

theorem not_escapes_refuse (v : Value) : ¬ Escapes (ofValue.refuse v) := by
  unfold ofValue.refuse
  rw [escapes_bind]
  simp [SettingsFault.isComplaint]

theorem not_passes_refuse (v : Value) : ¬ Passes (ofValue.refuse v) := by
  unfold ofValue.refuse
  rw [passes_bind]
  rintro ⟨-, -, h⟩
  exact passes_error h

theorem escapes_ofValue_iff : Escapes (ofValue v) ↔ IsMisfit v := by
  unfold IsMisfit
  cases v with
  | text s => simp [ofValue]
  | map es =>
      cases hpath : Value.field? "path" es with
      | none => simp [ofValue, hpath, not_escapes_refuse]
      | some path =>
          simp only [ofValue, hpath, escapes_bind, Value.not_escapes_checkWritable, false_or,
            Value.checkWritable_eq_ok_iff, Value.map.injEq, exists_and_left, exists_eq_left', Option.some.injEq]
          split
          · next h =>
              have hnil : Value.strange keys es = [] := List.isEmpty_iff.1 h
              simp [hnil, Value.not_incomparable_nil]
          · simp [escapes_bind, Value.escapes_ordered_iff, SettingsFault.isComplaint, Value.strange]
  | _ => simp [ofValue, not_escapes_refuse]

theorem passes_ofValue_iff : Passes (ofValue v) ↔ Fits v := by
  unfold Fits
  cases v with
  | text s => simp [ofValue]
  | map es =>
      cases hpath : Value.field? "path" es with
      | none => simp [ofValue, hpath, not_passes_refuse]
      | some path =>
          simp only [ofValue, hpath, passes_bind, Value.checkWritable_eq_ok_iff, reduceCtorEq, exists_false, false_or,
            Value.map.injEq, exists_and_left, exists_eq_left', Option.some.injEq]
          split
          · next h =>
              have hnil : Value.strange keys es = [] := List.isEmpty_iff.1 h
              simp [hnil, pure, Except.pure]
          · next h =>
              have hne : Value.strange keys es ≠ [] := fun hnil => h (List.isEmpty_iff.2 hnil)
              simp [passes_bind, hne, throw, throwThe, MonadExceptOf.throw]
  | _ => simp [ofValue, not_passes_refuse]

end ListedAsset

namespace Settings

variable {o : Option Value} {w : Value}

/-! ### Variables -/

/-- Nothing that counts, or a mapping whose keys and values have texts. -/
def VariablesFit (o : Option Value) : Prop := ∀ w, given o = some w → (∃ es, w = .map es) ∧ w.isWritable = true

/-- Something that counts and is no mapping. -/
def VariablesMisfit (o : Option Value) : Prop := ∃ w, given o = some w ∧ ∀ es, w ≠ .map es

theorem escapes_variablesOf_iff : Escapes (variablesOf o) ↔ VariablesMisfit o := by
  unfold variablesOf VariablesMisfit
  split
  · next h => simp [h]
  · next es h => simp [h]
  · next w hne h => simpa [h, SettingsFault.isComplaint] using fun es he => hne es he

theorem passes_variablesOf_iff : Passes (variablesOf o) ↔ VariablesFit o := by
  unfold variablesOf VariablesFit
  split
  · next h => simp [h]
  · next es h => simp [h, Value.passes_checkWritable_iff]
  · next w hne h => simpa [h] using fun es he => absurd he (hne es)

theorem isSome_assignment?_of_mem_addEntry {es : List (Value × Value)} {s t : String}
    (hes : ∀ e ∈ es, (RawSettings.assignment? e).isSome = true) :
    ∀ e ∈ Value.addEntry (.text s) (.text t) es, (RawSettings.assignment? e).isSome = true := by
  induction es with
  | nil => simp [Value.addEntry, RawSettings.assignment?]
  | cons e es ih =>
      obtain ⟨k, v⟩ := e
      obtain ⟨he, hrest⟩ := List.forall_mem_cons.1 hes
      rw [Value.addEntry]
      split
      · refine List.forall_mem_cons.2 ⟨?_, hrest⟩
        cases k <;> simp_all [RawSettings.assignment?]
      · exact List.forall_mem_cons.2 ⟨he, ih hrest⟩

/-- Variables are assignments of texts to texts. -/
theorem isSome_assignment?_of_variablesOf {vs : List (Value × Value)} (h : variablesOf o = .ok vs) :
    ∀ e ∈ vs, (RawSettings.assignment? e).isSome = true := by
  have hfold : ∀ es acc : List (Value × Value), (∀ e ∈ acc, (RawSettings.assignment? e).isSome = true) →
      ∀ e ∈ es.foldl (fun es e => Value.addEntry (.text e.1.plain) (.text e.2.plain) es) acc,
        (RawSettings.assignment? e).isSome = true := by
    intro es
    induction es with
    | nil => exact fun acc hacc => hacc
    | cons e es ih => exact fun acc hacc => ih _ (isSome_assignment?_of_mem_addEntry hacc)
  unfold variablesOf at h
  split at h
  · cases h
    simp
  · next es _ =>
      obtain ⟨-, -, rfl⟩ := map_eq_ok.1 h
      exact hfold es [] (by simp)
  · cases h

/-! ### Overrides -/

/-- Nothing that counts, a mapping, or pairs. -/
def OverridesFit (o : Option Value) : Prop :=
  ∀ w, given o = some w → (∃ es, w = .map es) ∨ ∃ items, w.items? = some items ∧ ∀ v ∈ items, v.IsPair

/-- Something that counts and is no mapping, without items or with some the first of which that is no pair has not even
items or may not be made an entry. -/
def OverridesMisfit (o : Option Value) : Prop :=
  ∃ w, given o = some w ∧ (∀ es, w ≠ .map es) ∧
    (w.items? = none ∨ ∃ items, w.items? = some items ∧ First Value.IsPair Value.IsMisfit items)

theorem escapes_entries_iff : Escapes w.entries ↔ (∀ es, w ≠ .map es) ∧
    (w.items? = none ∨ ∃ items, w.items? = some items ∧ First Value.IsPair Value.IsMisfit items) := by
  unfold Value.entries
  split
  · next es => simp
  · next hne =>
      split
      · next h => simpa [h, SettingsFault.isComplaint] using fun es he => hne es he
      · next items h =>
          simp only [escapes_map, escapes_mapM, Value.passes_pair_iff, Value.escapes_pair_iff, h]
          have hplaces : First (fun x => x.1.IsPair) (fun x => x.1.IsMisfit) (items.zipIdx 0) ↔
              First Value.IsPair Value.IsMisfit items := first_zipIdx 0
          rw [hplaces]
          simpa using fun _ es he => hne es he

theorem passes_entries_iff : Passes w.entries ↔ (∃ es, w = .map es) ∨
    ∃ items, w.items? = some items ∧ ∀ v ∈ items, v.IsPair := by
  unfold Value.entries
  split
  · next es => simp
  · next hne =>
      split
      · next h => simpa [h] using fun es he => hne es he
      · next items h =>
          have hitems : (∀ x ∈ items.zipIdx, x.1.IsPair) ↔ ∀ v ∈ items, v.IsPair := by
            rw [← List.forall_mem_map (P := Value.IsPair) (f := Prod.fst), List.zipIdx_map_fst]
          rw [passes_map, passes_mapM, h]
          simp only [Value.passes_pair_iff, hitems, Option.some.injEq, exists_eq_left']
          exact (or_iff_right fun ⟨es, he⟩ => hne es he).symm

theorem escapes_overridesOf_iff : Escapes (overridesOf o) ↔ OverridesMisfit o := by
  unfold overridesOf OverridesMisfit
  split
  · next h => simp [h]
  · next w h => simp [h, escapes_entries_iff]

theorem passes_overridesOf_iff : Passes (overridesOf o) ↔ OverridesFit o := by
  unfold overridesOf OverridesFit
  split
  · next h => simp [h]
  · next w h => simp [h, passes_entries_iff]

/-! ### Listed assets -/

/-- Nothing that counts, or listed assets. -/
def ListedFit (o : Option Value) : Prop :=
  ∀ w, given o = some w → ∃ items, w.items? = some items ∧ ∀ v ∈ items, ListedAsset.Fits v

/-- Something that counts, without items or with some the first of which that is no listed asset has keys that cannot be
compared. -/
def ListedMisfit (o : Option Value) : Prop :=
  ∃ w, given o = some w ∧
    (w.items? = none ∨ ∃ items, w.items? = some items ∧ First ListedAsset.Fits ListedAsset.IsMisfit items)

theorem escapes_listedOf_iff : Escapes (listedOf o) ↔ ListedMisfit o := by
  unfold listedOf ListedMisfit
  split
  · next h => simp [h]
  · next w h =>
      split
      · next hitems => simp [h, hitems, SettingsFault.isComplaint]
      · next items hitems =>
          simp [h, hitems, escapes_mapM, ListedAsset.passes_ofValue_iff, ListedAsset.escapes_ofValue_iff]

theorem passes_listedOf_iff : Passes (listedOf o) ↔ ListedFit o := by
  unfold listedOf ListedFit
  split
  · next h => simp [h]
  · next w h =>
      split
      · next hitems => simp [h, hitems]
      · next items hitems => simp [h, hitems, passes_mapM, ListedAsset.passes_ofValue_iff]

end Settings

/-! ### The description as a whole -/

namespace RawSettings

variable {r : RawSettings}

theorem escapes_named_iff {α : Type} {find : String → Option α} {v : Value} :
    Escapes (named find v) ↔ v.isKey = false := by
  unfold named
  split
  · simp [Value.isKey]
  · next v hne => split <;> simp_all [SettingsFault.isComplaint]

theorem exists_named_eq_ok {α : Type} (find : String → Option α) {v : Value} (h : v.isKey = true) :
    ∃ a, named find v = .ok a := by
  unfold named
  split
  · exact ⟨_, rfl⟩
  · exact ⟨none, if_pos h⟩

/-- The problems are told, unless one of them cannot be, or a codec cannot be looked up. -/
theorem escapes_problems_iff : Escapes r.problems ↔
    r.plainProblems.any Problem.isUntold = false ∧ (r.hasher.isKey = false ∨ r.compressor.isKey = false) := by
  unfold problems
  cases htold : r.plainProblems.any Problem.isUntold with
  | true => simp [escapes_bind, SettingsFault.isComplaint]
  | false =>
      simp only [Bool.false_eq_true, if_false, escapes_bind, escapes_named_iff, escapes_pure, and_false, exists_false,
        or_false, true_and]
      cases hkey : r.hasher.isKey with
      | false => simp
      | true =>
          obtain ⟨a, ha⟩ := exists_named_eq_ok HashAlgorithm.ofName? hkey
          simp [ha]

/-- If the problems are told, both codecs were looked up. -/
theorem problems_eq_ok {ps : List Problem} (h : r.problems = .ok ps) : ∃ hasher compressor,
    named HashAlgorithm.ofName? r.hasher = .ok hasher ∧ named Compression.ofName? r.compressor = .ok compressor ∧
      ps = r.plainProblems ++ (if hasher.isNone then [.hasher r.hasher] else [])
        ++ (if compressor.isNone then [.compressor r.compressor] else []) := by
  unfold problems at h
  cases htold : r.plainProblems.any Problem.isUntold with
  | true =>
      rw [htold] at h
      cases h
  | false =>
      simp only [htold, Bool.false_eq_true, if_false] at h
      obtain ⟨hasher, hhasher, h⟩ := bind_eq_ok.1 h
      obtain ⟨compressor, hcompressor, h⟩ := bind_eq_ok.1 h
      exact ⟨hasher, compressor, hhasher, hcompressor, (Except.ok.inj h).symm⟩

theorem escapes_check_iff : Escapes r.check ↔
    r.plainProblems.any Problem.isUntold = false ∧ (r.hasher.isKey = false ∨ r.compressor.isKey = false) := by
  unfold check
  rw [escapes_bind, escapes_problems_iff, or_iff_left]
  rintro ⟨ps, hps, h⟩
  obtain ⟨hasher, compressor, hhasher, hcompressor, -⟩ := problems_eq_ok hps
  cases ps with
  | nil =>
      simp only [hhasher, hcompressor, bind, Except.bind] at h
      split at h
      · exact escapes_pure h
      · exact absurd h (by simp [SettingsFault.isComplaint])
  | cons p ps => exact absurd h (by simp [SettingsFault.isComplaint])

end RawSettings

end HashedAssets
