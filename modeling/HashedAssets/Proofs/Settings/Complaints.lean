import HashedAssets.Proofs.Settings.Stages

/-!
# What is answered to a document

A document is answered as it should be if there is a complaint, or settings that hold good: they are found in order when
they are described again, and all assets listed in them can be treated as they say.

* `Settings.ofOptions_options`: settings are in order when they are described again;
* `Settings.escapes_ofEntries_iff`: documents from which a fault comes out that is no complaint;
* `Settings.answers_document_iff`: all documents that are not answered as they should be.
-/

namespace HashedAssets

open RawSettings

/-! ### Settings described again -/

theorem Mode.ofWord?_word (m : Mode) : Mode.ofWord? m.word = some m := by
  cases m <;> decide +kernel

theorem HashAlgorithm.ofName?_name (a : HashAlgorithm) : HashAlgorithm.ofName? a.name = some a := by
  cases a <;> decide +kernel

theorem Compression.ofName?_name (a : Compression) : Compression.ofName? a.name = some a := by
  cases a <;> decide +kernel

/-- What is known of settings that were checked: the listed assets are those described, and overrides that concern no
path have a key that is no text. -/
theorem RawSettings.check_eq_ok {r : RawSettings} {s : Settings} (h : r.check = .ok s) :
    s.listed = r.listed ∧ ∀ e ∈ s.idleOverrides, ∀ k, e.1 ≠ .text k := by
  unfold check at h
  obtain ⟨ps, hps, h⟩ := bind_eq_ok.1 h
  obtain ⟨hasher, compressor, hhasher, hcompressor, -⟩ := problems_eq_ok hps
  cases ps with
  | cons p ps => cases h
  | nil =>
      simp only [hhasher, hcompressor, bind, Except.bind] at h
      split at h
      · cases h
        refine ⟨rfl, fun e he k hk => ?_⟩
        obtain ⟨-, hidle⟩ := List.mem_filter.1 he
        obtain ⟨key, b⟩ := e
        cases hk
        cases hidle
      · cases h

namespace Settings

variable {s : Settings} {es : List (Value × Value)}

/-- Settings as they are described by their options. -/
def described (s : Settings) : RawSettings where
  mode := .text s.mode.word
  values := s.values.bindings.map fun e => (.text e.1, .text e.2)
  hashLength := .int s.hashLength
  overrides := (s.overrides.bindings.map fun e => (.text e.1, .bool e.2)) ++ s.idleOverrides.map fun e => (e.1, .bool e.2)
  hasher := .text s.hasher.name
  compressor := .text s.compressor.name

theorem ofOptions_options_eq_check (s : Settings) : ofOptions s.options = s.described.check := by
  rfl

theorem positive?_hashLength (s : Settings) :
    positive? s.described.hashLength = some ⟨s.hashLength, s.hashLength_pos⟩ := by
  unfold positive? described
  simp only [Int.toNat_natCast, dif_pos s.hashLength_pos]

theorem filterMap_assignment?_described (s : Settings) :
    s.described.values.filterMap assignment? = s.values.bindings := by
  rw [described, List.filterMap_map]
  exact List.filterMap_some

theorem filterMap_override?_described (s : Settings) : s.described.overrides.filterMap override? =
    (s.overrides.bindings.map fun e => (.text e.1, e.2)) ++ s.idleOverrides := by
  rw [described, List.filterMap_append, List.filterMap_map, List.filterMap_map]
  exact congrArg₂ _ (congrFun List.filterMap_eq_map _) List.filterMap_some

theorem plainProblems_described (s : Settings) : s.described.plainProblems = [] := by
  have hmode : modeOf? s.described.mode = some s.mode := Mode.ofWord?_word s.mode
  have hvalues : s.described.values.filter (fun e => (assignment? e).isNone) = [] := by
    refine List.filter_eq_nil_iff.2 fun e he => ?_
    obtain ⟨y, -, rfl⟩ := List.mem_map.1 he
    exact Bool.false_ne_true
  have hoverrides : s.described.overrides.filter (fun e => (override? e).isNone) = [] := by
    refine List.filter_eq_nil_iff.2 fun e he => ?_
    rcases List.mem_append.1 he with he | he
    · obtain ⟨y, -, rfl⟩ := List.mem_map.1 he
      exact Bool.false_ne_true
    · obtain ⟨y, -, rfl⟩ := List.mem_map.1 he
      exact Bool.false_ne_true
  unfold plainProblems
  rw [positive?_hashLength, hmode, hvalues, hoverrides]
  rfl

theorem named_described (s : Settings) :
    named HashAlgorithm.ofName? s.described.hasher = .ok (some s.hasher) ∧
      named Compression.ofName? s.described.compressor = .ok (some s.compressor) :=
  ⟨congrArg _ s.hasher.ofName?_name, congrArg _ s.compressor.ofName?_name⟩

theorem problems_described (s : Settings) : s.described.problems = .ok [] := by
  unfold problems
  rw [plainProblems_described, s.named_described.1, s.named_described.2]
  rfl

/-- Settings are found in order when they are described again. -/
theorem ofOptions_options (hidle : ∀ e ∈ s.idleOverrides, ∀ k, e.1 ≠ .text k) :
    ofOptions s.options = .ok { s with listed := [] } := by
  have hmode : modeOf? s.described.mode = some s.mode := Mode.ofWord?_word s.mode
  rw [ofOptions_options_eq_check]
  unfold check
  rw [problems_described, hmode, positive?_hashLength, s.named_described.1, s.named_described.2,
    filterMap_assignment?_described, filterMap_override?_described]
  simp only [bind, Except.bind, pure, Except.pure, Except.ok.injEq, Settings.mk.injEq, PathMap.ofList_bindings, true_and,
    List.filterMap_append, List.filter_append, List.filterMap_map, List.filter_map]
  refine ⟨?_, ?_, rfl⟩
  -- overrides under texts are those of paths, and all others are idle
  · refine Eq.trans (congrArg PathMap.ofList ?_) (PathMap.ofList_bindings s.overrides)
    refine (congrArg₂ _ List.filterMap_some (List.filterMap_eq_nil_iff.2 fun e he => ?_)).trans (List.append_nil _)
    obtain ⟨k, b⟩ := e
    cases k with
    | text k => exact absurd rfl (hidle _ he k)
    | _ => rfl
  · refine (congrArg₂ _ (congrArg _ (List.filter_eq_nil_iff.2 fun e _ => Bool.false_ne_true))
      (List.filter_eq_self.2 fun e he => ?_)).trans (List.nil_append _)
    obtain ⟨k, b⟩ := e
    cases k with
    | text k => exact absurd rfl (hidle _ he k)
    | _ => rfl

/-! ### Documents -/

/-- What a document says, with what was made of its variables, its overrides and its listed assets. -/
def describe (es values overrides : List (Value × Value)) (listed : List ListedAsset) : RawSettings where
  mode := (Value.field? "mode" es).getD (.text "eager")
  values := values
  hashLength := (Value.field? "hash_length" es).getD (.int defaultHashLength)
  overrides := overrides
  hasher := (Value.field? "hash_algorithm" es).getD (.text "sha256")
  compressor := (Value.field? "compression" es).getD (.text "deflate")
  listed := listed

theorem ofEntries_of_strange_eq_nil (h : Value.strange keys es = []) : ofEntries es =
    variablesOf (Value.field? "variables" es) >>= fun values =>
      overridesOf (Value.field? "per_asset_hash_enabled" es) >>= fun overrides =>
        listedOf (Value.field? "assets" es) >>= fun listed => (describe es values overrides listed).check := by
  unfold ofEntries
  simp only [show (es.map (·.1)).filter (fun k => !keys.any fun n => k.sameKey (.text n)) = [] from h]
  rfl

theorem ofEntries_of_strange_ne_nil (h : Value.strange keys es ≠ []) : ofEntries es =
    Value.ordered (Value.strange keys es) >>= fun ks => .error (.unknownKeys ks) := by
  have hempty : (!(Value.strange keys es).isEmpty) = true := by simpa using h
  unfold ofEntries
  refine (if_pos hempty).trans ?_
  change (Value.ordered (Value.strange keys es) >>= _) = _
  cases Value.ordered (Value.strange keys es) <;> rfl

/-- The problems of all but the codecs of a document can be told. -/
structure Tellable (es : List (Value × Value)) : Prop where
  mode : ∀ v, Value.field? "mode" es = some v → v.isWritable = true
  hashLength : ∀ v, Value.field? "hash_length" es = some v → v.isWritable = true ∨ ∃ n, 0 < n ∧ v = .int n
  overrides : ∀ os, overridesOf (Value.field? "per_asset_hash_enabled" es) = .ok os →
    ∀ e ∈ os, e.1.isWritable = true ∨ ∃ b, e.2 = .bool b

/-- Documents from which a fault comes out that is no complaint: there are keys that are not known and cannot be
compared; or variables, overrides or listed assets are not what they are taken for, with nothing to complain of in front;
or a codec is a list or a mapping, with nothing else that cannot be told. -/
inductive Misfit (es : List (Value × Value)) : Prop
  | keys (h : Value.Incomparable (Value.strange keys es))
  | variables (hkeys : Value.strange keys es = []) (h : VariablesMisfit (Value.field? "variables" es))
  | overrides (hkeys : Value.strange keys es = []) (hvariables : VariablesFit (Value.field? "variables" es))
      (h : OverridesMisfit (Value.field? "per_asset_hash_enabled" es))
  | listed (hkeys : Value.strange keys es = []) (hvariables : VariablesFit (Value.field? "variables" es))
      (hoverrides : OverridesFit (Value.field? "per_asset_hash_enabled" es))
      (h : ListedMisfit (Value.field? "assets" es))
  | codec (name : String) (v : Value) (hkeys : Value.strange keys es = [])
      (hvariables : VariablesFit (Value.field? "variables" es))
      (hoverrides : OverridesFit (Value.field? "per_asset_hash_enabled" es))
      (hlisted : ListedFit (Value.field? "assets" es)) (htold : Tellable es)
      (hname : name = "hash_algorithm" ∨ name = "compression") (hv : Value.field? name es = some v)
      (h : v.isKey = false)

theorem told_iff {r : RawSettings} : r.plainProblems.any Problem.isUntold = false ↔
    ((modeOf? r.mode).isNone = true → r.mode.isWritable = true) ∧
    ((positive? r.hashLength).isNone = true → r.hashLength.isWritable = true) ∧
    (∀ e ∈ r.values, (assignment? e).isNone = true → e.1.isWritable = true) ∧
    ∀ e ∈ r.overrides, (override? e).isNone = true → e.1.isWritable = true := by
  have hmode : ((if (modeOf? r.mode).isNone then [Problem.mode r.mode] else []).any Problem.isUntold) = false ↔
      ((modeOf? r.mode).isNone = true → r.mode.isWritable = true) := by
    split <;> simp_all [Problem.isUntold]
  have hlength : ((if (positive? r.hashLength).isNone then [Problem.hashLength r.hashLength] else []).any
      Problem.isUntold) = false ↔ ((positive? r.hashLength).isNone = true → r.hashLength.isWritable = true) := by
    split <;> simp_all [Problem.isUntold]
  have hvalues : ((r.values.filter fun e => (assignment? e).isNone).map (Problem.variable ·.1)).any Problem.isUntold
      = false ↔ ∀ e ∈ r.values, (assignment? e).isNone = true → e.1.isWritable = true := by
    simp [Problem.isUntold]
  have hoverrides : ((r.overrides.filter fun e => (override? e).isNone).map (Problem.override ·.1)).any
      Problem.isUntold = false ↔ ∀ e ∈ r.overrides, (override? e).isNone = true → e.1.isWritable = true := by
    simp [Problem.isUntold]
  unfold plainProblems
  rw [List.any_append, List.any_append, List.any_append, Bool.or_eq_false_iff, Bool.or_eq_false_iff,
    Bool.or_eq_false_iff, hmode, hlength, hvalues, hoverrides, and_assoc, and_assoc]

theorem isWritable_of_modeOf? {v : Value} (h : (modeOf? v).isNone = true → v.isWritable = true) :
    v.isWritable = true := by
  cases v with
  | text t => rfl
  | _ => exact h rfl

theorem isNone_positive?_iff {v : Value} : (positive? v).isNone = true ↔ ¬ ∃ n, 0 < n ∧ v = .int n := by
  cases v with
  | int n =>
      by_cases hn : 0 < n.toNat
      · rw [show positive? (.int n) = some ⟨n.toNat, hn⟩ from dif_pos hn]
        exact iff_of_false Bool.false_ne_true (not_not.2 ⟨n, by omega, rfl⟩)
      · rw [show positive? (.int n) = none from dif_neg hn]
        refine iff_of_true rfl ?_
        rintro ⟨m, hm, heq⟩
        cases heq
        omega
  | _ => simp [positive?]

theorem isNone_override?_iff {e : Value × Value} : (override? e).isNone = true ↔ ¬ ∃ b, e.2 = .bool b := by
  obtain ⟨k, v⟩ := e
  cases v <;> simp [override?]

section Described

variable {values overrides : List (Value × Value)} {listed : List ListedAsset}

theorem told_describe_iff (hvalues : variablesOf (Value.field? "variables" es) = .ok values)
    (hoverrides : overridesOf (Value.field? "per_asset_hash_enabled" es) = .ok overrides) :
    (describe es values overrides listed).plainProblems.any Problem.isUntold = false ↔ Tellable es := by
  rw [told_iff]
  constructor
  · rintro ⟨hmode, hlength, -, hover⟩
    refine ⟨fun v hv => ?_, fun v hv => ?_, fun os hos e he => ?_⟩
    · simp only [describe, hv, Option.getD_some] at hmode
      exact isWritable_of_modeOf? hmode
    · simp only [describe, hv, Option.getD_some, isNone_positive?_iff] at hlength
      exact or_iff_not_imp_right.2 hlength
    · rw [hoverrides] at hos
      cases hos
      exact or_iff_not_imp_right.2 fun hno => hover e he (isNone_override?_iff.2 hno)
  · rintro ⟨hmode, hlength, hover⟩
    refine ⟨fun _ => ?_, fun hnone => ?_, fun e he hnone => ?_, fun e he hnone => ?_⟩
    · unfold describe
      cases hv : Value.field? "mode" es with
      | none => rfl
      | some v => exact hmode v hv
    · unfold describe at hnone ⊢
      cases hv : Value.field? "hash_length" es with
      | none =>
          rw [hv, Option.getD_none, isNone_positive?_iff] at hnone
          exact absurd ⟨_, by decide, rfl⟩ hnone
      | some v =>
          rw [hv] at hnone
          exact (hlength v hv).resolve_right (isNone_positive?_iff.1 hnone)
    · have hsome := isSome_assignment?_of_variablesOf hvalues e he
      rw [Option.isNone_iff_eq_none.1 hnone] at hsome
      cases hsome
    · exact (hover overrides hoverrides e he).resolve_right (isNone_override?_iff.1 hnone)

theorem isKey_getD_eq_false_iff {name t : String} :
    ((Value.field? name es).getD (.text t)).isKey = false ↔ ∃ v, Value.field? name es = some v ∧ v.isKey = false := by
  cases Value.field? name es <;> simp [Value.isKey]

theorem escapes_describe_iff (hvalues : variablesOf (Value.field? "variables" es) = .ok values)
    (hoverrides : overridesOf (Value.field? "per_asset_hash_enabled" es) = .ok overrides) :
    Escapes (describe es values overrides listed).check ↔ Tellable es ∧ ∃ name v,
      (name = "hash_algorithm" ∨ name = "compression") ∧ Value.field? name es = some v ∧ v.isKey = false := by
  rw [escapes_check_iff, told_describe_iff hvalues hoverrides, describe, isKey_getD_eq_false_iff,
    isKey_getD_eq_false_iff]
  simp [or_and_right, exists_or]

end Described

theorem escapes_ofEntries_iff : Escapes (ofEntries es) ↔ Misfit es := by
  -- reading stops at the first stage that fails: each cause holds only if all stages before it pass
  by_cases hkeys : Value.strange keys es = []
  · have hcomparable : ¬ Value.Incomparable (Value.strange keys es) := hkeys ▸ Value.not_incomparable_nil
    rw [ofEntries_of_strange_eq_nil hkeys, escapes_bind, escapes_variablesOf_iff]
    constructor
    · rintro (h | ⟨values, hvalues, h⟩)
      · exact .variables hkeys h
      have hvariables := passes_variablesOf_iff.1 ⟨values, hvalues⟩
      rcases escapes_bind.1 h with h | ⟨overrides, hos, h⟩
      · exact .overrides hkeys hvariables (escapes_overridesOf_iff.1 h)
      have hoverrides := passes_overridesOf_iff.1 ⟨overrides, hos⟩
      rcases escapes_bind.1 h with h | ⟨listed, hlisted, h⟩
      · exact .listed hkeys hvariables hoverrides (escapes_listedOf_iff.1 h)
      obtain ⟨htold, name, v, hname, hv, hkey⟩ := (escapes_describe_iff hvalues hos).1 h
      exact .codec name v hkeys hvariables hoverrides (passes_listedOf_iff.1 ⟨listed, hlisted⟩) htold hname hv hkey
    · rintro (h | ⟨-, h⟩ | ⟨-, hvariables, h⟩ | ⟨-, hvariables, hoverrides, h⟩ |
        ⟨name, v, -, hvariables, hoverrides, hlisted, htold, hname, hv, hkey⟩)
      · exact absurd h hcomparable
      · exact .inl h
      · obtain ⟨values, hvalues⟩ := passes_variablesOf_iff.2 hvariables
        exact .inr ⟨values, hvalues, escapes_bind.2 (.inl (escapes_overridesOf_iff.2 h))⟩
      · obtain ⟨values, hvalues⟩ := passes_variablesOf_iff.2 hvariables
        obtain ⟨overrides, hos⟩ := passes_overridesOf_iff.2 hoverrides
        exact .inr ⟨values, hvalues, escapes_bind.2 (.inr ⟨overrides, hos,
          escapes_bind.2 (.inl (escapes_listedOf_iff.2 h))⟩)⟩
      · obtain ⟨values, hvalues⟩ := passes_variablesOf_iff.2 hvariables
        obtain ⟨overrides, hos⟩ := passes_overridesOf_iff.2 hoverrides
        obtain ⟨listed, hls⟩ := passes_listedOf_iff.2 hlisted
        exact .inr ⟨values, hvalues, escapes_bind.2 (.inr ⟨overrides, hos, escapes_bind.2 (.inr ⟨listed, hls,
          (escapes_describe_iff hvalues hos).2 ⟨htold, name, v, hname, hv, hkey⟩⟩)⟩)⟩
  · rw [ofEntries_of_strange_ne_nil hkeys, escapes_bind, Value.escapes_ordered_iff]
    constructor
    · rintro (h | ⟨ks, -, h⟩)
      · exact .keys h
      · exact absurd h (by simp [SettingsFault.isComplaint])
    · rintro (h | ⟨hnil, -⟩ | ⟨hnil, -⟩ | ⟨hnil, -⟩ | ⟨-, -, hnil, -⟩)
      · exact .inl h
      all_goals exact absurd hnil hkeys

theorem not_escapes_ofEntries_nil : ¬ Escapes (ofEntries []) := by
  rintro ⟨f, h, -⟩
  cases h

variable {v : Value}

theorem escapes_ofDocument_iff : Escapes (ofDocument v) ↔ ∃ es, v = .map es ∧ Misfit es := by
  unfold ofDocument
  split
  · next hfalse =>
      refine iff_of_false not_escapes_ofEntries_nil ?_
      rintro ⟨es, rfl, h⟩
      obtain rfl : es = [] := by simpa [Value.isTrue] using hfalse
      exact not_escapes_ofEntries_nil (escapes_ofEntries_iff.2 h)
  · split
    · next es _ => simp [escapes_ofEntries_iff]
    · next hne => simpa [SettingsFault.isComplaint] using fun es he => absurd he (hne es)

/-- Settings of a document were checked. -/
theorem exists_check_of_ofDocument (h : ofDocument v = .ok s) : ∃ r : RawSettings, r.check = .ok s := by
  have hentries : ∀ es, ofEntries es = .ok s → ∃ r : RawSettings, r.check = .ok s := by
    intro es hes
    by_cases hkeys : Value.strange keys es = []
    · rw [ofEntries_of_strange_eq_nil hkeys] at hes
      obtain ⟨values, -, hes⟩ := bind_eq_ok.1 hes
      obtain ⟨overrides, -, hes⟩ := bind_eq_ok.1 hes
      obtain ⟨listed, -, hes⟩ := bind_eq_ok.1 hes
      exact ⟨_, hes⟩
    · rw [ofEntries_of_strange_ne_nil hkeys] at hes
      obtain ⟨ks, -, hes⟩ := bind_eq_ok.1 hes
      cases hes
  unfold ofDocument at h
  split at h
  · exact hentries [] h
  · split at h
    · exact hentries _ h
    · cases h

/-! ### Answers -/

/-- What may stand around the content of a listed asset: nothing, or a text. -/
def Around (v : Value) : Prop := v = .null ∨ ∃ t, v = .text t

theorem passes_surround_iff : Passes (ListedAsset.surround v) ↔ Around v := by
  unfold Around
  cases v <;> simp [ListedAsset.surround]

theorem passes_choices_iff {a : ListedAsset} : Passes a.choices ↔ Around a.prepend ∧ Around a.append := by
  unfold ListedAsset.choices
  rw [← passes_surround_iff, ← passes_surround_iff]
  simp only [passes_bind]
  constructor
  · rintro ⟨b, hb, c, hc, -⟩
    exact ⟨⟨b, hb⟩, c, hc⟩
  · rintro ⟨⟨b, hb⟩, c, hc⟩
    exact ⟨b, hb, c, hc, _, rfl⟩

/-- A document is answered with a complaint; or with settings that are found in order when they are described again, and
all of whose listed assets can be treated as they say. -/
def Answers (v : Value) : Prop :=
  (∃ f, ofDocument v = .error f ∧ f.isComplaint = true) ∨
    ∃ s, ofDocument v = .ok s ∧ ofOptions s.options = .ok { s with listed := [] } ∧
      ∀ a ∈ s.listed, ∃ c, a.choices = .ok c

/-- A document is not answered so just if one of its parts is not what it is taken for, with nothing to complain of in
front, or if there is something else than a text around a listed asset. -/
theorem answers_document_iff (v : Value) : Answers v ↔ (¬ ∃ es, v = .map es ∧ Misfit es) ∧
    ∀ s, ofDocument v = .ok s → ∀ a ∈ s.listed, Around a.prepend ∧ Around a.append := by
  rw [← escapes_ofDocument_iff]
  unfold Answers
  cases hv : ofDocument v with
  | error f => simp
  | ok s =>
      obtain ⟨r, hr⟩ := exists_check_of_ofDocument hv
      have hagain := ofOptions_options (check_eq_ok hr).2
      simp [hagain, ← passes_choices_iff, Passes]

/-- Variables that are a list, and a number in front of an asset. -/
theorem not_answers_list : ¬ Answers (.map [(.text "variables", .list [.int 1])]) ∧
    ¬ Answers (.map [(.text "assets", .list [.map [(.text "path", .text "a"), (.text "prepend", .int 5)]])]) := by
  constructor
  · rintro (⟨f, hf, hcomplaint⟩ | ⟨s, hs, -⟩)
    · cases hf
      cases hcomplaint
    · cases hs
  · rintro (⟨f, hf, -⟩ | ⟨s, hs, -, hall⟩)
    · cases hf
    · cases hs
      obtain ⟨c, hc⟩ := hall _ List.mem_cons_self
      cases hc

end Settings

end HashedAssets
