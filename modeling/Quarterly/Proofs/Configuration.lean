import Quarterly.ConfigurationFile
import Quarterly.Proofs.Datum.Equality
import Quarterly.Proofs.Datum.Merge
import Quarterly.Proofs.Schema.Check

/-!
# Configurations as data

A configuration that was accepted and is written as data is accepted again as what it is: every
check is stable, and the standard configuration loses each of its entries to the written one. So a
configuration that is kept in a file is there to be loaded.
-/

namespace Quarterly

open Schema

/-! ## What is accepted -/

theorem Datum.ofTexts_eq (texts? : Option (List String)) :
    Datum.ofTexts texts? = texts?.elim .null fun texts => .list (texts.map .text) := by
  cases texts? <;> rfl

theorem stable_texts :
    (Check.optional (Check.list Check.string)).Stable Datum.ofTexts := by
  rw [funext Datum.ofTexts_eq]
  exact (Check.Stable.list Check.stable_string).optional fun _ => rfl

theorem DataSource.stable : DataSource.check.Stable DataSource.toDatum := by
  intro d source accepted
  obtain ⟨entries, -, accepted⟩ := Except.bind_eq_ok.mp accepted
  obtain ⟨⟨path, tickers⟩, fields, built⟩ := Except.bind_eq_ok.mp accepted
  cases built
  obtain ⟨path, tickers⟩ := Checked.both_eq_ok.mp fields
  refine Except.bind_eq_ok.mpr ⟨_, rfl, Except.bind_eq_ok.mpr ⟨(_, _), ?_, rfl⟩⟩
  exact Checked.both_eq_ok.mpr
    ⟨Check.stable_string.required path rfl, stable_texts.withDefault rfl tickers rfl⟩

theorem SignalRule.stable_formulaText : SignalRule.formulaText.Stable .text := by
  intro d formula accepted
  obtain ⟨s, -, accepted⟩ := Except.bind_eq_ok.mp accepted
  refine Except.bind_eq_ok.mpr ⟨formula, rfl, ?_⟩
  split at accepted
  · cases accepted
  · rename_i visible
    cases accepted
    exact if_neg visible

theorem SignalRule.stable : SignalRule.check.Stable SignalRule.toDatum := by
  intro d rule accepted
  obtain ⟨entries, -, accepted⟩ := Except.bind_eq_ok.mp accepted
  obtain ⟨⟨name, formula, selected, _⟩, fields, built⟩ := Except.bind_eq_ok.mp accepted
  cases built
  simp only [Checked.both_eq_ok] at fields
  obtain ⟨name, formula, selected, -⟩ := fields
  refine Except.bind_eq_ok.mpr ⟨_, rfl, Except.bind_eq_ok.mpr ⟨(_, _, _, ()), ?_, rfl⟩⟩
  simp only [Checked.both_eq_ok]
  exact ⟨Check.stable_string.required name rfl, stable_formulaText.required formula rfl,
    stable_texts.withDefault rfl selected rfl, rfl⟩

theorem Settings.stable : Settings.check.Stable fun s => .mapping s.toEntries := by
  intro d settings accepted
  obtain ⟨entries, -, accepted⟩ := Except.bind_eq_ok.mp accepted
  obtain ⟨⟨windowSize, maxDepth, collectTrace, verbose, _⟩, fields, built⟩ :=
    Except.bind_eq_ok.mp accepted
  cases built
  simp only [Checked.both_eq_ok] at fields
  obtain ⟨windowSize, maxDepth, collectTrace, verbose, -⟩ := fields
  have window := (Check.stable_positive "window_size").optional fun _ => rfl
  refine Except.bind_eq_ok.mpr ⟨_, rfl, Except.bind_eq_ok.mpr ⟨(_, _, _, _, ()), ?_, rfl⟩⟩
  simp only [Checked.both_eq_ok]
  exact ⟨window.withDefault rfl windowSize rfl,
    (Check.stable_positive _).withDefault rfl maxDepth rfl,
    Check.stable_boolean.withDefault rfl collectTrace rfl,
    Check.stable_boolean.withDefault rfl verbose rfl, rfl⟩

namespace Configuration

variable {entries : Keyed Datum} {c : Configuration}

theorem ofEntries_toEntries (accepted : ofEntries entries = .ok c) :
    ofEntries c.toEntries = .ok c := by
  obtain ⟨⟨data, evaluator, signals, maxWorkers, _⟩, fields, built⟩ :=
    Except.bind_eq_ok.mp accepted
  cases built
  simp only [Checked.both_eq_ok] at fields
  obtain ⟨data, evaluator, signals, maxWorkers, -⟩ := fields
  refine Except.bind_eq_ok.mpr ⟨(_, _, _, _, ()), ?_, rfl⟩
  simp only [Checked.both_eq_ok]
  exact ⟨DataSource.stable.required data rfl, Settings.stable.withDefault rfl evaluator rfl,
    SignalRule.stable.list.withDefault rfl signals rfl,
    (Check.stable_positive _).withDefault rfl maxWorkers rfl, rfl⟩

/-! ## The standard configuration -/

theorem oneEntryEach_standardWith_nil : (Datum.mapping (standardWith [])).OneEntryEach := by
  have source : standardSource.OneEntryEach := .of_flat (by decide) (by decide)
  have settings : (Datum.mapping (Settings.toEntries {})).OneEntryEach :=
    .of_flat (by decide) (by decide)
  refine .mapping (by decide) ?_
  simp only [standardWith, List.forall_mem_cons]
  exact ⟨source, settings, .other rfl, .other rfl, nofun⟩

/-- To lay entries over the standard configuration twice is to do it once. -/
theorem overStandard_overStandard (hu : (Datum.mapping entries).OneEntryEach) :
    overStandard (overStandard entries) = overStandard entries :=
  Datum.mapping.inj (Datum.overlay_overlay oneEntryEach_standardWith_nil hu)

theorem overlay_standardSource (s : DataSource) :
    Datum.overlay standardSource s.toDatum = s.toDatum := by
  change Datum.mapping [("path", .text s.path), ("tickers", .overlay .null (.ofTexts s.tickers))] = _
  rw [Datum.overlay_eq_upper (.inl rfl)]
  rfl

theorem entriesOver_standardSettings (s : Settings) :
    Datum.entriesOver (Settings.toEntries {}) s.toEntries = s.toEntries := by
  change [("window_size", Datum.overlay .null (s.windowSize.elim .null .int)),
    ("max_depth", .int s.maxDepth), ("collect_trace", .bool s.collectTrace),
    ("verbose", .bool s.verbose)] = _
  rw [Datum.overlay_eq_upper (.inl rfl)]
  rfl

/-- A configuration with all its fields leaves nothing of the standard one. -/
theorem overStandard_toEntries (c : Configuration) : overStandard c.toEntries = c.toEntries := by
  change [("data", Datum.overlay standardSource c.data.toDatum),
    ("evaluator", .mapping (Datum.entriesOver (Settings.toEntries {}) c.evaluator.toEntries)),
    ("signals", .list (c.signals.map SignalRule.toDatum)), ("max_workers", .int c.maxWorkers)] = _
  rw [overlay_standardSource, entriesOver_standardSettings]
  rfl

/-- What a merge of mappings holds at every place, and what it gives when it is done again. -/
theorem merged_by_path {base upper : Keyed Datum} (hb : (Datum.mapping base).OneEntryEach)
    (hu : (Datum.mapping upper).OneEntryEach) :
    (∀ path, (∀ front key rest, path = front ++ key :: rest →
        (Datum.mapping base).HasMapping front ∧ (Datum.mapping upper).HasMapping front) →
      (Datum.mapping (Datum.entriesOver base upper)).at? path =
        Datum.laidOver? ((Datum.mapping base).at? path) ((Datum.mapping upper).at? path)) ∧
    (∀ front, Datum.Apart (.mapping base) (.mapping upper) front →
      ((Datum.mapping upper).at? front ≠ none →
        (Datum.mapping (Datum.entriesOver base upper)).at? front =
          (Datum.mapping upper).at? front) ∧
      ∀ key rest, (Datum.mapping (Datum.entriesOver base upper)).at? (front ++ key :: rest) =
        (Datum.mapping upper).at? (front ++ key :: rest)) ∧
    Datum.entriesOver base (Datum.entriesOver base upper) = Datum.entriesOver base upper ∧
    overStandard (overStandard upper) = overStandard upper := by
  refine ⟨fun path mappings => Datum.at?_overlay hu mappings, fun front apart => ⟨fun present => ?_,
    fun key rest => Datum.at?_overlay_whole hu apart nofun⟩,
    Datum.mapping.inj (Datum.overlay_overlay hb hu), overStandard_overStandard hu⟩
  have whole : (Datum.overlay _ _).at? (front ++ []) = _ :=
    Datum.at?_overlay_whole hu apart fun _ => present
  rwa [List.append_nil] at whole

/-- Entries that leave much to the standard configuration, and have other shapes in places. -/
def sparse : Keyed Datum := [
  ("data", .mapping [("path", .text "q.csv")]), ("evaluator", .null),
  ("signals", .mapping [("name", .text "growth")])]

theorem oneEntryEach_sparse : (Datum.mapping sparse).OneEntryEach := by
  refine .mapping (by decide) ?_
  simp only [sparse, List.forall_mem_cons]
  exact ⟨.of_flat (by decide) (by decide), .other rfl, .of_flat (by decide) (by decide), nofun⟩

theorem merged_by_path_sparse :
    (Datum.mapping (Datum.entriesOver (standardWith []) sparse)).at? ["data", "tickers"] =
      some .null ∧
    (Datum.mapping (Datum.entriesOver (standardWith []) sparse)).at? ["evaluator", "max_depth"] =
      none ∧
    overStandard (overStandard sparse) = overStandard sparse := by
  obtain ⟨merged, whole, -, twice⟩ :=
    merged_by_path oneEntryEach_standardWith_nil oneEntryEach_sparse
  have tickers := merged ["data", "tickers"] fun front key rest split => by
    match front, split with
    | [], _ => exact ⟨⟨_, rfl⟩, ⟨_, rfl⟩⟩
    | [_], split =>
      cases split
      exact ⟨⟨_, rfl⟩, ⟨_, rfl⟩⟩
    | _ :: _ :: more, split => simp at split
  have depth := (whole ["evaluator"] (.inr ⟨.null, rfl, rfl⟩)).2 "max_depth" []
  exact ⟨tickers.trans rfl, depth.trans rfl, twice⟩

/-! ## Files -/

theorem run_find (f : Folder) (path : Path) :
    (Storage.find path : StateM Folder _).run f = (f.find path, f) := rfl

theorem run_write (f : Folder) (path : Path) (text : String) :
    (Storage.write path text : StateM Folder _).run f =
      match f.write path text with
      | .ok f' => (.ok (), f')
      | .error fault => (.error fault, f) := by
  simp only [Storage.write, bind_pure_comp, StateT.run_bind, StateT.run_get, pure_bind]
  cases f.write path text <;> rfl

theorem find_of_get? {f : Folder} {path : Path} {text : String}
    (here : f.files.get? (f.relative path).text = some text) : f.find path = .file text := by
  simp only [Folder.find, here]

/-- What has been written under a path is found there. -/
theorem find_write {f after : Folder} {path : Path} {text : String}
    (written : f.write path text = .ok after) : after.find path = .file text := by
  unfold Folder.write at written
  split at written
  · cases written
  · cases written
    refine find_of_get? ?_
    change (f.files.put (f.relative path).text text).get? (f.relative path).text = _
    rw [Keyed.get?_put, if_pos rfl]

theorem write_of_save {f after : Folder} {path : String}
    (saved : (c.save path : StateM Folder _).run f = (.ok (), after)) :
    f.write (.ofText path) c.yaml = .ok after := by
  rw [save, run_write] at saved
  split at saved <;> cases saved
  assumption

/-- To load changes nothing. -/
theorem load_of_file {f : Folder} {path text : String} (found : f.find (.ofText path) = .file text) :
    (load path : StateM Folder _).run f = ((dataIn (.ofText path) text).bind ofDatum, f) := by
  simp only [load, loadData, bind_pure_comp, StateT.run_bind, StateT.run_map, run_find, found]
  rfl

theorem ofDatum_toDatum (accepted : ofEntries entries = .ok c) : ofDatum c.toDatum = .ok c := by
  change (ofEntries (overStandard c.toEntries)).mapError _ = _
  rw [overStandard_toEntries, ofEntries_toEntries accepted]
  rfl

/-- A configuration that was accepted is what its data give, and what is loaded after it is saved
if its text is read as the data that were written. -/
theorem load_save (accepted : ofEntries entries = .ok c) :
    ofDatum c.toDatum = .ok c ∧
    ∀ (f after : Folder) (path : String), Yaml.read? (Yaml.render c.toDatum) = some c.toDatum →
      (c.save path : StateM Folder _).run f = (.ok (), after) →
      (load path : StateM Folder _).run after = (.ok c, after) := by
  refine ⟨ofDatum_toDatum accepted, fun f after path readable saved => ?_⟩
  rw [load_of_file (find_write (write_of_save saved))]
  have data : dataIn (.ofText path) c.yaml = .ok c.toDatum := by
    unfold dataIn yaml
    rw [readable]
    rfl
  rw [data]
  exact congrArg (·, after) (ofDatum_toDatum accepted)

/-- A configuration with a choice in each of its parts. -/
def momentum : Configuration where
  data := ⟨"q.csv", some ["ACME"]⟩
  evaluator := { windowSize := some 12 }
  signals := [⟨"growth", "Sales[Q2] - Sales[Q1]", none⟩]
  maxWorkers := 4

theorem load_save_momentum :
    let f : Folder := ⟨⟨true, ["work"]⟩, []⟩
    let after : Folder := ⟨⟨true, ["work"]⟩, [("nested/signals.yaml", momentum.yaml)]⟩
    ofDatum momentum.toDatum = .ok momentum ∧
      (momentum.save "nested/signals.yaml" : StateM Folder _).run f = (.ok (), after) ∧
      (load "nested/signals.yaml" : StateM Folder _).run after = (.ok momentum, after) := by
  intro f after
  have accepted : ofEntries momentum.toEntries = .ok momentum := by rfl
  have saved : (momentum.save "nested/signals.yaml" : StateM Folder _).run f = (.ok (), after) := by
    rfl
  obtain ⟨given, loaded⟩ := load_save accepted
  exact ⟨given, saved, loaded f after _ (by decide +kernel) saved⟩

end Configuration

end Quarterly
