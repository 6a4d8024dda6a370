import Manifest.Loading
import Manifest.Proofs.Store.History
import Manifest.Proofs.Success

namespace Manifest.Store

def Reads (files : FileTree) (path : String) (ds : List Document) : Prop :=
  ∃ text s, files.read? path = some text ∧ parse text = .ok s ∧ s.documents = ds

/-- The files that a path stands for, in the order in which they are loaded: those of a directory
that hold documents by their names, or the path itself. -/
def sources (files : FileTree) (path : String) : List String :=
  match files.resolve? path with
  | none => [path]
  | some place =>
    if files.isDirectory place then
      ((files.filesIn place).filter isManifestName).map fun n =>
        String.ofList (FilePath.join path.toList n.toList)
    else [path]

section Load

variable {files : FileTree} {path : String} {paths : List String} {s s' : Store}
  {ds es : List Document} {e : Error}

theorem appendedAll_nil (s : Store) : s.appendedAll [] = .ok s :=
  appendedAll_eq_ok.2 ⟨⟨List.nodup_nil, nofun⟩, (List.append_nil _).symm⟩

theorem appendedAll_append :
    (∃ s₁, s.appendedAll ds = .ok s₁ ∧ s₁.appendedAll es = .ok s') ↔
      s.appendedAll (ds ++ es) = .ok s' := by
  simp only [appendedAll_eq_ok, List.map_append, List.nodup_append, List.forall_mem_append]
  constructor
  · rintro ⟨s₁, ⟨⟨hds, hfresh⟩, hs₁⟩, ⟨hes, hfresh'⟩, hs'⟩
    have hids : s₁.ids = s.ids ++ ds.map Document.id := by rw [ids, hs₁, List.map_append]; rfl
    rw [hids] at hfresh'
    simp only [List.mem_append, not_or] at hfresh'
    refine ⟨⟨⟨hds, hes, ?_⟩, hfresh, fun d hd => (hfresh' d hd).1⟩, ?_⟩
    · rintro id hid _ hid' rfl
      obtain ⟨d, hd, rfl⟩ := List.mem_map.1 hid'
      exact (hfresh' d hd).2 hid
    · rw [hs', hs₁, List.append_assoc]
  · rintro ⟨⟨⟨hds, hes, hapart⟩, hfresh, hfresh'⟩, hs'⟩
    refine ⟨⟨s.documents ++ ds⟩, ⟨⟨hds, hfresh⟩, rfl⟩, ⟨hes, fun d hd => ?_⟩, ?_⟩
    · have hids : ids ⟨s.documents ++ ds⟩ = s.ids ++ ds.map Document.id := List.map_append
      rw [hids, List.mem_append, not_or]
      exact ⟨hfresh' d hd, fun hmem => hapart _ hmem _ (List.mem_map_of_mem hd) rfl⟩
    · rw [hs', List.append_assoc]

theorem outcome_loadFile_of_read {text : String} (h : files.read? path = some text) :
    (loadFile files path).outcome s =
      match parse text with
      | .ok store => (appendAll store.documents).outcome s
      | .error e => (.error e, s) := by
  rw [loadFile, h]
  dsimp only
  cases parse text <;> rfl

theorem loadFile_eq_ok : (loadFile files path).outcome s = (.ok (), s') ↔
    ∃ ds, Reads files path ds ∧ s.appendedAll ds = .ok s' := by
  constructor
  · intro h
    cases htext : files.read? path with
    | none =>
      rw [loadFile, htext] at h
      cases h
    | some text =>
      rw [outcome_loadFile_of_read htext] at h
      cases hparse : parse text with
      | error e =>
        rw [hparse] at h
        cases h
      | ok s₁ =>
        rw [hparse] at h
        exact ⟨s₁.documents, ⟨text, s₁, htext, hparse, rfl⟩, InPlace.result_eq_ok_iff.2 h⟩
  · rintro ⟨_, ⟨text, s₁, htext, hparse, rfl⟩, hs'⟩
    rw [outcome_loadFile_of_read htext, hparse]
    exact InPlace.result_eq_ok_iff.1 hs'

theorem eq_of_loadFile (h : (loadFile files path).outcome s = (.error e, s')) : s' = s := by
  cases htext : files.read? path with
  | none =>
    rw [loadFile, htext] at h
    cases h
    rfl
  | some text =>
    rw [outcome_loadFile_of_read htext] at h
    cases hparse : parse text with
    | error e =>
      rw [hparse] at h
      cases h
      rfl
    | ok s₁ =>
      rw [hparse] at h
      have hcall : (Operation.appendAll s₁.documents).call s = (.error e, s') := h
      exact Operation.eq_of_call hcall

theorem outcome_loadFiles_cons (files : FileTree) (path : String) (paths : List String)
    (s : Store) : (loadFiles files (path :: paths)).outcome s =
      match (loadFile files path).outcome s with
      | (.ok _, s') => (loadFiles files paths).outcome s'
      | (.error e, s') => (.error e, s') := by
  change (loadFile files path >>= fun _ => loadFiles files paths).outcome s = _
  rw [InPlace.outcome_bind]
  obtain ⟨_ | _, _⟩ := (loadFile files path).outcome s <;> rfl

theorem loadFiles_cases (files : FileTree) (paths : List String) (s : Store) :
    ∃ before dss s', List.Forall₂ (Reads files) before dss ∧ s.appendedAll dss.flatten = .ok s' ∧
      (before = paths ∧ (loadFiles files paths).outcome s = (.ok (), s') ∨
        ∃ failing e, before ++ [failing] <+: paths ∧
          (loadFile files failing).outcome s' = (.error e, s') ∧
          (loadFiles files paths).outcome s = (.error e, s')) := by
  induction paths generalizing s with
  | nil => exact ⟨[], [], s, .nil, appendedAll_nil s, .inl ⟨rfl, rfl⟩⟩
  | cons path paths ih =>
    rw [outcome_loadFiles_cons]
    cases h : (loadFile files path).outcome s with
    | mk r s₁ =>
      cases r with
      | error e =>
        obtain rfl := eq_of_loadFile h
        exact ⟨[], [], s₁, .nil, appendedAll_nil s₁, .inr ⟨path, e, ⟨paths, rfl⟩, h, rfl⟩⟩
      | ok =>
        obtain ⟨ds, hds, hs₁⟩ := loadFile_eq_ok.1 h
        obtain ⟨before, dss, s', hdss, hs', hrun⟩ := ih s₁
        refine ⟨path :: before, ds :: dss, s', .cons hds hdss,
          appendedAll_append.1 ⟨s₁, hs₁, hs'⟩, ?_⟩
        rcases hrun with ⟨rfl, hrun⟩ | ⟨failing, e, hprefix, hfail, hrun⟩
        · exact .inl ⟨rfl, hrun⟩
        · exact .inr ⟨failing, e, List.cons_prefix_cons.2 ⟨rfl, hprefix⟩, hfail, hrun⟩

theorem loadPath_of_not_directory (h : files.isDirectoryPath path = false) :
    (loadPath files path).outcome s = (loadFiles files [path]).outcome s := by
  rw [loadPath, h, if_neg Bool.false_ne_true, outcome_loadFiles_cons]
  obtain ⟨_ | _, _⟩ := (loadFile files path).outcome s <;> rfl

theorem outcome_loadPath (files : FileTree) (path : String) (s : Store) :
    (loadPath files path).outcome s = (loadFiles files (sources files path)).outcome s := by
  rw [sources]
  cases hplace : files.resolve? path with
  | none =>
    exact loadPath_of_not_directory (by rw [FileTree.isDirectoryPath, hplace]; rfl)
  | some place =>
    have hdirectory : files.isDirectoryPath path = files.isDirectory place := by
      rw [FileTree.isDirectoryPath, hplace]
      rfl
    simp only
    split
    · rename_i h
      rw [loadPath, hdirectory, if_pos h, loadDirectory, hplace]
      dsimp only
      rw [if_pos h]
    · rename_i h
      exact loadPath_of_not_directory (hdirectory.trans (eq_false_of_ne_true h))

theorem outcome_loadDirectory (files : FileTree) (path : String) (s : Store) :
    (loadDirectory files path).outcome s =
      if files.isDirectoryPath path then (loadPath files path).outcome s
      else (.error (.load path), s) := by
  rw [loadPath]
  split
  · rfl
  · rename_i h
    rw [loadDirectory]
    rw [FileTree.isDirectoryPath] at h
    cases hplace : files.resolve? path with
    | none => rfl
    | some place =>
      rw [hplace] at h
      have hfile : files.isDirectory place = false := eq_false_of_ne_true h
      dsimp only
      rw [hfile]
      rfl

theorem loadFiles_eq_ok : (loadFiles files paths).outcome s = (.ok (), s') ↔
    ∃ dss, List.Forall₂ (Reads files) paths dss ∧ s.appendedAll dss.flatten = .ok s' := by
  constructor
  · intro h
    obtain ⟨before, dss, s₁, hdss, hs₁, ⟨rfl, hrun⟩ | ⟨failing, e, -, -, hrun⟩⟩ :=
      loadFiles_cases files paths s
    · obtain ⟨-, rfl⟩ := Prod.mk.inj (hrun.symm.trans h)
      exact ⟨dss, hdss, hs₁⟩
    · cases hrun.symm.trans h
  · rintro ⟨dss, hdss, hs'⟩
    induction hdss generalizing s with
    | nil =>
      obtain rfl := Except.ok.inj ((appendedAll_nil s).symm.trans hs')
      rfl
    | cons hds hdss ih =>
      obtain ⟨s₁, hs₁, hs'⟩ := appendedAll_append.2 hs'
      rw [outcome_loadFiles_cons, loadFile_eq_ok.2 ⟨_, hds, hs₁⟩]
      exact ih hs'

/-- A load that fails has added the documents of the files before the one at which it failed.  It
leaves the store as it was exactly when they hold none. -/
theorem documents_of_failed_load
    (h : (loadPath files path).outcome s = (.error e, s') ∨
      (loadDirectory files path).outcome s = (.error e, s')) :
    ∃ before dss, List.Forall₂ (Reads files) before dss ∧
      s'.documents = s.documents ++ dss.flatten ∧ (s' = s ↔ dss.flatten = []) ∧
      (before = [] ∧ e = .load path ∨
        ∃ failing, before ++ [failing] <+: sources files path ∧
          (loadFile files failing).outcome s' = (.error e, s')) := by
  have unchanged : ∀ ds, s'.documents = s.documents ++ ds → (s' = s ↔ ds = []) := by
    intro ds hds
    constructor
    · rintro rfl
      exact List.append_right_eq_self.1 hds.symm
    · rintro rfl
      exact ext (hds.trans (List.append_nil _))
  rw [outcome_loadDirectory] at h
  have hcases : (loadPath files path).outcome s = (.error e, s') ∨ s' = s ∧ e = .load path := by
    rcases h with h | h
    · exact .inl h
    · split at h
      · exact .inl h
      · obtain ⟨he, rfl⟩ := Prod.mk.inj h
        exact .inr ⟨rfl, (Except.error.inj he).symm⟩
  rcases hcases with h | ⟨rfl, rfl⟩
  · rw [outcome_loadPath] at h
    obtain ⟨before, dss, s₁, hdss, hs₁, ⟨-, hrun⟩ | ⟨failing, e', hprefix, hfail, hrun⟩⟩ :=
      loadFiles_cases files (sources files path) s
    · cases hrun.symm.trans h
    · obtain ⟨he, rfl⟩ := Prod.mk.inj (hrun.symm.trans h)
      obtain rfl := Except.error.inj he
      have hdocs := (appendedAll_eq_ok.1 hs₁).2
      exact ⟨before, dss, hdss, hdocs, unchanged _ hdocs, .inr ⟨failing, hprefix, hfail⟩⟩
  · have hdocs : s'.documents = s'.documents ++ ([] : List (List Document)).flatten :=
      (List.append_nil _).symm
    exact ⟨[], [], .nil, hdocs, unchanged _ hdocs, .inl ⟨rfl, rfl⟩⟩

end Load

def repeated : FileTree where
  files := [(["d", "a.yaml"], "kind: A\nmetadata: \x7bname: a\x7d".toUTF8.toList),
    (["d", "b.yaml"], "kind: A\nmetadata: \x7bname: a\x7d".toUTF8.toList)]

theorem sources_repeated : sources repeated "d" = ["d/a.yaml", "d/b.yaml"] := by
  have hplace : repeated.resolve? "d" = some ["d"] := by decide +kernel
  have hnames : repeated.filesIn ["d"] = ["a.yaml", "b.yaml"] :=
    List.mergeSort_of_pairwise (by decide +kernel)
  rw [sources, hplace]
  simp only [hnames]
  decide +kernel

theorem loadPath_repeated : ∃ s e, (loadPath repeated "d").outcome empty = (.error e, s) ∧
    s.documents =
      [{ tree := .map [("kind", .text "A"), ("metadata", .map [("name", .text "a")])] }] := by
  have h : ((loadFiles repeated ["d/a.yaml", "d/b.yaml"]).outcome empty).1.toOption = none ∧
      ((loadFiles repeated ["d/a.yaml", "d/b.yaml"]).outcome empty).2.documents =
        [{ tree := .map [("kind", .text "A"), ("metadata", .map [("name", .text "a")])] }] := by
    decide +kernel
  rw [outcome_loadPath, sources_repeated]
  revert h
  obtain ⟨e | _, s⟩ := (loadFiles repeated ["d/a.yaml", "d/b.yaml"]).outcome empty
  · exact fun h => ⟨s, e, rfl, h.2⟩
  · exact fun h => nomatch h.1

theorem documents_of_failed_load_repeated : ∃ s e before dss,
    (loadPath repeated "d").outcome empty = (.error e, s) ∧
      List.Forall₂ (Reads repeated) before dss ∧ s.documents = dss.flatten ∧
      dss.flatten =
        [{ tree := .map [("kind", .text "A"), ("metadata", .map [("name", .text "a")])] }] := by
  obtain ⟨s, e, h, hdocs⟩ := loadPath_repeated
  obtain ⟨before, dss, hdss, hadded, -, -⟩ := documents_of_failed_load (.inl h)
  exact ⟨s, e, before, dss, h, hdss, hadded, hadded.symm.trans hdocs⟩

theorem not_unchanged_of_failed_load : ¬ ∀ (files : FileTree) (path : String) (s s' : Store)
    (e : Error), (loadPath files path).outcome s = (.error e, s') → s' = s := by
  intro h
  obtain ⟨s, e, hload, hdocs⟩ := loadPath_repeated
  rw [h _ _ _ _ _ hload] at hdocs
  cases hdocs

end Manifest.Store
