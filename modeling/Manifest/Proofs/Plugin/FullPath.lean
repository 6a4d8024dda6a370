import Manifest.Plugin.FullPath
import Manifest.Proofs.FieldEdits
import Manifest.Proofs.FilePath
import Manifest.Proofs.Store

namespace Manifest

open Reference

namespace Tree

section TextNodes

variable {g : Tree → Tree} {f : String → String} (text : ∀ s, g (.text s) = .text (f s))
  (other : ∀ u, (∀ s, u ≠ .text s) → g u = u)

include text other

theorem becomes_textNode {c : Prop} (u : Tree) : Becomes f c u (g u) := by
  by_cases htext : ∃ s, u = .text s
  · obtain ⟨s, rfl⟩ := htext
    exact text s ▸ .text
  · rw [other u fun s hs => htext ⟨s, hs⟩]
    exact (Becomes.refl u).mono (fun s hs => absurd ⟨s, hs⟩ htext) id

theorem get?_textNode (u : Tree) {r : Position} (hr : r ≠ []) : (g u).get? r = u.get? r := by
  by_cases htext : ∃ s, u = .text s
  · obtain ⟨s, rfl⟩ := htext
    cases r with
    | nil => exact absurd rfl hr
    | cons step r =>
      rw [text]
      cases step <;> rfl
  · rw [other u fun s hs => htext ⟨s, hs⟩]

theorem Evolves.setAll_mapped_textNodes {t : Tree} {ps : List Position}
    (there : ∀ p ∈ ps, (t.get? p).isSome) (apart : ps.Pairwise Position.Apart) :
    Evolves (fun q s => if ps.any (fun p => p = q) then f s else s) (fun _ => False) t
      (t.setAll (t.mapped g ps)) := by
  have here : ∀ q ∈ ps, (t.setAll (t.mapped g ps)).get? q = (t.get? q).map g :=
    fun q hq => get?_setAll_mapped there apart hq
  have elsewhere : ∀ q, q ∉ ps →
      ((t.setAll (t.mapped g ps)).get? q).map bare = (t.get? q).map bare := by
    intro q hq
    by_cases hbelow : ∃ p ∈ ps, p <+: q
    · obtain ⟨p, hp, r, rfl⟩ := hbelow
      have hr : r ≠ [] := by
        rintro rfl
        exact hq (by rwa [List.append_nil])
      rw [get?_append, get?_append, here p hp]
      cases t.get? p with
      | none => rfl
      | some u =>
        rw [Option.map_some, Option.bind_some, Option.bind_some, get?_textNode text other u hr]
    · exact bare_get?_setAll _ (fun x hx hle => hbelow ⟨x.1, (List.of_mem_zip hx).1, hle⟩) t
  constructor
  · intro q u hu
    by_cases hq : q ∈ ps
    · refine ⟨g u, by rw [here q hq, hu]; rfl, ?_⟩
      exact (becomes_textNode text other u).mono (fun _ _ => (if_pos (by simpa using hq)).symm) id
    · have hsame := elsewhere q hq
      rw [hu] at hsame
      obtain ⟨v, hv, huv⟩ := Option.map_eq_some_iff.1 hsame
      exact ⟨v, hv, (Becomes.of_bare huv).mono (fun _ _ => (if_neg (by simpa using hq)).symm) id⟩
  · intro q v hnone hv
    by_cases hq : q ∈ ps
    · rw [here q hq, hnone] at hv
      cases hv
    · have hsame := elsewhere q hq
      rw [hnone, hv] at hsame
      cases hsame

end TextNodes

end Tree

namespace FullPath

open Tree (Evolves)

variable {w : Workspace} {path : String}

def resolveText (w : Workspace) (path : String) : String :=
  if path = "" ∨ FilePath.isAbsolute path.toList then path else w.resolve path

theorem resolveNode_text (w : Workspace) (path : String) :
    resolveNode w (.text path) = .text (resolveText w path) := by
  rw [resolveNode, resolveText]
  split <;> rfl

theorem resolveNode_of_ne_text {t : Tree} (h : ∀ s, t ≠ .text s) : resolveNode w t = t := by
  cases t with
  | text s => exact absurd rfl (h s)
  | _ => rfl

theorem isAbsolute_resolveText (w : Workspace) (h : path ≠ "") :
    FilePath.isAbsolute (resolveText w path).toList =
      (FilePath.isAbsolute w.root.toList || FilePath.isAbsolute path.toList) := by
  rw [resolveText]
  cases habsolute : FilePath.isAbsolute path.toList with
  | true => rw [if_pos (.inr rfl), habsolute, Bool.or_true]
  | false =>
    rw [if_neg (by simp [h]), Workspace.resolve, String.toList_ofList, FilePath.isAbsolute_clean,
      FilePath.isAbsolute_join habsolute, Bool.or_false]

theorem resolveText_ne_empty (w : Workspace) (h : path ≠ "") : resolveText w path ≠ "" := by
  rw [resolveText]
  split
  · exact h
  · exact mt String.ofList_eq_empty_iff.1 (FilePath.clean_ne_nil _)

theorem resolveText_empty (w : Workspace) : resolveText w "" = "" := if_pos (.inl rfl)

theorem iterate_resolveText_empty (w : Workspace) (n : Nat) : (resolveText w)^[n] "" = "" :=
  Function.iterate_fixed (resolveText_empty w) n

theorem iterate_resolveText (w : Workspace) (h : path ≠ "") (n : Nat) :
    (resolveText w)^[n + 1] path ≠ "" ∧
      FilePath.isAbsolute ((resolveText w)^[n + 1] path).toList =
        (FilePath.isAbsolute w.root.toList || FilePath.isAbsolute path.toList) := by
  induction n with
  | zero => exact ⟨resolveText_ne_empty w h, isAbsolute_resolveText w h⟩
  | succ n ih =>
    rw [Function.iterate_succ_apply']
    refine ⟨resolveText_ne_empty w ih.1, ?_⟩
    rw [isAbsolute_resolveText w ih.1, ih.2]
    cases FilePath.isAbsolute w.root.toList <;> rfl

def resolving (w : Workspace) : NodeEdit where
  node := resolveNode w
  text := resolveText w
  reaches p q := p = q
  prefix_of_reaches h := of_decide_eq_true h ▸ List.prefix_refl _
  evolves := Evolves.setAll_mapped_textNodes (resolveNode_text w) fun _ => resolveNode_of_ne_text

def specsFor (c : FullPath) (d : Document) : List FieldSpec := c.specs.filter (·.appliesTo d.type)

structure Resolves (w : Workspace) (specs : List FieldSpec) (d d' : Document) : Prop where
  previous_eq : d'.previous = d.previous
  evolves : Evolves ((resolving w).edited specs d.tree) (FieldSpec.AddsAt specs d.tree) d.tree
    d'.tree
  absolute_iff : ∀ spec ∈ specs, ∀ q ∈ nodesAt spec.path d'.tree, ∀ path',
    d'.tree.get? q = some (.text path') → path' ≠ "" → ∃ path,
      d.tree.get? q = some (.text path) ∧ (FilePath.isAbsolute path'.toList ↔
        FilePath.isAbsolute w.root.toList ∨ FilePath.isAbsolute path.toList)

variable {c : FullPath} {d d' d'' : Document} {s s' : Store}

theorem timesNamed_pos {specs : List FieldSpec} {spec : FieldSpec} {t : Tree} {q : Position}
    (hspec : spec ∈ specs) (hq : q ∈ nodesAt spec.path t) :
    0 < (resolving w).timesNamed specs t q :=
  List.countP_pos_iff.2 ⟨spec, hspec, List.any_eq_true.2 ⟨q, hq, decide_eq_true rfl⟩⟩

theorem resolves_of_editFields
    (kept : (resolving w).KeepsComparisons (c.specsFor d) d.tree)
    (h : d.editFields c.specs (fun t => .ok (resolveNode w t)) = .ok d') :
    Resolves w (c.specsFor d) d d' ∧ FieldSpec.Full (c.specsFor d) d'.tree := by
  obtain ⟨t, hrun, rfl⟩ := (NodeEdit.editFields_eq_ok (e := resolving w)).1 h
  have ev := NodeEdit.evolves_of_foldlM kept.keepsInTurn hrun
  refine ⟨⟨rfl, ev, fun spec hspec q hq path' hpath' hne => ?_⟩,
    NodeEdit.full_of_foldlM kept hrun⟩
  obtain ⟨ps, hlocated, hmem⟩ := exists_located_of_mem hq
  obtain ⟨p, hp, hps⟩ := located_eq_ok.1 hlocated
  have hkept := kept.keepsCompared_all hspec (mapError_eq_ok.2 hp)
  obtain ⟨ps₀, hps₀⟩ := ev.exists_addressed hkept hps
  obtain ⟨path, hpath, rfl⟩ := ev.exists_text hpath'
  have hmem₀ : q ∈ nodesAt spec.path d.tree := by
    rw [nodesAt_of_located (located_eq_ok.2 ⟨p, hp, hps₀⟩)]
    exact (ev.mem_addressed_iff hkept hps hps₀ (Option.isSome_of_eq_some hpath)).1 hmem
  obtain ⟨n, hn⟩ := Nat.exists_eq_add_one_of_ne_zero (timesNamed_pos hspec hmem₀).ne'
  have hpath_ne : path ≠ "" := by
    rintro rfl
    exact hne (iterate_resolveText_empty w _)
  refine ⟨path, hpath, ?_⟩
  change FilePath.isAbsolute ((resolveText w)^[_] path).toList ↔ _
  rw [hn, (iterate_resolveText w hpath_ne n).2, Bool.or_eq_true]

theorem editFields_again (root : FilePath.isAbsolute w.root.toList) (htype : d'.type = d.type)
    (resolves : Resolves w (c.specsFor d) d d') (full : FieldSpec.Full (c.specsFor d) d'.tree) :
    d'.editFields c.specs (fun t => .ok (resolveNode w t)) = .ok d'' ↔
      d'' = d' ∧ ∀ spec ∈ c.specsFor d', ∃ ps, located spec.path d'.tree = .ok ps := by
  have hspecs : c.specsFor d' = c.specsFor d := by rw [specsFor, specsFor, htype]
  have fixed : ∀ spec ∈ c.specsFor d', ∀ q ∈ nodesAt spec.path d'.tree, ∀ v,
      d'.tree.get? q = some v → resolveNode w v = v := by
    intro spec hspec q hq v hv
    by_cases htext : ∃ path, v = .text path
    · obtain ⟨path, rfl⟩ := htext
      rw [resolveNode_text, resolveText]
      refine congrArg Tree.text (if_pos ?_)
      by_cases hne : path = ""
      · exact .inl hne
      · obtain ⟨_, -, habsolute⟩ :=
          resolves.absolute_iff spec (hspecs ▸ hspec) q hq path hv hne
        exact .inr (habsolute.2 (.inl root))
    · exact resolveNode_of_ne_text fun s hs => htext ⟨s, hs⟩
  rw [← hspecs] at full
  refine (NodeEdit.editFields_eq_ok (e := resolving w)).trans ?_
  constructor
  · rintro ⟨t, hrun, rfl⟩
    obtain ⟨rfl, hlocated⟩ := (NodeEdit.foldlM_of_fixed full fixed).1 hrun
    exact ⟨rfl, hlocated⟩
  · rintro ⟨rfl, hlocated⟩
    exact ⟨_, (NodeEdit.foldlM_of_fixed full fixed).2 ⟨rfl, hlocated⟩, rfl⟩

theorem exists_of_forall₂_of_type_eq {R : Document → Document → Prop} {ds ds' : List Document}
    (h : List.Forall₂ R ds ds') (htypes : ds'.map Document.type = ds.map Document.type) :
    ∀ d' ∈ ds', ∃ d, R d d' ∧ d'.type = d.type := by
  induction h with
  | nil => exact List.forall_mem_nil _
  | cons hd _ ih =>
    obtain ⟨htype, htypes⟩ := List.cons.inj htypes
    exact List.forall_mem_cons.2 ⟨⟨_, hd, htype⟩, ih htypes⟩

/-- The specs that name paths are taken one after the other; once they have been, and as long as
each document keeps its type, they change nothing more. -/
theorem resolves_of_transform
    (kept : ∀ d ∈ s.documents, (resolving w).KeepsComparisons (c.specsFor d) d.tree)
    (h : transform w c s = .ok s') :
    List.Forall₂ (fun d d' => Resolves w (c.specsFor d) d d') s.documents s'.documents ∧
      (FilePath.isAbsolute w.root.toList →
        s'.documents.map Document.type = s.documents.map Document.type →
        ∀ s'', transform w c s' = .ok s'' ↔ s'' = s' ∧
          ∀ d ∈ s'.documents, ∀ spec ∈ c.specsFor d, ∃ ps, located spec.path d.tree = .ok ps) := by
  have hboth := forall₂_of_map_eq_ok (Store.mapM_eq_ok.1 h) fun d hd d' hd' =>
    resolves_of_editFields (kept d hd) hd'
  refine ⟨hboth.imp fun _ _ => And.left, fun root htypes s'' => ?_⟩
  have hagain : ∀ d' ∈ s'.documents, ∀ d'',
      d'.editFields c.specs (fun t => .ok (resolveNode w t)) = .ok d'' ↔
        d'' = d' ∧ ∀ spec ∈ c.specsFor d', ∃ ps, located spec.path d'.tree = .ok ps := by
    intro d' hd' d''
    obtain ⟨d, ⟨resolves, full⟩, htype⟩ := exists_of_forall₂_of_type_eq hboth htypes d' hd'
    exact editFields_again root htype resolves full
  rw [transform, Store.mapM_eq_ok, map_eq_ok_iff_eq_self hagain]
  exact and_congr_left fun _ => ⟨Store.ext, congrArg Store.documents⟩

def patchesAt (paths : List String) : Document where
  tree := .map [("apiVersion", .text "kfuse/v1"), ("kind", .text "SelectivePatch"),
    ("metadata", .map [("name", .text "web")]),
    ("patches", .list (paths.map fun path => .map [("path", .text path)]))]

def patchPaths : FullPath where
  specs := [{ type := { kind := "SelectivePatch" }, path := "patches/path" },
    { type := { version := "v1" }, path := "patches/path" },
    { type := { kind := "SelectivePatch" }, path := "metadata/home", create := true }]

theorem resolves_of_transform_shared :
    ∃ s', transform ⟨"/foo/bar", {}, []⟩ patchPaths
        ⟨[patchesAt ["../shared/redis.yaml", "", "/etc/absolute.yaml"]]⟩ = .ok s' ∧
      List.Forall₂ (fun d d' => Resolves ⟨"/foo/bar", {}, []⟩ (patchPaths.specsFor d) d d')
        [patchesAt ["../shared/redis.yaml", "", "/etc/absolute.yaml"]] s'.documents ∧
      transform ⟨"/foo/bar", {}, []⟩ patchPaths s' = .ok s' := by
  have hnil : ∀ d ∈ [patchesAt ["../shared/redis.yaml", "", "/etc/absolute.yaml"]],
      ∀ spec ∈ patchPaths.specsFor d, comparedAt spec.path d.tree = [] := by decide +kernel
  obtain ⟨s', hrun, htypes, hlocated⟩ : ∃ s', transform ⟨"/foo/bar", {}, []⟩ patchPaths
      ⟨[patchesAt ["../shared/redis.yaml", "", "/etc/absolute.yaml"]]⟩ = .ok s' ∧
      s'.documents.map Document.type = [patchesAt []].map Document.type ∧
      ∀ d ∈ s'.documents, ∀ spec ∈ patchPaths.specsFor d,
        (located spec.path d.tree).toOption.isSome := by
    refine ⟨⟨[{ tree := .map [("apiVersion", .text "kfuse/v1"), ("kind", .text "SelectivePatch"),
      ("metadata", .map [("name", .text "web"), ("home", .null)]),
      ("patches", .list [.map [("path", .text "/foo/shared/redis.yaml")],
        .map [("path", .text "")], .map [("path", .text "/etc/absolute.yaml")]])] }]⟩, ?_⟩
    exact ⟨eq_ok_of_toOption (by decide +kernel), by decide +kernel, by decide +kernel⟩
  obtain ⟨hresolves, hagain⟩ :=
    resolves_of_transform (fun d hd => NodeEdit.keepsComparisons_of_nil (hnil d hd)) hrun
  refine ⟨s', hrun, hresolves, (hagain (by decide +kernel) htypes s').2 ⟨rfl, ?_⟩⟩
  intro d hd spec hspec
  obtain ⟨ps, hps⟩ := Option.isSome_iff_exists.1 (hlocated d hd spec hspec)
  exact ⟨ps, eq_ok_of_toOption hps⟩

/-- A directory that is not given from the root leaves paths that are not, and that are resolved
again. -/
theorem not_absolute_in_general :
    ¬ ∀ (w : Workspace) (c : FullPath) (s s' : Store), transform w c s = .ok s' →
      (∀ d ∈ s'.documents, ∀ spec ∈ c.specsFor d, ∀ q ∈ nodesAt spec.path d.tree, ∀ path,
        d.tree.get? q = some (.text path) → path ≠ "" → FilePath.isAbsolute path.toList) ∧
      transform w c s' = .ok s' := by
  intro h
  obtain ⟨habsolute, -⟩ := h ⟨"paths", {}, []⟩
    { specs := [{ type := { kind := "SelectivePatch" }, path := "patches/path" }] }
    ⟨[patchesAt ["patch.yaml"]]⟩ ⟨[patchesAt ["paths/patch.yaml"]]⟩
    (eq_ok_of_toOption (by decide +kernel))
  have hpath := habsolute (patchesAt ["paths/patch.yaml"]) List.mem_cons_self
    { type := { kind := "SelectivePatch" }, path := "patches/path" } (by decide +kernel)
    [.key "patches", .index 0, .key "path"] (by decide +kernel) "paths/patch.yaml" rfl
    (by decide +kernel)
  exact absurd hpath (by decide +kernel)

end FullPath

end Manifest
