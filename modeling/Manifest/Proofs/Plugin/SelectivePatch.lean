import Manifest.Proofs.Selection
import Manifest.Proofs.Tree.Merge
import Manifest.Proofs.Yaml.Value

namespace Manifest

namespace Tree

structure SparesIdentity (es : Entries Tree) : Prop where
  distinct : Entries.Distinct es
  apiVersion : Entries.find? "apiVersion" es = none
  kind : Entries.find? "kind" es = none
  metadata : ∀ m, Entries.find? "metadata" es = some m → ∃ rest, m = .map rest ∧
    Entries.find? "name" rest = none ∧ Entries.find? "namespace" rest = none

theorem field?_merge_of_find?_eq_none {key : String} {es : Entries Tree}
    (h : Entries.find? key es = none) (t : Tree) :
    (merge (.map es) t).field? key = t.field? key := by
  by_cases hmap : ∃ ts, t = .map ts
  · obtain ⟨ts, rfl⟩ := hmap
    rw [merge_map_map]
    exact find?_mergeEntries_of_not_mem (Entries.find?_eq_none_iff.1 h) ts
  · rw [merge_map_of_not_map fun ts hts => hmap ⟨ts, hts⟩]
    cases t with
    | map ts => exact absurd ⟨ts, rfl⟩ hmap
    | _ => exact h

theorem sparesIdentity_withoutIdentity {fs ms : Entries Tree} (wf : (map fs).WellFormed)
    (hms : Entries.find? "metadata" fs = some (.map ms)) :
    ∃ es, (map fs).withoutIdentity = .map es ∧ SparesIdentity es := by
  have wfm : Entries.Distinct ms :=
    (wellFormedEntries_iff.1 wf.2 ("metadata", .map ms) (Entries.mem_of_find? hms)).1
  have distinct : Entries.Distinct (Entries.erase "apiVersion" fs) :=
    Entries.distinct_erase wf.1
  have hversion :
      Entries.find? "apiVersion" (Entries.erase "kind" (Entries.erase "apiVersion" fs)) = none := by
    rw [Entries.find?_erase_of_ne (by decide), Entries.find?_erase_self wf.1]
  have hkind : Entries.find? "kind" (Entries.erase "kind" (Entries.erase "apiVersion" fs)) = none :=
    Entries.find?_erase_self distinct
  have hmetadata : Entries.find? "metadata" (Entries.erase "kind" (Entries.erase "apiVersion" fs)) =
      some (.map ms) := by
    rwa [Entries.find?_erase_of_ne (by decide), Entries.find?_erase_of_ne (by decide)]
  have distinct' : Entries.Distinct (Entries.erase "kind" (Entries.erase "apiVersion" fs)) :=
    Entries.distinct_erase distinct
  rw [withoutIdentity, hmetadata]
  generalize Entries.erase "kind" (Entries.erase "apiVersion" fs) = es at *
  dsimp only
  split
  · refine ⟨_, rfl, Entries.distinct_erase distinct', ?_, ?_, fun m hm => ?_⟩
    · rwa [Entries.find?_erase_of_ne (by decide)]
    · rwa [Entries.find?_erase_of_ne (by decide)]
    · rw [Entries.find?_erase_self distinct'] at hm
      cases hm
  · refine ⟨_, rfl, Entries.distinct_modify distinct', ?_, ?_, fun m hm => ?_⟩
    · rwa [Entries.find?_modify, if_neg (by decide)]
    · rwa [Entries.find?_modify, if_neg (by decide)]
    · rw [Entries.find?_modify, if_pos rfl, hmetadata] at hm
      refine ⟨_, (Option.some.inj hm).symm, ?_, ?_⟩
      · rw [Entries.find?_erase_of_ne (by decide), Entries.find?_erase_self wfm]
      · exact Entries.find?_erase_self (Entries.distinct_erase wfm)

theorem field?_metadata_merge {es : Entries Tree} (spares : SparesIdentity es)
    (ts : Entries Tree) {key : String} (hkey : key = "name" ∨ key = "namespace") :
    ((merge (.map es) (.map ts)).field? "metadata").bind (field? key) =
      ((map ts).field? "metadata").bind (field? key) := by
  cases hm : Entries.find? "metadata" es with
  | none => rw [field?_merge_of_find?_eq_none hm]
  | some m =>
    obtain ⟨rest, rfl, hname, hnamespace⟩ := spares.metadata m hm
    have hrest : Entries.find? key rest = none := by
      rcases hkey with rfl | rfl
      · exact hname
      · exact hnamespace
    have hfind : (merge (.map es) (.map ts)).field? "metadata" =
        some (((map ts).field? "metadata").elim (.map rest) (merge (.map rest))) := by
      rw [merge_map_map]
      exact find?_mergeEntries ts spares.distinct hm nofun
    rw [hfind]
    cases (map ts).field? "metadata" with
    | none => exact hrest
    | some u => exact field?_merge_of_find?_eq_none hrest u

end Tree

namespace Document

theorem keepsIdentity_merge {es : Entries Tree} (spares : Tree.SparesIdentity es) {d : Document}
    (map : ∃ ts, d.tree = .map ts) :
    d.KeepsIdentity { d with tree := Tree.merge (.map es) d.tree } := by
  obtain ⟨ts, hts⟩ := map
  refine ⟨rfl, ?_⟩
  have hmetadata : ∀ key, key = "name" ∨ key = "namespace" →
      (Tree.merge (.map es) d.tree).get? (.ofKeys ["metadata", key]) =
        d.tree.get? (.ofKeys ["metadata", key]) := by
    intro key hkey
    have hfield := Tree.field?_metadata_merge spares ts hkey
    rw [hts, Tree.get?_ofKeys_cons, Tree.get?_ofKeys_cons]
    simpa only [Position.ofKeys, List.map_cons, List.map_nil, Tree.get?_key] using hfield
  simp only [identityFields, List.forall_mem_cons]
  refine ⟨?_, ?_, hmetadata _ (.inr rfl), hmetadata _ (.inl rfl), List.forall_mem_nil _⟩
  · rw [Position.ofKeys, List.map_singleton, Tree.get?_key, Tree.get?_key,
      Tree.field?_merge_of_find?_eq_none spares.apiVersion]
  · rw [Position.ofKeys, List.map_singleton, Tree.get?_key, Tree.get?_key,
      Tree.field?_merge_of_find?_eq_none spares.kind]

end Document

namespace Store

def KeepsIdentities (s s' : Store) : Prop :=
  List.Forall₂ Document.KeepsIdentity s.documents s'.documents

namespace KeepsIdentities

variable {s s' s'' : Store}

theorem refl (s : Store) : s.KeepsIdentities s := List.forall₂_same.2 fun d _ => .refl d

theorem trans (h : s.KeepsIdentities s') (h' : s'.KeepsIdentities s'') :
    s.KeepsIdentities s'' := by
  obtain ⟨ds⟩ := s
  obtain ⟨es⟩ := s'
  obtain ⟨fs⟩ := s''
  dsimp only [KeepsIdentities] at h h' ⊢
  induction h generalizing fs with
  | nil => exact h'
  | cons hd _ ih =>
    cases h' with
    | cons hd' h' => exact .cons (hd.trans hd') (ih _ h')

theorem valid (h : s.KeepsIdentities s') (valid : s.Valid) : s'.Valid := by
  obtain ⟨ds⟩ := s
  obtain ⟨es⟩ := s'
  dsimp only [KeepsIdentities, Valid] at h valid ⊢
  induction h with
  | nil => exact valid
  | cons hd _ ih =>
    obtain ⟨hvalid, hrest⟩ := List.forall_mem_cons.1 valid
    exact List.forall_mem_cons.2 ⟨hd.valid hvalid, ih hrest⟩

theorem ids_eq (h : s.KeepsIdentities s') : s'.ids = s.ids := by
  obtain ⟨ds⟩ := s
  obtain ⟨es⟩ := s'
  dsimp only [KeepsIdentities, ids] at h ⊢
  induction h with
  | nil => rfl
  | cons hd _ ih => rw [List.map_cons, List.map_cons, hd.id_eq, ih]

end KeepsIdentities

end Store

namespace Identity

/-- The kind and the name of `a` are those of `b`, and so is every other part of `a` that is not
empty. -/
def Covers (a b : Identity) : Prop :=
  b.type.kind = a.type.kind ∧ b.name = a.name ∧
    (a.type.group = "" ∨ b.type.group = a.type.group) ∧
    (a.type.version = "" ∨ b.type.version = a.type.version) ∧ (a.ns = "" ∨ b.ns = a.ns)

instance (a b : Identity) : Decidable (a.Covers b) := inferInstanceAs (Decidable (_ ∧ _))

end Identity

theorem Selector.exists_message_of_matcher {sel : Selector} {e : Error}
    (h : sel.matcher = .error e) : ∃ message, e = .configuration "selector" message := by
  have hparse : ∀ text e, Requirements.parse text = .error e →
      ∃ message, e = .configuration "selector" message := by
    intro text e h
    obtain ⟨piece, -, hpiece⟩ := exists_error_of_mapM h
    split at hpiece
    · cases hpiece
    · exact ⟨_, (Except.error.inj hpiece).symm⟩
  rw [matcher] at h
  cases hlabels : Requirements.parse sel.labels with
  | error e' =>
    rw [hlabels] at h
    exact hparse _ e (Except.error.inj h ▸ hlabels)
  | ok labels =>
    rw [hlabels] at h
    cases hannotations : Requirements.parse sel.annotations with
    | error e' =>
      rw [hannotations] at h
      exact hparse _ e (Except.error.inj h ▸ hannotations)
    | ok annotations =>
      rw [hannotations] at h
      cases h

variable {s s' : Store}

namespace Patch

variable {p : Patch} {accepts : Document → Bool} {d e : Document}

def Readable (p : Patch) : Prop :=
  ∃ target e, e.Valid ∧ e.tree.WellFormed ∧ p = ofDocument target e

def merged (p : Patch) (d : Document) : Document := { d with tree := p.tree.merge d.tree }

theorem keepsIdentity_merged (readable : p.Readable) (valid : d.Valid) :
    d.KeepsIdentity (p.merged d) := by
  obtain ⟨target, e, he, wf, rfl⟩ := readable
  obtain ⟨fs, hfs⟩ := he.tree_eq_map
  obtain ⟨ms, hms⟩ := Document.hasMetadata_of_name he.name_ne_empty
  rw [hfs] at wf hms
  obtain ⟨es, hes, spares⟩ := Tree.sparesIdentity_withoutIdentity wf hms
  rw [merged, ofDocument, hfs, hes]
  exact Document.keepsIdentity_merge spares valid.tree_eq_map

theorem apply_eq_ok (readable : p.Readable) (valid : s.Valid)
    (haccepts : p.target.matcher = .ok accepts) :
    p.apply s = .ok ⟨s.documents.map fun d => if accepts d then p.merged d else d⟩ := by
  refine bind_eq_ok.2 ⟨accepts, haccepts, Store.mapM_eq_ok.2 ?_⟩
  rw [List.map_map]
  refine List.map_congr_left fun d hd => ?_
  have hvalid := (keepsIdentity_merged readable (valid d hd)).valid (valid d hd)
  rw [Function.comp_apply]
  split
  · exact hvalid.replaceTree_eq rfl
  · rfl

theorem exists_matcher_ofDocument (valid : e.Valid) :
    ∃ accepts, (ofDocument none e).target.matcher = .ok accepts ∧
      ∀ d, accepts d = true ↔ e.id.Covers d.id := by
  obtain ⟨hkind, -, hname⟩ := Document.valid_iff.1 valid
  rw [← Document.kind_type] at hkind
  have hnone : Requirements.Spelled [] "" := Requirements.parse_eq_ok_iff.1 rfl
  refine ⟨_, Selector.matcher_eq_ok_iff.2 ⟨[], [], hnone, hnone, rfl⟩, fun d => ?_⟩
  rw [decide_eq_true_eq, Selector.Accepts, ← Document.kind_type]
  constructor
  · rintro ⟨hgroup, hversion, hkind', hname', hns, -, -⟩
    exact ⟨(hkind'.resolve_left hkind).symm, (hname'.resolve_left hname).symm,
      hgroup.imp_right Eq.symm, hversion.imp_right Eq.symm, hns.imp_right Eq.symm⟩
  · rintro ⟨hkind', hname', hgroup, hversion, hns⟩
    exact ⟨hgroup.imp_right Eq.symm, hversion.imp_right Eq.symm, .inr hkind'.symm,
      .inr hname'.symm, hns.imp_right Eq.symm, List.forall_mem_nil _, List.forall_mem_nil _⟩

theorem matcher_of_apply_eq_error {f : Error} (readable : p.Readable) (valid : s.Valid)
    (h : p.apply s = .error f) : p.target.matcher = .error f := by
  cases haccepts : p.target.matcher with
  | error f' =>
    rw [apply, haccepts] at h
    exact congrArg Except.error (Except.error.inj h)
  | ok accepts =>
    rw [apply_eq_ok readable valid haccepts] at h
    cases h

theorem keepsIdentities_of_apply (readable : p.Readable) (valid : s.Valid)
    (h : p.apply s = .ok s') : s.KeepsIdentities s' := by
  obtain ⟨accepts, haccepts, -⟩ := bind_eq_ok.1 h
  rw [apply_eq_ok readable valid haccepts] at h
  obtain rfl := Except.ok.inj h
  refine List.forall₂_map_right_iff.2 (List.forall₂_same.2 fun d hd => ?_)
  split
  · exact keepsIdentity_merged readable (valid d hd)
  · rfl

end Patch

namespace SelectivePatch

variable {w : Workspace} {config : Tree} {c : SelectivePatch}

theorem readable_of_patches {src : Source} {ps : List Patch} (h : src.patches w = .ok ps) :
    ∀ p ∈ ps, p.Readable := by
  obtain ⟨text, -, h⟩ := bind_eq_ok.1 h
  obtain ⟨store, hstore, h⟩ := bind_eq_ok.1 h
  obtain rfl := pure_eq_ok.1 h
  intro p hp
  obtain ⟨e, he, rfl⟩ := List.mem_map.1 hp
  obtain ⟨valid, wf⟩ := Store.of_parse hstore e he
  exact ⟨src.target, e, valid, wf, rfl⟩

theorem readable_of_configure (h : configure w config = .ok c) : ∀ p ∈ c.patches, p.Readable := by
  rw [configure] at h
  split at h
  · cases h
  · obtain ⟨pss, hpss, h⟩ := bind_eq_ok.1 h
    obtain rfl := pure_eq_ok.1 h
    intro p hp
    obtain ⟨ps, hps, hp⟩ := List.mem_flatten.1 hp
    exact forall_of_map_eq_ok (mapM_eq_ok.1 hpss) (fun src _ ps => readable_of_patches) ps hps p hp

theorem keepsIdentities_step {s₀ : Store} (readable : ∀ p ∈ c.patches, p.Readable)
    (valid : s₀.Valid) : ∀ s p s', p ∈ c.patches → s₀.KeepsIdentities s → p.apply s = .ok s' →
      s₀.KeepsIdentities s' := fun _ p _ hp kept hstep =>
  kept.trans (Patch.keepsIdentities_of_apply (readable p hp) (kept.valid valid) hstep)

theorem transform_keeps_identities (configured : configure w config = .ok c) (valid : s.Valid) :
    (∀ s', c.transform s = .ok s' → s.KeepsIdentities s' ∧ s'.Valid ∧ s'.ids = s.ids) ∧
      ∀ e, c.transform s = .error e → ∃ p ∈ c.patches, p.target.matcher = .error e ∧
        ∃ message, e = .configuration "selector" message := by
  have readable := readable_of_configure configured
  have step := keepsIdentities_step readable valid
  rw [transform]
  split
  · refine ⟨fun s' h => ?_, fun e h => ?_⟩
    · have kept := foldlM_invariant step (.refl s) h
      exact ⟨kept, kept.valid valid, kept.ids_eq⟩
    · obtain ⟨p, hp, s', kept, happly⟩ := exists_error_of_foldlM step (.refl s) h
      have hmatcher := Patch.matcher_of_apply_eq_error (readable p hp) (kept.valid valid) happly
      exact ⟨p, hp, hmatcher, Selector.exists_message_of_matcher hmatcher⟩
  · refine ⟨fun s' h => ?_, nofun⟩
    obtain rfl := Except.ok.inj h
    exact ⟨.refl s, valid, rfl⟩

def patching (target : Entries Tree) (text : String) : Tree :=
  .map [("apiVersion", .text "kfuse/v1"), ("kind", .text SelectivePatch.kind),
    ("enabled", .boolean true), ("patches", .list [.map (target ++ [("patch", .text text)])])]

def service (apiVersion : String) (labels : Entries Tree) : Document where
  tree := .map [("apiVersion", .text apiVersion), ("kind", .text "Service"),
    ("metadata", .map (("name", .text "web") :: labels))]

def labelling : Tree :=
  patching [("target", .map [("name", .text "web")])]
    "kind: Pod\nmetadata:\n  name: other\n  namespace: prod\n  labels:\n    app: web\n"

theorem transform_keeps_identities_named : ∃ c, configure ⟨".", {}, []⟩ labelling = .ok c ∧
    (Store.mk [service "v1" []]).Valid ∧
    c.transform ⟨[service "v1" []]⟩ =
      .ok ⟨[service "v1" [("labels", .map [("app", .text "web")])]]⟩ ∧
    (Store.mk [service "v1" []]).KeepsIdentities
      ⟨[service "v1" [("labels", .map [("app", .text "web")])]]⟩ := by
  have h : (configure ⟨".", {}, []⟩ labelling >>= fun c =>
      c.transform ⟨[service "v1" []]⟩).toOption =
    some ⟨[service "v1" [("labels", .map [("app", .text "web")])]]⟩ := by decide +kernel
  obtain ⟨c, hc, htransform⟩ := bind_eq_ok.1 (eq_ok_of_toOption h)
  have valid : (Store.mk [service "v1" []]).Valid := List.forall_mem_singleton.2 rfl
  exact ⟨c, hc, valid, htransform, ((transform_keeps_identities hc valid).1 _ htransform).1⟩

def Source.documents (w : Workspace) (src : Source) : Except Error (List Document) := do
  return (← Store.parse (← src.read w)).documents

def patchedBy (es : List Document) (d : Document) : Document :=
  es.foldl (fun d e => if e.id.Covers d.id then (Patch.ofDocument none e).merged d else d) d

theorem patchedBy_eq_self {es : List Document} {d : Document}
    (h : ∀ e ∈ es, ¬ e.id.Covers d.id) : patchedBy es d = d := by
  induction es with
  | nil => rfl
  | cons e es ih =>
    obtain ⟨he, hes⟩ := List.forall_mem_cons.1 h
    rw [patchedBy, List.foldl_cons, if_neg he]
    exact ih hes

/-- The induction is on the patches, over all stores, for each patch is met by the documents as the
patches before it left them. -/
theorem foldlM_apply_eq_ok {es : List Document} (readable : ∀ e ∈ es, e.Valid ∧ e.tree.WellFormed)
    (valid : s.Valid) : (es.map (Patch.ofDocument none)).foldlM (fun s p => p.apply s) s =
      .ok ⟨s.documents.map (patchedBy es)⟩ := by
  induction es generalizing s with
  | nil => exact congrArg Except.ok (Store.ext (List.map_id _).symm)
  | cons e es ih =>
    obtain ⟨⟨he, wf⟩, hes⟩ := List.forall_mem_cons.1 readable
    obtain ⟨accepts, haccepts, hcovers⟩ := Patch.exists_matcher_ofDocument he
    have hreadable : (Patch.ofDocument none e).Readable := ⟨none, e, he, wf, rfl⟩
    have happly := Patch.apply_eq_ok hreadable valid haccepts
    have kept := Patch.keepsIdentities_of_apply hreadable valid happly
    rw [List.map_cons, List.foldlM_cons, happly]
    refine (ih hes (kept.valid valid)).trans ?_
    simp only [List.map_map, hcovers]
    rfl

theorem patches_eq_of_untargeted {src : Source} {ps : List Patch} (untargeted : src.target = none)
    (h : src.patches w = .ok ps) : ∃ es, src.documents w = .ok es ∧
      ps = es.map (Patch.ofDocument none) ∧ ∀ e ∈ es, e.Valid ∧ e.tree.WellFormed := by
  obtain ⟨text, htext, h⟩ := bind_eq_ok.1 h
  obtain ⟨store, hstore, h⟩ := bind_eq_ok.1 h
  obtain rfl := pure_eq_ok.1 h
  refine ⟨store.documents, bind_eq_ok.2 ⟨text, htext, bind_eq_ok.2 ⟨store, hstore, rfl⟩⟩, ?_,
    Store.of_parse hstore⟩
  rw [untargeted]

theorem mapM_patches_of_untargeted {sources : List Source} {pss : List (List Patch)}
    (untargeted : ∀ src ∈ sources, src.target = none)
    (h : sources.mapM (Source.patches w) = .ok pss) :
    ∃ ess, sources.mapM (Source.documents w) = .ok ess ∧
      pss = ess.map (List.map (Patch.ofDocument none)) ∧
      ∀ e ∈ ess.flatten, e.Valid ∧ e.tree.WellFormed := by
  induction sources generalizing pss with
  | nil =>
    obtain rfl := pure_eq_ok.1 h
    exact ⟨[], rfl, rfl, nofun⟩
  | cons src sources ih =>
    obtain ⟨hsrc, hsources⟩ := List.forall_mem_cons.1 untargeted
    rw [List.mapM_cons] at h
    obtain ⟨ps, hps, h⟩ := bind_eq_ok.1 h
    obtain ⟨pss', hrest, h⟩ := bind_eq_ok.1 h
    obtain rfl := pure_eq_ok.1 h
    obtain ⟨es, hes, rfl, hvalid⟩ := patches_eq_of_untargeted hsrc hps
    obtain ⟨ess, hess, rfl, hvalids⟩ := ih hsources hrest
    refine ⟨es :: ess, ?_, rfl, ?_⟩
    · rw [List.mapM_cons]
      exact bind_eq_ok.2 ⟨es, hes, bind_eq_ok.2 ⟨ess, hess, rfl⟩⟩
    · exact List.forall_mem_append.2 ⟨hvalid, hvalids⟩

theorem configure_eq_ok_of_untargeted {enabled : Bool} {sources : List Source}
    (hfields : Config.Decoder.record fields? config = some (enabled, sources))
    (untargeted : ∀ src ∈ sources, src.target = none) (configured : configure w config = .ok c) :
    ∃ ess, sources.mapM (Source.documents w) = .ok ess ∧
      c = ⟨enabled, ess.flatten.map (Patch.ofDocument none)⟩ ∧
      ∀ e ∈ ess.flatten, e.Valid ∧ e.tree.WellFormed := by
  rw [configure, hfields] at configured
  obtain ⟨pss, hpss, hc⟩ := bind_eq_ok.1 configured
  obtain rfl := pure_eq_ok.1 hc
  obtain ⟨ess, hess, rfl, readable⟩ := mapM_patches_of_untargeted untargeted hpss
  exact ⟨ess, hess, by rw [List.map_flatten], readable⟩

/-- Patches without a target are merged into the documents that their identities cover, and every
other document stays as it is.  Where nothing but documents of the same identities is covered,
nothing else is changed. -/
theorem transform_untargeted {sources : List Source}
    (hfields : Config.Decoder.record fields? config = some (true, sources))
    (untargeted : ∀ src ∈ sources, src.target = none) (configured : configure w config = .ok c)
    (valid : s.Valid) :
    ∃ ess, sources.mapM (Source.documents w) = .ok ess ∧
      c.transform s = .ok ⟨s.documents.map (patchedBy ess.flatten)⟩ ∧
      (∀ d, patchedBy ess.flatten d ≠ d → ∃ e ∈ ess.flatten, e.id.Covers d.id) ∧
      ((∀ e ∈ ess.flatten, ∀ d ∈ s.documents, e.id.Covers d.id → d.id = e.id) →
        ∀ d ∈ s.documents, patchedBy ess.flatten d ≠ d → ∃ e ∈ ess.flatten, d.id = e.id) := by
  obtain ⟨ess, hess, rfl, readable⟩ :=
    configure_eq_ok_of_untargeted hfields untargeted configured
  have covered : ∀ d, patchedBy ess.flatten d ≠ d → ∃ e ∈ ess.flatten, e.id.Covers d.id := by
    intro d hchanged
    by_contra hnone
    exact hchanged (patchedBy_eq_self fun e he hcovers => hnone ⟨e, he, hcovers⟩)
  refine ⟨ess, hess, (if_pos rfl).trans (foldlM_apply_eq_ok readable valid), covered,
    fun exact d hd hchanged => ?_⟩
  obtain ⟨e, he, hcovers⟩ := covered d hchanged
  exact ⟨e, he, exact e he d hd hcovers⟩

def exposing : String :=
  "apiVersion: v1\nkind: Service\nmetadata:\n  name: web\n  labels:\n    app: web\n"

theorem fields?_patching : Config.Decoder.record fields? (patching [] exposing) =
    some (true, [⟨"", exposing, none⟩]) := rfl

theorem documents_exposing : [Source.mk "" exposing none].mapM (Source.documents ⟨".", {}, []⟩) =
    .ok [[service "v1" [("labels", .map [("app", .text "web")])]]] :=
  eq_ok_of_toOption (by decide +kernel)

theorem transform_untargeted_service : ∃ c, configure ⟨".", {}, []⟩ (patching [] exposing) = .ok c ∧
    (Store.mk [service "v1" [], service "v2" []]).Valid ∧
    c.transform ⟨[service "v1" [], service "v2" []]⟩ =
      .ok ⟨[service "v1" [("labels", .map [("app", .text "web")])], service "v2" []]⟩ := by
  have h : (configure ⟨".", {}, []⟩ (patching [] exposing)).toOption.isSome := by decide +kernel
  obtain ⟨c, hc⟩ := Option.isSome_iff_exists.1 h
  have configured := eq_ok_of_toOption hc
  have valid : (Store.mk [service "v1" [], service "v2" []]).Valid :=
    List.forall_mem_cons.2 ⟨rfl, List.forall_mem_singleton.2 rfl⟩
  obtain ⟨ess, hess, htransform, -, -⟩ :=
    transform_untargeted fields?_patching (List.forall_mem_singleton.2 rfl) configured valid
  rw [documents_exposing] at hess
  obtain rfl := Except.ok.inj hess
  refine ⟨c, configured, valid, htransform.trans (congrArg Except.ok ?_)⟩
  decide +kernel

/-- The empty group of a patch is no condition, so that a service of another group is changed. -/
theorem not_transform_untargeted_in_general :
    ¬ ∀ (w : Workspace) (config : Tree) (c : SelectivePatch) (sources : List Source)
      (ess : List (List Document)) (s s' : Store),
      Config.Decoder.record fields? config = some (true, sources) →
      (∀ src ∈ sources, src.target = none) → configure w config = .ok c →
      sources.mapM (Source.documents w) = .ok ess → s.Valid → s.ids.Nodup →
      c.transform s = .ok s' →
      ∀ (i : Nat) (d d' : Document), s.documents[i]? = some d → s'.documents[i]? = some d' →
        d' ≠ d → ∃ e ∈ ess.flatten, d.id = e.id := by
  intro h
  have heval : (configure ⟨".", {}, []⟩ (patching [] exposing) >>= fun c =>
      c.transform ⟨[service "serving.knative.dev/v1" []]⟩).toOption =
    some ⟨[service "serving.knative.dev/v1" [("labels", .map [("app", .text "web")])]]⟩ := by
    decide +kernel
  obtain ⟨c, hc, htransform⟩ := bind_eq_ok.1 (eq_ok_of_toOption heval)
  have valid : (Store.mk [service "serving.knative.dev/v1" []]).Valid :=
    List.forall_mem_singleton.2 rfl
  have howner := h _ _ c _ _ _ _ fields?_patching (List.forall_mem_singleton.2 rfl) hc
    documents_exposing valid (List.nodup_singleton _) htransform 0 _ _ rfl rfl (by decide +kernel)
  revert howner
  decide +kernel

end SelectivePatch

end Manifest
