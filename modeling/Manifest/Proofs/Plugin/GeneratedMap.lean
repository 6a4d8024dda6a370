import Manifest.Plugin.GeneratedMap
import Manifest.Proofs.ContentName
import Manifest.Proofs.Document
import Manifest.Proofs.Success
import Manifest.Proofs.Tree.Sorted

namespace Manifest

namespace MapRecipe

def plainId (r : MapRecipe) : Identity := ⟨r.kind.type, r.ns, r.name⟩

def metadata (r : MapRecipe) (name : String) : Entries Tree :=
  ("name", .text name) :: ((if r.ns = "" then [] else [("namespace", .text r.ns)]) ++
    (if r.labels = [] then [] else [("labels", textMap r.labels)]) ++
    (if r.annotations = [] then [] else [("annotations", textMap r.annotations)]))

def typeEntry (r : MapRecipe) : Entries Tree :=
  match r.kind with
  | .configMap => []
  | .secret => [("type", .text (r.secretType.getD "Opaque"))]

def tree (r : MapRecipe) (name : String) (data : Entries Tree) : Tree :=
  .map ([("apiVersion", .text "v1"), ("kind", .text r.kind.name),
    ("metadata", .map (r.metadata name))] ++ r.typeEntry ++ [("data", .map data)])

def head (k : MapKind) (metadata : Entries Tree) : Tree :=
  .map [("apiVersion", .text "v1"), ("kind", .text k.name), ("metadata", .map metadata)]

theorem tree_setMetadata_head {k : MapKind} {es : Entries Tree} {d : Document}
    (h : d.tree = head k es) (key : String) (value : Tree) :
    (d.setMetadata key value).tree = head k (Entries.insert key value es) := by
  rw [Document.tree_setMetadata, h]
  rfl

theorem tree_metadataField {k : MapKind} {es : Entries Tree} {d : Document}
    (h : d.tree = head k es) (key : String) (texts : Entries String) :
    (metadataField key texts d).tree =
      head k (if texts = [] then es else Entries.insert key (textMap texts) es) := by
  rw [metadataField]
  split
  · rw [h]
  · rw [tree_setMetadata_head h]

theorem tree_topField {es : Entries Tree} {d : Document} (h : d.tree = .map es) (key : String)
    (value : Tree) : (topField key value d).tree = .map (Entries.insert key value es) := by
  rw [topField, h]

def labelled (r : MapRecipe) : Document :=
  metadataField "annotations" r.annotations (metadataField "labels" r.labels
    (if r.ns = "" then Document.skeleton r.kind.type r.name
      else (Document.skeleton r.kind.type r.name).setNamespace r.ns))

theorem tree_labelled (r : MapRecipe) : r.labelled.tree = head r.kind (r.metadata r.name) := by
  have hskeleton : (Document.skeleton r.kind.type r.name).tree =
      head r.kind [("name", .text r.name)] := by
    cases r.kind <;> rfl
  have hns : (if r.ns = "" then Document.skeleton r.kind.type r.name
      else (Document.skeleton r.kind.type r.name).setNamespace r.ns).tree = head r.kind
        (if r.ns = "" then [("name", .text r.name)]
          else Entries.insert "namespace" (.text r.ns) [("name", .text r.name)]) := by
    split
    · exact hskeleton
    · exact tree_setMetadata_head hskeleton _ _
  rw [labelled, tree_metadataField (tree_metadataField hns _ _), metadata]
  by_cases hns : r.ns = "" <;> by_cases hl : r.labels = [] <;> by_cases ha : r.annotations = [] <;>
    simp [hns, hl, ha, Entries.insert]

theorem tree_assemble (r : MapRecipe) (data : Entries Tree) :
    (r.assemble data).tree = r.tree r.name data := by
  have hassemble : r.assemble data = topField "data" (.map data) (match r.kind with
    | .configMap => r.labelled
    | .secret => topField "type" (.text (r.secretType.getD "Opaque")) r.labelled) := rfl
  rw [hassemble, tree, typeEntry]
  have hlabelled := r.tree_labelled
  cases hk : r.kind with
  | configMap =>
    rw [hk] at hlabelled
    exact tree_topField hlabelled _ _
  | secret =>
    rw [hk] at hlabelled
    exact tree_topField (tree_topField hlabelled _ _) _ _

@[simp] theorem previous_assemble (r : MapRecipe) (data : Entries Tree) :
    (r.assemble data).previous = [] := by
  have hmeta : ∀ key texts d, (metadataField key texts d).previous = d.previous := by
    intro key texts d
    rw [metadataField]
    split <;> rfl
  have htop : ∀ key value d, (topField key value d).previous = d.previous := by
    intro key value d
    rw [topField]
    split <;> rfl
  have hlabelled : r.labelled.previous = [] := by
    rw [labelled, hmeta, hmeta]
    split <;> rfl
  have hassemble : r.assemble data = topField "data" (.map data) (match r.kind with
    | .configMap => r.labelled
    | .secret => topField "type" (.text (r.secretType.getD "Opaque")) r.labelled) := rfl
  rw [hassemble, htop]
  cases r.kind with
  | configMap => exact hlabelled
  | secret => exact (htop _ _ _).trans hlabelled

def digested (r : MapRecipe) (name : String) (data : Entries Tree) : Tree :=
  .map ([("kind", .text r.kind.name)] ++ r.typeEntry ++ [("name", .text name), ("data", .map data)])

def hashedName (r : MapRecipe) (name : String) (data : Entries Tree) : String :=
  name ++ "-" ++ ContentName.hashTree (r.digested name data)

section Described

variable {r : MapRecipe} {name : String} {data : Entries Tree} {d : Document}
  (h : d.tree = r.tree name data)

include h

theorem kind_of_tree : d.kind = r.kind.name := by
  rw [Document.kind, h]
  rfl

theorem type_of_tree : d.type = r.kind.type := by
  have hversion : d.apiVersion = "v1" := by
    rw [Document.apiVersion, h]
    rfl
  rw [Document.type, hversion, kind_of_tree h]
  cases r.kind <;> decide

theorem name_of_tree : d.name = name := by
  rw [Document.name, Document.metadata?, h]
  rfl

theorem ns_of_tree : d.ns = r.ns := by
  have hfield : d.ns =
      (((Tree.map (r.metadata name)).field? "namespace").bind Tree.string?).getD "" := by
    rw [Document.ns, Document.metadata?, h]
    rfl
  rw [hfield, metadata]
  by_cases hns : r.ns = "" <;> by_cases hl : r.labels = [] <;> by_cases ha : r.annotations = [] <;>
    simp [hns, hl, ha, Tree.field?, Tree.entries?, Entries.find?_cons, Tree.string?]

theorem id_of_tree : d.id = ⟨r.kind.type, r.ns, name⟩ := by
  rw [Document.id, type_of_tree h, ns_of_tree h, name_of_tree h]

theorem tree_setName_of_tree (new : String) : (d.setName new).tree = r.tree new data := by
  rw [Document.setName, Document.tree_setMetadata, h]
  rfl

theorem tree_rename_of_tree (new : String) : (d.rename new).tree = r.tree new data :=
  tree_setName_of_tree h new

theorem hasMetadata_of_tree : d.HasMetadata := ⟨r.metadata name, by rw [h]; rfl⟩

theorem valid_of_tree (named : name ≠ "") : d.Valid := by
  refine Document.valid_iff.2 ⟨?_, .inr ⟨"v1", by rw [h]; rfl⟩, by rwa [name_of_tree h]⟩
  rw [kind_of_tree h]
  cases r.kind <;> decide

theorem data_of_tree : d.tree.field? "data" = some (.map data) := by
  rw [h, tree, typeEntry]
  cases r.kind <;> rfl

theorem suffixed_of_tree : ContentName.suffixed [] d = .ok (r.hashedName name data) := by
  have hinput : ContentName.input d.kind d.name d.tree = r.digested name data := by
    rw [kind_of_tree h, name_of_tree h, h, tree, digested, typeEntry]
    cases r.kind <;> rfl
  rw [ContentName.suffixed_nil, hinput, name_of_tree h, hashedName]

end Described

theorem hashedName_ne_empty (r : MapRecipe) (name : String) (data : Entries Tree) :
    r.hashedName name data ≠ "" :=
  ContentName.ne_empty_of_suffixed (d := ⟨r.tree name data, []⟩) (suffixed_of_tree rfl)

theorem hashedName_ne (r : MapRecipe) (name : String) (data : Entries Tree) :
    r.hashedName name data ≠ name := by
  intro h
  have hlength := congrArg String.length h
  rw [hashedName, String.length_append, String.length_append] at hlength
  have hhyphen : "-".length = 1 := rfl
  omega

theorem all_hashedName (r : MapRecipe) {name : String} (data : Entries Tree)
    (all : name.toList.all Reference.isNameChar = true) :
    (r.hashedName name data).toList.all Reference.isNameChar = true := by
  have htree : (Document.mk (r.tree name data) []).tree = r.tree name data := rfl
  exact ContentName.all_suffixed (suffixed_of_tree htree) (by rwa [name_of_tree htree])

theorem hashedName_congr {r r' : MapRecipe} (kind : r.kind = r'.kind)
    (type : r.typeEntry = r'.typeEntry) (name : String) {data data' : Entries Tree}
    (distinct : Entries.Distinct data) (perm : data.Perm data') :
    r.hashedName name data = r'.hashedName name data' := by
  have hsorted : (r.digested name data).sorted = (r'.digested name data').sorted := by
    rw [digested, digested, kind, type, Tree.sorted_map, Tree.sorted_map]
    simp only [Entries.mapValues, List.map_append, List.map_cons, List.map_nil,
      Tree.sorted_map_of_perm distinct perm]
  rw [hashedName, hashedName, ContentName.hashTree, ContentName.hashTree, ContentName.canonicalText,
    ContentName.canonicalText, hsorted]

theorem configure_eq_ok {kind : MapKind} {config : Tree} {r : MapRecipe} :
    configure kind config = .ok r ↔ Config.Decoder.record (ofFields? kind) config = some r ∧
      r.name ≠ "" ∧ Validity.nameFault? r.name = none := by
  rw [configure]
  cases Config.Decoder.record (ofFields? kind) config with
  | none => exact iff_of_false (fun h => by cases h) fun h => by cases h.1
  | some r' =>
    rw [Option.some.injEq]
    dsimp only
    split
    · rename_i hempty
      refine iff_of_false (fun h => by cases h) fun h => h.2.1 ?_
      rw [← h.1, hempty]
    · rename_i hne
      split
      · rename_i message hfault
        refine iff_of_false (fun h => by cases h) fun h => ?_
        rw [← h.1, hfault] at h
        cases h.2.2
      · rename_i hnone
        rw [Except.ok.injEq]
        exact ⟨fun heq => heq ▸ ⟨rfl, hne, hnone⟩, And.left⟩

def entries (r : MapRecipe) (pairs : List (String × String)) : Entries Tree :=
  pairs.map fun p => (p.1, .text (r.kind.stored p.2))

structure ValidPairs (pairs : List (String × String)) : Prop where
  keys : ∀ p ∈ pairs, Validity.keyFault? p.1 = none
  distinct : (pairs.map Prod.fst).Nodup

theorem addPair_eq_ok {r : MapRecipe} {es es' : Entries Tree} {p : String × String} :
    r.addPair es p = .ok es' ↔ Validity.keyFault? p.1 = none ∧ p.1 ∉ es.keys ∧
      es' = es ++ [(p.1, .text (r.kind.stored p.2))] := by
  rw [addPair]
  cases hkey : Validity.keyFault? p.1 with
  | some message => exact ⟨nofun, fun h => nomatch h.1⟩
  | none =>
    by_cases hmem : p.1 ∈ es.keys
    · rw [if_pos (Entries.has_iff_mem_keys.2 hmem)]
      exact ⟨nofun, fun h => absurd hmem h.2.1⟩
    · rw [if_neg (mt Entries.has_iff_mem_keys.1 hmem)]
      constructor
      · intro h
        exact ⟨rfl, hmem, (Except.ok.inj h).symm⟩
      · intro h
        exact congrArg Except.ok h.2.2.symm

theorem foldlM_addPair_eq_ok {r : MapRecipe} {ps : List (String × String)}
    {es data : Entries Tree} :
    ps.foldlM r.addPair es = .ok data ↔
      ValidPairs ps ∧ (∀ p ∈ ps, p.1 ∉ es.keys) ∧ data = es ++ r.entries ps := by
  induction ps generalizing es with
  | nil =>
    constructor
    · intro h
      exact ⟨⟨nofun, .nil⟩, nofun, by rw [← pure_eq_ok.1 h, entries, List.map_nil, List.append_nil]⟩
    · rintro ⟨-, -, rfl⟩
      exact pure_eq_ok.2 (List.append_nil es).symm
  | cons p ps ih =>
    rw [List.foldlM_cons, bind_eq_ok]
    constructor
    · rintro ⟨es', hes', h⟩
      obtain ⟨hkey, hnew, rfl⟩ := addPair_eq_ok.1 hes'
      obtain ⟨hvalid, hfresh, rfl⟩ := ih.1 h
      simp only [Entries.keys, List.map_append, List.mem_append, not_or] at hfresh
      refine ⟨⟨?_, ?_⟩, ?_, ?_⟩
      · exact List.forall_mem_cons.2 ⟨hkey, hvalid.keys⟩
      · refine List.nodup_cons.2 ⟨fun hmem => ?_, hvalid.distinct⟩
        obtain ⟨p', hp', heq⟩ := List.mem_map.1 hmem
        exact (hfresh p' hp').2 (by simp [heq])
      · exact List.forall_mem_cons.2 ⟨hnew, fun p' hp' => (hfresh p' hp').1⟩
      · rw [List.append_assoc]
        rfl
    · rintro ⟨hvalid, hfresh, rfl⟩
      obtain ⟨hkey, hkeys⟩ := List.forall_mem_cons.1 hvalid.keys
      obtain ⟨hnew, hothers⟩ := List.forall_mem_cons.1 hfresh
      obtain ⟨hp, hdistinct⟩ := List.nodup_cons.1 hvalid.distinct
      refine ⟨_, addPair_eq_ok.2 ⟨hkey, hnew, rfl⟩, ih.2 ⟨⟨hkeys, hdistinct⟩, fun p' hp' => ?_, ?_⟩⟩
      · simp only [Entries.keys, List.map_append, List.mem_append, not_or]
        refine ⟨hothers p' hp', fun hmem => hp ?_⟩
        have heq : p'.1 = p.1 := by simpa using hmem
        exact heq ▸ List.mem_map_of_mem hp'
      · rw [List.append_assoc]
        rfl

theorem build_eq_ok {w : Workspace} {r : MapRecipe} {d : Document} :
    r.build w = .ok d ↔
      ∃ ps, r.pairs w = .ok ps ∧ ValidPairs ps ∧ d = r.assemble (r.entries ps) := by
  rw [build, bind_eq_ok]
  refine exists_congr fun ps => and_congr_right fun _ => ?_
  rw [bind_eq_ok]
  constructor
  · rintro ⟨data, hdata, h⟩
    obtain ⟨hvalid, -, rfl⟩ := foldlM_addPair_eq_ok.1 hdata
    exact ⟨hvalid, (pure_eq_ok.1 h).symm⟩
  · rintro ⟨hvalid, rfl⟩
    exact ⟨_, foldlM_addPair_eq_ok.2 ⟨hvalid, fun _ _ => List.not_mem_nil, rfl⟩, rfl⟩

theorem generate_eq_ok {w : Workspace} {r : MapRecipe} (hashed : r.plainName = false)
    {d : Document} : r.generate w = .ok d ↔
      ∃ ps, r.pairs w = .ok ps ∧ ValidPairs ps ∧
        d = (r.assemble (r.entries ps)).rename (r.hashedName r.name (r.entries ps)) := by
  rw [generate, bind_eq_ok]
  constructor
  · rintro ⟨d₀, hd₀, h⟩
    obtain ⟨ps, hps, hvalid, rfl⟩ := build_eq_ok.1 hd₀
    rw [hashed, suffixed_of_tree (r.tree_assemble _)] at h
    exact ⟨ps, hps, hvalid, (pure_eq_ok.1 h).symm⟩
  · rintro ⟨ps, hps, hvalid, rfl⟩
    refine ⟨_, build_eq_ok.2 ⟨ps, hps, hvalid, rfl⟩, ?_⟩
    rw [hashed, suffixed_of_tree (r.tree_assemble _)]
    rfl

theorem tree_of_generate {w : Workspace} {r : MapRecipe} {d : Document}
    (h : r.generate w = .ok d) : ∃ ps name, r.pairs w = .ok ps ∧ ValidPairs ps ∧
      d.tree = r.tree name (r.entries ps) ∧ d.firstId = ⟨r.kind.type, r.ns, r.name⟩ := by
  obtain ⟨d₀, hd₀, h⟩ := bind_eq_ok.1 h
  obtain ⟨ps, hps, hvalid, rfl⟩ := build_eq_ok.1 hd₀
  have htree := r.tree_assemble (r.entries ps)
  have hfirst : (r.assemble (r.entries ps)).firstId = ⟨r.kind.type, r.ns, r.name⟩ := by
    rw [Document.firstId, previous_assemble]
    exact id_of_tree htree
  split at h
  · obtain rfl := pure_eq_ok.1 h
    exact ⟨ps, r.name, hps, hvalid, htree, hfirst⟩
  · rw [suffixed_of_tree htree] at h
    obtain rfl := pure_eq_ok.1 h
    exact ⟨ps, _, hps, hvalid, tree_setName_of_tree htree _,
      (Document.firstId_rename _ _).trans hfirst⟩

theorem valid_of_generate {w : Workspace} {r : MapRecipe} {d : Document} (named : r.name ≠ "")
    (h : r.generate w = .ok d) : d.Valid := by
  obtain ⟨d₀, hd₀, h⟩ := bind_eq_ok.1 h
  obtain ⟨ps, -, -, rfl⟩ := build_eq_ok.1 hd₀
  have valid := valid_of_tree (r.tree_assemble (r.entries ps)) named
  split at h
  · exact pure_eq_ok.1 h ▸ valid
  · obtain ⟨name, hname, h⟩ := bind_eq_ok.1 h
    exact pure_eq_ok.1 h ▸ valid.rename (ContentName.ne_empty_of_suffixed hname)

/-- With digits, the tree has the hashed name, and the plain identity is the only former one. -/
theorem hashed_of_generate {w : Workspace} {r : MapRecipe} {d : Document}
    (hashed : r.plainName = false) (h : r.generate w = .ok d) :
    ∃ data, d.tree = r.tree (r.hashedName r.name data) data ∧ d.previous = [r.plainId] := by
  obtain ⟨ps, -, -, rfl⟩ := (generate_eq_ok hashed).1 h
  have htree := r.tree_assemble (r.entries ps)
  refine ⟨r.entries ps, tree_rename_of_tree htree _, ?_⟩
  rw [Document.previous_rename, previous_assemble, id_of_tree htree]
  rfl

end MapRecipe

end Manifest
