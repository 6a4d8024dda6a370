import Manifest.Plugin.GeneratedMap
import Manifest.Proofs.Document
import Manifest.Proofs.Reference.Repair

namespace Manifest.Reference

open FieldPath

def podFieldKeys : List (MapKind × String × List String) :=
  [(.configMap, "volumes/configMap/name", ["volumes", "configMap", "name"]),
    (.configMap, "volumes/projected/sources/configMap/name",
      ["volumes", "projected", "sources", "configMap", "name"]),
    (.configMap, "containers/env/valueFrom/configMapKeyRef/name",
      ["containers", "env", "valueFrom", "configMapKeyRef", "name"]),
    (.configMap, "containers/envFrom/configMapRef/name",
      ["containers", "envFrom", "configMapRef", "name"]),
    (.configMap, "initContainers/env/valueFrom/configMapKeyRef/name",
      ["initContainers", "env", "valueFrom", "configMapKeyRef", "name"]),
    (.configMap, "initContainers/envFrom/configMapRef/name",
      ["initContainers", "envFrom", "configMapRef", "name"]),
    (.secret, "volumes/secret/secretName", ["volumes", "secret", "secretName"]),
    (.secret, "volumes/projected/sources/secret/name",
      ["volumes", "projected", "sources", "secret", "name"]),
    (.secret, "imagePullSecrets/name", ["imagePullSecrets", "name"]),
    (.secret, "containers/env/valueFrom/secretKeyRef/name",
      ["containers", "env", "valueFrom", "secretKeyRef", "name"]),
    (.secret, "containers/envFrom/secretRef/name",
      ["containers", "envFrom", "secretRef", "name"]),
    (.secret, "initContainers/env/valueFrom/secretKeyRef/name",
      ["initContainers", "env", "valueFrom", "secretKeyRef", "name"]),
    (.secret, "initContainers/envFrom/secretRef/name",
      ["initContainers", "envFrom", "secretRef", "name"])]

def otherFieldKeys : List (String × String × List String) :=
  [("Ingress", "spec/tls/secretName", ["spec", "tls", "secretName"]),
    ("ServiceAccount", "secrets/name", ["secrets", "name"]),
    ("ServiceAccount", "imagePullSecrets/name", ["imagePullSecrets", "name"])]

inductive BuiltinField : MapKind → FieldSpec → List String → Prop
  | pod {kind pod k path keys} : (kind, pod) ∈ Rules.podPaths → (k, path, keys) ∈ podFieldKeys →
      BuiltinField k (Rules.spec kind (pod ++ "/" ++ path)) (slashKeys pod ++ keys)
  | other {kind path keys} : (kind, path, keys) ∈ otherFieldKeys →
      BuiltinField .secret (Rules.spec kind path) keys

theorem podFieldKeys_read : ∀ f ∈ podFieldKeys, isPlain f.2.1 ∧ slashKeys f.2.1 = f.2.2 := by
  decide +kernel

theorem otherFieldKeys_read : ∀ f ∈ otherFieldKeys,
    isPlain f.2.1 ∧ '/' ∈ f.2.1.toList ∧ slashKeys f.2.1 = f.2.2 := by
  decide

theorem podPaths_read :
    ∀ p ∈ Rules.podPaths, isPlain p.2 ∧ (slashKeys p.2).head? = some "spec" := by
  decide

theorem podFieldKeys_separate :
    ∀ f ∈ podFieldKeys, ∀ g ∈ podFieldKeys, f.2.2 <+: g.2.2 → f = g := by
  decide

theorem otherFieldKeys_separate :
    ∀ f ∈ otherFieldKeys, ∀ g ∈ otherFieldKeys, f.1 = g.1 → f.2.2 <+: g.2.2 → f = g := by
  decide

theorem podPaths_kinds : ∀ p ∈ Rules.podPaths, p.1 ∉ ["", "ConfigMap", "Secret"] ∧
    (∀ q ∈ Rules.podPaths, p.1 = q.1 → p = q) ∧ ∀ f ∈ otherFieldKeys, p.1 ≠ f.1 := by
  decide

theorem otherFieldKeys_kinds : ∀ f ∈ otherFieldKeys, f.1 ∉ ["", "ConfigMap", "Secret"] ∧
    f.2.2.head?.any (· ∈ ["spec", "secrets", "imagePullSecrets"]) := by
  decide

theorem builtinField_of_mem_podFields {k : MapKind} {outside inContainers : List String}
    (h : (outside ++ Rules.containerLists.flatMap fun list => inContainers.map fun f =>
      list ++ "/" ++ f) = (podFieldKeys.filter (·.1 = k)).map (·.2.1))
    {spec : FieldSpec} (hspec : spec ∈ Rules.podFields outside inContainers) :
    ∃ keys, BuiltinField k spec keys := by
  simp only [Rules.podFields, h, List.mem_flatMap, List.mem_map, List.mem_filter,
    decide_eq_true_eq] at hspec
  obtain ⟨⟨kind, pod⟩, hpod, _, ⟨⟨k', path, keys⟩, ⟨hf, rfl⟩, rfl⟩, rfl⟩ := hspec
  exact ⟨_, .pod hpod hf⟩

theorem builtinField_of_mem {rule : NameRule} (hrule : rule ∈ Rules.builtin.names)
    {spec : FieldSpec} (hspec : spec ∈ rule.fields) :
    ∃ k keys, rule.type = MapKind.type k ∧ BuiltinField k spec keys := by
  simp only [Rules.builtin, List.mem_cons, List.not_mem_nil, or_false] at hrule
  rcases hrule with rfl | rfl
  · obtain ⟨keys, h⟩ := builtinField_of_mem_podFields (k := .configMap) (by decide) hspec
    exact ⟨.configMap, keys, rfl, h⟩
  · simp only [List.mem_append, List.mem_cons, List.not_mem_nil, or_false] at hspec
    rcases hspec with hspec | rfl | rfl | rfl
    · obtain ⟨keys, h⟩ := builtinField_of_mem_podFields (k := .secret) (by decide) hspec
      exact ⟨.secret, keys, rfl, h⟩
    · exact ⟨.secret, _, rfl, .other (List.mem_of_getElem? (i := 0) rfl)⟩
    · exact ⟨.secret, _, rfl, .other (List.mem_of_getElem? (i := 1) rfl)⟩
    · exact ⟨.secret, _, rfl, .other (List.mem_of_getElem? (i := 2) rfl)⟩

namespace BuiltinField

variable {k k' : MapKind} {spec spec' : FieldSpec} {keys keys' : List String}

theorem keyed (h : BuiltinField k spec keys) : Keyed spec.path keys := by
  cases h with
  | pod hpod hf =>
    obtain ⟨hplain, hkeys⟩ := podFieldKeys_read _ hf
    have h := keyed_append (podPaths_read _ hpod).1 hplain
    rwa [hkeys] at h
  | other hf =>
    obtain ⟨hplain, hslash, hkeys⟩ := otherFieldKeys_read _ hf
    have h := keyed_slashKeys hplain hslash
    rwa [hkeys] at h

theorem head (h : BuiltinField k spec keys) :
    ∃ key rest, keys = key :: rest ∧ key ∈ ["spec", "secrets", "imagePullSecrets"] := by
  cases h with
  | @pod kind pod k path keys hpod hf =>
    have := (podPaths_read _ hpod).2
    cases hs : slashKeys pod with
    | nil => simp [hs] at this
    | cons key rest =>
      obtain rfl : key = "spec" := by simpa [hs] using this
      exact ⟨"spec", rest ++ keys, rfl, by simp⟩
  | other hf =>
    have := (otherFieldKeys_kinds _ hf).2
    cases keys with
    | nil => simp at this
    | cons key rest => exact ⟨key, rest, rfl, by simpa using this⟩

theorem type_eq (h : BuiltinField k spec keys) :
    ∃ kind, spec.type = { kind } ∧ kind ∉ ["", "ConfigMap", "Secret"] := by
  cases h with
  | pod hpod hf => exact ⟨_, rfl, (podPaths_kinds _ hpod).1⟩
  | other hf => exact ⟨_, rfl, (otherFieldKeys_kinds _ hf).1⟩

theorem appliesTo_iff (h : BuiltinField k spec keys) (t : ResourceType) :
    spec.appliesTo t = true ↔ spec.type.kind = t.kind := by
  obtain ⟨kind, htype, hkind⟩ := h.type_eq
  have hne : kind ≠ "" := fun hk => hkind (hk ▸ List.mem_cons_self)
  simp [FieldSpec.appliesTo, ResourceType.selectedBy, htype, hne]

theorem not_appliesTo_map (h : BuiltinField k spec keys) (m : MapKind) {t : ResourceType}
    (ht : t.kind = m.name) : spec.appliesTo t = false := by
  obtain ⟨kind, htype, hkind⟩ := h.type_eq
  rw [← Bool.not_eq_true, h.appliesTo_iff, htype, ht]
  rintro rfl
  cases m <;> exact hkind (by decide)

theorem separate (h : BuiltinField k spec keys) (h' : BuiltinField k' spec' keys')
    (kinds : spec.type.kind = spec'.type.kind) (hle : keys <+: keys') : k = k' ∧ spec = spec' := by
  cases h with
  | pod hpod hf =>
    cases h' with
    | pod hpod' hf' =>
      obtain ⟨rfl, rfl⟩ := Prod.mk.inj ((podPaths_kinds _ hpod).2.1 _ hpod' kinds)
      have := podFieldKeys_separate _ hf _ hf' ((List.prefix_append_right_inj _).1 hle)
      simp only [Prod.mk.injEq] at this
      obtain ⟨rfl, rfl, -⟩ := this
      exact ⟨rfl, rfl⟩
    | other hf' => exact absurd kinds ((podPaths_kinds _ hpod).2.2 _ hf')
  | other hf =>
    cases h' with
    | pod hpod' hf' => exact absurd kinds.symm ((podPaths_kinds _ hpod').2.2 _ hf)
    | other hf' =>
      have := otherFieldKeys_separate _ hf _ hf' kinds hle
      simp only [Prod.mk.injEq] at this
      obtain ⟨rfl, rfl, -⟩ := this
      exact ⟨rfl, rfl⟩

theorem keysApart (h : BuiltinField k spec keys) (h' : BuiltinField k' spec' keys')
    (kinds : spec.type.kind = spec'.type.kind) (hne : spec.path ≠ spec'.path) :
    KeysApart keys keys' :=
  ⟨fun hle => hne (by rw [(h.separate h' kinds hle).2]),
    fun hle => hne (by rw [(h'.separate h kinds.symm hle).2])⟩

theorem kind_eq_of_path_eq (h : BuiltinField k spec keys) (h' : BuiltinField k' spec' keys')
    (kinds : spec.type.kind = spec'.type.kind) (hpath : spec.path = spec'.path) : k = k' := by
  obtain rfl : keys = keys' := h.keyed.unique (hpath ▸ h'.keyed)
  exact (h.separate h' kinds (List.prefix_refl _)).1

end BuiltinField

def NameRule.FieldHolds (rule : NameRule) (d : Document) (q : Position) (name : String) : Prop :=
  ∃ spec ∈ rule.fields, spec.appliesTo d.type = true ∧ ∃ p ps, spec.fieldPath = .ok p ∧
    p.locate d.tree = .ok ps ∧ q ∈ ps ∧ d.tree.get? q = some (.text name)

def NameRule.Reaches (rule : NameRule) (d : Document) (id : Identity) : Prop :=
  id.type.selectedBy rule.type = true ∧ id.inNamespace d.ns = true

instance (rule : NameRule) (d : Document) (id : Identity) : Decidable (rule.Reaches d id) :=
  inferInstanceAs (Decidable (_ ∧ _))

theorem fieldPath_eq_ok_iff {spec : FieldSpec} {keys : List String} (h : Keyed spec.path keys)
    {p : FieldPath} :
    spec.fieldPath = .ok p ↔ p = { source := spec.path, segments := keys.map .field } := by
  rw [FieldSpec.fieldPath, mapError_eq_ok, h, Except.ok.injEq, eq_comm]

variable {rule : NameRule} {renames : List Rename} {d d' : Document} {q : Position} {s new : String}

theorem NameRule.FieldHolds.rename (hold : rule.FieldHolds d q s)
    (hrule : rule ∈ Rules.builtin.names) (map : ∃ es, d.tree = .map es) (name : String) :
    rule.FieldHolds (d.rename name) q s := by
  obtain ⟨spec, hspec, happ, p, ps, hp, hps, hq, hs⟩ := hold
  obtain ⟨k, keys, -, hf⟩ := builtinField_of_mem hrule hspec
  obtain ⟨key, rest, rfl, hkey⟩ := hf.head
  obtain rfl := (fieldPath_eq_ok_iff hf.keyed).1 hp
  have hne : "metadata" ≠ key := by
    rintro rfl
    exact absurd hkey (by decide)
  have hps' := mapError_eq_ok.1 hps
  have hkeys : q.keys = key :: rest :=
    (Tree.addresses_of_mem_addressed true _ _ hps' hq).keys_eq rfl
  refine ⟨spec, hspec, by rwa [Document.type_rename], _, ps, hp, ?_, hq, ?_⟩
  · rw [FieldPath.locate, mapError_eq_ok, Document.tree_rename, Document.setName,
      Document.tree_setMetadata]
    exact (Tree.addressed_modify_of_ne hne _ map).trans hps'
  · have hmeta : Position.keys [.key "metadata"] = ["metadata"] := rfl
    rw [Document.tree_rename, Document.setName, Document.tree_setMetadata,
      Tree.get?_modify_of_apart, hs]
    refine Position.apart_of_keys ?_ ?_ <;>
      simp [hmeta, hkeys, List.cons_prefix_cons, hne, hne.symm]

theorem exists_keys_of_mem_pairsByPath {path : String}
    (h : path ∈ (pairsByPath .builtin renames d).keys) :
    ∃ k spec keys, BuiltinField k spec keys ∧ spec.path = path ∧ spec.type.kind = d.kind := by
  obtain ⟨r, _, _, hpath⟩ := mem_keys_pairsByPath.1 h
  obtain ⟨rule, hrule, _, spec, hspec, happ, rfl⟩ := mem_referringPaths.1 hpath
  obtain ⟨k, keys, _, hf⟩ := builtinField_of_mem hrule hspec
  exact ⟨k, spec, keys, hf, rfl, by rw [← Document.kind_type, (hf.appliesTo_iff _).1 happ]⟩

theorem field?_repaired (h : repaired .builtin renames d = .ok d') {key : String}
    (hkey : key ∉ ["spec", "secrets", "imagePullSecrets"]) :
    d'.tree.field? key = d.tree.field? key := by
  rw [← Tree.get?_key, ← Tree.get?_key]
  refine get?_renameAll_of_apart (repaired_eq_ok.1 h).1 fun path hpath => ?_
  obtain ⟨k, spec, keys, hf, rfl, -⟩ := exists_keys_of_mem_pairsByPath hpath
  obtain ⟨key', rest, rfl, hkey'⟩ := hf.head
  refine ⟨_, hf.keyed, ?_⟩
  have hne : key ≠ key' := fun heq => hkey (heq ▸ hkey')
  simp [KeysApart, Position.keys, List.cons_prefix_cons, hne, Ne.symm hne]

theorem sameIdentity_repaired (h : repaired .builtin renames d = .ok d') : d'.SameIdentity d where
  previous := (repaired_eq_ok.1 h).2
  apiVersion := field?_repaired h (by decide)
  kind := field?_repaired h (by decide)
  metadata := field?_repaired h (by decide)

section Repaired

variable {ds ds' : List Document} (h : ds.map (repaired .builtin renames) = ds'.map .ok)

include h

theorem map_of_repaired {α : Type} {f : Document → α}
    (hf : ∀ d e : Document, d.SameIdentity e → f d = f e) : ds'.map f = ds.map f :=
  map_eq_of_map_eq_ok h fun d _ d' hd => hf d' d (sameIdentity_repaired hd)

theorem filter_of_repaired {p : Document → Bool}
    (hp : ∀ d e : Document, d.SameIdentity e → p d = p e) :
    (ds.filter p).map (repaired .builtin renames) = (ds'.filter p).map .ok := by
  induction ds generalizing ds' with
  | nil => rw [List.map_eq_nil_iff.1 h.symm]; rfl
  | cons d ds ih =>
    obtain ⟨d', ds', rfl, hd, hds⟩ := List.map_eq_cons_iff.1 h.symm
    rw [List.filter_cons, List.filter_cons, hp d' d (sameIdentity_repaired hd.symm)]
    split
    · rw [List.map_cons, List.map_cons, hd, ih hds.symm]
    · exact ih hds.symm

end Repaired

theorem repaired_map (m : MapKind) (hd : d.kind = m.name) :
    repaired .builtin renames d = .ok d := by
  refine repaired_of_not_appliesTo (fun rule hrule spec hspec => ?_) renames
  obtain ⟨k, keys, _, hf⟩ := builtinField_of_mem hrule hspec
  exact hf.not_appliesTo_map m ((Document.kind_type d).trans hd)

def Walkable (d : Document) : Prop :=
  ∀ rule ∈ Rules.builtin.names, ∀ spec ∈ rule.fields, spec.appliesTo d.type = true →
    (spec.fieldPath >>= fun p => p.locate d.tree).isOk = true

instance (d : Document) : Decidable (Walkable d) :=
  inferInstanceAs (Decidable (∀ rule ∈ Rules.builtin.names, ∀ spec ∈ rule.fields,
    spec.appliesTo d.type = true → _ = true))

theorem walkable_of_addressed
    (h : ∀ {k spec keys}, BuiltinField k spec keys → spec.appliesTo d.type = true →
      (d.tree.addressed true (keys.map .field)).isOk = true) : Walkable d := by
  intro rule hrule spec hspec happ
  obtain ⟨k, keys, -, hf⟩ := builtinField_of_mem hrule hspec
  have haddr := h hf happ
  rw [(fieldPath_eq_ok_iff hf.keyed).2 rfl]
  change ((d.tree.addressed true (keys.map .field)).mapError _).isOk = true
  cases hd : d.tree.addressed true (keys.map .field) with
  | ok ps => rfl
  | error m => rw [hd] at haddr; cases haddr

theorem walkable_map (m : MapKind) (hd : d.kind = m.name) : Walkable d := by
  intro rule hrule spec hspec happ
  obtain ⟨k, keys, _, hf⟩ := builtinField_of_mem hrule hspec
  rw [hf.not_appliesTo_map m ((Document.kind_type d).trans hd)] at happ
  cases happ

theorem Walkable.repaired (h : Walkable d) (h' : Reference.repaired .builtin renames d = .ok d') :
    Walkable d' := by
  intro rule hrule spec hspec happ
  rw [(sameIdentity_repaired h').type_eq] at happ
  have hok := h rule hrule spec hspec happ
  obtain ⟨k, keys, -, hf⟩ := builtinField_of_mem hrule hspec
  have hbind : ∀ t, (spec.fieldPath >>= fun p => p.locate t) =
      (t.addressed true (keys.map .field)).mapError (Mismatch.toError spec.path) := by
    rw [(fieldPath_eq_ok_iff hf.keyed).2 rfl]
    exact fun _ => rfl
  rw [hbind] at hok ⊢
  rwa [Tree.addressed_congr (outline_renameAll (repaired_eq_ok.1 h').1)]

theorem exists_repaired (h : Walkable d) (renames : List Rename) :
    ∃ d', repaired .builtin renames d = .ok d' := by
  have walks : ∀ path ∈ (pairsByPath .builtin renames d).keys, ∃ keys ps,
      Keyed path keys ∧ d.tree.addressed true (keys.map .field) = .ok ps := by
    intro path hpath
    obtain ⟨r, _, _, hpath⟩ := mem_keys_pairsByPath.1 hpath
    obtain ⟨rule, hrule, _, spec, hspec, happ, rfl⟩ := mem_referringPaths.1 hpath
    obtain ⟨k, keys, -, hf⟩ := builtinField_of_mem hrule hspec
    have hok := h rule hrule spec hspec happ
    cases hps : spec.fieldPath >>= fun p => p.locate d.tree with
    | error e =>
      rw [hps] at hok
      cases hok
    | ok ps =>
      obtain ⟨p, hp, hps⟩ := bind_eq_ok.1 hps
      obtain rfl := (fieldPath_eq_ok_iff hf.keyed).1 hp
      exact ⟨keys, ps, hf.keyed, mapError_eq_ok.1 hps⟩
  obtain ⟨t', ht'⟩ := exists_renameAll walks
  exact ⟨{ d with tree := t' }, repaired_eq_ok.2 ⟨ht', rfl⟩⟩

theorem exists_repair {store : Store} (h : ∀ d ∈ store.documents, Walkable d)
    (renames : List Rename) : ∃ store' k, repair .builtin renames store = .ok (store', k) := by
  obtain ⟨ds, hds⟩ := exists_map_eq_ok fun d hd => exists_repaired (h d hd) renames
  obtain ⟨k, hk⟩ := (@repair_eq_ok .builtin renames store ⟨ds⟩).2 hds
  exact ⟨_, k, hk⟩

theorem repair_append_map {ds : List Document} {store' : Store} (m : MapKind)
    (hd : d.kind = m.name) :
    (∃ k, repair .builtin renames ⟨ds ++ [d]⟩ = .ok (store', k)) ↔
      ∃ ds', store'.documents = ds' ++ [d] ∧ ds.map (repaired .builtin renames) = ds'.map .ok := by
  rw [repair_eq_ok, List.map_append, List.map_singleton, repaired_map m hd]
  constructor
  · intro h
    obtain ⟨ds', last, hdocs, hds', hlast⟩ := List.map_eq_append_iff.1 h.symm
    obtain ⟨d', rfl, hd'⟩ := List.map_eq_singleton_iff.1 hlast
    obtain rfl := Except.ok.inj hd'
    exact ⟨ds', hdocs, hds'.symm⟩
  · rintro ⟨ds', hdocs, hds'⟩
    rw [hdocs, hds', List.map_append, List.map_singleton]

theorem NameRule.FieldHolds.repaired (hold : rule.FieldHolds d q s)
    (hrule : rule ∈ Rules.builtin.names) (h : repaired .builtin renames d = .ok d') :
    ∃ pairs : NamePairs,
      (∀ pair, pair ∈ pairs ↔ ∃ r ∈ renames, rule.Reaches d r.old ∧ pair = (r.old.name, r.new)) ∧
      rule.FieldHolds d' q ((renameText pairs s).getD s) := by
  obtain ⟨spec, hspec, happ, p, ps, hp, hps, hq, hs⟩ := hold
  obtain ⟨k, keys, htype, hf⟩ := builtinField_of_mem hrule hspec
  obtain rfl := (fieldPath_eq_ok_iff hf.keyed).1 hp
  have hps' := mapError_eq_ok.1 hps
  obtain ⟨htree, -⟩ := repaired_eq_ok.1 h
  have hkind : spec.type.kind = d.kind := by rw [← Document.kind_type, (hf.appliesTo_iff _).1 happ]
  refine ⟨pairsAt spec.path (pairsByPath .builtin renames d), fun pair => ?_, spec, hspec, ?_, _,
    ps, hp, ?_, hq, ?_⟩
  · rw [mem_pairsAt_pairsByPath]
    refine exists_congr fun r => and_congr_right fun _ => ?_
    constructor
    · rintro ⟨hns, hpath, hpair⟩
      obtain ⟨rule', hrule', hsel, spec', hspec', happ', hpath'⟩ := mem_referringPaths.1 hpath
      obtain ⟨k', keys', htype', hf'⟩ := builtinField_of_mem hrule' hspec'
      have hkind' : spec'.type.kind = spec.type.kind := by
        rw [(hf'.appliesTo_iff _).1 happ', (hf.appliesTo_iff _).1 happ]
      obtain rfl := hf'.kind_eq_of_path_eq hf hkind' hpath'
      exact ⟨⟨by rw [htype, ← htype']; exact hsel, hns⟩, hpair⟩
    · rintro ⟨⟨hsel, hns⟩, hpair⟩
      exact ⟨hns, mem_referringPaths.2 ⟨rule, hrule, hsel, spec, hspec, happ, rfl⟩, hpair⟩
  · rwa [(sameIdentity_repaired h).type_eq]
  · rw [FieldPath.locate, mapError_eq_ok]
    rw [Tree.addressed_congr (outline_renameAll htree), hps']
  · refine get?_renameAll_text (distinct_pairsByPath _ _ _) htree hf.keyed ?_ hps' hq hs
    intro path hpath hne
    obtain ⟨k', spec', keys', hf', rfl, hkind'⟩ := exists_keys_of_mem_pairsByPath hpath
    exact ⟨keys', hf'.keyed, hf'.keysApart hf (hkind'.trans hkind.symm) hne⟩

theorem NameRule.FieldHolds.repaired_of_renamed (hold : rule.FieldHolds d q s)
    (hrule : rule ∈ Rules.builtin.names) (h : Reference.repaired .builtin renames d = .ok d')
    (hne : s ≠ "") (renamed : ∃ r ∈ renames, rule.Reaches d r.old ∧ r.old.name = s)
    (only : ∀ r ∈ renames, rule.Reaches d r.old → r.old.name = s → r.new = new) :
    rule.FieldHolds d' q new := by
  obtain ⟨pairs, hpairs, hold'⟩ := hold.repaired hrule h
  rwa [renameText_of_mem hne, Option.getD_some] at hold'
  · obtain ⟨r, hr, hc, rfl⟩ := renamed
    exact ⟨_, (hpairs _).2 ⟨r, hr, hc, rfl⟩, rfl⟩
  · intro pair hpair heq
    obtain ⟨r, hr, hc, rfl⟩ := (hpairs pair).1 hpair
    exact only r hr hc heq

theorem NameRule.FieldHolds.repaired_of_not_stands (hold : rule.FieldHolds d q s)
    (hrule : rule ∈ Rules.builtin.names) (h : Reference.repaired .builtin renames d = .ok d')
    (other : ∀ r ∈ renames, rule.Reaches d r.old → ¬ Stands r.old.name.toList s.toList) :
    rule.FieldHolds d' q s := by
  obtain ⟨pairs, hpairs, hold'⟩ := hold.repaired hrule h
  rwa [renameText_eq_none_iff.2, Option.getD_none] at hold'
  intro pair hpair
  obtain ⟨r, hr, hc, rfl⟩ := (hpairs pair).1 hpair
  exact other r hr hc

def podWithVolume (configMap : String) : Document :=
  MapRecipe.topField "spec" (.map [("volumes", .list [.map [("configMap",
    .map [("name", .text configMap)])]])]) (.skeleton { version := "v1", kind := "Pod" } "web")

def volumeName : Position :=
  [.key "spec", .key "volumes", .index 0, .key "configMap", .key "name"]

def configMapRule : NameRule := Rules.builtin.names.head (by decide)

theorem configMapRule_mem : configMapRule ∈ Rules.builtin.names := List.head_mem _

theorem fieldHolds_podWithVolume (name : String) :
    configMapRule.FieldHolds (podWithVolume name) volumeName name := by
  have keyed : FieldPath.Keyed "spec/volumes/configMap/name"
      ["spec", "volumes", "configMap", "name"] :=
    FieldPath.keyed_slashKeys (by decide) (by decide)
  refine ⟨Rules.spec "Pod" "spec/volumes/configMap/name", by decide, ?_, _, [volumeName],
    (fieldPath_eq_ok_iff keyed).2 rfl, rfl, by decide, rfl⟩
  have hkind : (podWithVolume name).kind = "Pod" := rfl
  simp [FieldSpec.appliesTo, ResourceType.selectedBy, Rules.spec, hkind]

theorem walkable_podWithVolume : Walkable (podWithVolume "settings") := by
  have hpaths : ∀ f ∈ podFieldKeys, ((podWithVolume "settings").tree.addressed true
      ((slashKeys "spec" ++ f.2.2).map .field)).isOk = true := by decide +kernel
  obtain ⟨-, hunique, hother⟩ := podPaths_kinds ("Pod", "spec") (by decide)
  refine walkable_of_addressed fun hf happ => ?_
  have hkind := ((hf.appliesTo_iff _).1 happ).symm
  cases hf with
  | pod hpod hmem =>
    cases hunique _ hpod hkind
    exact hpaths _ hmem
  | other hmem => exact absurd hkind (hother _ hmem)

end Manifest.Reference
