import Manifest.Pipeline
import Manifest.Proofs.Plugin.Merging
import Manifest.Proofs.Reference.Users

namespace Manifest

open Reference

theorem LayeredMap.exists_moved_of_mergeInto {m : LayeredMap} {s s' : Store} {d : Document}
    {k : MapKind} (hashed : m.recipe.plainName = false) (builtin : m.rules = .builtin)
    (apart : s.NamesApart) (hd : d ∈ s.documents) (hk : d.kind = k.name)
    (h : m.mergeInto d s = .ok s') :
    ∃ merged name t n, merged.SameIdentity d ∧ contentName merged = .ok name ∧
      merged.rename name ∈ t.documents ∧ (∀ e ∈ s.documents, e ≠ d → e ∈ t.documents) ∧
      t.withoutMaps = s.withoutMaps ∧ repair .builtin (mergeRenames d name) t = .ok (s', n) := by
  obtain ⟨before, after, around⟩ := apart.exists_around hk hd
  obtain ⟨merged, name, n, hmerged, hname, -, hrepair⟩ := mergeInto_eq_ok hashed around h
  have hsame := sameIdentity_appendData hmerged
  have hmap : (merged.rename name).kind = k.name := by
    rw [Document.kind_rename, hsame.kind_eq, hk]
  refine ⟨merged, name, ⟨before ++ after ++ [merged.rename name]⟩, n, hsame, hname, by simp,
    fun e he hne => ?_, ?_, builtin ▸ hrepair⟩
  · rw [around.documents] at he
    simp only [List.mem_append, List.mem_cons] at he ⊢
    rcases he with he | rfl | he
    · exact .inl (.inl he)
    · exact absurd rfl hne
    · exact .inl (.inr he)
  · exact Store.withoutMaps_of_moved (Document.isMap_of_kind hk) (Document.isMap_of_kind hmap)
      around.documents

/-- The document is the map that started under the identity, and the references that started with
the name of the identity hold its name. -/
structure Tracks (id : Identity) (start s : Store) (d : Document) : Prop where
  mem : d ∈ s.documents
  firstId_eq : d.firstId = id
  id_eq : d.id = id.withName d.name
  named : d.name ≠ ""
  all : d.name.toList.all isNameChar = true
  users : UsersHold id start s d.name

namespace Tracks

variable {id : Identity} {k : MapKind} {start s s' : Store} {d e : Document}

theorem kind_eq (tracks : Tracks id start s d) (type : id.type = k.type) : d.kind = k.name := by
  have htype : d.type = id.type := congrArg Identity.type tracks.id_eq
  rw [← Document.kind_type, htype, type]
  rfl

theorem eq_of_firstId (tracks : Tracks id start s d) (type : id.type = k.type)
    (apart : s.NamesApart) (he : e ∈ s.documents) (hfirst : e.firstId = id) : e = d := by
  have hkind : id.type.kind = k.name := by rw [type]; rfl
  have hbears : ∀ f : Document, f.firstId = id → f.Bears k id.name := fun f hf =>
    hf ▸ Document.bears_of_firstId (hf ▸ hkind)
  exact apart.eq_of_bears he tracks.mem (hbears e hfirst) (hbears d tracks.firstId_eq)

section Steps

variable {w : Workspace} {m : LayeredMap} (tracks : Tracks id start s d) (type : id.type = k.type)
  (builtin : m.rules = .builtin)

include tracks type builtin

theorem mergeInto (apart : s.NamesApart) (hashed : m.recipe.plainName = false)
    (all : id.name.toList.all isNameChar = true) (h : m.mergeInto d s = .ok s') :
    ∃ d', Tracks id start s' d' := by
  have hkind := tracks.kind_eq type
  obtain ⟨merged, name, t, n, hsame, hname, hmem, -, hothers, hrepair⟩ :=
    LayeredMap.exists_moved_of_mergeInto hashed builtin apart tracks.mem hkind h
  have hmeta := hsame.hasMetadata_iff.2 (Document.hasMetadata_of_name tracks.named)
  have hfirst : merged.firstId = id := hsame.firstId_eq.trans tracks.firstId_eq
  have hnew : (merged.rename name).name = name := hmeta.name_rename name
  have users : UsersHold id start t d.name := by
    rw [UsersHold, hothers]
    exact tracks.users
  refine ⟨merged.rename name, ?_, ?_, ?_, ?_, ?_, ?_⟩
  · refine Store.mem_of_repair hrepair (k := k) ?_ hmem
    rw [Document.kind_rename, hsame.kind_eq, hkind]
  · rw [Document.firstId_rename, hfirst]
  · rw [hmeta.id_rename, hnew, hsame.id_eq, tracks.id_eq]
    rfl
  · rw [hnew]
    exact ContentName.ne_empty_of_suffixed hname
  · rw [hnew]
    refine ContentName.all_suffixed hname ?_
    rw [hmeta.name_setName, hfirst]
    exact all
  · rw [hnew]
    refine users.repair_of_renamed hrepair tracks.named ?_ fun r hr _ _ => ?_
    · rw [← tracks.id_eq]
      exact List.mem_cons_self
    · rcases LayeredMap.mem_mergeRenames.1 hr with rfl | rfl <;> rfl

theorem mergeInto_other (apart : s.NamesApart) (hashed : m.recipe.plainName = false) {k' : MapKind}
    (hkind : e.kind = k'.name) (he : e ∈ s.documents) (hne : e ≠ d)
    (h : m.mergeInto e s = .ok s') : Tracks id start s' d := by
  obtain ⟨merged, name, t, n, -, -, -, hmem, hothers, hrepair⟩ :=
    LayeredMap.exists_moved_of_mergeInto hashed builtin apart he hkind h
  have users : UsersHold id start t d.name := by
    rw [UsersHold, hothers]
    exact tracks.users
  refine { tracks with mem := ?_, users := ?_ }
  · exact Store.mem_of_repair hrepair (tracks.kind_eq type) (hmem d tracks.mem hne.symm)
  · refine users.repair_of_other hrepair tracks.all fun r hr hr' hold => hne ?_
    -- the other map would bear the name of this one
    rw [type] at hr'
    refine apart.eq_of_bears he tracks.mem ?_ (Document.bears_name (tracks.kind_eq type))
    rcases LayeredMap.mem_mergeRenames.1 hr with rfl | rfl
    · exact hold ▸ Document.bears_name ((Document.kind_type e).symm.trans hr')
    · exact hold ▸ Document.bears_of_firstId hr'

theorem anticipate (noPrefix : m.namePrefix = "")
    (absent : s.find? m.recipe.kind.name m.recipe.name = none) (h : m.anticipate w s = .ok s') :
    Tracks id start s' d := by
  have hkind := tracks.kind_eq type
  obtain ⟨ps, -, -, n, hrepair⟩ := LayeredMap.repair_of_anticipate builtin h
  refine { tracks with mem := ?_, users := ?_ }
  · exact Store.mem_of_repair hrepair hkind tracks.mem
  · refine tracks.users.repair_of_other hrepair tracks.all fun r hr hr' hold => ?_
    rw [LayeredMap.anticipated, if_pos noPrefix, List.map_singleton, List.mem_singleton] at hr
    rw [hr, type] at hr'
    rw [hr] at hold
    -- the layer would have found the map
    have hfound := List.find?_eq_none.1 absent d tracks.mem
    have hname : m.recipe.name = d.name := hold
    have hmkind : m.recipe.kind.name = k.name := hr'
    simp [hmkind, hkind, hname, Document.hasName] at hfound

theorem transform (apart : s.NamesApart) (hashed : m.recipe.plainName = false)
    (noPrefix : m.namePrefix = "") (all : id.name.toList.all isNameChar = true)
    (h : m.transform w s = .ok s') : ∃ d', Tracks id start s' d' := by
  rw [LayeredMap.transform] at h
  cases hfound : s.find? m.recipe.kind.name m.recipe.name with
  | none =>
    rw [hfound] at h
    by_cases hassume : (m.assumeTarget && !m.recipe.plainName) = true
    · rw [if_pos hassume] at h
      exact ⟨d, tracks.anticipate type builtin noPrefix hfound h⟩
    · rw [if_neg hassume] at h
      exact ⟨d, Except.ok.inj h ▸ tracks⟩
  | some e =>
    rw [hfound] at h
    by_cases heq : e = d
    · exact (heq ▸ tracks).mergeInto type builtin apart hashed all h
    · have he := List.find?_some hfound
      simp only [Bool.and_eq_true, decide_eq_true_eq] at he
      exact ⟨d, tracks.mergeInto_other type builtin apart hashed he.1
        (List.mem_of_find?_eq_some hfound) heq h⟩

end Steps

end Tracks

namespace Pipeline

variable {w : Workspace} {p : Pipeline} {s s₁ s₂ out : Store} {r : MapRecipe}

theorem documents_generateAll {gs : List Generator} (h : generateAll w gs s = .ok s₁) :
    ∃ ds, gs.map (Generator.generate w) = ds.map .ok ∧ s₁.documents = s.documents ++ ds := by
  induction gs generalizing s with
  | nil =>
    obtain rfl : s = s₁ := pure_eq_ok.1 h
    exact ⟨[], rfl, (List.append_nil _).symm⟩
  | cons g gs ih =>
    rw [generateAll, List.foldlM_cons] at h
    obtain ⟨t, ht, h⟩ := bind_eq_ok.1 h
    obtain ⟨d, hd, happend⟩ := bind_eq_ok.1 ht
    rw [Store.appendedAll_singleton] at happend
    obtain ⟨ds, hds, hdocs⟩ := ih h
    refine ⟨d :: ds, by rw [List.map_cons, List.map_cons, hd, hds], ?_⟩
    rw [hdocs, (Store.appended_eq_ok.1 happend).2, List.append_assoc]
    rfl

theorem tracks_of_generated {gs : List Generator} {k : Nat} (generated : .map r ∈ gs)
    (hashed : r.plainName = false) (named : r.name ≠ "")
    (all : r.name.toList.all isNameChar = true) (hgenerate : generateAll w gs s = .ok s₁)
    (hrepair : repair .builtin (pastRenames s₁) s₁ = .ok (s₂, k)) (apart : s₂.NamesApart) :
    ∃ d, Tracks r.plainId s s₂ d := by
  obtain ⟨ds, hds, hdocs⟩ := documents_generateAll hgenerate
  obtain ⟨d, hd, hgen⟩ : ∃ d ∈ ds, .ok d = r.generate w := by
    have hmem : (Generator.map r).generate w ∈ ds.map .ok := hds ▸ List.mem_map_of_mem generated
    exact List.mem_map.1 hmem
  obtain ⟨data, htree, hprevious⟩ := MapRecipe.hashed_of_generate hashed hgen.symm
  have hname := MapRecipe.name_of_tree htree
  have hfirst : d.firstId = r.plainId := by
    rw [Document.firstId, hprevious]
    rfl
  have hmem : d ∈ s₁.documents := by
    rw [hdocs]
    exact List.mem_append_right _ hd
  refine ⟨d, Store.mem_of_repair hrepair (MapRecipe.kind_of_tree htree) hmem, hfirst,
    ?_, ?_, ?_, ?_⟩
  · rw [MapRecipe.id_of_tree htree, hname]
    rfl
  · rw [hname]
    exact r.hashedName_ne_empty _ _
  · rw [hname]
    exact r.all_hashedName _ all
  · refine (usersHold_append hdocs).repair_of_renamed hrepair named ?_ fun x hx hkind hold => ?_
    · refine List.mem_map.2 ⟨d, List.mem_filter.2 ⟨hmem, ?_⟩, by rw [hfirst]; rfl⟩
      simp [hprevious]
    · obtain ⟨e, he, rfl⟩ := List.mem_map.1 hx
      have hnames : e.firstId.name = d.firstId.name := hfirst ▸ hold
      have hbears : d.Bears r.kind d.firstId.name := Document.bears_of_firstId (by rw [hfirst]; rfl)
      rw [((Store.namesApart_iff_of_repair hrepair).1 apart).eq_of_bears (List.mem_of_mem_filter he)
        hmem (Document.bears_of_firstId hkind) (hnames ▸ hbears)]

theorem run_eq_ok : p.run w s = .ok out ↔ ∃ s₁ s₂ k, generateAll w p.generators s = .ok s₁ ∧
    repair p.rules (pastRenames s₁) s₁ = .ok (s₂, k) ∧
    p.transformers.foldlM (step w) s₂ = .ok out := by
  rw [run, bind_eq_ok]
  constructor
  · rintro ⟨s₁, hs₁, h⟩
    obtain ⟨⟨s₂, k⟩, hs₂, h⟩ := bind_eq_ok.1 h
    exact ⟨s₁, s₂, k, hs₁, hs₂, h⟩
  · rintro ⟨s₁, s₂, k, hs₁, hs₂, h⟩
    exact ⟨s₁, hs₁, bind_eq_ok.2 ⟨(s₂, k), hs₂, h⟩⟩

def upTo (p : Pipeline) (n : Nat) : Pipeline := { p with transformers := p.transformers.take n }

theorem upTo_of_length_le {n : Nat} (h : p.transformers.length ≤ n) : p.upTo n = p := by
  rw [upTo, List.take_of_length_le h]

theorem run_upTo_succ {n : Nat} {x : Transformer} (hx : p.transformers[n]? = some x) :
    (p.upTo (n + 1)).run w s = (p.upTo n).run w s >>= fun t => step w t x := by
  have hsteps : ∀ t, (p.transformers.take (n + 1)).foldlM (step w) t =
      (p.transformers.take n).foldlM (step w) t >>= fun t => step w t x := fun t => by
    rw [List.take_add_one, hx, List.foldlM_append]
    exact congrArg _ (funext fun _ => bind_pure _)
  rw [run, run, bind_assoc]
  refine congrArg (generateAll w p.generators s >>= ·) (funext fun s₁ => ?_)
  rw [bind_assoc]
  exact congrArg (repair p.rules (pastRenames s₁) s₁ >>= ·) (funext fun _ => hsteps _)

end Pipeline

structure LayeredMap.Hashes (m : LayeredMap) : Prop where
  hashed : m.recipe.plainName = false
  noPrefix : m.namePrefix = ""
  builtin : m.rules = .builtin

namespace Pipeline

variable {w : Workspace} {p : Pipeline} {s out : Store} {r : MapRecipe}

/-- The pipeline generates the map by its content and merges layers into maps only, and in every
store on the way no two maps of one kind share a current or former name. -/
structure Orderly (w : Workspace) (p : Pipeline) (s : Store) (r : MapRecipe) : Prop where
  builtin : p.rules = .builtin
  generated : .map r ∈ p.generators
  hashed : r.plainName = false
  named : r.name ≠ ""
  all : r.name.toList.all isNameChar = true
  layers : ∀ x ∈ p.transformers, ∃ m : LayeredMap, x = .layeredMap m ∧ m.Hashes
  apart : ∀ n t, (p.upTo n).run w s = .ok t → t.NamesApart

namespace Orderly

variable (orderly : p.Orderly w s r)

include orderly

theorem tracks_upTo {n : Nat} {t : Store} (h : (p.upTo n).run w s = .ok t) :
    ∃ d, Tracks r.plainId s t d := by
  have apart := orderly.apart
  induction n generalizing t with
  | zero =>
    obtain ⟨s₁, s₂, k, hgenerate, hrepair, hrest⟩ := run_eq_ok.1 h
    obtain rfl : s₂ = t := pure_eq_ok.1 hrest
    rw [upTo, orderly.builtin] at hrepair
    exact tracks_of_generated orderly.generated orderly.hashed orderly.named orderly.all hgenerate
      hrepair (apart 0 _ h)
  | succ n ih =>
    cases hx : p.transformers[n]? with
    | none =>
      have hle : p.transformers.length ≤ n := List.getElem?_eq_none_iff.1 hx
      rw [upTo_of_length_le (Nat.le_succ_of_le hle), ← upTo_of_length_le hle] at h
      exact ih h
    | some x =>
      rw [run_upTo_succ hx] at h
      obtain ⟨t₀, ht₀, hstep⟩ := bind_eq_ok.1 h
      obtain ⟨d, tracks⟩ := ih ht₀
      obtain ⟨m, rfl, hashes⟩ := orderly.layers x (List.mem_of_getElem? hx)
      obtain ⟨t₁, ht₁, hunique⟩ := bind_eq_ok.1 hstep
      obtain ⟨-, -, hunique⟩ := bind_eq_ok.1 hunique
      obtain rfl := pure_eq_ok.1 hunique
      exact tracks.transform rfl hashes.builtin (apart n t₀ ht₀) hashes.hashed hashes.noPrefix
        orderly.all ht₁

end Orderly

/-- References follow a generated map through a whole run: in the end, all those that held the plain
name of the map hold the name of the one document that started under the plain identity. -/
theorem references_follow_generated_map (orderly : p.Orderly w s r) (h : p.run w s = .ok out) :
    ∃ d ∈ out.documents, d.firstId = r.plainId ∧
      (∀ e ∈ out.documents, e.firstId = r.plainId → e = d) ∧ UsersHold r.plainId s out d.name := by
  rw [← upTo_of_length_le (Nat.le_refl p.transformers.length)] at h
  obtain ⟨d, tracks⟩ := orderly.tracks_upTo h
  exact ⟨d, tracks.mem, tracks.firstId_eq,
    fun e he hfirst => tracks.eq_of_firstId rfl (orderly.apart _ _ h) he hfirst, tracks.users⟩

def settingsPipeline : Pipeline where
  generators := [.map LayeredMap.settings]
  transformers := [.layeredMap (LayeredMap.addingLayer (.text "2"))]

theorem exists_settings_generated (w : Workspace) :
    ∃ d e, LayeredMap.settings.generate w = .ok d ∧ e.SameIdentity (podWithVolume "settings") ∧
      Walkable e ∧ (settingsPipeline.upTo 0).run w ⟨[podWithVolume "settings"]⟩ = .ok ⟨[e, d]⟩ := by
  obtain ⟨d, hd⟩ := LayeredMap.generate_settings w
  have hkind := LayeredMap.kind_of_settings hd
  have happend : (Store.mk [podWithVolume "settings"]).appended d =
      .ok ⟨[podWithVolume "settings", d]⟩ := by
    refine Store.appended_eq_ok_iff_extends.2 ⟨rfl, fun hmem => ?_⟩
    have hnodup : (Store.mk [podWithVolume "settings", d]).ids.Nodup := by
      refine Store.nodup_ids_pair ?_
      rw [hkind]
      decide
    exact (List.nodup_cons.1 hnodup).1 (by simpa [eq_comm] using hmem)
  have hgenerate : generateAll w settingsPipeline.generators ⟨[podWithVolume "settings"]⟩ =
      .ok ⟨[podWithVolume "settings", d]⟩ := by
    refine bind_eq_ok.2 ⟨_, bind_eq_ok.2 ⟨d, hd, ?_⟩, rfl⟩
    rw [Store.appendedAll_singleton, happend]
  obtain ⟨e, he⟩ := exists_repaired walkable_podWithVolume
    (pastRenames ⟨[podWithVolume "settings", d]⟩)
  obtain ⟨k, hrepair⟩ := (@repair_eq_ok .builtin (pastRenames ⟨[podWithVolume "settings", d]⟩)
    ⟨[podWithVolume "settings", d]⟩ ⟨[e, d]⟩).2 (by
      simp [he, repaired_map .configMap hkind])
  exact ⟨d, e, hd, sameIdentity_repaired he, walkable_podWithVolume.repaired he,
    run_eq_ok.2 ⟨_, _, k, hgenerate, hrepair, rfl⟩⟩

theorem exists_settings_merged {w : Workspace} {d e : Document}
    (hd : LayeredMap.settings.generate w = .ok d) (same : e.SameIdentity (podWithVolume "settings"))
    (walkable : Walkable e) : ∃ t, t.NamesApart ∧
      step w ⟨[e, d]⟩ (.layeredMap (LayeredMap.addingLayer (.text "2"))) = .ok t := by
  have hpod : e.kind = "Pod" := same.kind_eq.trans (by decide)
  have hother : ∀ f ∈ [e] ++ [], f.kind ≠ LayeredMap.settings.kind.name ∧ Walkable f :=
    List.forall_mem_singleton.2 ⟨by rw [hpod]; decide, walkable⟩
  have hkinds : ∀ f : Document, f.kind = "ConfigMap" → e.kind ≠ f.kind := fun f hf => by
    rw [hpod, hf]
    decide
  obtain ⟨t, ht⟩ : ∃ t, (LayeredMap.addingLayer (.text "2")).transform w ⟨[e, d]⟩ = .ok t :=
    LayeredMap.exists_transform_generated hd rfl rfl rfl rfl rfl hother
  obtain ⟨merged, -, htree, hall⟩ := @LayeredMap.transform_generated _ _
    (LayeredMap.addingLayer (.text "2")) LayeredMap.settings ⟨[e, d]⟩ t d [("a", "1")] [e] [] rfl hd
    rfl rfl rfl rfl (Store.nodup_ids_pair (hkinds d (LayeredMap.kind_of_settings hd)))
    (fun f hf hk => absurd hk (hother f hf).1) ht
  obtain ⟨k, hrepair⟩ := (@repair_eq_ok .builtin _ ⟨[e, merged]⟩ t).2 hall
  have hids := map_of_repaired hall fun _ _ => Document.SameIdentity.id_eq
  have hunique : t.ensureUnique = .ok () := by
    rw [Store.ensureUnique_eq_ok, Store.ids, hids]
    exact Store.nodup_ids_pair (hkinds merged (MapRecipe.kind_of_tree htree))
  refine ⟨t, (Store.namesApart_iff_of_repair hrepair).2 ?_, ?_⟩
  · exact Store.namesApart_pair (same.isMap_eq.trans (by decide)) same.previous
  · exact bind_eq_ok.2 ⟨t, ht, bind_eq_ok.2 ⟨(), hunique, rfl⟩⟩

theorem exists_settings_run (w : Workspace) :
    settingsPipeline.Orderly w ⟨[podWithVolume "settings"]⟩ LayeredMap.settings ∧
      ∃ out, settingsPipeline.run w ⟨[podWithVolume "settings"]⟩ = .ok out := by
  obtain ⟨d, e, hd, same, walkable, hstart⟩ := exists_settings_generated w
  obtain ⟨t, apart, hstep⟩ := exists_settings_merged hd same walkable
  have hrun : ∀ n, (settingsPipeline.upTo (n + 1)).run w ⟨[podWithVolume "settings"]⟩ = .ok t := by
    intro n
    have hlength : settingsPipeline.transformers.length = 1 := rfl
    have hfull : settingsPipeline.upTo (n + 1) = settingsPipeline.upTo 1 := by
      rw [upTo_of_length_le (by omega), upTo_of_length_le (by omega)]
    have hfirst : settingsPipeline.transformers[0]? =
      some (.layeredMap (LayeredMap.addingLayer (.text "2"))) := rfl
    rw [hfull, run_upTo_succ hfirst]
    exact bind_eq_ok.2 ⟨_, hstart, hstep⟩
  refine ⟨⟨rfl, List.mem_singleton_self _, rfl, by decide, by decide, ?_,
    fun n t' ht' => ?_⟩, t, ?_⟩
  · exact List.forall_mem_singleton.2 ⟨_, rfl, rfl, rfl, rfl⟩
  · cases n with
    | zero =>
      obtain rfl := Except.ok.inj (hstart.symm.trans ht')
      exact Store.namesApart_pair (same.isMap_eq.trans (by decide)) same.previous
    | succ n =>
      obtain rfl := Except.ok.inj ((hrun n).symm.trans ht')
      exact apart
  · have h := hrun 0
    rwa [upTo_of_length_le (Nat.le_refl 1)] at h

theorem references_follow_generated_map_settings :
    ∃ out d d', settingsPipeline.run ⟨".", {}, []⟩ ⟨[podWithVolume "settings"]⟩ = .ok out ∧
      d ∈ out.documents ∧ d.firstId = LayeredMap.settings.plainId ∧
      out.withoutMaps.documents[0]? = some d' ∧ configMapRule.FieldHolds d' volumeName d.name := by
  obtain ⟨orderly, out, hout⟩ := exists_settings_run ⟨".", {}, []⟩
  obtain ⟨d, hd, hfirst, -, users⟩ := references_follow_generated_map orderly hout
  have hpod : (Store.mk [podWithVolume "settings"]).withoutMaps.documents[0]? =
      some (podWithVolume "settings") := by decide +kernel
  obtain ⟨d', hd', -, hold⟩ := users configMapRule configMapRule_mem 0 _ volumeName hpod
    (by decide +kernel) (fieldHolds_podWithVolume "settings")
  exact ⟨out, d, d', hout, hd, hfirst, hd', hold⟩

end Pipeline

end Manifest
