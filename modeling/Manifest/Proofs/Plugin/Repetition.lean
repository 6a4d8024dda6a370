import Manifest.Proofs.Plugin.Anticipation
import Manifest.Proofs.Plugin.Merging
import Manifest.Proofs.Reference.Again

namespace Manifest

open Reference

structure Document.PlainNames (d : Document) : Prop where
  current : d.name.toList.all isNameChar = true
  former : ∀ id ∈ d.previous, id.name.toList.all isNameChar = true

theorem Document.PlainNames.firstId {d : Document} (h : d.PlainNames) :
    d.firstId.name.toList.all isNameChar = true := by
  rw [Document.firstId]
  cases hprevious : d.previous with
  | nil => exact h.current
  | cons id ids => exact h.former id (hprevious ▸ List.mem_cons_self)

namespace LayeredMap

variable {w : Workspace} {m : LayeredMap} {s s' : Store} {d e merged : Document}
  {before after : List Document} {name : String}

def Takes (m : LayeredMap) (d : Document) : Prop :=
  d.kind = m.recipe.kind.name ∧ d.hasName m.recipe.name = true

theorem takes_iff_of_sameIdentity (same : e.SameIdentity d) : m.Takes e ↔ m.Takes d := by
  rw [Takes, Takes, same.kind_eq, same.hasName_eq]

theorem Takes.rename (h : m.Takes d) (name : String) : m.Takes (d.rename name) :=
  ⟨(Document.kind_rename name d).trans h.1, Document.hasName_rename h.2 name⟩

theorem find?_eq_some_iff : s.find? m.recipe.kind.name m.recipe.name = some d ↔
    m.Takes d ∧ ∃ before after, s.documents = before ++ d :: after ∧ ∀ e ∈ before, ¬ m.Takes e := by
  simp [Store.find?, List.find?_eq_some_iff_append, Takes, imp_iff_not_or]

theorem appendData_eq_ok : m.appendData d = .ok merged ↔ ∃ es data, d.tree = .map es ∧
    dataEntries es = .ok data ∧
      { d with tree := .map (Entries.insert "data" (.map (m.mergedData data)) es) } = merged := by
  rw [appendData]
  cases htree : d.tree with
  | map es =>
    refine bind_eq_ok.trans ⟨?_, ?_⟩
    · rintro ⟨data, hdata, h⟩
      exact ⟨es, data, rfl, hdata, pure_eq_ok.1 h⟩
    · rintro ⟨_, data, ⟨⟩, hdata, h⟩
      exact ⟨data, hdata, pure_eq_ok.2 h⟩
  | _ =>
    constructor
    · intro h
      cases h
    · rintro ⟨_, _, h, -⟩
      cases h

theorem distinct_dataEntries {es data : Entries Tree} (wf : (Tree.map es).WellFormed)
    (h : dataEntries es = .ok data) : Entries.Distinct data := by
  rw [dataEntries] at h
  split at h
  · obtain rfl := Except.ok.inj h
    exact List.nodup_nil
  · obtain rfl := Except.ok.inj h
    exact List.nodup_nil
  · rename_i data hfind
    obtain rfl := Except.ok.inj h
    have hwf : (Tree.map data).WellFormed := Tree.wellFormed_child? (s := .key "data") wf hfind
    exact hwf.1
  · cases h

theorem appendData_again (wf : d.tree.WellFormed) (h : m.appendData d = .ok merged)
    (valid : e.Valid) (hdata : e.tree.field? "data" = merged.tree.field? "data") :
    m.appendData e = .ok e := by
  obtain ⟨es, data, htree, hentries, rfl⟩ := appendData_eq_ok.1 h
  obtain ⟨fs, hfs⟩ := valid.tree_eq_map
  rw [htree] at wf
  have hfind : Entries.find? "data" fs = some (.map (m.mergedData data)) := by
    rw [hfs] at hdata
    exact hdata.trans ((Entries.find?_insert "data" "data" _ es).trans (if_pos rfl))
  have hagain : m.mergedData (m.mergedData data) = m.mergedData data :=
    Entries.insertAll_insertAll (distinct_dataEntries wf hentries)
  refine appendData_eq_ok.2 ⟨fs, m.mergedData data, hfs, ?_, ?_⟩
  · rw [dataEntries, hfind]
  · rw [hagain, Entries.insert_eq_self hfind]
    exact Document.withTree_eq_self_iff.2 hfs.symm

theorem field?_data_rename (d : Document) (name : String) :
    (d.rename name).tree.field? "data" = d.tree.field? "data" := by
  rw [Document.tree_rename, Document.setName, Document.tree_setMetadata,
    Tree.field?_modify_of_ne (by decide)]

theorem contentName_rename (d : Document) (name : String) :
    contentName (d.rename name) = contentName d := by
  rw [contentName, contentName, Document.firstId_rename]
  exact ContentName.suffixed_congr (Document.tree_setName_rename name d.firstId.name d)

theorem repeats_mergeRenames (hid : e.id = d.id.withName name) (hfirst : e.firstId = d.firstId)
    (plain : d.PlainNames) : Repeats name (mergeRenames d name) (mergeRenames e name) where
  plain r hr := by
    rcases mem_mergeRenames.1 hr with rfl | rfl
    · exact plain.current
    · exact plain.firstId
  new r hr := by rcases mem_mergeRenames.1 hr with rfl | rfl <;> rfl
  new' r hr := by rcases mem_mergeRenames.1 hr with rfl | rfl <;> rfl
  known r hr := by
    rcases mem_mergeRenames.1 hr with rfl | rfl
    · exact ⟨_, mem_mergeRenames.2 (.inl rfl), .inr hid⟩
    · exact ⟨_, mem_mergeRenames.2 (.inr rfl), .inl hfirst⟩

theorem mergeInto_last {ds : List Document} (hashed : m.recipe.plainName = false)
    (builtin : m.rules = .builtin) (ext : s.Extends ds e) (valid : e.Valid)
    (kind : e.kind = m.recipe.kind.name) (holds : m.appendData e = .ok e)
    (named : contentName e = .ok name) (own : e.id.withName name = e.id)
    (repaired : ds.map (repaired .builtin (mergeRenames e name)) = ds.map .ok) :
    m.mergeInto e s = .ok ⟨ds ++ [e.rename name]⟩ := by
  have hkind : (e.rename name).kind = m.recipe.kind.name := by rw [Document.kind_rename, kind]
  obtain ⟨k, hrepair⟩ : ∃ k, repair .builtin (mergeRenames e name) ⟨ds ++ [e.rename name]⟩ =
      .ok (⟨ds ++ [e.rename name]⟩, k) := (repair_append_map _ hkind).2 ⟨ds, rfl, repaired⟩
  have hmeta := Document.hasMetadata_of_name valid.name_ne_empty
  refine mergeInto_of_repair hashed ext.around hmeta holds named ?_ (k := k) ?_
  · rw [own, List.append_nil]
    exact ext.fresh
  · rw [builtin, List.append_nil]
    exact hrepair

theorem mergeInto_again (hashed : m.recipe.plainName = false) (builtin : m.rules = .builtin)
    (around : s.Around d.id before d after) (valid : d.Valid)
    (kind : d.kind = m.recipe.kind.name) (plain : d.PlainNames)
    (wf : ∀ e ∈ s.documents, e.tree.WellFormed) (h : m.mergeInto d s = .ok s') :
    ∃ ds' merged name, m.appendData d = .ok merged ∧ s'.documents = ds' ++ [merged.rename name] ∧
      (before ++ after).map (repaired .builtin (mergeRenames d name)) = ds'.map .ok ∧
      m.mergeInto (merged.rename name) s' =
        .ok ⟨ds' ++ [(merged.rename name).rename name]⟩ := by
  obtain ⟨merged, name, k, hmerged, hname, hfresh, hrepair⟩ := mergeInto_eq_ok hashed around h
  have same := sameIdentity_appendData hmerged
  have hmeta := Document.hasMetadata_of_name (same.valid valid).name_ne_empty
  have hne := ContentName.ne_empty_of_suffixed hname
  have hall : name.toList.all isNameChar = true := by
    refine ContentName.all_suffixed hname ?_
    rw [hmeta.name_setName, same.firstId_eq]
    exact plain.firstId
  have hvalid := (same.valid valid).rename hne
  have hkind : (merged.rename name).kind = m.recipe.kind.name := by
    rw [Document.kind_rename, same.kind_eq, kind]
  -- the second run calls the document by the name of the first, and knows the same first name
  have hid : (merged.rename name).id = d.id.withName name := by rw [hmeta.id_rename, same.id_eq]
  have hfirst : (merged.rename name).firstId = d.firstId := by
    rw [Document.firstId_rename, same.firstId_eq]
  obtain ⟨ds', hdocs, hds'⟩ := (repair_append_map _ hkind).1 ⟨k, builtin ▸ hrepair⟩
  have hext : s'.Extends ds' (merged.rename name) := ⟨hdocs, by
    rw [map_of_repaired hds' fun _ _ => Document.SameIdentity.id_eq]
    exact hfresh⟩
  rw [around.documents, List.forall_mem_append, List.forall_mem_cons] at wf
  have hagain := (repeats_mergeRenames hid hfirst plain).map_repaired hne hall
    (List.forall_mem_append.2 ⟨wf.1, wf.2.2⟩) hds'
  exact ⟨ds', merged, name, hmerged, hdocs, hds', mergeInto_last hashed builtin hext hvalid hkind
    (appendData_again wf.2.1 hmerged hvalid (field?_data_rename merged name))
    ((contentName_rename merged name).trans hname) (by rw [hid]; rfl) hagain⟩

theorem mergeInto_plain_eq_ok (plainName : m.recipe.plainName = true)
    (around : s.Around d.id before d after) (valid : d.Valid) :
    m.mergeInto d s = .ok s' ↔
      ∃ merged, m.appendData d = .ok merged ∧ s' = ⟨before ++ merged :: after⟩ := by
  rw [mergeInto, bind_eq_ok]
  refine exists_congr fun merged => and_congr_right fun hmerged => ?_
  have same := sameIdentity_appendData hmerged
  have hmodify : s.modify d.id (fun _ => merged) = ⟨before ++ merged :: after⟩ := by
    rw [Store.modify, around.position?_eq]
    exact congrArg Store.mk (around.modify_eq _)
  rw [if_pos plainName, replace, around.get?_eq]
  dsimp only
  rw [(same.valid valid).replaceTree_eq same.previous, ← hmodify]
  exact pure_eq_ok.trans eq_comm

theorem start_congr (h : s'.documents.map Document.ns = s.documents.map Document.ns) :
    m.start s' = m.start s := by
  have hhead := congrArg List.head? h
  rw [List.head?_map, List.head?_map] at hhead
  rw [start, start, adoptNamespace, adoptNamespace, hhead]

theorem repeats_anticipated (plainName : m.recipe.name.toList.all isNameChar = true)
    (plainPrefix : m.namePrefix.toList.all isNameChar = true) (s : Store) (name : String) :
    Repeats name (m.anticipated s name) (m.anticipated s name) where
  plain r hr := by
    obtain ⟨old, hold, rfl⟩ := List.mem_map.1 hr
    have hold' : old = m.start s ∨
        old = (m.start s).withName (m.namePrefix ++ m.recipe.name) := by
      split at hold
      · exact .inl (List.mem_singleton.1 hold)
      · simpa using hold
    rcases hold' with rfl | rfl
    · exact plainName
    · change (m.namePrefix ++ m.recipe.name).toList.all isNameChar = true
      rw [String.toList_append, List.all_append, plainName, plainPrefix]
      rfl
  new _ hr := new_of_mem_anticipated hr
  new' _ hr := new_of_mem_anticipated hr
  known r hr := ⟨r, hr, .inl rfl⟩

theorem anticipate_again (builtin : m.rules = .builtin)
    (plainName : m.recipe.name.toList.all isNameChar = true)
    (plainPrefix : m.namePrefix.toList.all isNameChar = true)
    (wf : ∀ e ∈ s.documents, e.tree.WellFormed) (h : m.anticipate w s = .ok s') :
    m.anticipate w s' = .ok s' := by
  obtain ⟨ps, hps, hvalid, hfree, hrepair⟩ := (anticipate_builtin_eq_ok builtin).1 h
  have hds := repair_eq_ok.1 hrepair
  have hids : s'.ids = s.ids := map_of_repaired hds fun _ _ => Document.SameIdentity.id_eq
  have hstart : m.start s' = m.start s :=
    start_congr (map_of_repaired hds fun _ _ => Document.SameIdentity.ns_eq)
  have hanticipated : ∀ name, m.anticipated s' name = m.anticipated s name := fun name => by
    rw [anticipated, anticipated, hstart]
  have hall : (m.namePrefix ++ m.recipe.name).toList.all isNameChar = true := by
    rw [String.toList_append, List.all_append, plainName, plainPrefix]
    rfl
  refine (anticipate_builtin_eq_ok builtin).2 ⟨ps, hps, hvalid, ?_, ?_⟩
  · obtain ⟨hfirst, hprefixed, hhashed⟩ := hfree
    constructor <;> rwa [hstart, hids]
  · rw [hanticipated]
    exact repair_eq_ok.2 <| (repeats_anticipated plainName plainPrefix s _).map_repaired
      (m.recipe.hashedName_ne_empty _ _) (m.recipe.all_hashedName _ hall) wf hds

theorem not_takes_of_repaired {renames : List Rename} {ds ds' : List Document}
    (h : ds.map (repaired .builtin renames) = ds'.map .ok) (others : ∀ e ∈ ds, ¬ m.Takes e) :
    ∀ e ∈ ds', ¬ m.Takes e :=
  forall_of_map_eq_ok h fun e he _ he' =>
    mt (takes_iff_of_sameIdentity (sameIdentity_repaired he')).1 (others e he)

theorem absent_iff_not_takes : m.Absent s ↔ ∀ d ∈ s.documents, ¬ m.Takes d := by
  simp [Absent, Takes]

theorem transform_again_of_absent (plainName : m.recipe.name.toList.all isNameChar = true)
    (plainPrefix : m.namePrefix.toList.all isNameChar = true) (builtin : m.rules = .builtin)
    (wf : ∀ d ∈ s.documents, d.tree.WellFormed) (absent : m.Absent s)
    (h : m.transform w s = .ok s') : m.transform w s' = .ok s' := by
  have hrun : ∀ {t : Store}, m.Absent t → m.transform w t =
      if m.assumeTarget && !m.recipe.plainName then m.anticipate w t else .ok t := fun ht => by
    rw [transform, find?_eq_none_iff_absent.2 ht]
  rw [hrun absent] at h
  split at h
  · rename_i hassumed
    obtain ⟨ps, -, -, -, hrepair⟩ := (anticipate_builtin_eq_ok builtin).1 h
    -- a repair adds no map that the layer would find now
    have absent' : m.Absent s' := absent_iff_not_takes.2 <|
      not_takes_of_repaired (repair_eq_ok.1 hrepair) (absent_iff_not_takes.1 absent)
    rw [hrun absent', if_pos hassumed]
    exact anticipate_again builtin plainName plainPrefix wf h
  · rename_i hassumed
    obtain rfl := Except.ok.inj h
    exact (hrun absent).trans (if_neg hassumed)

section Present

variable (hs : s.documents = before ++ d :: after) (takes : m.Takes d)
  (first : ∀ e ∈ before, ¬ m.Takes e)

include hs takes first

theorem transform_of_present : m.transform w s = m.mergeInto d s := by
  rw [transform, find?_eq_some_iff.2 ⟨takes, before, after, hs, first⟩]

theorem transform_again_of_plainName (plainName : m.recipe.plainName = true) (valid : d.Valid)
    (distinct : s.ids.Nodup) (wf : d.tree.WellFormed) (h : m.transform w s = .ok s') :
    m.transform w s' = .ok s' := by
  rw [transform_of_present hs takes first] at h
  have around := Store.around_of_nodup hs distinct
  obtain ⟨merged, hmerged, rfl⟩ := (mergeInto_plain_eq_ok plainName around valid).1 h
  have same := sameIdentity_appendData hmerged
  have around' : (Store.mk (before ++ merged :: after)).Around merged.id before merged after :=
    ⟨rfl, rfl, same.id_eq ▸ around.first⟩
  rw [transform_of_present rfl ((takes_iff_of_sameIdentity same).2 takes) first]
  exact (mergeInto_plain_eq_ok plainName around' (same.valid valid)).2
    ⟨merged, appendData_again wf hmerged (same.valid valid) rfl, rfl⟩

theorem transform_again_of_hashed (hashed : m.recipe.plainName = false)
    (builtin : m.rules = .builtin) (valid : d.Valid) (plain : d.PlainNames)
    (distinct : s.ids.Nodup) (wf : ∀ d ∈ s.documents, d.tree.WellFormed)
    (alone : ∀ e ∈ after, ¬ m.Takes e) (h : m.transform w s = .ok s') :
    ∃ s'', m.transform w s' = .ok s'' ∧
      s''.documents.map Document.tree = s'.documents.map Document.tree := by
  rw [transform_of_present hs takes first] at h
  have around := Store.around_of_nodup hs distinct
  obtain ⟨ds', merged, name, hmerged, hs', hds', hagain⟩ :=
    mergeInto_again hashed builtin around valid takes.1 plain wf h
  have same := sameIdentity_appendData hmerged
  have htakes := ((takes_iff_of_sameIdentity same).2 takes).rename name
  have hothers := not_takes_of_repaired hds' (List.forall_mem_append.2 ⟨first, alone⟩)
  refine ⟨_, (transform_of_present hs' htakes hothers).trans hagain, ?_⟩
  rw [hs', List.map_append, List.map_append, List.map_singleton, List.map_singleton,
    Document.tree_rename, Document.tree_setName_rename, Document.tree_rename]

end Present

/-- A layer that succeeds succeeds again, and leaves the trees as they are. -/
theorem transform_again (valid : s.Valid) (distinct : s.ids.Nodup)
    (wf : ∀ d ∈ s.documents, d.tree.WellFormed) (plain : ∀ d ∈ s.documents, d.PlainNames)
    (alone : ∀ d ∈ s.documents, ∀ e ∈ s.documents, m.Takes d → m.Takes e → d = e)
    (plainName : m.recipe.name.toList.all isNameChar = true)
    (plainPrefix : m.namePrefix.toList.all isNameChar = true) (builtin : m.rules = .builtin)
    (h : m.transform w s = .ok s') :
    ∃ s'', m.transform w s' = .ok s'' ∧
      s''.documents.map Document.tree = s'.documents.map Document.tree := by
  cases hfind : s.find? m.recipe.kind.name m.recipe.name with
  | none =>
    exact ⟨s', transform_again_of_absent plainName plainPrefix builtin wf
      (find?_eq_none_iff_absent.1 hfind) h, rfl⟩
  | some d =>
    obtain ⟨takes, before, after, hs, first⟩ := find?_eq_some_iff.1 hfind
    have hd : d ∈ s.documents := by simp [hs]
    cases hashed : m.recipe.plainName with
    | true =>
      exact ⟨s', transform_again_of_plainName hs takes first hashed (valid d hd) distinct
        (wf d hd) h, rfl⟩
    | false =>
      refine transform_again_of_hashed hs takes first hashed builtin (valid d hd) (plain d hd)
        distinct wf (fun e he htakes => ?_) h
      -- the map would stand in the store twice
      obtain rfl := alone d hd e (by simp [hs, he]) takes htakes
      rw [Store.ids_eq hs, List.nodup_append, List.nodup_cons] at distinct
      exact distinct.2.1.1 (List.mem_map_of_mem he)

theorem plainNames_of_generate {r : MapRecipe} (hashed : r.plainName = false)
    (all : r.name.toList.all isNameChar = true) (h : r.generate w = .ok d) : d.PlainNames := by
  obtain ⟨data, htree, hprevious⟩ := MapRecipe.hashed_of_generate hashed h
  refine ⟨?_, ?_⟩
  · rw [MapRecipe.name_of_tree htree]
    exact r.all_hashedName data all
  · rw [hprevious]
    exact List.forall_mem_singleton.2 all

theorem wellFormed_of_generate_settings (h : settings.generate w = .ok d) :
    d.tree.WellFormed := by
  obtain ⟨ps, name, hps, -, htree, -⟩ := MapRecipe.tree_of_generate h
  obtain rfl : ps = [("a", "1")] := Except.ok.inj (hps.symm.trans rfl)
  rw [htree]
  simp [MapRecipe.tree, MapRecipe.metadata, MapRecipe.typeEntry, MapRecipe.entries, settings,
    Tree.WellFormed, Tree.WellFormedEntries, Entries.Distinct, Entries.keys]

theorem transform_again_settings :
    ∃ d s' s'', settings.generate ⟨".", {}, []⟩ = .ok d ∧
      (addingLayer (.text "2")).transform ⟨".", {}, []⟩ ⟨[podWithVolume "settings", d]⟩ = .ok s' ∧
      (addingLayer (.text "2")).transform ⟨".", {}, []⟩ s' = .ok s'' ∧
      s''.documents.map Document.tree = s'.documents.map Document.tree := by
  obtain ⟨d, hd⟩ := generate_settings ⟨".", {}, []⟩
  have hpod : (podWithVolume "settings").kind ≠ settings.kind.name := by decide +kernel
  have others : ∀ e ∈ [podWithVolume "settings"] ++ [], e.kind ≠ settings.kind.name ∧ Walkable e :=
    List.forall_mem_singleton.2 ⟨hpod, walkable_podWithVolume⟩
  obtain ⟨s', hs'⟩ : ∃ s', (addingLayer (.text "2")).transform ⟨".", {}, []⟩
      ⟨[podWithVolume "settings", d]⟩ = .ok s' :=
    exists_transform_generated hd rfl rfl rfl rfl rfl others
  have hother : ¬ (addingLayer (.text "2")).Takes (podWithVolume "settings") := fun h => hpod h.1
  have pair : ∀ {P : Document → Prop}, P (podWithVolume "settings") → P d →
      ∀ e ∈ [podWithVolume "settings", d], P e := fun hp hd =>
    List.forall_mem_cons.2 ⟨hp, List.forall_mem_singleton.2 hd⟩
  obtain ⟨s'', hs'', htrees⟩ := @transform_again _ _ ⟨[podWithVolume "settings", d]⟩ s'
    (pair (by decide +kernel) (MapRecipe.valid_of_generate (by decide +kernel) hd))
    (Store.nodup_ids_pair (by rw [kind_of_settings hd]; decide +kernel))
    (pair (by decide +kernel) (wellFormed_of_generate_settings hd))
    (pair ⟨by decide +kernel, nofun⟩ (plainNames_of_generate rfl (by decide +kernel) hd))
    (pair (fun _ _ h => absurd h hother) (pair (fun _ h => absurd h hother) fun _ _ => rfl))
    (by decide +kernel) (by decide +kernel) rfl hs'
  exact ⟨d, s', s'', hd, hs', hs'', htrees⟩

end LayeredMap

end Manifest
