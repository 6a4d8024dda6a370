import Manifest.Store
import Manifest.Proofs.Document
import Manifest.Proofs.InPlace
import Manifest.Proofs.Success

namespace Manifest.Store

/-- The first document with an identity, between the documents before and after it. -/
structure Around (s : Store) (id : Identity) (before : List Document) (d : Document)
    (after : List Document) : Prop where
  documents : s.documents = before ++ d :: after
  id_eq : d.id = id
  first : ∀ e ∈ before, e.id ≠ id

variable {s s' : Store} {id : Identity} {d : Document} {before after : List Document}

theorem ext (h : s.documents = s'.documents) : s = s' := by
  cases s
  cases s'
  exact congrArg mk h

theorem outcome_append (d : Document) (s : Store) : (append d).outcome s =
    if (s.position? d.id).isSome then (.error (.duplicateIdentity d.id), s)
    else (.ok (), { s with documents := s.documents ++ [d] }) := by
  rw [append, InPlace.outcome_get_bind]
  split <;> rfl

theorem outcome_appendAll (ds : List Document) (s : Store) : (appendAll ds).outcome s =
    match firstRepeat? s.ids ds with
    | some id => (.error (.duplicateIdentity id), s)
    | none => (.ok (), { s with documents := s.documents ++ ds }) := by
  rw [appendAll, InPlace.outcome_get_bind]
  cases firstRepeat? s.ids ds <;> rfl

theorem outcome_remove (id : Identity) (s : Store) : (remove id).outcome s =
    match s.position? id, s.get? id with
    | some i, some d => (.ok d, { s with documents := s.documents.eraseIdx i })
    | _, _ => (.error (.notFound id), s) := by
  rw [remove, InPlace.outcome_get_bind]
  cases s.position? id <;> cases s.get? id <;> rfl

theorem outcome_rename (id : Identity) (name : String) (s : Store) : (rename id name).outcome s =
    match s.position? id with
    | none => (.error (.notFound id), s)
    | some i =>
      if id.withName name ≠ id ∧ (s.position? (id.withName name)).isSome then
        (.error (.duplicateIdentity (id.withName name)), s)
      else (.ok (), { s with documents := s.documents.modify i (Document.rename name) }) := by
  rw [rename, InPlace.outcome_get_bind]
  cases s.position? id with
  | none => rfl
  | some i =>
    dsimp only
    split <;> rfl

theorem appended_eq (d : Document) (s : Store) : s.appended d =
    if (s.position? d.id).isSome then .error (.duplicateIdentity d.id)
    else .ok { s with documents := s.documents ++ [d] } := by
  rw [appended, InPlace.result, outcome_append]
  split <;> rfl

theorem appendedAll_eq (ds : List Document) (s : Store) : s.appendedAll ds =
    match firstRepeat? s.ids ds with
    | some id => .error (.duplicateIdentity id)
    | none => .ok { s with documents := s.documents ++ ds } := by
  rw [appendedAll, InPlace.result, outcome_appendAll]
  cases firstRepeat? s.ids ds <;> rfl

theorem removed_eq (id : Identity) (s : Store) : s.removed id =
    match s.position? id, s.get? id with
    | some i, some d => .ok ({ s with documents := s.documents.eraseIdx i }, d)
    | _, _ => .error (.notFound id) := by
  change ((remove id).outcome s).1.map (fun d => (((remove id).outcome s).2, d)) = _
  rw [outcome_remove]
  cases s.position? id <;> cases s.get? id <;> rfl

theorem renamed_eq (id : Identity) (name : String) (s : Store) : s.renamed id name =
    match s.position? id with
    | none => .error (.notFound id)
    | some i =>
      if id.withName name ≠ id ∧ (s.position? (id.withName name)).isSome then
        .error (.duplicateIdentity (id.withName name))
      else .ok { s with documents := s.documents.modify i (Document.rename name) } := by
  rw [renamed, InPlace.result, outcome_rename]
  cases s.position? id with
  | none => rfl
  | some i =>
    dsimp only
    split <;> rfl

theorem get?_eq_some_iff : s.get? id = some d ↔ ∃ before after, s.Around id before d after := by
  rw [get?, List.find?_eq_some_iff_append]
  constructor
  · rintro ⟨hid, before, after, hs, hfirst⟩
    exact ⟨before, after, hs, of_decide_eq_true hid, fun e he => by simpa using hfirst e he⟩
  · rintro ⟨before, after, hs, hid, hfirst⟩
    exact ⟨decide_eq_true hid, before, after, hs, fun e he => by simpa using hfirst e he⟩

theorem mapM_eq_ok {f : Document → Except Error Document} :
    s.mapM f = .ok s' ↔ s.documents.map f = s'.documents.map .ok := by
  rw [Store.mapM, bind_eq_ok, ← Manifest.mapM_eq_ok]
  constructor
  · rintro ⟨ds, hds, h⟩
    exact pure_eq_ok.1 h ▸ hds
  · exact fun h => ⟨_, h, rfl⟩

theorem exists_of_mapM {f : Document → Except Error Document} (h : s.mapM f = .ok s')
    (hd : d ∈ s.documents) : ∃ d', f d = .ok d' :=
  exists_map_eq_ok_iff.1 ⟨_, mapM_eq_ok.1 h⟩ d hd

theorem mapM_eq_self_iff {f : Document → Except Error Document} (h : s.mapM f = .ok s') :
    s' = s ↔ ∀ d ∈ s.documents, f d = .ok d := by
  have hmap := mapM_eq_ok.1 h
  constructor
  · rintro rfl
    exact List.map_inj_left.1 hmap
  · intro hself
    rw [List.map_inj_left.2 hself] at hmap
    exact ext ((List.map_inj_right fun _ _ => Except.ok.inj).1 hmap).symm

theorem position?_eq_none_iff : s.position? id = none ↔ id ∉ s.ids := by
  simp [position?, ids]

theorem isSome_position? : (s.position? id).isSome = true ↔ id ∈ s.ids := by
  simp [position?, ids]

theorem isSome_get? : (s.get? id).isSome = true ↔ id ∈ s.ids := by
  simp [get?, ids]

theorem exists_around (h : id ∈ s.ids) : ∃ before d after, s.Around id before d after := by
  obtain ⟨d, hd⟩ := Option.isSome_iff_exists.1 (isSome_get?.2 h)
  obtain ⟨before, after, h⟩ := get?_eq_some_iff.1 hd
  exact ⟨before, d, after, h⟩

theorem ids_eq (h : s.documents = before ++ d :: after) :
    s.ids = before.map Document.id ++ d.id :: after.map Document.id := by
  rw [ids, h, List.map_append, List.map_cons]

theorem around_of_nodup (hs : s.documents = before ++ d :: after) (nodup : s.ids.Nodup) :
    s.Around d.id before d after := by
  refine ⟨hs, rfl, fun e he heq => ?_⟩
  rw [ids_eq hs, List.nodup_append] at nodup
  exact nodup.2.2 e.id (List.mem_map_of_mem he) d.id List.mem_cons_self heq

theorem nodup_ids_pair {d e : Document} (h : d.kind ≠ e.kind) :
    (Store.mk [d, e]).ids.Nodup := by
  have hne : d.id ≠ e.id := fun heq => h <| by
    rw [← Document.kind_type, ← Document.kind_type]
    exact congrArg (fun id => id.type.kind) heq
  simpa [ids] using hne

namespace Around

variable (h : s.Around id before d after)

include h

theorem get?_eq : s.get? id = some d := get?_eq_some_iff.2 ⟨before, after, h⟩

theorem mem_ids : id ∈ s.ids := isSome_get?.1 (by rw [h.get?_eq]; rfl)

theorem position?_eq : s.position? id = some before.length := by
  have hnone : before.findIdx? (fun e => e.id = id) = none := by simpa using h.first
  rw [position?, h.documents, List.findIdx?_append, hnone, List.findIdx?_cons]
  simp [h.id_eq]

theorem modify_eq (f : Document → Document) :
    s.documents.modify before.length f = before ++ f d :: after := by
  rw [h.documents, List.modify_eq_take_cons_drop (by simp)]
  simp

theorem eraseIdx_eq : s.documents.eraseIdx before.length = before ++ after := by
  rw [h.documents, List.eraseIdx_append_of_length_le (Nat.le_refl _), Nat.sub_self]
  rfl

theorem removed_eq : s.removed id = .ok ({ documents := before ++ after }, d) := by
  rw [Store.removed_eq, h.position?_eq, h.get?_eq]
  simp only [h.eraseIdx_eq]

theorem renamed_eq (name : String) : s.renamed id name =
    if id.withName name ≠ id ∧ id.withName name ∈ s.ids then
      .error (.duplicateIdentity (id.withName name))
    else .ok { documents := before ++ d.rename name :: after } := by
  rw [Store.renamed_eq, h.position?_eq]
  simp only [h.modify_eq, isSome_position?]

end Around

theorem removed_eq_ok : s.removed id = .ok (s', d) ↔
    ∃ before after, s.Around id before d after ∧ s'.documents = before ++ after := by
  by_cases hid : id ∈ s.ids
  · obtain ⟨before, e, after, h⟩ := exists_around hid
    rw [h.removed_eq]
    constructor
    · intro heq
      obtain ⟨rfl, rfl⟩ := Prod.mk.inj (Except.ok.inj heq)
      exact ⟨before, after, h, rfl⟩
    · rintro ⟨before', after', h', hs'⟩
      have hrem := h'.removed_eq
      rw [h.removed_eq] at hrem
      rw [hrem]
      rw [ext hs']
  · constructor
    · rw [removed_eq, position?_eq_none_iff.2 hid]
      nofun
    · rintro ⟨before, after, h, -⟩
      exact absurd h.mem_ids hid

theorem appended_eq_ok :
    s.appended d = .ok s' ↔ d.id ∉ s.ids ∧ s'.documents = s.documents ++ [d] := by
  rw [appended_eq]
  split
  · rename_i h
    exact ⟨nofun, fun hd => absurd (isSome_position?.1 h) hd.1⟩
  · rename_i h
    rw [isSome_position?] at h
    constructor
    · intro heq
      cases heq
      exact ⟨h, rfl⟩
    · intro hd
      exact congrArg _ (ext hd.2.symm)

theorem appendedAll_singleton (d : Document) (s : Store) : s.appendedAll [d] = s.appended d := by
  rw [appendedAll_eq, appended_eq, firstRepeat?, firstRepeat?]
  by_cases h : d.id ∈ s.ids
  · rw [if_pos h, if_pos (isSome_position?.2 h)]
  · rw [if_neg h, if_neg (mt isSome_position?.1 h)]

theorem renamed_eq_ok {name : String} : s.renamed id name = .ok s' ↔
    (id.withName name ∈ s.ids → id.withName name = id) ∧
      ∃ before d after, s.Around id before d after ∧
        s'.documents = before ++ d.rename name :: after := by
  by_cases hid : id ∈ s.ids
  · obtain ⟨before, d, after, h⟩ := exists_around hid
    rw [h.renamed_eq]
    split
    · rename_i htaken
      exact ⟨nofun, fun hfree => absurd (hfree.1 htaken.2) htaken.1⟩
    · rename_i hfree
      constructor
      · intro heq
        cases heq
        exact ⟨fun hmem => Decidable.by_contra fun hne => hfree ⟨hne, hmem⟩,
          before, d, after, h, rfl⟩
      · rintro ⟨hfree', before', d', after', h', hs'⟩
        have hren := h'.renamed_eq name
        rw [h.renamed_eq, if_neg hfree, if_neg hfree] at hren
        rw [hren]
        exact congrArg _ (ext hs'.symm)
  · constructor
    · rw [renamed_eq, position?_eq_none_iff.2 hid]
      nofun
    · rintro ⟨-, before, d, after, h, -⟩
      exact absurd h.mem_ids hid

/-- The store is `ds` and one more document, which has an identity of its own. -/
structure Extends (s : Store) (ds : List Document) (d : Document) : Prop where
  documents : s.documents = ds ++ [d]
  fresh : d.id ∉ ds.map Document.id

theorem Extends.around {ds : List Document} (h : s.Extends ds d) : s.Around d.id ds d [] :=
  ⟨h.documents, rfl, fun _ he heq => h.fresh (heq ▸ List.mem_map_of_mem he)⟩

theorem appended_eq_ok_iff_extends : s.appended d = .ok s' ↔ s'.Extends s.documents d := by
  rw [appended_eq_ok]
  exact ⟨fun h => ⟨h.2, h.1⟩, fun h => ⟨h.fresh, h.documents⟩⟩

theorem Extends.renamed_eq_ok {ds : List Document} {name : String} (h : s.Extends ds d)
    (hasMetadata : d.HasMetadata) :
    s.renamed d.id name = .ok s' ↔ s'.Extends ds (d.rename name) := by
  have hmem : d.id.withName name ∈ s.ids ↔
      d.id.withName name ∈ ds.map Document.id ∨ d.id.withName name = d.id := by
    rw [ids, h.documents, List.map_append, List.map_singleton, List.mem_append, List.mem_singleton]
  rw [h.around.renamed_eq]
  constructor
  · intro hs'
    split at hs'
    · cases hs'
    · rename_i hfree
      obtain rfl := Except.ok.inj hs'
      refine ⟨rfl, fun htaken => ?_⟩
      rw [hasMetadata.id_rename] at htaken
      by_cases hsame : d.id.withName name = d.id
      · exact h.fresh (hsame ▸ htaken)
      · exact hfree ⟨hsame, hmem.2 (.inl htaken)⟩
  · intro hext
    rw [if_neg, ext hext.documents]
    rintro ⟨hne, htaken⟩
    rcases hmem.1 htaken with htaken | heq
    · exact hext.fresh (hasMetadata.id_rename name ▸ htaken)
    · exact hne heq

theorem Extends.removed_eq {ds : List Document} (h : s.Extends ds d) :
    s.removed d.id = .ok ({ documents := ds }, d) := by
  rw [h.around.removed_eq, List.append_nil]

theorem documents_renamed {name : String} (distinct : s.ids.Nodup)
    (h : s.renamed id name = .ok s') :
    s'.documents = s.documents.map fun d => if d.id = id then d.rename name else d := by
  obtain ⟨-, before, d, after, hs, hs'⟩ := renamed_eq_ok.1 h
  have hafter : ∀ e ∈ after, e.id ≠ id := fun e he heq => by
    rw [ids_eq hs.documents, List.nodup_append, List.nodup_cons] at distinct
    exact distinct.2.1.1 (hs.id_eq ▸ heq ▸ List.mem_map_of_mem he)
  have kept : ∀ ds : List Document, (∀ e ∈ ds, e.id ≠ id) →
      ds.map (fun d => if d.id = id then d.rename name else d) = ds := fun ds hds =>
    (List.map_congr_left fun e he => if_neg (hds e he)).trans (List.map_id ds)
  rw [hs', hs.documents, List.map_append, List.map_cons, kept before hs.first, kept after hafter,
    if_pos hs.id_eq]

theorem nodup_ids_renamed {name : String} (hasMetadata : ∀ d ∈ s.documents, d.HasMetadata)
    (distinct : s.ids.Nodup) (h : s.renamed id name = .ok s') : s'.ids.Nodup := by
  obtain ⟨hfree, before, d, after, hs, hs'⟩ := renamed_eq_ok.1 h
  have hd : d ∈ s.documents := by simp [hs.documents]
  rw [ids_eq hs', (hasMetadata d hd).id_rename, hs.id_eq]
  by_cases heq : id.withName name = id
  · rwa [heq, ← hs.id_eq, ← ids_eq hs.documents]
  · have hnew : id.withName name ∉ s.ids := fun hmem => heq (hfree hmem)
    rw [ids_eq hs.documents] at hnew distinct
    simp only [List.mem_append, List.mem_cons, not_or] at hnew
    rw [List.nodup_append, List.nodup_cons] at distinct ⊢
    refine ⟨distinct.1, ⟨hnew.2.2, distinct.2.1.2⟩, fun a ha b hb => ?_⟩
    rcases List.mem_cons.1 hb with rfl | hb
    · rintro rfl
      exact hnew.1 ha
    · exact distinct.2.2 a ha b (List.mem_cons_of_mem _ hb)

theorem firstRepeat?_eq_none {seen : List Identity} {ds : List Document} :
    firstRepeat? seen ds = none ↔
      (ds.map Document.id).Nodup ∧ ∀ d ∈ ds, d.id ∉ seen := by
  induction ds generalizing seen with
  | nil => simp [firstRepeat?]
  | cons d ds ih =>
    rw [firstRepeat?]
    split
    · rename_i h
      exact ⟨nofun, fun hn => absurd h (hn.2 d List.mem_cons_self)⟩
    · rename_i h
      rw [ih, List.map_cons, List.nodup_cons]
      constructor
      · rintro ⟨hnodup, hseen⟩
        refine ⟨⟨fun hmem => ?_, hnodup⟩, fun e he => ?_⟩
        · obtain ⟨e, he, heq⟩ := List.mem_map.1 hmem
          exact hseen e he (heq ▸ List.mem_cons_self)
        · rcases List.mem_cons.1 he with rfl | he
          · exact h
          · exact fun hmem => hseen e he (List.mem_cons_of_mem _ hmem)
      · rintro ⟨⟨hd, hnodup⟩, hseen⟩
        refine ⟨hnodup, fun e he hmem => ?_⟩
        rcases List.mem_cons.1 hmem with heq | hmem
        · exact hd (heq ▸ List.mem_map_of_mem he)
        · exact hseen e (List.mem_cons_of_mem _ he) hmem

theorem ensureUnique_eq_ok : s.ensureUnique = .ok () ↔ s.ids.Nodup := by
  have h := @firstRepeat?_eq_none [] s.documents
  rw [ensureUnique]
  split
  · rename_i hsome
    rw [hsome] at h
    exact ⟨nofun, fun hn => nomatch h.2 ⟨hn, fun _ _ => List.not_mem_nil⟩⟩
  · rename_i hnone
    exact ⟨fun _ => (h.1 hnone).1, fun _ => rfl⟩

def Valid (s : Store) : Prop := ∀ d ∈ s.documents, d.Valid

theorem valid_of_mapM {f : Document → Except Error Document} (valid : s.Valid)
    (hf : ∀ d d', d.Valid → f d = .ok d' → d'.Valid) (h : s.mapM f = .ok s') : s'.Valid :=
  forall_of_map_eq_ok (mapM_eq_ok.1 h) fun d hd d' => hf d d' (valid d hd)

end Manifest.Store
