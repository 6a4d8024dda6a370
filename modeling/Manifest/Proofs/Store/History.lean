import Manifest.Proofs.Store

namespace Manifest

namespace Store

inductive Operation where
  | append (d : Document)
  | appendAll (ds : List Document)
  | remove (id : Identity)
  | rename (id : Identity) (name : String)

namespace Operation

def run : Operation → InPlace Store Id Unit
  | append d => Store.append d
  | appendAll ds => Store.appendAll ds
  | remove id => do
    let _ ← Store.remove id
    return
  | rename id name => Store.rename id name

def call (op : Operation) (s : Store) : Except Error Unit × Store := op.run.outcome s

def Valid : Operation → Prop
  | append d => d.Valid
  | appendAll ds => ∀ d ∈ ds, d.Valid
  | remove _ | rename _ _ => True

instance (op : Operation) : Decidable op.Valid :=
  match op with
  | append d => inferInstanceAs (Decidable d.Valid)
  | appendAll ds => inferInstanceAs (Decidable (∀ d ∈ ds, d.Valid))
  | remove _ | rename _ _ => .isTrue trivial

/-- The place of a document behind a call, unless the call removes it. -/
def place? (op : Operation) (s : Store) (i : Nat) : Option Nat :=
  match op with
  | remove id =>
    match s.position? id with
    | none => some i
    | some k => if i < k then some i else if i = k then none else some (i - 1)
  | append _ | appendAll _ | rename _ _ => some i

end Operation

def after (ops : List Operation) (s : Store) : Store := ops.foldl (fun s op => (op.call s).2) s

def placeAfter? : List Operation → Store → Nat → Option Nat
  | [], _, i => some i
  | op :: ops, s, i => (op.place? s i).bind (placeAfter? ops (op.call s).2)

variable {s s' : Store} {id : Identity} {d : Document} {ds : List Document} {name : String}
  {e : Error}

theorem appended_eq_error :
    s.appended d = .error e ↔ d.id ∈ s.ids ∧ e = .duplicateIdentity d.id := by
  rw [appended_eq]
  split
  · rename_i h
    simp [isSome_position?.1 h, eq_comm]
  · rename_i h
    simp [mt isSome_position?.2 h]

theorem appendedAll_eq_ok : s.appendedAll ds = .ok s' ↔
    ((ds.map Document.id).Nodup ∧ ∀ d ∈ ds, d.id ∉ s.ids) ∧
      s'.documents = s.documents ++ ds := by
  rw [← firstRepeat?_eq_none, appendedAll_eq]
  cases firstRepeat? s.ids ds with
  | some id => simp
  | none =>
    rw [Except.ok.injEq, and_iff_right rfl]
    exact ⟨fun h => h ▸ rfl, fun h => ext h.symm⟩

theorem exists_error_iff {ε α : Type} {x : Except ε α} :
    (∃ e, x = .error e) ↔ ¬ ∃ a, x = .ok a := by
  cases x <;> simp

theorem exists_appendedAll_eq_error : (∃ e, s.appendedAll ds = .error e) ↔
    (∃ d ∈ ds, d.id ∈ s.ids) ∨ ¬ (ds.map Document.id).Nodup := by
  have hok : (∃ s', s.appendedAll ds = .ok s') ↔
      (ds.map Document.id).Nodup ∧ ∀ d ∈ ds, d.id ∉ s.ids := by
    simp only [appendedAll_eq_ok]
    exact ⟨fun ⟨_, h, _⟩ => h, fun h => ⟨⟨s.documents ++ ds⟩, h, rfl⟩⟩
  rw [exists_error_iff, hok, not_and_or, or_comm]
  simp only [not_forall, not_not, exists_prop]

theorem removed_eq_error : s.removed id = .error e ↔ id ∉ s.ids ∧ e = .notFound id := by
  by_cases hid : id ∈ s.ids
  · obtain ⟨before, d, after, h⟩ := exists_around hid
    simp [h.removed_eq, hid]
  · simp [removed_eq, position?_eq_none_iff.2 hid, hid, eq_comm]

theorem renamed_eq_error : s.renamed id name = .error e ↔
    id ∉ s.ids ∧ e = .notFound id ∨
      id ∈ s.ids ∧ (id.withName name ≠ id ∧ id.withName name ∈ s.ids) ∧
        e = .duplicateIdentity (id.withName name) := by
  by_cases hid : id ∈ s.ids
  · obtain ⟨before, d, after, h⟩ := exists_around hid
    rw [h.renamed_eq]
    split
    · rename_i htaken
      simp [hid, htaken, eq_comm]
    · rename_i hfree
      simp [hid, hfree]
  · simp [renamed_eq, position?_eq_none_iff.2 hid, hid, eq_comm]

theorem mem_ids_iff_getElem? : id ∈ s.ids ↔ ∃ (i : Nat) (d : Document),
    s.documents[i]? = some d ∧ d.id = id := by
  rw [ids, List.mem_map]
  constructor
  · rintro ⟨d, hd, hid⟩
    obtain ⟨i, hi⟩ := List.mem_iff_getElem?.1 hd
    exact ⟨i, d, hi, hid⟩
  · rintro ⟨i, d, hi, hid⟩
    exact ⟨d, List.mem_of_getElem? hi, hid⟩

theorem Around.getElem?_eq {before after : List Document} (h : s.Around id before d after) :
    s.documents[before.length]? = some d := by
  simp [h.documents]

theorem renamed_eq_set (h : s.renamed id name = .ok s') : ∃ (i : Nat) (d : Document),
    s.documents[i]? = some d ∧ d.id = id ∧ s'.documents = s.documents.set i (d.rename name) := by
  obtain ⟨-, before, d, after, hs, hs'⟩ := renamed_eq_ok.1 h
  exact ⟨before.length, d, hs.getElem?_eq, hs.id_eq, by simp [hs', hs.documents]⟩

theorem getElem?_inj_of_id_eq (distinct : s.ids.Nodup) {i j : Nat} {e : Document}
    (hi : s.documents[i]? = some d) (hj : s.documents[j]? = some e) (h : d.id = e.id) : i = j := by
  have hlt : i < s.ids.length := by
    rw [ids, List.length_map]
    exact (List.getElem?_eq_some_iff.1 hi).1
  refine (List.getElem?_inj hlt distinct).1 ?_
  simp [ids, hi, hj, h]

namespace Operation

theorem call_remove (id : Identity) (s : Store) : (remove id).call s =
    match (Store.remove id).outcome s with
    | (.ok _, s') => (.ok (), s')
    | (.error e, s') => (.error e, s') := by
  rw [call, run, InPlace.outcome_bind]
  obtain ⟨_ | _, _⟩ := (Store.remove id).outcome s <;> rfl

/-- Every call checks before it changes the store. -/
theorem eq_of_call {op : Operation} (h : op.call s = (.error e, s')) : s' = s := by
  cases op with
  | append d =>
    rw [call, run, outcome_append] at h
    split at h <;> cases h
    rfl
  | appendAll ds =>
    rw [call, run, outcome_appendAll] at h
    split at h <;> cases h
    rfl
  | remove id =>
    rw [call_remove, outcome_remove] at h
    cases hi : s.position? id <;> cases hd : s.get? id <;> (rw [hi, hd] at h; cases h) <;> rfl
  | rename id name =>
    rw [call, run, outcome_rename] at h
    split at h
    · cases h
      rfl
    · split at h <;> cases h
      rfl

theorem call_cases (op : Operation) (s : Store) :
    (op.call s).2 = s ∨ op.call s = (.ok (), (op.call s).2) := by
  cases h : op.call s with
  | mk r s' =>
    cases r with
    | error e => exact .inl (eq_of_call h)
    | ok _ => exact .inr rfl

theorem call_append_eq_ok : (append d).call s = (.ok (), s') ↔ s.appended d = .ok s' :=
  InPlace.result_eq_ok_iff.symm

theorem call_appendAll_eq_ok : (appendAll ds).call s = (.ok (), s') ↔ s.appendedAll ds = .ok s' :=
  InPlace.result_eq_ok_iff.symm

theorem call_rename_eq_ok :
    (rename id name).call s = (.ok (), s') ↔ s.renamed id name = .ok s' :=
  InPlace.result_eq_ok_iff.symm

theorem call_remove_eq_ok : (remove id).call s = (.ok (), s') ↔
    ∃ before d after, s.Around id before d after ∧ s'.documents = before ++ after := by
  have hcall : (remove id).call s = (.ok (), s') ↔
      ∃ d, (Store.remove id).outcome s = (.ok d, s') := by
    rw [call_remove]
    obtain ⟨_ | _, _⟩ := (Store.remove id).outcome s <;> simp
  rw [hcall]
  constructor
  · rintro ⟨d, h⟩
    obtain ⟨before, after, h⟩ := removed_eq_ok.1 (InPlace.on_eq_ok.2 h)
    exact ⟨before, d, after, h⟩
  · rintro ⟨before, d, after, h⟩
    exact ⟨d, InPlace.on_eq_ok.1 (removed_eq_ok.2 ⟨before, after, h⟩)⟩

end Operation

structure Sound (s : Store) : Prop where
  distinct : s.ids.Nodup
  hasMetadata : ∀ d ∈ s.documents, d.HasMetadata

namespace Sound

variable (h : s.Sound)

include h

theorem appendedAll (valid : ∀ d ∈ ds, d.Valid) (hs' : s.appendedAll ds = .ok s') : s'.Sound := by
  obtain ⟨⟨hds, hfresh⟩, hs'⟩ := appendedAll_eq_ok.1 hs'
  constructor
  · rw [ids, hs', List.map_append, List.nodup_append]
    refine ⟨h.distinct, hds, ?_⟩
    rintro id hid _ hmem rfl
    obtain ⟨d, hd, rfl⟩ := List.mem_map.1 hmem
    exact hfresh d hd hid
  · intro d hd
    rw [hs', List.mem_append] at hd
    rcases hd with hd | hd
    · exact h.hasMetadata d hd
    · exact Document.hasMetadata_of_name (valid d hd).name_ne_empty

theorem of_call {op : Operation} (valid : op.Valid) (hop : op.call s = (.ok (), s')) :
    s'.Sound := by
  cases op with
  | append d =>
    refine h.appendedAll (List.forall_mem_singleton.2 valid) ?_
    rwa [appendedAll_singleton, ← Operation.call_append_eq_ok]
  | appendAll ds => exact h.appendedAll valid (Operation.call_appendAll_eq_ok.1 hop)
  | remove id =>
    obtain ⟨before, d, after, hs, hs'⟩ := Operation.call_remove_eq_ok.1 hop
    have hsub : s'.documents.Sublist s.documents := by simp [hs', hs.documents]
    exact ⟨h.distinct.sublist (hsub.map _), fun d hd => h.hasMetadata d (hsub.subset hd)⟩
  | rename id name =>
    have hren := Operation.call_rename_eq_ok.1 hop
    refine ⟨nodup_ids_renamed h.hasMetadata h.distinct hren, fun e he => ?_⟩
    rw [documents_renamed h.distinct hren] at he
    obtain ⟨d, hd, rfl⟩ := List.mem_map.1 he
    split
    · exact (h.hasMetadata d hd).setMetadata _ _
    · exact h.hasMetadata d hd

theorem call {op : Operation} (valid : op.Valid) : (op.call s).2.Sound := by
  rcases op.call_cases s with hs | hs
  · rwa [hs]
  · exact h.of_call valid hs

end Sound

theorem prefix_of_run {op : Operation} (hop : (∃ e, op = .append e) ∨ ∃ es, op = .appendAll es) :
    s.documents <+: (op.call s).2.documents := by
  rcases op.call_cases s with hs | hs
  · simp [hs]
  · rcases hop with ⟨e, rfl⟩ | ⟨es, rfl⟩
    · exact ⟨[e], (appended_eq_ok.1 (Operation.call_append_eq_ok.1 hs)).2.symm⟩
    · exact ⟨es, (appendedAll_eq_ok.1 (Operation.call_appendAll_eq_ok.1 hs)).2.symm⟩

theorem followed_remove (id : Identity) {i : Nat} (h : s.documents[i]? = some d) :
    (Operation.remove id).place? s i = none ∧ id = d.id ∨ ∃ j,
      (Operation.remove id).place? s i = some j ∧
        ((Operation.remove id).call s).2.documents[j]? = some d := by
  rw [Operation.place?]
  by_cases hid : id ∈ s.ids
  · obtain ⟨before, e, after, hs⟩ := exists_around hid
    have hdocs : ((Operation.remove id).call s).2.documents =
        s.documents.eraseIdx before.length := by
      rw [Operation.call_remove_eq_ok.2 ⟨before, e, after, hs, hs.eraseIdx_eq⟩]
    rw [hs.position?_eq, hdocs]
    simp only [List.getElem?_eraseIdx]
    rcases Nat.lt_trichotomy i before.length with hlt | rfl | hgt
    · exact .inr ⟨i, by simp [hlt], by rw [if_pos hlt, h]⟩
    · obtain rfl : e = d := Option.some.inj (hs.getElem?_eq.symm.trans h)
      exact .inl ⟨by simp, hs.id_eq.symm⟩
    · refine .inr ⟨i - 1, by rw [if_neg (by omega), if_neg (by omega)], ?_⟩
      rw [if_neg (by omega), Nat.sub_add_cancel (by omega), h]
  · refine .inr ⟨i, by rw [position?_eq_none_iff.2 hid], ?_⟩
    rw [Operation.call_remove, outcome_remove, position?_eq_none_iff.2 hid]
    exact h

theorem followed_rename (id : Identity) (name : String) {i : Nat} (h : s.documents[i]? = some d) :
    ((Operation.rename id name).call s).2.documents[i]? = some d ∨ id = d.id ∧
      ((Operation.rename id name).call s).2.documents[i]? = some (d.rename name) := by
  rcases (Operation.rename id name).call_cases s with hs | hs
  · exact .inl (by rwa [hs])
  · obtain ⟨k, e, hk, rfl, hs⟩ := renamed_eq_set (Operation.call_rename_eq_ok.1 hs)
    by_cases hik : k = i
    · subst hik
      obtain rfl : e = d := Option.some.inj (hk.symm.trans h)
      refine .inr ⟨rfl, ?_⟩
      rw [hs, List.getElem?_set_self (List.getElem?_eq_some_iff.1 h).1]
    · exact .inl (by rw [hs, List.getElem?_set_ne hik, h])

theorem followed (op : Operation) {i : Nat} (h : s.documents[i]? = some d) :
    op.place? s i = none ∧ op = .remove d.id ∨
      ∃ j, op.place? s i = some j ∧ ((op.call s).2.documents[j]? = some d ∨
        ∃ name, op = .rename d.id name ∧
          (op.call s).2.documents[j]? = some (d.rename name)) := by
  have kept : s.documents <+: (op.call s).2.documents → (op.call s).2.documents[i]? = some d := by
    rintro ⟨es, hes⟩
    rw [← hes, List.getElem?_append_left (List.getElem?_eq_some_iff.1 h).1, h]
  cases op with
  | append e => exact .inr ⟨i, rfl, .inl (kept (prefix_of_run (.inl ⟨e, rfl⟩)))⟩
  | appendAll es => exact .inr ⟨i, rfl, .inl (kept (prefix_of_run (.inr ⟨es, rfl⟩)))⟩
  | remove id =>
    rcases followed_remove id h with ⟨hnone, rfl⟩ | ⟨j, hj, hd⟩
    · exact .inl ⟨hnone, rfl⟩
    · exact .inr ⟨j, hj, .inl hd⟩
  | rename id name =>
    rcases followed_rename id name h with hd | ⟨rfl, hd⟩
    · exact .inr ⟨i, rfl, .inl hd⟩
    · exact .inr ⟨i, rfl, .inr ⟨name, rfl, hd⟩⟩

theorem Sound.after {ops : List Operation} (h : s.Sound) (valid : ∀ op ∈ ops, op.Valid) :
    (s.after ops).Sound := by
  induction ops generalizing s with
  | nil => exact h
  | cons op ops ih =>
    rw [List.forall_mem_cons] at valid
    exact ih (h.call valid.1) valid.2

theorem sound_empty : empty.Sound := ⟨List.nodup_nil, nofun⟩

theorem after_append (before later : List Operation) (s : Store) :
    s.after (before ++ later) = (s.after before).after later := List.foldl_append

theorem exists_of_placeAfter? {ops : List Operation} {i j : Nat} (h : s.documents[i]? = some d)
    (hj : placeAfter? ops s i = some j) : ∃ d', (s.after ops).documents[j]? = some d' ∧
      d'.kind = d.kind ∧ ∀ m, d.hasName m = true → d'.hasName m = true := by
  induction ops generalizing s d i with
  | nil => exact ⟨d, (Option.some.inj hj) ▸ h, rfl, fun _ hm => hm⟩
  | cons op ops ih =>
    obtain ⟨k, hk, hj⟩ := Option.bind_eq_some_iff.1 hj
    rcases followed op h with ⟨hnone, -⟩ | ⟨l, hl, hstep⟩
    · rw [hnone] at hk
      cases hk
    obtain rfl : l = k := Option.some.inj (hl.symm.trans hk)
    rcases hstep with hd | ⟨name, -, hd⟩
    · exact ih hd hj
    · obtain ⟨d', hd', hkind, hnames⟩ := ih hd hj
      exact ⟨d', hd', hkind.trans (Document.kind_rename name d), fun m hm =>
        hnames m (Document.hasName_rename hm name)⟩

theorem exists_find? {i : Nat} {m : String} (h : s.documents[i]? = some d)
    (hm : d.hasName m = true) : ∃ e, s.find? d.kind m = some e ∧ e.kind = d.kind ∧
      e.hasName m = true := by
  have hsome : (s.find? d.kind m).isSome = true := by
    rw [find?, List.find?_isSome]
    exact ⟨d, List.mem_of_getElem? h, by simp [hm]⟩
  obtain ⟨e, he⟩ := Option.isSome_iff_exists.1 hsome
  have hpred := List.find?_some he
  rw [Bool.and_eq_true, decide_eq_true_eq] at hpred
  exact ⟨e, he, hpred⟩

/-- What calls do at a store: they fail where an identity is taken or absent and nowhere else, and
when they succeed they change what they were called for. -/
structure Lawful (s : Store) : Prop where
  distinct : s.ids.Nodup
  failed : ∀ (op : Operation) e s', op.call s = (.error e, s') → s' = s
  append_ok : ∀ d s', (append d).outcome s = (.ok (), s') → s'.documents = s.documents ++ [d]
  append_error : ∀ d e, ((append d).outcome s).1 = .error e ↔
    d.id ∈ s.ids ∧ e = .duplicateIdentity d.id
  appendAll_ok : ∀ ds s', (appendAll ds).outcome s = (.ok (), s') →
    s'.documents = s.documents ++ ds
  appendAll_error : ∀ ds, (∃ e, ((appendAll ds).outcome s).1 = .error e) ↔
    (∃ d ∈ ds, d.id ∈ s.ids) ∨ ¬ (ds.map Document.id).Nodup
  remove_ok : ∀ id d s', (remove id).outcome s = (.ok d, s') → d.id = id ∧
    ∃ before after, s.documents = before ++ d :: after ∧ s'.documents = before ++ after
  remove_error : ∀ id e, ((remove id).outcome s).1 = .error e ↔ id ∉ s.ids ∧ e = .notFound id
  rename_ok : ∀ id name s', (rename id name).outcome s = (.ok (), s') → ∃ (i : Nat) (d : Document),
    s.documents[i]? = some d ∧ d.id = id ∧ s'.documents = s.documents.set i (d.rename name) ∧
      (d.rename name).id = id.withName name ∧ (d.rename name).previous = d.previous ++ [id]
  followed : ∀ (op : Operation) (i : Nat) (d : Document), s.documents[i]? = some d →
    op.place? s i = none ∧ op = .remove d.id ∨
      ∃ j, op.place? s i = some j ∧ ((op.call s).2.documents[j]? = some d ∨
        ∃ name, op = .rename d.id name ∧ (op.call s).2.documents[j]? = some (d.rename name))
  rename_error : ∀ id name e, ((rename id name).outcome s).1 = .error e ↔
    id ∉ s.ids ∧ e = .notFound id ∨
      (∃ (i j : Nat) (d d' : Document), i ≠ j ∧ s.documents[i]? = some d ∧ d.id = id ∧
        s.documents[j]? = some d' ∧ d'.id = id.withName name) ∧
          e = .duplicateIdentity (id.withName name)

theorem Sound.lawful (h : s.Sound) : s.Lawful where
  distinct := h.distinct
  failed op e s' := Operation.eq_of_call
  append_ok d s' hs' := (appended_eq_ok.1 (InPlace.result_eq_ok_iff.2 hs')).2
  append_error d e := InPlace.result_eq_error.symm.trans appended_eq_error
  appendAll_ok ds s' hs' := (appendedAll_eq_ok.1 (InPlace.result_eq_ok_iff.2 hs')).2
  appendAll_error ds :=
    (exists_congr fun _ => InPlace.result_eq_error.symm).trans exists_appendedAll_eq_error
  remove_ok id d s' hs' := by
    obtain ⟨before, after, hs, hs'⟩ := removed_eq_ok.1 (InPlace.on_eq_ok.2 hs')
    exact ⟨hs.id_eq, before, after, hs.documents, hs'⟩
  remove_error id e := InPlace.on_eq_error.symm.trans removed_eq_error
  rename_ok id name s' hs' := by
    obtain ⟨i, d, hi, rfl, hset⟩ := renamed_eq_set (InPlace.result_eq_ok_iff.2 hs')
    have hd := h.hasMetadata d (List.mem_of_getElem? hi)
    exact ⟨i, d, hi, rfl, hset, hd.id_rename name, Document.previous_rename name d⟩
  followed op _ _ hi := followed op hi
  rename_error id name e := by
    refine (InPlace.result_eq_error.symm.trans renamed_eq_error).trans (or_congr_right ?_)
    constructor
    · rintro ⟨hid, ⟨hne, htarget⟩, rfl⟩
      obtain ⟨i, d, hi, rfl⟩ := mem_ids_iff_getElem?.1 hid
      obtain ⟨j, d', hj, hd'⟩ := mem_ids_iff_getElem?.1 htarget
      refine ⟨⟨i, j, d, d', ?_, hi, rfl, hj, hd'⟩, rfl⟩
      rintro rfl
      obtain rfl : d = d' := Option.some.inj (hi.symm.trans hj)
      exact hne hd'.symm
    · rintro ⟨⟨i, j, d, d', hij, hi, rfl, hj, hd'⟩, rfl⟩
      refine ⟨mem_ids_iff_getElem?.2 ⟨i, d, hi, rfl⟩, ⟨fun heq => ?_, ?_⟩, rfl⟩
      · exact hij (getElem?_inj_of_id_eq h.distinct hi hj (heq ▸ hd'.symm))
      · exact mem_ids_iff_getElem?.2 ⟨j, d', hj, hd'⟩

theorem lawful_after {ops : List Operation} (valid : ∀ op ∈ ops, op.Valid) :
    (empty.after ops).Lawful ∧
      ∀ before later, ops = before ++ later → ∀ (i j : Nat) (d : Document),
        (empty.after before).documents[i]? = some d →
        placeAfter? later (empty.after before) i = some j →
        ∃ d', (empty.after ops).documents[j]? = some d' ∧ d'.kind = d.kind ∧
          ∀ m, d.hasName m = true → d'.hasName m = true ∧
            ∃ e, (empty.after ops).find? d'.kind m = some e ∧ e.kind = d'.kind ∧
              e.hasName m = true := by
  refine ⟨(sound_empty.after valid).lawful, ?_⟩
  rintro before later rfl i j d hi hj
  rw [after_append]
  obtain ⟨d', hd', hkind, hnames⟩ := exists_of_placeAfter? hi hj
  exact ⟨d', hd', hkind, fun m hm => ⟨hnames m hm, exists_find? hd' (hnames m hm)⟩⟩

def handover : List Operation :=
  let a := Document.skeleton ⟨"", "v1", "ConfigMap"⟩ "a"
  let b := Document.skeleton ⟨"", "v1", "ConfigMap"⟩ "b"
  [.append a, .append b, .rename a.id "b", .appendAll [a.rename "c", a.rename "c"],
    .rename b.id "c", .rename a.id "b", .remove a.id]

theorem lawful_after_handover : (∀ op ∈ handover, op.Valid) ∧ (empty.after handover).Lawful ∧
    ∃ e, (empty.after handover).find? "ConfigMap" "a" = some e ∧ e.hasName "a" = true := by
  have valid : ∀ op ∈ handover, op.Valid := by decide +kernel
  obtain ⟨lawful, found⟩ := lawful_after valid
  obtain ⟨d', -, hkind, hnames⟩ := found (handover.take 1) (handover.drop 1) rfl 0 0
    (Document.skeleton ⟨"", "v1", "ConfigMap"⟩ "a") (by decide +kernel) (by decide +kernel)
  obtain ⟨-, e, he, -, hname⟩ := hnames "a" (by decide +kernel)
  rw [hkind] at he
  exact ⟨valid, lawful, e, he, hname⟩

end Store

end Manifest
