import Mathlib.Data.List.Nodup
import Manifest.Tree.Entries

namespace Manifest.Entries

variable {α β : Type}

theorem find?_modify (key other : String) (f : α → α) (es : Entries α) :
    find? other (modify key f es) =
      if key = other then (find? other es).map f else find? other es := by
  induction es with
  | nil => simp [modify]
  | cons e es ih =>
    obtain ⟨k, a⟩ := e
    by_cases hk : k = key
    · subst hk
      by_cases h : k = other <;> simp [modify, find?_cons, h]
    · by_cases h : k = other
      · subst h
        simp [modify, find?_cons, hk, Ne.symm hk]
      · simp [modify, find?_cons, hk, h, ih]

theorem has_iff_mem_keys {key : String} {es : Entries α} : has key es = true ↔ key ∈ es.keys := by
  induction es with
  | nil => simp [has, keys]
  | cons e es ih =>
    obtain ⟨k, a⟩ := e
    by_cases hk : k = key
    · simp [has, find?_cons, keys, hk]
    · rw [has, find?_cons, if_neg hk, ← has, ih, keys, keys, List.map_cons, List.mem_cons,
        or_iff_right (Ne.symm hk)]

theorem keys_mapValues (f : α → β) (es : Entries α) : (mapValues f es).keys = es.keys := by
  simp [keys, mapValues]

theorem find?_mapValues (f : α → β) (key : String) (es : Entries α) :
    find? key (mapValues f es) = (find? key es).map f := by
  induction es with
  | nil => rfl
  | cons e es ih =>
    obtain ⟨k, a⟩ := e
    by_cases hk : k = key
    · simp [mapValues, find?_cons, hk]
    · simpa [mapValues, find?_cons, hk] using ih

theorem find?_append (key : String) (es fs : Entries α) :
    find? key (es ++ fs) = (find? key es).or (find? key fs) := by
  induction es with
  | nil => rfl
  | cons e es ih =>
    rw [List.cons_append, find?_cons, find?_cons]
    split
    · rfl
    · exact ih

theorem keys_modify (key : String) (f : α → α) (es : Entries α) :
    (modify key f es).keys = es.keys := by
  induction es with
  | nil => rfl
  | cons e es ih =>
    rw [modify]
    split
    · rfl
    · exact congrArg (e.1 :: ·) ih

theorem modify_modify (key : String) (f g : α → α) (es : Entries α) :
    modify key g (modify key f es) = modify key (fun a => g (f a)) es := by
  induction es with
  | nil => rfl
  | cons e es ih =>
    obtain ⟨k, a⟩ := e
    by_cases hk : k = key
    · simp [modify, hk]
    · simp [modify, hk, ih]

theorem modify_congr {key : String} {f g : α → α} {es : Entries α}
    (h : ∀ a, find? key es = some a → f a = g a) : modify key f es = modify key g es := by
  induction es with
  | nil => rfl
  | cons e es ih =>
    obtain ⟨k, a⟩ := e
    simp only [find?_cons] at h
    rw [modify, modify]
    split
    · rename_i hk
      rw [h a (if_pos hk)]
    · rename_i hk
      rw [ih fun b hb => h b ((if_neg hk).trans hb)]

theorem modify_id (key : String) (es : Entries α) : modify key (fun a => a) es = es := by
  induction es with
  | nil => rfl
  | cons e es ih => rw [modify, ih, ite_self]

theorem modify_of_find?_eq_none {key : String} {es : Entries α} (h : find? key es = none)
    (f : α → α) : modify key f es = es :=
  (modify_congr fun a ha => by cases h.symm.trans ha).trans (modify_id key es)

theorem erase_modify (key : String) (f : α → α) (es : Entries α) :
    erase key (modify key f es) = erase key es := by
  induction es with
  | nil => rfl
  | cons e es ih =>
    obtain ⟨k, a⟩ := e
    by_cases hk : k = key
    · simp [modify, erase, hk]
    · simp [modify, erase, hk, ih]

theorem modify_comm {key other : String} (h : key ≠ other) (f g : α → α) (es : Entries α) :
    modify key f (modify other g es) = modify other g (modify key f es) := by
  induction es with
  | nil => rfl
  | cons e es ih =>
    obtain ⟨k, a⟩ := e
    by_cases hk : k = key
    · subst hk
      simp [modify, h]
    · by_cases hother : k = other
      · simp [modify, hother, Ne.symm h]
      · simp [modify, hk, hother, ih]

theorem erase_comm (key other : String) (es : Entries α) :
    erase key (erase other es) = erase other (erase key es) := by
  by_cases h : key = other
  · rw [h]
  induction es with
  | nil => rfl
  | cons e es ih =>
    obtain ⟨k, a⟩ := e
    by_cases hk : k = key
    · subst hk
      simp [erase, h]
    · by_cases hother : k = other
      · simp [erase, hother, Ne.symm h]
      · simp [erase, hk, hother, ih]

theorem erase_modify_of_ne {key other : String} (h : key ≠ other) (f : α → α) (es : Entries α) :
    erase key (modify other f es) = modify other f (erase key es) := by
  induction es with
  | nil => rfl
  | cons e es ih =>
    obtain ⟨k, a⟩ := e
    by_cases hk : k = key
    · subst hk
      simp [modify, erase, h]
    · by_cases hother : k = other
      · simp [modify, erase, hother, Ne.symm h]
      · simp [modify, erase, hk, hother, ih]

theorem erase_of_find?_eq_none {key : String} {es : Entries α} (h : find? key es = none) :
    erase key es = es := by
  induction es with
  | nil => rfl
  | cons e es ih =>
    obtain ⟨k, a⟩ := e
    rw [find?_cons] at h
    split at h
    · cases h
    · rename_i hk
      rw [erase, if_neg hk, ih h]

theorem find?_erase_of_ne {key other : String} (h : key ≠ other) (es : Entries α) :
    find? other (erase key es) = find? other es := by
  induction es with
  | nil => rfl
  | cons e es ih =>
    obtain ⟨k, a⟩ := e
    by_cases hk : k = key
    · simp [erase, find?_cons, hk, h]
    · simp [erase, find?_cons, hk, ih]

theorem find?_eq_none_iff {key : String} {es : Entries α} :
    find? key es = none ↔ key ∉ es.keys := by
  rw [← has_iff_mem_keys, has, Option.not_isSome_iff_eq_none]

theorem mem_of_find? {es : Entries α} {key : String} {a : α} (h : find? key es = some a) :
    (key, a) ∈ es := by
  induction es with
  | nil => cases h
  | cons e es ih =>
    rw [find?_cons] at h
    split at h
    · rename_i hkey
      obtain rfl := Option.some.inj h
      exact hkey ▸ List.mem_cons_self
    · exact List.mem_cons_of_mem _ (ih h)

theorem find?_of_mem {es : Entries α} (distinct : Distinct es) {e : String × α} (h : e ∈ es) :
    find? e.1 es = some e.2 := by
  induction es with
  | nil => cases h
  | cons e' es ih =>
    obtain ⟨hkey, hes⟩ := List.nodup_cons.1 distinct
    rw [find?_cons]
    rcases List.mem_cons.1 h with rfl | h
    · rw [if_pos rfl]
    · have hne : e'.1 ≠ e.1 := fun heq => hkey (heq ▸ List.mem_map_of_mem h)
      rw [if_neg hne, ih hes h]

theorem find?_key_of_mem {key : α → β} [DecidableEq β] {xs : List α}
    (distinct : (xs.map key).Nodup) {x : α} (hx : x ∈ xs) :
    xs.find? (fun y => key y = key x) = some x := by
  obtain ⟨y, hfind⟩ : ∃ y, xs.find? (fun y => key y = key x) = some y := by
    rw [← Option.isSome_iff_exists, List.find?_isSome]
    exact ⟨x, hx, decide_eq_true rfl⟩
  have hkey : key y = key x := by simpa using List.find?_some hfind
  rwa [List.inj_on_of_nodup_map distinct (List.mem_of_find?_eq_some hfind) hx hkey] at hfind

theorem mem_keys_insert {key other : String} {value : α} {es : Entries α} :
    other ∈ (insert key value es).keys ↔ other ∈ es.keys ∨ other = key := by
  rw [keys_insert]
  split
  · rename_i h
    exact ⟨.inl, fun ho => ho.elim id fun heq => heq ▸ h⟩
  · rw [List.mem_append, List.mem_singleton]

theorem distinct_insert {key : String} {value : α} {es : Entries α} (h : Distinct es) :
    Distinct (insert key value es) := by
  rw [Distinct, keys_insert]
  split
  · exact h
  · rename_i hkey
    refine List.nodup_append.2 ⟨h, by simp, fun a ha b hb => ?_⟩
    rintro rfl
    exact hkey (List.mem_singleton.1 hb ▸ ha)

theorem insert_of_not_mem {key : String} {value : α} {es : Entries α} (h : key ∉ es.keys) :
    insert key value es = es ++ [(key, value)] := by
  induction es with
  | nil => rfl
  | cons e es ih =>
    simp only [keys, List.map_cons, List.mem_cons, not_or] at h
    rw [insert, if_neg (Ne.symm h.1), ih h.2]
    rfl

theorem insert_insert (key : String) (value value' : α) (es : Entries α) :
    insert key value' (insert key value es) = insert key value' es := by
  induction es with
  | nil => simp [insert]
  | cons e es ih =>
    obtain ⟨k, a⟩ := e
    by_cases hk : k = key
    · simp [insert, hk]
    · simp [insert, hk, ih]

theorem insert_eq_self {key : String} {value : α} {es : Entries α}
    (h : find? key es = some value) : insert key value es = es := by
  induction es with
  | nil => cases h
  | cons e es ih =>
    obtain ⟨k, a⟩ := e
    rw [find?_cons] at h
    rw [insert]
    split at h
    · rename_i hk
      rw [if_pos hk, Option.some.inj h]
    · rename_i hk
      rw [if_neg hk, ih h]

theorem mapValues_insert (f : α → β) (key : String) (value : α) (es : Entries α) :
    mapValues f (insert key value es) = insert key (f value) (mapValues f es) := by
  induction es with
  | nil => rfl
  | cons e es ih =>
    obtain ⟨k, a⟩ := e
    by_cases hk : k = key
    · simp [insert, mapValues, hk]
    · simp only [mapValues] at ih
      simp [insert, mapValues, hk, ih]

theorem mapValues_erase (f : α → β) (key : String) (es : Entries α) :
    mapValues f (erase key es) = erase key (mapValues f es) := by
  induction es with
  | nil => rfl
  | cons e es ih =>
    obtain ⟨k, a⟩ := e
    by_cases hk : k = key
    · simp [erase, mapValues, hk]
    · simp only [mapValues] at ih
      simp [erase, mapValues, hk, ih]

theorem mem_of_mem_insert {key : String} {value : α} {es : Entries α} {e : String × α}
    (h : e ∈ insert key value es) : e ∈ es ∨ e.2 = value := by
  induction es with
  | nil => exact .inr (List.mem_singleton.1 h ▸ rfl)
  | cons e' es ih =>
    rw [insert] at h
    split at h <;> rcases List.mem_cons.1 h with rfl | h
    · exact .inr rfl
    · exact .inl (List.mem_cons_of_mem _ h)
    · exact .inl List.mem_cons_self
    · exact (ih h).imp_left (List.mem_cons_of_mem _)

theorem insertAll_cons (es : Entries α) (e : String × α) (new : Entries α) :
    insertAll es (e :: new) = insertAll (insert e.1 e.2 es) new := rfl

theorem distinct_insertAll {es new : Entries α} (h : Distinct es) :
    Distinct (insertAll es new) := by
  induction new generalizing es with
  | nil => exact h
  | cons e new ih => exact ih (distinct_insert h)

theorem insertAll_of_distinct {es new : Entries α} (h : Distinct (es ++ new)) :
    insertAll es new = es ++ new := by
  induction new generalizing es with
  | nil => exact (List.append_nil es).symm
  | cons e new ih =>
    have happend : es ++ e :: new = es ++ [e] ++ new := by simp
    have hkeys : (es.map Prod.fst ++ (e :: new).map Prod.fst).Nodup := by
      rw [← List.map_append]
      exact h
    have hkey : e.1 ∉ es.keys := fun hmem =>
      (List.nodup_append.1 hkeys).2.2 e.1 hmem e.1 List.mem_cons_self rfl
    rw [insertAll_cons, insert_of_not_mem hkey, ih (happend ▸ h), happend]

theorem mem_keys_insertAll {key : String} {es new : Entries α} :
    key ∈ (insertAll es new).keys ↔ key ∈ es.keys ∨ key ∈ new.keys := by
  induction new generalizing es with
  | nil => simp [insertAll, keys]
  | cons e new ih =>
    rw [insertAll_cons, ih, mem_keys_insert, or_assoc]
    simp only [keys, List.map_cons, List.mem_cons]

theorem forall_mem_insertAll {P : α → Prop} {es new : Entries α} (hes : ∀ e ∈ es, P e.2)
    (hnew : ∀ e ∈ new, P e.2) : ∀ e ∈ insertAll es new, P e.2 := by
  induction new generalizing es with
  | nil => exact hes
  | cons e new ih =>
    obtain ⟨he, hrest⟩ := List.forall_mem_cons.1 hnew
    exact ih (fun e' he' => (mem_of_mem_insert he').elim (hes e') fun heq => heq ▸ he) hrest

theorem mapValues_insertAll (f : α → β) (es new : Entries α) :
    mapValues f (insertAll es new) = insertAll (mapValues f es) (mapValues f new) := by
  induction new generalizing es with
  | nil => rfl
  | cons e new ih => rw [insertAll_cons, ih, mapValues_insert]; rfl

theorem find?_insertAll_of_not_mem {key : String} {es new : Entries α} (h : key ∉ new.keys) :
    find? key (insertAll es new) = find? key es := by
  induction new generalizing es with
  | nil => rfl
  | cons e new ih =>
    simp only [keys, List.map_cons, List.mem_cons, not_or] at h
    rw [insertAll_cons, ih h.2, find?_insert, if_neg (Ne.symm h.1)]

theorem find?_insertAll_of_mem {key : String} {value : α} {es new : Entries α}
    (distinct : Distinct new) (h : (key, value) ∈ new) :
    find? key (insertAll es new) = some value := by
  induction new generalizing es with
  | nil => cases h
  | cons e new ih =>
    obtain ⟨hkey, hnew⟩ := List.nodup_cons.1 distinct
    rw [insertAll_cons]
    rcases List.mem_cons.1 h with rfl | hmem
    · rw [find?_insertAll_of_not_mem hkey, find?_insert, if_pos rfl]
    · exact ih hnew hmem

theorem find?_insertAll (key : String) (es new : Entries α) :
    find? key (insertAll es new) = (find? key new.reverse).or (find? key es) := by
  induction new generalizing es with
  | nil => rfl
  | cons e new ih =>
    rw [insertAll_cons, ih, find?_insert, List.reverse_cons, find?_append, find?_cons, find?_nil]
    split <;> simp

theorem keys_insertAll_of_mem {es new : Entries α} (h : ∀ key ∈ new.keys, key ∈ es.keys) :
    (insertAll es new).keys = es.keys := by
  induction new generalizing es with
  | nil => rfl
  | cons e new ih =>
    obtain ⟨hkey, hnew⟩ := List.forall_mem_cons.1 h
    have hkeys : (insert e.1 e.2 es).keys = es.keys := (keys_insert e.1 e.2 es).trans (if_pos hkey)
    rw [insertAll_cons, ih (hkeys ▸ hnew), hkeys]

theorem insertAll_mapValues_inj {f g : α → β} {es : Entries β} {new : Entries α}
    (distinct : Distinct new) : insertAll es (mapValues f new) = insertAll es (mapValues g new) ↔
      ∀ e ∈ new, f e.2 = g e.2 := by
  constructor
  · intro h e he
    have hfind : ∀ f : α → β, find? e.1 (insertAll es (mapValues f new)) = some (f e.2) := fun f =>
      find?_insertAll_of_mem (by rwa [Distinct, keys_mapValues]) (List.mem_map.2 ⟨e, he, rfl⟩)
    exact Option.some.inj ((hfind f).symm.trans ((congrArg (find? e.1) h).trans (hfind g)))
  · intro h
    have hmap : mapValues f new = mapValues g new :=
      List.map_congr_left fun e he => by rw [h e he]
    rw [hmap]

section Distinct

variable {es es' : Entries α} {key : String}

theorem distinct_perm (perm : es.Perm es') : Distinct es ↔ Distinct es' := (perm.map _).nodup_iff

theorem distinct_mapValues {f : α → β} : Distinct (mapValues f es) ↔ Distinct es := by
  rw [Distinct, keys_mapValues, Distinct]

theorem find?_eq_some_iff (distinct : Distinct es) {a : α} :
    find? key es = some a ↔ (key, a) ∈ es := ⟨mem_of_find?, find?_of_mem distinct⟩

theorem find?_perm (distinct : Distinct es) (perm : es.Perm es') :
    find? key es = find? key es' := by
  refine Option.ext fun a => ?_
  rw [find?_eq_some_iff distinct, find?_eq_some_iff ((distinct_perm perm).1 distinct),
    perm.mem_iff]

theorem perm_of_find? (distinct : Distinct es) (distinct' : Distinct es')
    (h : ∀ key, find? key es = find? key es') : es.Perm es' := by
  refine (List.perm_ext_iff_of_nodup (List.Nodup.of_map _ distinct)
    (List.Nodup.of_map _ distinct')).2 fun e => ?_
  rw [← find?_eq_some_iff distinct, ← find?_eq_some_iff distinct', h]

theorem ext_of_keys (distinct : Distinct es) (keys_eq : es.keys = es'.keys)
    (h : ∀ key, find? key es = find? key es') : es = es' := by
  have hsome : ∀ {fs : Entries α}, Distinct fs →
      fs.map some = fs.keys.map fun key => (find? key fs).map fun a => (key, a) := by
    intro fs hfs
    rw [keys, List.map_map]
    refine List.map_congr_left fun e he => ?_
    rw [Function.comp_apply, find?_of_mem hfs he, Option.map_some]
  have distinct' : Distinct es' := by
    rw [Distinct, ← keys_eq]
    exact distinct
  refine (List.map_inj_right fun _ _ => Option.some.inj).1 ?_
  rw [hsome distinct, hsome distinct', keys_eq]
  exact List.map_congr_left fun key _ => by rw [h]

theorem insertAll_insertAll {new : Entries α} (distinct : Distinct es) :
    insertAll (insertAll es new) new = insertAll es new := by
  refine (ext_of_keys (distinct_insertAll distinct) ?_ fun key => ?_).symm
  · exact (keys_insertAll_of_mem fun key hkey => mem_keys_insertAll.2 (.inr hkey)).symm
  · rw [find?_insertAll key (insertAll es new), find?_insertAll, ← Option.or_assoc, Option.or_self]

theorem modify_eq_map (distinct : Distinct es) (f : α → α) :
    modify key f es = es.map fun e => if e.1 = key then (e.1, f e.2) else e := by
  induction es with
  | nil => rfl
  | cons e es ih =>
    obtain ⟨hkey, hes⟩ := List.nodup_cons.1 distinct
    rw [modify, List.map_cons]
    split
    · rename_i h
      have hothers : ∀ e' ∈ es, e'.1 ≠ key := fun e' he' heq =>
        hkey (h ▸ heq ▸ List.mem_map_of_mem he')
      rw [List.map_congr_left fun e' he' => if_neg (hothers e' he'), List.map_id']
    · rw [ih hes]

theorem erase_eq_filter (distinct : Distinct es) :
    erase key es = es.filter fun e => e.1 ≠ key := by
  induction es with
  | nil => rfl
  | cons e es ih =>
    obtain ⟨hkey, hes⟩ := List.nodup_cons.1 distinct
    rw [erase, List.filter_cons]
    split
    · rename_i h
      have hothers : ∀ e' ∈ es, decide (e'.1 ≠ key) = true := fun e' he' =>
        decide_eq_true fun heq => hkey (h ▸ heq ▸ List.mem_map_of_mem he')
      simp only [h, ne_eq, not_true_eq_false, decide_false, Bool.false_eq_true, if_false]
      exact (List.filter_eq_self.2 hothers).symm
    · rename_i h
      rw [ih hes, if_pos (decide_eq_true h)]

theorem distinct_erase (distinct : Distinct es) : Distinct (erase key es) := by
  rw [erase_eq_filter distinct]
  exact distinct.sublist (List.filter_sublist.map _)

theorem find?_erase_self (distinct : Distinct es) : find? key (erase key es) = none := by
  rw [find?_eq_none_iff, erase_eq_filter distinct, keys, List.mem_map]
  rintro ⟨e, he, rfl⟩
  simp at he

theorem erase_modify_comm (distinct : Distinct es) (other : String) (f : α → α) :
    erase key (modify other f es) = modify other f (erase key es) := by
  by_cases h : key = other
  · subst h
    rw [erase_modify, modify_of_find?_eq_none (find?_erase_self distinct)]
  · exact erase_modify_of_ne h f es

theorem distinct_modify {f : α → α} (distinct : Distinct es) : Distinct (modify key f es) := by
  rwa [Distinct, keys_modify]

end Distinct

end Manifest.Entries
