import Manifest.Plugin.ImageTag
import Manifest.Proofs.Tree.TextEdit

namespace Manifest

namespace Tree

variable {e e' : TextEdit} {t : Tree} {q : Position} {old new : String}

theorem nodup_map_fst_texts (wf : t.WellFormed) : (t.texts.map Prod.fst).Nodup := by
  refine List.nodup_iff_count_le_one.2 fun p => ?_
  by_cases hp : p ∈ t.texts.map Prod.fst
  · obtain ⟨⟨p, s⟩, hs, rfl⟩ := List.mem_map.1 hp
    have hat : textsAt p t.texts = [(p, s)] := by
      rw [textsAt_texts wf, (mem_texts_iff wf).1 hs]
      simp [texts]
    calc (t.texts.map Prod.fst).count p
      _ = t.texts.countP fun x => x.1 == p := by rw [List.count, List.countP_map]; rfl
      _ ≤ t.texts.countP fun x => p.isPrefixOf x.1 :=
        List.countP_mono_left fun x _ hx => by
          rw [beq_iff_eq] at hx
          exact List.isPrefixOf_iff_prefix.2 (hx ▸ List.prefix_refl _)
      _ = (textsAt p t.texts).length := List.countP_eq_length_filter
      _ ≤ 1 := Nat.le_of_eq (by rw [hat, List.length_singleton])
  · rw [List.count_eq_zero_of_not_mem hp]
    exact Nat.zero_le 1

def edited (e : TextEdit) (t : Tree) : List Position :=
  (t.texts.filter fun x => (e x.1 x.2).isSome).map Prod.fst

theorem length_edited : (t.edited e).length = t.touched e := by
  rw [edited, List.length_map, touched, List.countP_eq_length_filter]

theorem nodup_edited (wf : t.WellFormed) : (t.edited e).Nodup :=
  (nodup_map_fst_texts wf).sublist (List.filter_sublist.map Prod.fst)

theorem mem_edited_iff (wf : t.WellFormed) :
    q ∈ t.edited e ↔ ∃ old new, t.get? q = some (.text old) ∧ e q old = some new := by
  simp only [edited, List.mem_map, List.mem_filter, Prod.exists, Option.isSome_iff_exists]
  constructor
  · rintro ⟨q, old, ⟨hmem, new, hnew⟩, rfl⟩
    exact ⟨old, new, (mem_texts_iff wf).1 hmem, hnew⟩
  · rintro ⟨old, new, hold, hnew⟩
    exact ⟨q, old, ⟨(mem_texts_iff wf).2 hold, new, hnew⟩, rfl⟩

theorem get?_rewrite_text (hold : t.get? q = some (.text old)) :
    (t.rewrite e).get? q = some (.text ((e q old).getD old)) := by
  rw [rewrite, get?_mapTexts, hold, Option.map_some, mapTexts, List.append_nil]

theorem bare_mapTexts {f : Position → String → String} (h : ∀ s, t = .text s → f [] s = s) :
    (t.mapTexts f).bare = t.bare := by
  cases t with
  | text s => rw [mapTexts, h s rfl]
  | list items => simp [mapTexts, bare, List.map_const', length_mapTextItems]
  | map es =>
    rw [mapTexts, bare, bare]
    congr 1
    induction es with
    | nil => rfl
    | cons e es ih =>
      have hrest := ih fun s hs => by cases hs
      exact congrArg ((e.1, null) :: ·) hrest
  | _ => rfl

theorem bare_get?_rewrite (h : ∀ old, t.get? q = some (.text old) → e q old = none) :
    ((t.rewrite e).get? q).map bare = (t.get? q).map bare := by
  rw [rewrite, get?_mapTexts, Option.map_map]
  refine Option.map_congr fun u hu => bare_mapTexts fun s hs => ?_
  rw [List.append_nil, h s (hs ▸ hu), Option.getD_none]

theorem outline_set_text (hold : t.get? q = some (.text old)) (new : String) :
    (set q (.text new) t).outline = t.outline :=
  outline_modify fun u hu => by
    obtain rfl := Option.some.inj (hold.symm.trans hu)
    rfl

theorem rewrite_eq_set (wf : t.WellFormed) (hold : t.get? q = some (.text old))
    (hnew : e q old = some new) (hone : ∀ x ∈ t.texts, x.1 ≠ q → e x.1 x.2 = none) :
    t.rewrite e = set q (.text new) t ∧ t.touched e = 1 := by
  constructor
  · refine (eq_mapTexts_of_outline wf (outline_set_text hold new) fun x hx => ?_).symm
    have hget := (mem_texts_iff wf).1 hx
    by_cases hxq : x.1 = q
    · obtain rfl : old = x.2 := by simpa [← hxq, hget] using hold.symm
      rw [hxq, hnew, get?_set_self (by rw [hold]; rfl)]
      rfl
    · have leaf : t.IsLeaf x.1 := .inr ⟨x.2, hget⟩
      have apart : Position.Apart q x.1 := leaf.apart (by rw [hold]; rfl) fun hle =>
        hxq (eq_of_prefix_of_text hold (by rw [hget]; rfl) hle)
      rw [hone x hx hxq, get?_set_of_apart apart, hget]
      rfl
  · have hmem : ∀ p, p ∈ t.edited e ↔ p ∈ [q] := by
      intro p
      rw [mem_edited_iff wf, List.mem_singleton]
      constructor
      · rintro ⟨old', new', hold', hnew'⟩
        by_contra hne
        cases (hone (p, old') ((mem_texts_iff wf).2 hold') hne).symm.trans hnew'
      · rintro rfl
        exact ⟨old, new, hold, hnew⟩
    have hperm := (List.perm_ext_iff_of_nodup (nodup_edited wf) (List.nodup_singleton q)).2 hmem
    rw [← length_edited, hperm.length_eq, List.length_singleton]

theorem touched_eq_zero (h : ∀ x ∈ t.texts, e x.1 x.2 = none) : t.touched e = 0 :=
  List.countP_eq_zero.2 fun x hx => by simp [h x hx]

end Tree

namespace ImageTag

open Tree

variable {i : ImageTag} {t : Tree} {q : Position}

def elementImage : Position → Bool
  | [.index _, .key key] => key = "image"
  | _ => false

def containerImage : Position → Bool
  | [] => false
  | .index _ :: q => containerImage q
  | .key key :: q => containerImage q || (containerLists.contains key && elementImage q)

theorem elementImage_iff : elementImage q = true ↔ ∃ n, q = [.index n, .key "image"] := by
  constructor
  · intro h
    match q, h with
    | [.index n, .key key], h => exact ⟨n, by rw [of_decide_eq_true h]⟩
  · rintro ⟨n, rfl⟩
    rfl

theorem containerImage_iff : containerImage q = true ↔
    ∃ p key n, key ∈ containerLists ∧ q = p ++ [.key key, .index n, .key "image"] := by
  induction q with
  | nil => simp [containerImage]
  | cons s q ih =>
    cases s with
    | index k =>
      rw [containerImage, ih]
      constructor
      · rintro ⟨p, key, n, hkey, rfl⟩
        exact ⟨.index k :: p, key, n, hkey, rfl⟩
      · rintro ⟨p, key, n, hkey, hp⟩
        cases p with
        | nil => cases hp
        | cons s p => exact ⟨p, key, n, hkey, (List.cons.inj hp).2⟩
    | key k =>
      rw [containerImage, Bool.or_eq_true, Bool.and_eq_true, ih, elementImage_iff,
        List.contains_iff_mem]
      constructor
      · rintro (⟨p, key, n, hkey, rfl⟩ | ⟨hk, n, rfl⟩)
        · exact ⟨.key k :: p, key, n, hkey, rfl⟩
        · exact ⟨[], k, n, hk, rfl⟩
      · rintro ⟨p, key, n, hkey, hp⟩
        cases p with
        | nil =>
          obtain ⟨hk, rfl⟩ := List.cons.inj hp
          exact .inr ⟨Step.key.inj hk ▸ hkey, n, rfl⟩
        | cons s p => exact .inl ⟨p, key, n, hkey, (List.cons.inj hp).2⟩

def ownEdit (i : ImageTag) : TextEdit := fun q s => if q = [.key "image"] then i.update? s else none

def imageEdit (i : ImageTag) (containers : Bool) : TextEdit := fun q s =>
  if containerImage q || (containers && elementImage q) then i.update? s else none

theorem updateContainer_of_image {old new : String}
    (hold : t.get? [.key "image"] = some (.text old)) (hnew : i.update? old = some new) :
    i.updateContainer t = (set [.key "image"] (.text new) t, 1) := by
  cases t with
  | map es =>
    have hfind : Entries.find? "image" es = some (.text old) := by
      rwa [get?_key, field?, entries?, Option.bind_some] at hold
    rw [updateContainer, hfind]
    dsimp only
    rw [hnew]
    rfl
  | _ => cases hold

theorem updateContainer_of_no_image
    (h : ∀ old, t.get? [.key "image"] = some (.text old) → i.update? old = none) :
    i.updateContainer t = (t, 0) := by
  cases t with
  | map es =>
    rw [updateContainer]
    split
    · rename_i image himage
      rw [h image (by rwa [get?_key, field?, entries?, Option.bind_some])]
    · rfl
  | _ => rfl

theorem updateContainer_eq (i : ImageTag) (wf : t.WellFormed) :
    i.updateContainer t = (t.rewrite i.ownEdit, t.touched i.ownEdit) := by
  by_cases h : ∃ old new, t.get? [.key "image"] = some (.text old) ∧ i.update? old = some new
  · obtain ⟨old, new, hold, hnew⟩ := h
    obtain ⟨hset, hone⟩ := rewrite_eq_set (e := i.ownEdit) wf hold (by rwa [ownEdit, if_pos rfl])
      fun x _ hx => if_neg hx
    rw [updateContainer_of_image hold hnew, hset, hone]
  · have hnone : ∀ old, t.get? [.key "image"] = some (.text old) → i.update? old = none :=
      fun old hold => Option.eq_none_iff_forall_ne_some.2 fun new hnew => h ⟨old, new, hold, hnew⟩
    have hsame : ∀ x ∈ t.texts, i.ownEdit x.1 x.2 = none := by
      intro x hx
      rw [ownEdit]
      split
      · rename_i himage
        exact hnone x.2 (himage ▸ (mem_texts_iff wf).1 hx)
      · rfl
    rw [updateContainer_of_no_image hnone, rewrite_eq_self hsame, touched_eq_zero hsame]

def elementEdit (i : ImageTag) (containers : Bool) : TextEdit :=
  if containers then i.ownEdit else fun _ _ => none

theorem elementEdit_of_ne (h : q ≠ [.key "image"]) (containers : Bool) (s : String) :
    i.elementEdit containers q s = none := by
  cases containers with
  | true => exact if_neg h
  | false => rfl

theorem imageEdit_own (s : String) : i.imageEdit false [.key "image"] s = none := rfl

theorem elementEdit_eq (i : ImageTag) (containers : Bool) (wf : t.WellFormed) :
    (if containers then i.updateContainer t else (t, 0)) =
      (t.rewrite (i.elementEdit containers), t.touched (i.elementEdit containers)) := by
  cases containers with
  | true => exact updateContainer_eq i wf
  | false =>
    have hnone : ∀ x ∈ t.texts, i.elementEdit false x.1 x.2 = none := fun _ _ => rfl
    rw [rewrite_eq_self hnone, touched_eq_zero hnone]
    rfl

theorem disjoint_elementEdit (i : ImageTag) (containers : Bool) (xs : List (Position × String)) :
    (i.imageEdit false).Disjoint (i.elementEdit containers) xs := by
  intro x _
  by_cases hx : x.1 = [.key "image"]
  · exact .inl (hx ▸ imageEdit_own x.2)
  · exact .inr (elementEdit_of_ne hx containers)

theorem imageEdit_index (i : ImageTag) (containers : Bool) (k : Nat) (q : Position) (s : String) :
    i.imageEdit containers (.index k :: q) s =
      ((i.imageEdit false).or (i.elementEdit containers)) q s := by
  by_cases hq : q = [.key "image"]
  · subst hq
    cases containers <;> rfl
  · have helement : elementImage (.index k :: q) = false := by
      rw [Bool.eq_false_iff, Ne, elementImage_iff]
      rintro ⟨n, hn⟩
      exact hq (List.cons.inj hn).2
    rw [TextEdit.or, elementEdit_of_ne hq, Option.or_none, imageEdit, imageEdit, helement,
      containerImage, Bool.and_false, Bool.false_and]

theorem imageEdit_key (i : ImageTag) (containers : Bool) (key : String) (q : Position)
    (s : String) : i.imageEdit containers (.key key :: q) s =
      i.imageEdit (containerLists.contains key) q s := by
  have helement : elementImage (.key key :: q) = false := rfl
  rw [imageEdit, imageEdit, helement, containerImage, Bool.and_false, Bool.or_false]

def updateUnder (i : ImageTag) (containers : Bool) : Tree → Tree × Nat
  | .list items =>
    let (items, n) := i.updateItems containers items
    (.list items, n)
  | node => i.updateContainers node

theorem updateUnder_false (i : ImageTag) (t : Tree) :
    i.updateUnder false t = i.updateContainers t := by
  cases t <;> rfl

theorem updateEntries_cons (i : ImageTag) (key : String) (t : Tree) (es : Entries Tree) :
    i.updateEntries ((key, t) :: es) =
      ((key, (i.updateUnder (containerLists.contains key) t).1) :: (i.updateEntries es).1,
        (i.updateUnder (containerLists.contains key) t).2 + (i.updateEntries es).2) := by
  cases t <;> rfl

mutual

theorem updateUnder_eq (i : ImageTag) (containers : Bool) : (t : Tree) → t.WellFormed →
    i.updateUnder containers t =
      (t.rewrite (i.imageEdit containers), t.touched (i.imageEdit containers))
  | .list items, wf => by
    rw [updateUnder, updateItems_eq i containers 0 items wf]
    rfl
  | .map es, wf => by
    rw [updateUnder, updateContainers, updateEntries_eq i containers es wf.2]
    · rfl
    · exact nofun
  | .text _, _ | .null, _ | .boolean _, _ | .integer _, _ | .decimal _, _ => by
    cases containers <;> rfl

theorem updateItems_eq (i : ImageTag) (containers : Bool) (k : Nat) : (items : List Tree) →
    WellFormedItems items → i.updateItems containers items =
      (mapTextItems (fun q s => (i.imageEdit containers q s).getD s) k items,
        (textItems k items).countP fun x => (i.imageEdit containers x.1 x.2).isSome)
  | [], _ => rfl
  | t :: ts, wf => by
    have hdisjoint := disjoint_elementEdit i containers t.texts
    rw [updateItems, ← updateUnder_false, updateUnder_eq i false t wf.1,
      updateItems_eq i containers (k + 1) ts wf.2]
    dsimp only
    rw [elementEdit_eq i containers (wellFormed_rewrite wf.1), rewrite_rewrite hdisjoint,
      touched_rewrite hdisjoint]
    dsimp only
    rw [← touched_or hdisjoint, mapTextItems, textItems, List.countP_append, List.countP_map]
    simp only [Function.comp_def, under, imageEdit_index]
    rfl

theorem updateEntries_eq (i : ImageTag) (containers : Bool) : (es : List (String × Tree)) →
    WellFormedEntries es → i.updateEntries es =
      (mapTextEntries (fun q s => (i.imageEdit containers q s).getD s) es,
        (textEntries es).countP fun x => (i.imageEdit containers x.1 x.2).isSome)
  | [], _ => rfl
  | (key, t) :: es, wf => by
    rw [updateEntries_cons, updateUnder_eq i (containerLists.contains key) t wf.1,
      updateEntries_eq i containers es wf.2, mapTextEntries, textEntries, List.countP_append,
      List.countP_map]
    simp only [Function.comp_def, under, imageEdit_key]
    rfl

end

def Updates (i : ImageTag) (t : Tree) (q : Position) (new : String) : Prop :=
  ∃ p key n old, key ∈ containerLists ∧ q = p ++ [.key key, .index n, .key "image"] ∧
    t.get? q = some (.text old) ∧ i.update? old = some new

theorem updates_iff {new : String} : i.Updates t q new ↔
    ∃ old, t.get? q = some (.text old) ∧ i.imageEdit false q old = some new := by
  simp only [imageEdit, Bool.false_and, Bool.or_false, Option.ite_none_right_eq_some,
    containerImage_iff]
  constructor
  · rintro ⟨p, key, n, old, hkey, hq, hold, hnew⟩
    exact ⟨old, hold, ⟨p, key, n, hkey, hq⟩, hnew⟩
  · rintro ⟨old, hold, ⟨p, key, n, hkey, hq⟩, hnew⟩
    exact ⟨p, key, n, old, hkey, hq, hold, hnew⟩

/-- The images of containers are updated, wherever in the tree they are, every other node stays, and
each update is counted once. -/
theorem updateContainers_images (i : ImageTag) (wf : t.WellFormed) :
    (∀ q new, i.Updates t q new → (i.updateContainers t).1.get? q = some (.text new)) ∧
      (∀ q, (∀ new, ¬ i.Updates t q new) →
        ((i.updateContainers t).1.get? q).map bare = (t.get? q).map bare) ∧
      ∃ qs : List Position, qs.Nodup ∧ (∀ q, q ∈ qs ↔ ∃ new, i.Updates t q new) ∧
        (i.updateContainers t).2 = qs.length := by
  rw [← updateUnder_false, updateUnder_eq i false t wf]
  refine ⟨fun q new h => ?_, fun q h => ?_, t.edited (i.imageEdit false), nodup_edited wf,
    fun q => ?_, length_edited.symm⟩
  · obtain ⟨old, hold, hnew⟩ := updates_iff.1 h
    rw [get?_rewrite_text hold, hnew, Option.getD_some]
  · refine bare_get?_rewrite fun old hold => Option.eq_none_iff_forall_ne_some.2 fun new hnew => ?_
    exact h new (updates_iff.2 ⟨old, hold, hnew⟩)
  · simp only [mem_edited_iff wf, updates_iff]
    exact exists_comm

def renewing : ImageTag := { name := "nginx", newTag := "1.27" }

def nestedContainers (first second third : String) : Tree :=
  .map [("image", .text "nginx"), ("items", .list [.list [.map [("containers", .list [
    .map [("image", .text first), ("initContainers", .list [
      .map [("name", .text "nginx"), ("image", .text second)]])],
    .map [("image", .text "envoy")], .list [.map [("image", .text "nginx")]],
    .map [("image", .text third), ("port", .null)]])]]])]

theorem updateContainers_images_nested :
    (nestedContainers "nginx" "nginx:1.25" "nginx@sha256:abc").WellFormed ∧
      renewing.updateContainers (nestedContainers "nginx" "nginx:1.25" "nginx@sha256:abc") =
        (nestedContainers "nginx:1.27" "nginx:1.27" "nginx:1.27", 3) ∧
      ∃ qs : List Position, qs.Nodup ∧ qs.length = 3 ∧ ∀ q, q ∈ qs ↔ ∃ new,
        renewing.Updates (nestedContainers "nginx" "nginx:1.25" "nginx@sha256:abc") q new := by
  have wf : (nestedContainers "nginx" "nginx:1.25" "nginx@sha256:abc").WellFormed := by
    decide +kernel
  have hrun : renewing.updateContainers
      (nestedContainers "nginx" "nginx:1.25" "nginx@sha256:abc") =
        (nestedContainers "nginx:1.27" "nginx:1.27" "nginx:1.27", 3) := by
    decide +kernel
  obtain ⟨-, -, qs, hnodup, hmem, hcount⟩ := updateContainers_images renewing wf
  exact ⟨wf, hrun, qs, hnodup, by rw [← hcount, hrun], hmem⟩

end ImageTag

end Manifest
