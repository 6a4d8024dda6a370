import Manifest.Proofs.FieldPath.Lookup

namespace Manifest.Tree

mutual

def mapAddressed (spread : Bool) (f : Tree → Tree) : Tree → List Segment → Tree
  | .list items, [] => if spread then .list (items.map f) else f (.list items)
  | t, [] => f t
  | .list items, s :: rest =>
    .list (mapAddressedItems spread f (picks s) (afterList s rest) 0 items)
  | .map es, .field key :: rest => .map (mapAddressedEntry spread f key rest es)
  | t, _ => t

def mapAddressedItems (spread : Bool) (f : Tree → Tree) (pick : Nat → Tree → Bool)
    (segments : List Segment) (i : Nat) : List Tree → List Tree
  | [] => []
  | t :: ts =>
    (if pick i t then mapAddressed spread f t segments else t) ::
      mapAddressedItems spread f pick segments (i + 1) ts

def mapAddressedEntry (spread : Bool) (f : Tree → Tree) (key : String) (segments : List Segment) :
    List (String × Tree) → List (String × Tree)
  | [] => []
  | (k, t) :: es =>
    if k = key then (k, mapAddressed spread f t segments) :: es
    else (k, t) :: mapAddressedEntry spread f key segments es

end

variable {spread : Bool} {f : Tree → Tree} {pick : Nat → Tree → Bool} {s : Segment}
  {segments rest : List Segment} {items : List Tree} {t : Tree} {ps : List Position}

def editPicked (pick : Nat → Tree → Bool) (g : Tree → Tree) (items : List Tree) : List Tree :=
  items.mapIdx fun i u => if pick i u then g u else u

theorem editPicked_cons (g : Tree → Tree) (t : Tree) (ts : List Tree) :
    editPicked pick g (t :: ts) =
      (if pick 0 t then g t else t) :: editPicked (fun i => pick (i + 1)) g ts := by
  rw [editPicked, List.mapIdx_cons]
  rfl

theorem editPicked_all (g : Tree → Tree) (items : List Tree) :
    editPicked (fun _ _ => true) g items = items.map g :=
  List.ext_getElem? fun i => by simp [editPicked]

theorem getElem?_editPicked (g : Tree → Tree) (items : List Tree) (i : Nat) :
    (editPicked pick g items)[i]? = items[i]?.map fun u => if pick i u then g u else u := by
  simp [editPicked]

theorem mapAddressedItems_eq (i : Nat) : mapAddressedItems spread f pick segments i items =
    editPicked (fun j => pick (i + j)) (mapAddressed spread f · segments) items := by
  induction items generalizing i with
  | nil => rfl
  | cons t ts ih =>
    rw [mapAddressedItems, editPicked_cons, ih]
    simp only [Nat.add_zero, Nat.add_assoc, Nat.add_comm 1]

theorem mapAddressed_list_cons (s : Segment) (rest : List Segment) (items : List Tree) :
    (list items).mapAddressed spread f (s :: rest) =
      list (editPicked (picks s) (mapAddressed spread f · (afterList s rest)) items) := by
  rw [mapAddressed, mapAddressedItems_eq]
  simp only [Nat.zero_add]

theorem mapAddressed_map_field (key : String) (rest : List Segment) (es : Entries Tree) :
    (map es).mapAddressed spread f (.field key :: rest) =
      map (Entries.modify key (mapAddressed spread f · rest) es) := by
  rw [mapAddressed]
  congr 1
  induction es with
  | nil => rfl
  | cons e es ih => rw [mapAddressedEntry, Entries.modify, ih]

theorem foldl_modify_cons (f : Tree → Tree) (s : Step) (ps : List Position) (t : Tree) :
    (ps.map (s :: ·)).foldl (fun acc q => acc.modify f q) t =
      t.modifyChild (fun u => ps.foldl (fun acc q => acc.modify f q) u) s := by
  induction ps generalizing t with
  | nil => exact (modifyChild_eq_self fun _ _ => rfl).symm
  | cons p ps ih =>
    rw [List.map_cons, List.foldl_cons, ih, modify_cons, modifyChild_modifyChild]
    rfl

theorem modifyChild_append (g : Tree → Tree) (before : List Tree) (t : Tree) (ts : List Tree) :
    (list (before ++ t :: ts)).modifyChild g (.index before.length) =
      list (before ++ g t :: ts) := by
  rw [modifyChild]
  induction before with
  | nil => rfl
  | cons u us ih => simpa using ih

theorem foldl_modify_addressedItems {g : Tree → Tree} (before : List Tree)
    (hitems : ∀ u ∈ items, ∀ qs, u.addressed spread segments = .ok qs →
      qs.foldl (fun acc q => acc.modify f q) u = g u)
    (h : addressedItems spread pick segments before.length items = .ok ps) :
    ps.foldl (fun acc q => acc.modify f q) (list (before ++ items)) =
      list (before ++ editPicked (fun i => pick (before.length + i)) g items) := by
  induction items generalizing before ps with
  | nil =>
    obtain rfl : [] = ps := Except.ok.inj h
    rfl
  | cons t ts ih =>
    obtain ⟨ht, hts⟩ := List.forall_mem_cons.1 hitems
    rw [addressedItems] at h
    split at h
    · cases h
    rename_i here hhere
    split at h
    · cases h
    rename_i later hlater
    obtain rfl : _ = ps := Except.ok.inj h
    have hhead : here.foldl (fun acc q => acc.modify f q) t =
        if pick before.length t then g t else t := by
      split at hhere
      · exact (ht here hhere).trans (if_pos ‹_›).symm
      · obtain rfl : [] = here := Except.ok.inj hhere
        exact (if_neg ‹_›).symm
    rw [List.foldl_append, foldl_modify_cons, modifyChild_append, hhead, List.append_cons]
    refine (ih _ hts (by simpa using hlater)).trans ?_
    simp [editPicked_cons, Nat.add_assoc, Nat.add_comm 1]

theorem addressedItems_nil (i : Nat) (items : List Tree) :
    addressedItems false (fun _ _ => true) [] i items =
      .ok ((List.range' i items.length).map fun j => [.index j]) := by
  induction items generalizing i with
  | nil => rfl
  | cons t ts ih =>
    have hone : t.addressed false [] = .ok [[]] := by cases t <;> rfl
    rw [addressedItems, if_pos rfl, hone, ih]
    rfl

theorem addressed_list_nil (items : List Tree) :
    (list items).addressed true [] = addressedItems false (fun _ _ => true) [] 0 items := by
  rw [addressedItems_nil, addressed, if_pos rfl, List.range_eq_range']

theorem addressed_nil_isOk (t : Tree) : ∃ ps, t.addressed spread [] = .ok ps := by
  cases t <;> exact ⟨_, rfl⟩

theorem foldl_modify_addressed_nil (h : t.addressed spread [] = .ok ps) :
    ps.foldl (fun acc q => acc.modify f q) t = t.mapAddressed spread f [] := by
  cases t with
  | list items =>
    cases spread with
    | false =>
      obtain rfl : [[]] = ps := Except.ok.inj h
      rfl
    | true =>
      rw [addressed_list_nil] at h
      have hitem : ∀ u ∈ items, ∀ qs, u.addressed false [] = .ok qs →
          qs.foldl (fun acc q => acc.modify f q) u = f u := by
        intro u _ qs hqs
        have hone : u.addressed false [] = .ok [[]] := by cases u <;> rfl
        obtain rfl := Except.ok.inj (hone.symm.trans hqs)
        rfl
      refine (foldl_modify_addressedItems [] hitem h).trans ?_
      rw [List.nil_append, editPicked_all, mapAddressed, if_pos rfl]
  | _ =>
    obtain rfl : [[]] = ps := Except.ok.inj h
    rfl

theorem mapAddressed_scalar (h : t.isScalar = true) (s : Segment) (rest : List Segment) :
    t.mapAddressed spread f (s :: rest) = t := by
  cases t with
  | list items => cases h
  | map es => cases h
  | _ => rfl

theorem eq_nil_of_addressed_scalar (hscalar : t.isScalar = true)
    (h : t.addressed spread (s :: rest) = .ok ps) : ps = [] := by
  cases t with
  | list items => cases hscalar
  | map es => cases hscalar
  | null => exact (Except.ok.inj h).symm
  | _ => cases s <;> cases h

theorem foldl_modify_addressed (h : t.addressed spread segments = .ok ps) :
    ps.foldl (fun acc q => acc.modify f q) t = t.mapAddressed spread f segments := by
  induction t using Tree.induction generalizing segments ps with
  | scalar t hscalar =>
    cases segments with
    | nil => exact foldl_modify_addressed_nil h
    | cons s rest =>
      rw [eq_nil_of_addressed_scalar hscalar h, mapAddressed_scalar hscalar]
      rfl
  | list items ih =>
    cases segments with
    | nil => exact foldl_modify_addressed_nil h
    | cons s rest =>
      rw [mapAddressed_list_cons]
      refine (foldl_modify_addressedItems [] (fun u hu qs hqs => ih u hu hqs) h).trans ?_
      simp only [List.nil_append, List.length_nil, Nat.zero_add]
  | map es ih =>
    cases segments with
    | nil => exact foldl_modify_addressed_nil h
    | cons s rest =>
      cases s with
      | index i => cases h
      | matching key value => cases h
      | field key =>
        rw [addressed, addressedEntry_eq] at h
        rw [mapAddressed_map_field]
        cases hu : Entries.find? key es with
        | none =>
          rw [hu] at h
          obtain rfl : [] = ps := Except.ok.inj h
          rw [Entries.modify_of_find?_eq_none hu]
          rfl
        | some u =>
          rw [hu] at h
          obtain ⟨qs, hqs, rfl⟩ := map_eq_ok.1 h
          rw [foldl_modify_cons, modifyChild]
          refine congrArg map (Entries.modify_congr fun v hv => ?_)
          obtain rfl := Option.some.inj (hu.symm.trans hv)
          exact ih (key, u) (Entries.mem_of_find? hu) hqs

theorem exists_of_picked {g : Tree → Tree} {i : Nat} {v : Tree}
    (hv : (editPicked (picks s) g items)[i]? = some v) (hpick : picks s i v = true) :
    ∃ u, items[i]? = some u ∧ picks s i u = true ∧ v = g u := by
  rw [getElem?_editPicked] at hv
  obtain ⟨u, hu, rfl⟩ := Option.map_eq_some_iff.1 hv
  split at hpick
  · exact ⟨u, hu, ‹_›, if_pos ‹_›⟩
  · contradiction

theorem addressedItems_isOk {i : Nat} (h : ∀ j u, items[j]? = some u → pick (i + j) u = true →
    ∃ qs, u.addressed spread segments = .ok qs) :
    ∃ ps, addressedItems spread pick segments i items = .ok ps := by
  cases hps : addressedItems spread pick segments i items with
  | ok ps => exact ⟨ps, rfl⟩
  | error m =>
    obtain ⟨j, u, hu, hpick, herror, -⟩ := addressedItems_eq_error hps
    obtain ⟨qs, hqs⟩ := h j u hu hpick
    cases herror.symm.trans hqs

theorem addressed_mapAddressed_isOk (f : Tree → Tree) (h : t.addressed spread segments = .ok ps) :
    ∃ qs, (t.mapAddressed spread f segments).addressed spread segments = .ok qs := by
  induction t using Tree.induction generalizing segments ps with
  | scalar t hscalar =>
    cases segments with
    | nil => exact addressed_nil_isOk _
    | cons s rest => exact ⟨ps, by rwa [mapAddressed_scalar hscalar]⟩
  | list items ih =>
    cases segments with
    | nil => exact addressed_nil_isOk _
    | cons s rest =>
      rw [mapAddressed_list_cons]
      refine addressedItems_isOk fun i v hv hpick => ?_
      rw [Nat.zero_add] at hpick
      obtain ⟨u, hu, hpick, rfl⟩ := exists_of_picked hv hpick
      obtain ⟨qs, hqs, -⟩ := exists_of_addressedItems h hu (by rwa [Nat.zero_add])
      exact ih u (List.mem_of_getElem? hu) hqs
  | map es ih =>
    cases segments with
    | nil => exact addressed_nil_isOk _
    | cons s rest =>
      cases s with
      | index i => cases h
      | matching key value => cases h
      | field key =>
        rw [mapAddressed_map_field, addressed, addressedEntry_eq, Entries.find?_modify, if_pos rfl]
        cases hu : Entries.find? key es with
        | none => exact ⟨[], rfl⟩
        | some u =>
          obtain ⟨qs, hqs, -⟩ := exists_of_addressedEntry h hu
          obtain ⟨ps', hps'⟩ := ih (key, u) (Entries.mem_of_find? hu) hqs
          exact ⟨_, map_eq_ok.2 ⟨ps', hps', rfl⟩⟩

theorem exists_of_addresses_mapAddressed_nil {q : Position}
    (keepsLists : spread = true → ∀ u items, f u = list items → ∃ items', u = list items')
    (h : (t.mapAddressed spread f []).Addresses spread [] q) :
    ∃ u, t.get? q = some u ∧ (t.mapAddressed spread f []).get? q = some (f u) := by
  by_cases hlist : spread = true ∧ ∃ items, t = list items
  · obtain ⟨rfl, items, rfl⟩ := hlist
    rw [mapAddressed, if_pos rfl] at h ⊢
    cases h with
    | here hnot => exact absurd rfl (hnot rfl (items.map f))
    | @element _ i _ hi =>
      rw [List.length_map] at hi
      have hitem : items[i]? = some items[i] := List.getElem?_eq_getElem hi
      exact ⟨items[i], get?_list hitem [], get?_list (by simp [hitem]) []⟩
  · have hleaf : t.mapAddressed spread f [] = f t := by
      cases t with
      | list items =>
        rw [mapAddressed, if_neg fun hspread => hlist ⟨hspread, items, rfl⟩]
      | _ => rfl
    rw [hleaf] at h ⊢
    generalize hv : f t = v at h
    cases h with
    | here => exact ⟨t, rfl, congrArg some hv.symm⟩
    | element hspread =>
      obtain ⟨items', rfl⟩ := keepsLists hspread t _ hv
      exact absurd ⟨hspread, items', rfl⟩ hlist

theorem exists_of_addresses_mapAddressed {q : Position}
    (keepsLists : spread = true → ∀ u items, f u = list items → ∃ items', u = list items')
    (h : (t.mapAddressed spread f segments).Addresses spread segments q) :
    ∃ u, t.get? q = some u ∧ (t.mapAddressed spread f segments).get? q = some (f u) := by
  induction t using Tree.induction generalizing segments q with
  | scalar t hscalar =>
    cases segments with
    | nil => exact exists_of_addresses_mapAddressed_nil keepsLists h
    | cons s rest =>
      rw [mapAddressed_scalar hscalar] at h
      cases h <;> cases hscalar
  | list items ih =>
    cases segments with
    | nil => exact exists_of_addresses_mapAddressed_nil keepsLists h
    | cons s rest =>
      rw [mapAddressed_list_cons] at h ⊢
      cases h with
      | @item _ i v _ _ q hv hpick hq =>
        obtain ⟨u, hu, -, rfl⟩ := exists_of_picked hv hpick
        obtain ⟨w, hw, hfw⟩ := ih u (List.mem_of_getElem? hu) hq
        exact ⟨w, (get?_list hu q).trans hw, (get?_list hv q).trans hfw⟩
  | map es ih =>
    cases segments with
    | nil => exact exists_of_addresses_mapAddressed_nil keepsLists h
    | cons s rest =>
      cases s with
      | index i => cases h
      | matching key value => cases h
      | field key =>
        rw [mapAddressed_map_field] at h ⊢
        cases h with
        | @entry _ _ v _ q hv hq =>
          have hfind := hv
          rw [Entries.find?_modify, if_pos rfl] at hfind
          obtain ⟨u, hu, rfl⟩ := Option.map_eq_some_iff.1 hfind
          obtain ⟨w, hw, hfw⟩ := ih (key, u) (Entries.mem_of_find? hu) hq
          exact ⟨w, (get?_map hu q).trans hw, (get?_map hv q).trans hfw⟩

theorem editPicked_congr {g h : Tree → Tree}
    (hitems : ∀ i u, items[i]? = some u → pick i u = true → g u = h u) :
    editPicked pick g items = editPicked pick h items := by
  refine List.ext_getElem? fun i => ?_
  rw [getElem?_editPicked, getElem?_editPicked]
  refine Option.map_congr fun u hu => ?_
  split
  · exact hitems i u hu ‹_›
  · rfl

theorem mapAddressed_spread {g : Tree → Tree} (hlist : ∀ items, g (list items) = list (items.map g))
    (h : ∀ q u, t.Addresses true segments q → t.get? q = some u → f u = g u) :
    t.mapAddressed true f segments = t.mapAddressed false g segments := by
  induction t using Tree.induction generalizing segments with
  | scalar t hscalar =>
    cases segments with
    | nil => cases t <;> first | exact h [] _ (.here (by simp)) rfl | cases hscalar
    | cons s rest => rw [mapAddressed_scalar hscalar, mapAddressed_scalar hscalar]
  | list items ih =>
    cases segments with
    | nil =>
      have hitems : items.map f = items.map g := List.map_congr_left fun u hu => by
        obtain ⟨i, hi⟩ := List.getElem?_of_mem hu
        obtain ⟨hlt, -⟩ := List.getElem?_eq_some_iff.1 hi
        exact h [.index i] u (.element rfl hlt) (get?_list hi [])
      rw [mapAddressed, if_pos rfl, mapAddressed, if_neg Bool.false_ne_true, hlist, hitems]
    | cons s rest =>
      rw [mapAddressed_list_cons, mapAddressed_list_cons]
      refine congrArg list (editPicked_congr fun i u hu hpick => ?_)
      exact ih u (List.mem_of_getElem? hu) fun q v hq hv =>
        h (.index i :: q) v (.item hu hpick hq) ((get?_list hu q).trans hv)
  | map es ih =>
    cases segments with
    | nil => exact h [] _ (.here (by simp)) rfl
    | cons s rest =>
      cases s with
      | index i => rfl
      | matching key value => rfl
      | field key =>
        rw [mapAddressed_map_field, mapAddressed_map_field]
        refine congrArg map (Entries.modify_congr fun u hu => ?_)
        exact ih (key, u) (Entries.mem_of_find? hu) fun q v hq hv =>
          h (.key key :: q) v (.entry hu hq) ((get?_map hu q).trans hv)

def Misses (t : Tree) (segments : List Segment) : Prop := ∀ u, t.lookup segments ≠ .ok (some u)

theorem lookupItems_misses {i : Nat}
    (h : ∀ j u, items[j]? = some u → pick (i + j) u = true → u.Misses segments) (v : Tree) :
    lookupItems pick segments i items ≠ .ok (some v) := by
  induction items generalizing i with
  | nil => simp [lookupItems]
  | cons t ts ih =>
    rw [lookupItems]
    split
    · simp
    · rename_i u hu
      split at hu
      · exact absurd hu (h 0 t rfl ‹_› u)
      · cases hu
    · refine ih fun j u hu hpick => h (j + 1) u hu ?_
      rwa [← Nat.add_assoc, Nat.add_right_comm]

theorem afterList_append (s : Segment) (rest tail : List Segment) :
    afterList s (rest ++ tail) = afterList s rest ++ tail := by
  cases s <;> rfl

theorem misses_scalar (h : t.isScalar = true) (s : Segment) (rest : List Segment) :
    t.Misses (s :: rest) := by
  cases t with
  | list items => cases h
  | map es => cases h
  | _ => cases s <;> simp [Misses, lookup]

theorem misses_mapAddressed {last : Segment} (wf : t.WellFormed)
    (h : ∀ u, u.WellFormed → (f u).Misses [last]) :
    (t.mapAddressed false f segments).Misses (segments ++ [last]) := by
  induction t using Tree.induction generalizing segments with
  | scalar t hscalar =>
    cases segments with
    | nil => cases t <;> exact h _ wf
    | cons s rest =>
      rw [mapAddressed_scalar hscalar]
      exact misses_scalar hscalar s _
  | list items ih =>
    cases segments with
    | nil => exact h _ wf
    | cons s rest =>
      rw [mapAddressed_list_cons]
      refine lookupItems_misses fun i v hv hpick => ?_
      rw [Nat.zero_add] at hpick
      obtain ⟨u, hu, -, rfl⟩ := exists_of_picked hv hpick
      have hmem := List.mem_of_getElem? hu
      exact (afterList_append s rest [last]) ▸ ih u hmem (wellFormedItems_iff.1 wf u hmem)
  | map es ih =>
    cases segments with
    | nil => exact h _ wf
    | cons s rest =>
      cases s with
      | index i => simp [Misses, mapAddressed, lookup]
      | matching key value => simp [Misses, mapAddressed, lookup]
      | field key =>
        rw [mapAddressed_map_field, Misses]
        intro v
        rw [List.cons_append, lookup, lookupEntry_eq, Entries.find?_modify, if_pos rfl]
        cases hu : Entries.find? key es with
        | none => simp
        | some u =>
          have hmem := Entries.mem_of_find? hu
          exact ih (key, u) hmem (wellFormedEntries_iff.1 wf.2 _ hmem) v

end Manifest.Tree
