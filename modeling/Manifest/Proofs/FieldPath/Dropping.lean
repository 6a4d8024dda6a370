import Manifest.Proofs.FieldPath.Origins

namespace Manifest

def Segment.Blind : Segment → Prop
  | .matching _ _ => False
  | _ => True

namespace Tree

def dropUnder (keys : List String) (key : String) (t : Tree) : Tree :=
  t.mapAddressed false (dropField key) (keys.map .field)

variable {keys : List String} {key : String} {t : Tree} {s last : Segment} {segments : List Segment}
  {spread : Bool}

theorem dropUnder_list (keys : List String) (key : String) (items : List Tree) :
    (list items).dropUnder keys key = list (items.map (dropUnder keys key)) := by
  cases keys with
  | nil =>
    rw [dropUnder, List.map_nil, mapAddressed, if_neg Bool.false_ne_true, dropField_list]
    refine congrArg list (List.map_congr_left fun u _ => ?_)
    cases u <;> rfl
  | cons k ks =>
    rw [dropUnder, List.map_cons, mapAddressed_list_cons]
    exact congrArg list (editPicked_all _ items)

theorem dropUnder_map_nil (key : String) (es : Entries Tree) :
    (map es).dropUnder [] key = map (Entries.erase key es) := rfl

theorem dropUnder_map_cons (k : String) (keys : List String) (key : String) (es : Entries Tree) :
    (map es).dropUnder (k :: keys) key = map (Entries.modify k (dropUnder keys key) es) :=
  mapAddressed_map_field k _ es

theorem dropUnder_scalar (h : t.isScalar = true) (keys : List String) (key : String) :
    t.dropUnder keys key = t := by
  cases t with
  | list items => cases h
  | map es => cases h
  | _ => cases keys <;> rfl

theorem dropUnder_set {q : Position} (hq : q.keys = keys ++ [key]) (u t : Tree) :
    (set q u t).dropUnder keys key = t.dropUnder keys key := by
  induction q generalizing keys t with
  | nil => simp [Position.keys] at hq
  | cons s q ih =>
    cases s with
    | index i =>
      cases t with
      -- No key is taken on the way through a list.
      | list items =>
        rw [set_index_list, dropUnder_list, dropUnder_list]
        refine congrArg list (List.ext_getElem? fun j => ?_)
        rw [List.getElem?_map, List.getElem?_modify, List.getElem?_map]
        cases items[j]? with
        | none => rfl
        | some v =>
          by_cases hij : i = j
          · simp [hij, ih hq v]
          · simp [hij]
      | _ => rfl
    | key k =>
      cases t with
      | map es =>
        rw [set_key_map]
        cases keys with
        | nil =>
          obtain ⟨rfl, -⟩ := List.cons.inj hq
          rw [dropUnder_map_nil, dropUnder_map_nil, Entries.erase_modify]
        | cons k' ks =>
          obtain ⟨rfl, hrest⟩ := List.cons.inj hq
          rw [dropUnder_map_cons, dropUnder_map_cons, Entries.modify_modify]
          exact congrArg map (Entries.modify_congr fun v _ => ih hrest v)
      | _ => rfl

theorem dropUnder_setAll {updates : List (Position × Tree)}
    (h : ∀ x ∈ updates, x.1.keys = keys ++ [key]) (t : Tree) :
    (t.setAll updates).dropUnder keys key = t.dropUnder keys key := by
  induction updates generalizing t with
  | nil => rfl
  | cons x xs ih =>
    rw [List.forall_mem_cons] at h
    rw [setAll_cons, ih h.2, dropUnder_set h.1]

theorem addressedItems_map {g : Tree → Tree} {items : List Tree} (i : Nat)
    (h : ∀ u ∈ items, (g u).addressed spread segments = u.addressed spread segments) :
    addressedItems spread (fun _ _ => true) segments i (items.map g) =
      addressedItems spread (fun _ _ => true) segments i items := by
  induction items generalizing i with
  | nil => rfl
  | cons t ts ih =>
    obtain ⟨ht, hts⟩ := List.forall_mem_cons.1 h
    rw [List.map_cons, addressedItems, addressedItems, ih (i + 1) hts, if_pos rfl, if_pos rfl, ht]

theorem addressed_nil_dropField (key : String) (t : Tree) :
    (t.dropField key).addressed spread [] = t.addressed spread [] := by
  cases t with
  | list items => rw [dropField_list, addressed, addressed, List.length_map]
  | _ => rfl

theorem addressed_dropUnder (spread : Bool) (keys : List String) (key : String) (t : Tree) :
    (t.dropUnder keys key).addressed spread (keys.map .field) =
      t.addressed spread (keys.map .field) := by
  induction t using Tree.induction generalizing keys with
  | scalar t hscalar => rw [dropUnder_scalar hscalar]
  | list items ih =>
    cases keys with
    | nil => exact addressed_nil_dropField key _
    | cons k ks =>
      rw [dropUnder_list]
      exact addressedItems_map 0 fun u hu => ih u hu (k :: ks)
  | map es ih =>
    cases keys with
    | nil => exact addressed_nil_dropField key _
    | cons k ks =>
      rw [dropUnder_map_cons, List.map_cons, addressed, addressed, addressedEntry_eq,
        addressedEntry_eq, Entries.find?_modify, if_pos rfl]
      cases hu : Entries.find? k es with
      | none => rfl
      | some u => exact congrArg (Except.map _) (ih (k, u) (Entries.mem_of_find? hu) ks)

theorem picks_of_blind (h : s.Blind) (i : Nat) (t u : Tree) : picks s i t = picks s i u := by
  cases s with
  | matching key value => cases h
  | _ => rfl

theorem blind_afterList {rest : List Segment} (h : ∀ r ∈ s :: rest, r.Blind) :
    ∀ r ∈ afterList s rest, r.Blind := by
  cases s with
  | field key => exact h
  | _ => exact (List.forall_mem_cons.1 h).2

theorem removeLast_dropUnder (wf : t.WellFormed) (hlast : last.Blind) (keys : List String)
    (key : String) :
    ((t.dropUnder keys key).removeLast last).1 = (t.removeLast last).1.dropUnder keys key := by
  cases t with
  | list items =>
    rw [dropUnder_list]
    cases last with
    | field k => exact (dropUnder_list keys key items).symm
    | index i =>
      rw [removeLast_list_index, removeLast_list_index, dropUnder_list, List.eraseIdx_map]
    | matching k value => cases hlast
  | map es =>
    cases last with
    | field k =>
      rw [removeLast_map_field]
      cases keys with
      | nil => rw [dropUnder_map_nil, dropUnder_map_nil, removeLast_map_field, Entries.erase_comm]
      | cons k' ks =>
        rw [dropUnder_map_cons, dropUnder_map_cons, removeLast_map_field,
          Entries.erase_modify_comm wf.1]
    | index i => cases keys <;> rfl
    | matching k value => cases hlast
  | _ => rw [dropUnder_scalar rfl, removeLast_scalar rfl, dropUnder_scalar rfl]

theorem editPicked_map {pick : Nat → Tree → Bool} {g h : Tree → Tree} {items : List Tree}
    (hpick : ∀ i u, pick i (h u) = pick i u) (hcomm : ∀ u ∈ items, g (h u) = h (g u)) :
    editPicked pick g (items.map h) = (editPicked pick g items).map h := by
  refine List.ext_getElem? fun i => ?_
  rw [getElem?_editPicked, List.getElem?_map, List.getElem?_map, getElem?_editPicked]
  cases hu : items[i]? with
  | none => rfl
  | some u =>
    simp only [Option.map_some, hpick]
    split
    · rw [hcomm u (List.mem_of_getElem? hu)]
    · rfl

theorem mapAddressed_dropUnder (wf : t.WellFormed) (hlast : last.Blind)
    (blind : ∀ s ∈ segments, s.Blind) (keys : List String) (key : String) :
    (t.dropUnder keys key).mapAddressed spread (fun u => (u.removeLast last).1) segments =
      (t.mapAddressed spread (fun u => (u.removeLast last).1) segments).dropUnder keys key := by
  induction t using Tree.induction generalizing segments keys with
  | scalar t hscalar =>
    rw [dropUnder_scalar hscalar, mapAddressed_removeLast_scalar hscalar, dropUnder_scalar hscalar]
  | list items ih =>
    have hitems := wellFormedItems_iff.1 wf
    cases segments with
    | nil =>
      cases spread with
      | false =>
        have h := removeLast_dropUnder wf hlast keys key
        rw [dropUnder_list] at h ⊢
        exact h
      | true =>
        rw [dropUnder_list, mapAddressed, if_pos rfl, mapAddressed, if_pos rfl, dropUnder_list,
          List.map_map, List.map_map]
        exact congrArg list (List.map_congr_left fun u hu =>
          removeLast_dropUnder (hitems u hu) hlast keys key)
    | cons s rest =>
      rw [dropUnder_list, mapAddressed_list_cons, mapAddressed_list_cons, dropUnder_list]
      refine congrArg list (editPicked_map (fun i u => ?_) fun u hu => ?_)
      · exact picks_of_blind (blind s List.mem_cons_self) i _ u
      · exact ih u hu (hitems u hu) (blind_afterList blind) keys
  | map es ih =>
    cases segments with
    | nil =>
      have h := removeLast_dropUnder wf hlast keys key
      cases keys with
      | nil => exact h
      | cons k ks =>
        rw [dropUnder_map_cons] at h ⊢
        exact h
    | cons s rest =>
      cases s with
      | matching k value => cases blind _ List.mem_cons_self
      | index i =>
        cases keys with
        | nil => rfl
        | cons k ks =>
          rw [dropUnder_map_cons]
          exact (dropUnder_map_cons k ks key es).symm
      | field k' =>
        rw [mapAddressed_map_field]
        cases keys with
        | nil =>
          rw [dropUnder_map_nil, dropUnder_map_nil, mapAddressed_map_field,
            Entries.erase_modify_comm wf.1]
        | cons k ks =>
          rw [dropUnder_map_cons, dropUnder_map_cons, mapAddressed_map_field]
          refine congrArg map ?_
          -- The walks go on below one key, or below two that do not meet.
          by_cases hk : k' = k
          · subst hk
            rw [Entries.modify_modify, Entries.modify_modify]
            refine Entries.modify_congr fun u hu => ?_
            have hmem := Entries.mem_of_find? hu
            exact ih (k', u) hmem (wellFormedEntries_iff.1 wf.2 _ hmem)
              (List.forall_mem_cons.1 blind).2 ks
          · exact Entries.modify_comm hk _ _ es

end Tree

namespace FieldPath

variable {p q : FieldPath} {keys : List String} {key : String} {t t' u u' : Tree} {n n' : Nat}

/-- Two trees are the same but for nodes that the path addresses, and none of these is in a list in
a list. -/
structure DifferOnly (p : FieldPath) (t t' : Tree) : Prop where
  wellFormed : t.WellFormed
  wellFormed' : t'.WellFormed
  without_eq : p.without t = p.without t'
  unburied : ¬ p.Buries t
  unburied' : ¬ p.Buries t'

theorem inherits_remove (wf : t.WellFormed) (h : p.remove t = .ok (u, n)) (keys : List String) :
    Tree.Inherits key keys t u := by
  obtain ⟨last, -, -, -, rfl⟩ := remove_eq_ok h
  exact Tree.inherits_mapAddressed wf last keys

section Keys

variable (hkeys : p.segments = (keys ++ [key]).map .field)

include hkeys

theorem getLast?_of_keys : p.segments.getLast? = some (.field key) := by
  rw [hkeys, List.map_append, List.map_singleton, List.getLast?_concat]

theorem dropLast_of_keys : p.segments.dropLast = keys.map .field := by
  rw [hkeys, List.map_append, List.map_singleton, List.dropLast_concat]

theorem without_of_keys (t : Tree) : p.without t = t.dropUnder keys key := by
  rw [without, getLast?_of_keys hkeys, dropLast_of_keys hkeys]
  rfl

theorem map_fst_remove (hb : ¬ p.Buries t) : (p.remove t).map Prod.fst =
    ((t.addressed true (keys.map .field)).map fun _ => p.without t).mapError
      (·.toError p.source) := by
  cases hr : p.remove t with
  | ok r =>
    obtain ⟨last, parents, hlast, hparents, -⟩ := remove_eq_ok hr
    obtain rfl := Option.some.inj (hlast.symm.trans (getLast?_of_keys hkeys))
    rw [dropLast_of_keys hkeys, Segment.isField] at hparents
    rw [hparents, Except.map, remove_eq_without hr hb]
    rfl
  | error e =>
    rw [remove, getLast?_of_keys hkeys, dropLast_of_keys hkeys] at hr
    simp only [Segment.isField] at hr
    cases hparents : t.addressed true (keys.map .field) with
    | ok parents => simp [hparents] at hr
    | error m =>
      rw [hparents] at hr
      exact congrArg Except.error (Except.error.inj hr).symm

theorem Buries.of_inherits (hinherits : Tree.Inherits key keys t u) (h : p.Buries u) :
    p.Buries t := by
  obtain ⟨k, q, items, r, hlast, hq, hlist, hr⟩ := h
  obtain rfl := Segment.field.inj (Option.some.inj (hlast.symm.trans (getLast?_of_keys hkeys)))
  rw [dropLast_of_keys hkeys] at hq
  obtain ⟨q', items', r', h'⟩ := hinherits.addresses_list hq hlist hr
  rw [← dropLast_of_keys hkeys] at h'
  exact ⟨k, q', items', r', hlast, h'⟩

theorem Buries.of_setAll {updates : List (Position × Tree)}
    (hupdates : ∀ x ∈ updates, x.1.keys = keys ++ [key]) (h : p.Buries (t.setAll updates)) :
    p.Buries t := by
  induction updates generalizing t with
  | nil => exact h
  | cons x xs ih =>
    rw [List.forall_mem_cons] at hupdates
    exact (ih hupdates.2 h).of_inherits hkeys (Tree.inherits_set hupdates.1 x.2 t)

theorem differOnly_setAll {ps : List Position} {us : List Tree} (wf : t.WellFormed)
    (wf' : (t.setAll (ps.zip us)).WellFormed) (hps : p.locate t = .ok ps) (hb : ¬ p.Buries t) :
    p.DifferOnly t (t.setAll (ps.zip us)) := by
  have hupdates : ∀ x ∈ ps.zip us, x.1.keys = keys ++ [key] := fun x hx =>
    ((Tree.mem_addressed_iff (locate_eq_ok.1 hps)).1 (List.of_mem_zip hx).1).keys_eq hkeys
  refine ⟨wf, wf', ?_, hb, fun h => hb (h.of_setAll hkeys hupdates)⟩
  rw [without_of_keys hkeys, without_of_keys hkeys, Tree.dropUnder_setAll hupdates]

theorem DifferOnly.remove (h : p.DifferOnly t t') (blind : ∀ s ∈ q.segments, s.Blind)
    (hu : q.remove t = .ok (u, n)) (hu' : q.remove t' = .ok (u', n')) : p.DifferOnly u u' where
  wellFormed := wellFormed_remove h.wellFormed hu
  wellFormed' := wellFormed_remove h.wellFormed' hu'
  unburied hb := h.unburied (hb.of_inherits hkeys (inherits_remove h.wellFormed hu keys))
  unburied' hb := h.unburied' (hb.of_inherits hkeys (inherits_remove h.wellFormed' hu' keys))
  without_eq := by
    obtain ⟨last, -, hlast, -, rfl⟩ := remove_eq_ok hu
    obtain ⟨last', -, hlast', -, rfl⟩ := remove_eq_ok hu'
    obtain rfl := Option.some.inj (hlast.symm.trans hlast')
    have hblind := blind last (List.mem_of_getLast? hlast)
    have hwalk : ∀ s ∈ q.segments.dropLast, s.Blind := fun s hs =>
      blind s ((List.dropLast_sublist _).mem hs)
    have heq := h.without_eq
    rw [without_of_keys hkeys, without_of_keys hkeys] at heq ⊢
    rw [← Tree.mapAddressed_dropUnder h.wellFormed hblind hwalk,
      ← Tree.mapAddressed_dropUnder h.wellFormed' hblind hwalk, heq]

theorem DifferOnly.map_fst_remove_eq (h : p.DifferOnly t t') :
    (p.remove t).map Prod.fst = (p.remove t').map Prod.fst := by
  have heq := h.without_eq
  rw [map_fst_remove hkeys h.unburied, map_fst_remove hkeys h.unburied', heq]
  rw [without_of_keys hkeys, without_of_keys hkeys] at heq
  rw [← Tree.addressed_dropUnder true keys key t, heq, Tree.addressed_dropUnder]

end Keys

end FieldPath

end Manifest
