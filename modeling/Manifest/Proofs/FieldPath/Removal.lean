import Manifest.Proofs.FieldPath.Mapped

namespace Manifest

namespace Tree

mutual

def dropField (key : String) : Tree → Tree
  | .list items => .list (dropFieldItems key items)
  | .map es => .map (Entries.erase key es)
  | t => t

def dropFieldItems (key : String) : List Tree → List Tree
  | [] => []
  | t :: ts => dropField key t :: dropFieldItems key ts

end

theorem dropField_list (key : String) (items : List Tree) :
    (list items).dropField key = list (items.map (dropField key)) := by
  rw [dropField]
  congr 1
  induction items with
  | nil => rfl
  | cons t ts ih => rw [dropFieldItems, ih, List.map_cons]

def cut (last : Segment) (t : Tree) : Tree :=
  match last with
  | .field key => t.dropField key
  | last => (t.removeLast last).1

variable {spread : Bool} {key value : String} {t : Tree} {last : Segment}

theorem misses_dropField (wf : t.WellFormed) : (t.dropField key).Misses [.field key] := by
  induction t using Tree.induction with
  | scalar t hscalar =>
    cases t with
    | list items => cases hscalar
    | map es => cases hscalar
    | _ => exact misses_scalar rfl _ _
  | list items ih =>
    rw [dropField_list]
    refine lookupItems_misses fun i v hv _ => ?_
    rw [List.getElem?_map] at hv
    obtain ⟨u, hu, rfl⟩ := Option.map_eq_some_iff.1 hv
    have hmem := List.mem_of_getElem? hu
    exact ih u hmem (wellFormedItems_iff.1 wf u hmem)
  | map es ih =>
    intro v
    rw [dropField, lookup, lookupEntry_eq, Entries.find?_erase_self wf.1]
    simp

theorem misses_removeLast_matching (t : Tree) :
    (t.removeLast (.matching key value)).1.Misses [.matching key value] := by
  cases t with
  | list items =>
    refine lookupItems_misses fun i v hv hpick => ?_
    have hkept := (List.mem_filter.1 (List.mem_of_getElem? hv)).2
    rw [picks] at hpick
    simp [hpick] at hkept
  | map es => simp [Misses, removeLast, lookup]
  | _ => exact misses_scalar rfl _ _

theorem misses_cut (hlast : ∀ i, last ≠ .index i) (wf : t.WellFormed) :
    (t.cut last).Misses [last] := by
  cases last with
  | field key => exact misses_dropField wf
  | index i => exact absurd rfl (hlast i)
  | matching key value => exact misses_removeLast_matching t

theorem dropField_eq_self (h : ∀ q, ¬ t.Addresses false [.field key] q) : t.dropField key = t := by
  induction t using Tree.induction with
  | scalar t hscalar =>
    cases t with
    | list items => cases hscalar
    | map es => cases hscalar
    | _ => rfl
  | list items ih =>
    rw [dropField_list]
    refine congrArg list ((List.map_congr_left fun u hu => ?_).trans (List.map_id items))
    obtain ⟨i, hi⟩ := List.getElem?_of_mem hu
    exact ih u hu fun q hq => h (.index i :: q) (.item hi rfl hq)
  | map es ih =>
    rw [dropField, Entries.erase_of_find?_eq_none]
    refine Option.eq_none_iff_forall_ne_some.2 fun u hu => h _ (.entry hu (.here nofun))

theorem removeLast_field_eq (h : ∀ items q, t = list items → ¬ t.Addresses false [.field key] q) :
    (t.removeLast (.field key)).1 = t.dropField key := by
  cases t with
  | list items => exact (dropField_eq_self fun q => h items q rfl).symm
  | map es =>
    rw [removeLast, dropField]
    split
    · rfl
    · rename_i hhas
      rw [Entries.erase_of_find?_eq_none (by simpa [Entries.has] using hhas)]
  | _ => rfl

theorem removeLast_scalar (h : t.isScalar = true) (last : Segment) :
    (t.removeLast last).1 = t := by
  cases t with
  | list items => cases h
  | map es => cases h
  | _ => cases last <;> rfl

theorem removeLast_map_field (key : String) (es : Entries Tree) :
    ((map es).removeLast (.field key)).1 = map (Entries.erase key es) := by
  rw [removeLast_field_eq (fun _ _ h => by cases h), dropField]

theorem removeLast_list_index (i : Nat) (items : List Tree) :
    ((list items).removeLast (.index i)).1 = list (items.eraseIdx i) := by
  rw [removeLast]
  split
  · rfl
  · rw [List.eraseIdx_of_length_le (Nat.le_of_not_lt ‹_›)]

theorem removeLast_removeLast (hlast : ∀ i, last ≠ .index i) (wf : t.WellFormed) :
    (t.removeLast last).1.removeLast last = ((t.removeLast last).1, 0) := by
  cases last with
  | index i => exact absurd rfl (hlast i)
  | field key =>
    cases t with
    | map es =>
      rw [removeLast]
      split
      · rw [removeLast, Entries.has, Entries.find?_erase_self wf.1]
        rfl
      · rename_i hhas
        rw [removeLast, if_neg hhas]
    | _ => rfl
  | matching key value =>
    cases t with
    | list items => simp [removeLast]
    | _ => rfl

theorem mapAddressed_removeLast_scalar (h : t.isScalar = true) (last : Segment)
    (segments : List Segment) :
    t.mapAddressed spread (fun u => (u.removeLast last).1) segments = t := by
  cases segments with
  | nil =>
    cases t with
    | list items => cases h
    | _ => exact removeLast_scalar h last
  | cons s rest => exact mapAddressed_scalar h s rest

theorem keepsLists_removeLast (hfield : last.isField = true) (t : Tree) (items : List Tree)
    (h : (t.removeLast last).1 = list items) : ∃ items', t = list items' := by
  cases last with
  | index i => cases hfield
  | matching key value => cases hfield
  | field key =>
    cases t with
    | list items' => exact ⟨items', rfl⟩
    | map es =>
      rw [removeLast_map_field] at h
      cases h
    | _ => cases h

end Tree

namespace FieldPath

variable {p : FieldPath} {t t' : Tree} {n : Nat}

def without (p : FieldPath) (t : Tree) : Tree :=
  match p.segments.getLast? with
  | none => t
  | some last => t.mapAddressed false (Tree.cut last) p.segments.dropLast

/-- The keys before the last one lead to a list, an element of a list, in which the last key is
found. -/
def Buries (p : FieldPath) (t : Tree) : Prop :=
  ∃ key q items r, p.segments.getLast? = some (.field key) ∧
    t.Addresses true p.segments.dropLast q ∧ t.get? q = some (.list items) ∧
    (Tree.list items).Addresses false [.field key] r

theorem remove_eq_ok (h : p.remove t = .ok (t', n)) : ∃ last parents,
    p.segments.getLast? = some last ∧
    t.addressed last.isField p.segments.dropLast = .ok parents ∧
    t' = t.mapAddressed last.isField (fun u => (u.removeLast last).1) p.segments.dropLast := by
  rw [remove] at h
  cases hlast : p.segments.getLast? with
  | none => rw [hlast] at h; cases h
  | some last =>
    rw [hlast] at h
    cases hparents : t.addressed last.isField p.segments.dropLast with
    | error m => simp [hparents] at h
    | ok parents =>
      simp only [hparents, Except.ok.injEq, Prod.mk.injEq] at h
      exact ⟨last, parents, rfl, hparents, h.1.symm.trans (Tree.foldl_modify_addressed hparents)⟩

theorem remove_eq_without (h : p.remove t = .ok (t', n)) (hb : ¬ p.Buries t) :
    t' = p.without t := by
  obtain ⟨last, parents, hlast, -, rfl⟩ := remove_eq_ok h
  rw [without, hlast]
  cases last with
  | field key =>
    refine Tree.mapAddressed_spread (Tree.dropField_list key) fun q u hq hu => ?_
    refine Tree.removeLast_field_eq fun items r hitems hr => hb ?_
    subst hitems
    exact ⟨key, q, items, r, hlast, hq, hu, hr⟩
  | index i => rfl
  | matching key value => rfl

theorem misses_without {last : Segment} (hlast : p.segments.getLast? = some last)
    (hindex : ∀ i, last ≠ .index i) (wf : t.WellFormed) : (p.without t).Misses p.segments := by
  have h : (t.mapAddressed false (Tree.cut last) p.segments.dropLast).Misses
      (p.segments.dropLast ++ [last]) :=
    Tree.misses_mapAddressed wf fun u hu => Tree.misses_cut hindex hu
  rw [List.dropLast_append_getLast? last hlast] at h
  rwa [without, hlast]

theorem remove_eq_self {last : Segment} {parents : List Position}
    (hlast : p.segments.getLast? = some last)
    (hparents : t.addressed last.isField p.segments.dropLast = .ok parents)
    (h : ∀ q ∈ parents, ∀ u, t.get? q = some u → u.removeLast last = (u, 0)) :
    p.remove t = .ok (t, 0) := by
  have hcounts : parents.map (fun q => ((t.get? q).map fun u => (u.removeLast last).2).getD 0) =
      parents.map fun _ => 0 := List.map_congr_left fun q hq => by
    cases hu : t.get? q with
    | none => rfl
    | some u => rw [Option.map_some, h q hq u hu, Option.getD_some]
  have hsame := Tree.foldl_modify_eq_self fun q hq u hu => congrArg Prod.fst (h q hq u hu)
  rw [remove, hlast]
  simp only [hparents, hcounts, hsame, List.foldl_map, Nat.add_zero, List.foldl_fixed]

theorem remove_remove (wf : t.WellFormed) (hlast : ∀ i, p.segments.getLast? ≠ some (.index i))
    (h : p.remove t = .ok (t', n)) : p.remove t' = .ok (t', 0) := by
  obtain ⟨last, parents, hsome, hparents, rfl⟩ := remove_eq_ok h
  have hindex : ∀ i, last ≠ .index i := fun i hi => hlast i (hi ▸ hsome)
  obtain ⟨qs, hqs⟩ := Tree.addressed_mapAddressed_isOk (fun u => (u.removeLast last).1) hparents
  refine remove_eq_self hsome hqs fun q hq v hv => ?_
  obtain ⟨u, hu, hfu⟩ := Tree.exists_of_addresses_mapAddressed Tree.keepsLists_removeLast
    ((Tree.mem_addressed_iff hqs).1 hq)
  obtain rfl := Option.some.inj (hfu.symm.trans hv)
  exact Tree.removeLast_removeLast hindex (Tree.wellFormed_get? wf hu)

theorem lookup_removed (wf : t.WellFormed) (hlast : ∀ i, p.segments.getLast? ≠ some (.index i))
    (h : p.remove t = .ok (t', n)) (hb : ¬ p.Buries t) (u : Tree) :
    p.lookup t' ≠ .ok (some u) := by
  obtain ⟨last, parents, hsome, -⟩ := remove_eq_ok h
  have hmisses := misses_without hsome (fun i hi => hlast i (hi ▸ hsome)) wf
  rw [remove_eq_without h hb, lookup, Ne, mapError_eq_ok]
  exact hmisses u

end FieldPath

end Manifest
