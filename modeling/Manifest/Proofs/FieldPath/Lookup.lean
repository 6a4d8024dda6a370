import Manifest.Proofs.FieldPath.KeyOrder
import Manifest.Proofs.FieldPath.Pointwise

namespace Manifest

namespace Tree

inductive Leads : Option Tree → List Tree → Prop
  | nothing : Leads none []
  | node {u us} : (∀ items, u ≠ .list items) → Leads (some u) (u :: us)
  | elements {items us} : Leads (some (.list items)) (items ++ us)

theorem Leads.append {u : Tree} {us : List Tree} (h : Leads (some u) us) (vs : List Tree) :
    Leads (some u) (us ++ vs) := by
  cases h with
  | node hlist => exact .node hlist
  | elements => rw [List.append_assoc]; exact .elements

/-- How a search and the location of all nodes end along one path. -/
inductive Agree : Except Mismatch (Option Tree) → Except Mismatch (List Tree) → Prop
  | found {r us} : Leads r us → Agree (.ok r) (.ok us)
  | failed {m} : Agree (.error m) (.error m)
  | early {u m} : Agree (.ok (some u)) (.error m)

def nodesAlong (t : Tree) (segments : List Segment) : Except Mismatch (List Tree) :=
  (t.addressed true segments).map fun ps => ps.filterMap t.get?

def nodesAlongItems (pick : Nat → Tree → Bool) (segments : List Segment) (i : Nat) :
    List Tree → Except Mismatch (List Tree)
  | [] => .ok []
  | t :: ts =>
    match (if pick i t then t.nodesAlong segments else .ok []) with
    | .error m => .error m
    | .ok here => (nodesAlongItems pick segments (i + 1) ts).map (here ++ ·)

variable {segments : List Segment} {pick : Nat → Tree → Bool} {items : List Tree}

theorem nodesAlongItems_eq (before : List Tree) :
    (addressedItems true pick segments before.length items).map
        (fun ps => ps.filterMap (list (before ++ items)).get?) =
      nodesAlongItems pick segments before.length items := by
  induction items generalizing before with
  | nil => rfl
  | cons t ts ih =>
    have hnode : ∀ q, (list (before ++ t :: ts)).get? (.index before.length :: q) = t.get? q :=
      get?_list (by simp)
    have hrest := ih (before ++ [t])
    rw [List.length_append, List.length_singleton, List.append_assoc,
      List.singleton_append] at hrest
    rw [nodesAlongItems, addressedItems, ← hrest]
    by_cases hpick : pick before.length t = true
    · rw [if_pos hpick, if_pos hpick, nodesAlong]
      cases t.addressed true segments with
      | error m => rfl
      | ok here =>
        cases addressedItems true pick segments (before.length + 1) ts with
        | error m => rfl
        | ok later => simp [Except.map, List.filterMap_map, hnode]
    · rw [if_neg hpick, if_neg hpick]
      cases addressedItems true pick segments (before.length + 1) ts with
      | error m => rfl
      | ok later => simp [Except.map]

theorem nodesAlong_list_cons (s : Segment) (rest : List Segment) (items : List Tree) :
    (list items).nodesAlong (s :: rest) =
      nodesAlongItems (picks s) (afterList s rest) 0 items :=
  nodesAlongItems_eq []

theorem nodesAlong_map_field (key : String) (rest : List Segment) (es : Entries Tree) :
    (map es).nodesAlong (.field key :: rest) =
      match Entries.find? key es with
      | none => .ok []
      | some u => u.nodesAlong rest := by
  rw [nodesAlong, addressed, addressedEntry_eq]
  cases hu : Entries.find? key es with
  | none => rfl
  | some u =>
    have hnode : ∀ q, (map es).get? (.key key :: q) = u.get? q := get?_map hu
    dsimp only
    rw [nodesAlong]
    cases u.addressed true rest with
    | error m => rfl
    | ok ps => simp [Except.map, List.filterMap_map, hnode]

theorem filterMap_get?_range (items : List Tree) :
    ((List.range items.length).map fun i => [.index i]).filterMap (list items).get? = items := by
  have hget : ∀ i, (list items).get? [.index i] = items[i]? := fun i => by simp [get?_cons, child?]
  refine (List.map_inj_right fun _ _ => Option.some.inj).1 ?_
  rw [← map_get?_eq, List.map_map]
  · refine List.ext_getElem (by simp) fun i hi _ => ?_
    simp [hget]
  · simp [hget]

theorem lookupEntry_eq (key : String) (segments : List Segment) (es : Entries Tree) :
    lookupEntry key segments es =
      match Entries.find? key es with
      | none => .ok none
      | some u => u.lookup segments := by
  induction es with
  | nil => rfl
  | cons e es ih =>
    obtain ⟨k, t⟩ := e
    rw [lookupEntry, Entries.find?_cons, ih]
    split <;> rfl

theorem agree_lookupItems (h : ∀ t ∈ items, Agree (t.lookup segments) (t.nodesAlong segments))
    (i : Nat) :
    Agree (lookupItems pick segments i items) (nodesAlongItems pick segments i items) := by
  induction items generalizing i with
  | nil => exact .found .nothing
  | cons t ts ih =>
    obtain ⟨ht, hts⟩ := List.forall_mem_cons.1 h
    have hrest := ih hts (i + 1)
    rw [lookupItems, nodesAlongItems]
    by_cases hpick : pick i t = true
    · rw [if_pos hpick, if_pos hpick]
      generalize t.lookup segments = x at ht ⊢
      generalize t.nodesAlong segments = y at ht ⊢
      cases ht with
      | failed => exact .failed
      | early => exact .early
      | @found r us hleads =>
        cases r with
        | none =>
          cases hleads
          dsimp only
          generalize nodesAlongItems pick segments (i + 1) ts = z at hrest ⊢
          cases z <;> exact hrest
        | some u =>
          dsimp only
          cases nodesAlongItems pick segments (i + 1) ts with
          | error m => exact .early
          | ok vs => exact .found (hleads.append vs)
    · rw [if_neg hpick, if_neg hpick]
      dsimp only
      generalize nodesAlongItems pick segments (i + 1) ts = z at hrest ⊢
      cases z <;> exact hrest

theorem agree_lookup (t : Tree) (segments : List Segment) :
    Agree (t.lookup segments) (t.nodesAlong segments) := by
  induction t using Tree.induction generalizing segments with
  | scalar t hscalar =>
    cases segments with
    | nil =>
      cases t with
      | list items => cases hscalar
      | map es => cases hscalar
      | _ => exact .found (.node nofun)
    | cons s rest =>
      cases t with
      | list items => cases hscalar
      | map es => cases hscalar
      | null => exact .found .nothing
      | _ => cases s <;> exact .failed
  | list items ih =>
    cases segments with
    | nil =>
      have hnodes : (list items).nodesAlong [] = .ok (items ++ []) := by
        rw [List.append_nil, nodesAlong, addressed, if_pos rfl]
        exact congrArg Except.ok (filterMap_get?_range items)
      rw [hnodes]
      exact .found .elements
    | cons s rest =>
      rw [nodesAlong_list_cons]
      exact agree_lookupItems (fun t ht => ih t ht _) 0
  | map es ih =>
    cases segments with
    | nil => exact .found (.node nofun)
    | cons s rest =>
      cases s with
      | field key =>
        rw [nodesAlong_map_field, lookup, lookupEntry_eq]
        cases hu : Entries.find? key es with
        | none => exact .found .nothing
        | some u => exact ih (key, u) (Entries.mem_of_find? hu) rest
      | index i => exact .failed
      | matching key value => exact .failed

end Tree

namespace FieldPath

/-- Where all nodes of a path can be located, the search along it finds the first of them, or the
list that holds it, or nothing if there is none; where the search fails, so does the location. -/
theorem lookup_of_locate (p : FieldPath) (t : Tree) :
    (∀ ps, p.locate t = .ok ps →
      ∃ r us, p.lookup t = .ok r ∧ ps.map t.get? = us.map some ∧ Tree.Leads r us) ∧
    ∀ e, p.lookup t = .error e → p.locate t = .error e := by
  have hagree := t.agree_lookup p.segments
  rw [Tree.nodesAlong] at hagree
  constructor
  · intro ps hps
    rw [locate_eq_ok] at hps
    have there : ∀ q ∈ ps, (t.get? q).isSome := fun q hq =>
      ((Tree.mem_addressed_iff hps).1 hq).get?_isSome
    rw [hps] at hagree
    cases hr : t.lookup p.segments with
    | error m => rw [hr] at hagree; cases hagree
    | ok r =>
      rw [hr] at hagree
      cases hagree with
      | found hleads =>
        exact ⟨r, ps.filterMap t.get?, by rw [lookup, hr]; rfl, Tree.map_get?_eq there, hleads⟩
  · intro e he
    cases hr : t.lookup p.segments with
    | ok r => rw [lookup, hr] at he; cases he
    | error m =>
      rw [lookup, hr] at he
      obtain rfl : m.toError p.source = e := Except.error.inj he
      cases hps : t.addressed true p.segments with
      | ok ps => rw [hr, hps] at hagree; cases hagree
      | error m' =>
        rw [hr, hps] at hagree
        cases hagree
        rw [locate, hps]
        rfl

theorem lookup_of_locate_nested :
    let p : FieldPath := ⟨"a/b", [.field "a", .field "b"]⟩
    let one : Tree := .list [.list [.map [("b", .list [.text "x", .text "y"])]],
      .map [("b", .text "z")]]
    (∃ r us, p.lookup (.map [("a", one)]) = .ok r ∧
      [[.key "a", .index 0, .index 0, .key "b", .index 0],
        [.key "a", .index 0, .index 0, .key "b", .index 1],
        [.key "a", .index 1, .key "b"]].map (Tree.map [("a", one)]).get? = us.map some ∧
      Tree.Leads r us) ∧
    p.locate (.map [("a", .list [.text "x"])]) =
      .error (.typeMismatch "a/b" "object" "string") := by
  intro p one
  exact ⟨(lookup_of_locate p (.map [("a", one)])).1 _ rfl,
    (lookup_of_locate p (.map [("a", .list [.text "x"])])).2 _ rfl⟩

end FieldPath

end Manifest
