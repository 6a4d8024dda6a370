import Manifest.Proofs.ContentName.KeyOrder
import Manifest.Proofs.Document
import Manifest.Proofs.FieldPath.Dropping

namespace Manifest.ContentName

open Tree FieldPath

variable {p : FieldPath} {keys : List String} {key : String} {spec : FieldSpec}
  {earlier later volatile : List FieldSpec} {t t' u u' : Tree} {d d' : Document}

theorem withoutField_eq (hspec : spec.fieldPath = .ok p) (t : Tree) : withoutField t spec =
    if p.isRoot then .ok t else (p.remove t).map Prod.fst := by
  rw [withoutField, hspec]
  cases hroot : p.isRoot with
  | true => simp [hroot, bind, Except.bind, pure, Except.pure]
  | false =>
    simp only [hroot, bind, Except.bind, Bool.false_eq_true, if_false]
    cases p.remove t <;> rfl

theorem hash_eq_map (volatile : List FieldSpec) (d : Document) : hash volatile d =
    ((volatile.filter (·.appliesTo d.type)).foldlM withoutField d.tree).map fun t =>
      hashTree (input d.kind d.name t) := by
  rw [hash, withoutVolatile_eq]
  cases (volatile.filter (·.appliesTo d.type)).foldlM withoutField d.tree <;> rfl

theorem input_congr_name {kind name name' : String}
    (h : kind = "ConfigMap" ∨ kind = "Secret" → name = name') (t : Tree) :
    input kind name t = input kind name' t := by
  cases t with
  | map es =>
    rw [input, input]
    split
    · rw [h (.inl ‹_›)]
    · split
      · rw [h (.inr ‹_›)]
      · rfl
  | _ => rfl

section Keys

variable (hkeys : p.segments = (keys ++ [key]).map .field)

include hkeys

theorem withoutField_eq_of_differOnly (hspec : spec.fieldPath = .ok p) (h : p.DifferOnly t t') :
    withoutField t spec = withoutField t' spec := by
  have hroot : ¬ p.isRoot := by simp [isRoot, hkeys]
  rw [withoutField_eq hspec, withoutField_eq hspec, if_neg hroot, if_neg hroot,
    h.map_fst_remove_eq hkeys]

theorem differOnly_withoutField (h : p.DifferOnly t t')
    (blind : ∀ q, spec.fieldPath = .ok q → ∀ r ∈ q.segments, r.Blind)
    (hu : withoutField t spec = .ok u) (hu' : withoutField t' spec = .ok u') :
    p.DifferOnly u u' := by
  obtain ⟨q, hq, -⟩ := bind_eq_ok.1 hu
  rw [withoutField_eq hq] at hu hu'
  split at hu
  · rw [if_pos ‹_›] at hu'
    exact Except.ok.inj hu ▸ Except.ok.inj hu' ▸ h
  · rw [if_neg ‹_›] at hu'
    obtain ⟨⟨v, n⟩, hv, rfl⟩ := map_eq_ok.1 hu
    obtain ⟨⟨v', n'⟩, hv', rfl⟩ := map_eq_ok.1 hu'
    exact h.remove hkeys (blind q hq) hv hv'

theorem differOnly_foldlM (h : p.DifferOnly t t')
    (blind : ∀ s ∈ earlier, ∀ q, s.fieldPath = .ok q → ∀ r ∈ q.segments, r.Blind)
    (hu : earlier.foldlM withoutField t = .ok u) (hu' : earlier.foldlM withoutField t' = .ok u') :
    p.DifferOnly u u' := by
  induction earlier generalizing t t' with
  | nil => exact pure_eq_ok.1 hu ▸ pure_eq_ok.1 hu' ▸ h
  | cons s specs ih =>
    rw [List.foldlM_cons] at hu hu'
    obtain ⟨v, hv, hu⟩ := bind_eq_ok.1 hu
    obtain ⟨v', hv', hu'⟩ := bind_eq_ok.1 hu'
    obtain ⟨hs, hspecs⟩ := List.forall_mem_cons.1 blind
    exact ih (differOnly_withoutField hkeys h hs hv hv') hspecs hu hu'

theorem foldlM_withoutField_eq (hspec : spec.fieldPath = .ok p) (h : p.DifferOnly t t')
    (blind : ∀ s ∈ earlier, ∀ q, s.fieldPath = .ok q → ∀ r ∈ q.segments, r.Blind)
    (hu : (earlier ++ spec :: later).foldlM withoutField t = .ok u)
    (hu' : (earlier ++ spec :: later).foldlM withoutField t' = .ok u') : u = u' := by
  rw [List.foldlM_append] at hu hu'
  obtain ⟨v, hv, hu⟩ := bind_eq_ok.1 hu
  obtain ⟨v', hv', hu'⟩ := bind_eq_ok.1 hu'
  have hdiffer := differOnly_foldlM hkeys h blind hv hv'
  rw [List.foldlM_cons, withoutField_eq_of_differOnly hkeys hspec hdiffer] at hu
  rw [List.foldlM_cons] at hu'
  exact Except.ok.inj (hu.symm.trans hu')

end Keys

structure AlikeBut (p : FieldPath) (d d' : Document) : Prop where
  tree : p.DifferOnly d.tree d'.tree
  type : d.type = d'.type
  name : d.kind = "ConfigMap" ∨ d.kind = "Secret" → d.name = d'.name

theorem AlikeBut.hash_eq_map (h : AlikeBut p d d') (volatile : List FieldSpec) :
    hash volatile d' = ((volatile.filter (·.appliesTo d.type)).foldlM withoutField d'.tree).map
      fun t => hashTree (input d.kind d.name t) := by
  have hkind : d'.kind = d.kind := by rw [← Document.kind_type, ← h.type, Document.kind_type]
  rw [ContentName.hash_eq_map, ← h.type, hkind]
  simp only [input_congr_name h.name]

/-- A removal is complete unless it comes to a list in a list: it leaves nothing to remove and
nothing to find, and a volatile field under keys, wherever it stands among the volatile fields, does
not count for the hash. -/
theorem removal_complete (p : FieldPath) :
    (∀ t t' n, t.WellFormed → (∀ i, p.segments.getLast? ≠ some (.index i)) →
      p.remove t = .ok (t', n) →
      p.remove t' = .ok (t', 0) ∧ (¬ p.Buries t → ∀ u, p.lookup t' ≠ .ok (some u))) ∧
    ∀ keys, p.segments = keys.map .field → keys ≠ [] →
      (∀ t ps us, t.WellFormed → (t.setAll (ps.zip us)).WellFormed → p.locate t = .ok ps →
        ¬ p.Buries t → p.DifferOnly t (t.setAll (ps.zip us))) ∧
      ∀ d d' volatile earlier spec later, AlikeBut p d d' → spec.fieldPath = .ok p →
        volatile.filter (·.appliesTo d.type) = earlier ++ spec :: later →
        (∀ s ∈ earlier, ∀ q, s.fieldPath = .ok q → ∀ r ∈ q.segments, r.Blind) →
        (∀ x x', hash volatile d = .ok x → hash volatile d' = .ok x' → x = x') ∧
        (earlier = [] → hash volatile d = hash volatile d') := by
  refine ⟨fun t t' n wf hlast h => ⟨remove_remove wf hlast h, lookup_removed wf hlast h⟩, ?_⟩
  intro keys hkeys hne
  rw [← List.dropLast_concat_getLast hne] at hkeys
  refine ⟨fun t ps us wf wf' hps hb => differOnly_setAll hkeys wf wf' hps hb, ?_⟩
  intro d d' volatile earlier spec later halike hspec hvolatile blind
  rw [hash_eq_map, halike.hash_eq_map, hvolatile]
  constructor
  · intro x x' hx hx'
    obtain ⟨u, hu, rfl⟩ := map_eq_ok.1 hx
    obtain ⟨u', hu', rfl⟩ := map_eq_ok.1 hx'
    rw [foldlM_withoutField_eq hkeys hspec halike.tree blind hu hu']
  · rintro rfl
    rw [List.nil_append, List.foldlM_cons, List.foldlM_cons,
      withoutField_eq_of_differOnly hkeys hspec halike.tree]

def fooWithSpec (fields : Entries Tree) : Document where
  tree := .map [("kind", .text "Foo"), ("metadata", .map [("name", .text "foo")]),
    ("spec", .map fields)]

def atPath : FieldPath := ⟨"spec/at", [.field "spec", .field "at"]⟩

def seenPath : FieldPath := ⟨"spec/seen", [.field "spec", .field "seen"]⟩

def atAndSeen : List FieldSpec := [⟨{}, "spec/at", false⟩, ⟨{}, "spec/seen", false⟩]

theorem not_buries_seenPath (fields : Entries Tree) :
    ¬ seenPath.Buries (fooWithSpec fields).tree := by
  rintro ⟨_, q, items, r, -, hq, hlist, -⟩
  cases hq with
  | entry hspec hq =>
    obtain rfl := Option.some.inj hspec
    cases hq
    cases hlist

theorem hash_atAndSeen (n : Int64) :
    hash atAndSeen (fooWithSpec [("seen", .integer n), ("at", .integer 5)]) =
      .ok (hashTree (input "Foo" "foo" (fooWithSpec []).tree)) := by
  have hfilter : atAndSeen.filter (·.appliesTo
      (fooWithSpec [("seen", .integer n), ("at", .integer 5)]).type) = atAndSeen := rfl
  have hkind : (fooWithSpec [("seen", .integer n), ("at", .integer 5)]).kind = "Foo" := rfl
  have hname : (fooWithSpec [("seen", .integer n), ("at", .integer 5)]).name = "foo" := rfl
  have hat : withoutField (fooWithSpec [("seen", .integer n), ("at", .integer 5)]).tree
      ⟨{}, "spec/at", false⟩ = .ok (fooWithSpec [("seen", .integer n)]).tree := by
    rw [withoutField_eq (p := atPath) rfl]
    rfl
  have hseen : withoutField (fooWithSpec [("seen", .integer n)]).tree
      ⟨{}, "spec/seen", false⟩ = .ok (fooWithSpec []).tree := by
    rw [withoutField_eq (p := seenPath) rfl]
    rfl
  have hfold : atAndSeen.foldlM withoutField
      (fooWithSpec [("seen", .integer n), ("at", .integer 5)]).tree =
        .ok (fooWithSpec []).tree := by
    rw [atAndSeen, List.foldlM_cons]
    refine bind_eq_ok.2 ⟨_, hat, ?_⟩
    rw [List.foldlM_cons]
    exact bind_eq_ok.2 ⟨_, hseen, rfl⟩
  rw [hash_eq_map, hfilter, hfold, hkind, hname, Except.map]

theorem blind_at : ∀ s ∈ ([⟨{}, "spec/at", false⟩] : List FieldSpec), ∀ q,
    s.fieldPath = .ok q → ∀ r ∈ q.segments, r.Blind := by
  intro s hs q hq
  obtain rfl := List.mem_singleton.1 hs
  obtain rfl : atPath = q := Except.ok.inj hq
  simp [atPath, Segment.Blind]

theorem removal_complete_seen :
    let d := fooWithSpec [("seen", .integer 1), ("at", .integer 5)]
    let d' := fooWithSpec [("seen", .integer 2), ("at", .integer 5)]
    let removed := (fooWithSpec [("at", .integer 5)]).tree
    (seenPath.remove removed = .ok (removed, 0) ∧
      ∀ u, seenPath.lookup removed ≠ .ok (some u)) ∧
    seenPath.DifferOnly d.tree d'.tree ∧
    ∃ x x', hash atAndSeen d = .ok x ∧ hash atAndSeen d' = .ok x' ∧ x = x' := by
  intro d d' removed
  obtain ⟨hremove, hkeys⟩ := removal_complete seenPath
  obtain ⟨hset, hhash⟩ := hkeys ["spec", "seen"] rfl (by decide)
  obtain ⟨hagain, hlookup⟩ := hremove d.tree removed 1 (by decide) nofun rfl
  have hdiffer : seenPath.DifferOnly d.tree d'.tree :=
    hset d.tree [[.key "spec", .key "seen"]] [.integer 2] (by decide) (by decide)
      rfl (not_buries_seenPath _)
  have hsame := hhash d d' atAndSeen [⟨{}, "spec/at", false⟩] ⟨{}, "spec/seen", false⟩ []
    ⟨hdiffer, rfl, fun _ => rfl⟩ rfl rfl blind_at
  exact ⟨⟨hagain, hlookup (not_buries_seenPath _)⟩, hdiffer, _, _, hash_atAndSeen 1,
    hash_atAndSeen 2, hsame.1 _ _ (hash_atAndSeen 1) (hash_atAndSeen 2)⟩

/-- A list in a list keeps a field that is to be removed, and the field is still found. -/
theorem not_removal_complete_in_general :
    let p : FieldPath := ⟨"a/b", [.field "a", .field "b"]⟩
    let t : Tree := .map [("a", .list [.list [.map [("b", .integer 1)]]])]
    p.remove t = .ok (t, 0) ∧ p.lookup t = .ok (some (.integer 1)) :=
  ⟨rfl, rfl⟩

end Manifest.ContentName
