import Manifest.Loading
import Manifest.Proofs.Store
import Manifest.Proofs.Tree.KeyOrder

namespace Manifest

namespace Yaml

def Gives {α : Type} (P : α → Prop) (x : Following α) : Prop :=
  ∀ n a m, x.run n = some (a, m) → P a

section Gives

variable {α β : Type} {P : β → Prop} {Q : α → Prop}

theorem gives_pure {b : β} (h : P b) : Gives P (pure b) := by
  intro n a m hrun
  obtain ⟨rfl, -⟩ := Prod.mk.inj (Option.some.inj hrun)
  exact h

theorem gives_failure : Gives P failure := nofun

theorem gives_bind {x : Following α} {f : α → Following β} (hx : Gives Q x)
    (hf : ∀ a, Q a → Gives P (f a)) : Gives P (x >>= f) := by
  intro n b m hrun
  obtain ⟨⟨a, k⟩, ha, hb⟩ := Option.bind_eq_some_iff.1 hrun
  exact hf a (hx n a k ha) k b m hb

theorem gives_any (x : Following α) : Gives (fun _ => True) x := fun _ _ _ _ => trivial

theorem gives_mapM {f : α → Following β} {xs : List α} (hf : ∀ x ∈ xs, Gives P (f x)) :
    Gives (fun ys => ∀ y ∈ ys, P y) (xs.mapM f) := by
  induction xs with
  | nil => exact gives_pure nofun
  | cons x xs ih =>
    obtain ⟨hx, hxs⟩ := List.forall_mem_cons.1 hf
    rw [List.mapM_cons]
    refine gives_bind hx fun y hy => gives_bind (ih hxs) fun ys hys => gives_pure ?_
    exact List.forall_mem_cons.2 ⟨hy, hys⟩

end Gives

theorem wellFormed_of_scalarTree? {tag : Option String} {style : ScalarStyle} {s : String}
    {t : Tree} (h : scalarTree? tag style s = some t) : t.WellFormed := by
  rw [scalarTree?] at h
  split at h
  case h_3 n _ =>
    rw [integerTree?] at h
    split at h
    · cases h
      trivial
    · split at h <;> cases h
      trivial
  all_goals cases h
  all_goals trivial

theorem gives_scalar (tag : Option String) (style : ScalarStyle) (s : String) :
    Gives Tree.WellFormed ((scalarTree? tag style s).elim failure pure) := by
  cases h : scalarTree? tag style s with
  | none => exact gives_failure
  | some t => exact gives_pure (wellFormed_of_scalarTree? h)

/-- The keys of an entry may be repeated, the keys of the map are not. -/
theorem gives_treeOf (anchored : List (Nat × Node)) (depth : Nat) (node : Node) :
    Gives Tree.WellFormed (treeOf anchored depth node) := by
  induction depth generalizing node with
  | zero =>
    refine gives_bind (gives_any _) fun node _ => ?_
    cases node with
    | scalar => exact gives_scalar _ _ _
    | _ => exact gives_failure
  | succ depth ih =>
    refine gives_bind (gives_any _) fun node _ => ?_
    cases node with
    | scalar => exact gives_scalar _ _ _
    | sequence anchor tag items =>
      dsimp only
      split
      · refine gives_bind (gives_mapM fun item _ => ih item) fun ts hts => gives_pure ?_
        exact Tree.wellFormedItems_iff.2 hts
      · exact gives_failure
    | mapping anchor tag es =>
      dsimp only
      split
      · refine gives_bind (gives_mapM (P := fun e => e.2.WellFormed) fun e _ => ?_)
          fun es hes => gives_pure ⟨Entries.distinct_insertAll List.nodup_nil, ?_⟩
        · exact gives_bind (gives_any _) fun key _ => gives_bind (ih e.2) fun t ht => gives_pure ht
        · exact Tree.wellFormedEntries_iff.2 (Entries.forall_mem_insertAll nofun hes)
      · exact gives_failure
    | _ => exact gives_failure

theorem wellFormed_of_mem_stream {s : String} {t : Tree} (h : some t ∈ stream s) :
    t.WellFormed := by
  obtain ⟨node, -, hnode⟩ := List.mem_map.1 h
  obtain ⟨root, -, htree⟩ := Option.bind_eq_some_iff.1 hnode
  obtain ⟨⟨u, m⟩, hrun, rfl⟩ := Option.map_eq_some_iff.1 htree
  exact gives_treeOf _ _ _ _ _ _ hrun

end Yaml

theorem Document.of_ofTree {t : Tree} {d : Document} (h : ofTree t = .ok d) :
    d.tree = t ∧ d.Valid := by
  rw [ofTree] at h
  split at h
  · cases h
  · rename_i hfault
    obtain rfl := Except.ok.inj h
    exact ⟨rfl, hfault⟩

theorem Store.of_parse {text : String} {s : Store} (h : parse text = .ok s) :
    ∀ d ∈ s.documents, d.Valid ∧ d.tree.WellFormed := by
  refine foldlM_invariant (P := fun s : Store => ∀ d ∈ s.documents, d.Valid ∧ d.tree.WellFormed)
    (fun store t? store' hmem hstore hstep => ?_)
    (fun d hd => absurd hd List.not_mem_nil) h
  split at hstep
  · cases hstep
  · exact Except.ok.inj hstep ▸ hstore
  · rename_i t _
    obtain ⟨d, hd, happend⟩ := bind_eq_ok.1 hstep
    obtain ⟨htree, hvalid⟩ := Document.of_ofTree hd
    rw [(appended_eq_ok.1 happend).2]
    refine List.forall_mem_append.2 ⟨hstore, List.forall_mem_singleton.2 ⟨hvalid, ?_⟩⟩
    exact htree ▸ Yaml.wellFormed_of_mem_stream hmem

end Manifest
