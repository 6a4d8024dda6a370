import Manifest.Proofs.FieldPath.AddedKeys
import Manifest.Proofs.FieldPath.Addressed
import Manifest.Proofs.FieldPath.Steps
import Manifest.Proofs.Success

namespace Manifest

/-- The path names the keys, or some of them from the first one on. -/
def FieldPath.LeadsTo (p : FieldPath) (keys : List String) : Prop :=
  p.segments <+: keys.map .field

instance (p : FieldPath) (keys : List String) : Decidable (p.LeadsTo keys) :=
  inferInstanceAs (Decidable (_ <+: _))

namespace Tree

theorem Addresses.segments_prefix {spread : Bool} {t : Tree} {segments : List Segment}
    {p : Position} (h : Addresses spread t segments p) :
    ∀ {keys : List String}, p <+: Position.ofKeys keys → segments <+: keys.map .field := by
  induction h with
  | here => exact fun _ => List.nil_prefix
  | element =>
    intro keys hp
    cases keys with
    | nil => simp [Position.ofKeys] at hp
    | cons k ks => simp [Position.ofKeys, List.cons_prefix_cons] at hp
  | item =>
    intro keys hp
    cases keys with
    | nil => simp [Position.ofKeys] at hp
    | cons k ks => simp [Position.ofKeys, List.cons_prefix_cons] at hp
  | entry _ _ ih =>
    intro keys hp
    cases keys with
    | nil => simp [Position.ofKeys] at hp
    | cons k ks =>
      rw [Position.ofKeys, List.map_cons, List.cons_prefix_cons] at hp
      rw [List.map_cons, List.cons_prefix_cons]
      exact ⟨congrArg Segment.field (Step.key.inj hp.1), ih hp.2⟩

theorem apart_of_not_leadsTo {spread : Bool} {t : Tree} {p : FieldPath} {ps : List Position}
    {keys : List String} (hps : t.addressed spread p.segments = .ok ps)
    (spared : ¬ p.LeadsTo keys) (leaf : t.IsLeaf (.ofKeys keys)) :
    ∀ q ∈ ps, Position.Apart q (.ofKeys keys) := by
  intro q hq
  have haddr := addresses_of_mem_addressed spread t _ hps hq
  exact leaf.apart haddr.get?_isSome fun h => spared (haddr.segments_prefix h)

end Tree

namespace FieldPath

variable {σ : Type} {p : FieldPath} {edit : Edit σ} {t t' : Tree} {n : Nat} {s : σ}

theorem locateGrown_eq_ok {base : Tree} {ps : List Position}
    (h : p.locateGrown t = (base, .ok ps)) :
    base = (t.grow p.segments).1 ∧ base.addressed true p.segments = .ok ps := by
  rw [locateGrown] at h
  cases hg : t.grow p.segments with
  | mk grown m =>
    rw [hg] at h
    cases m with
    | some m => cases h
    | none =>
      obtain ⟨rfl, hps⟩ := Prod.mk.inj h
      exact ⟨rfl, locate_eq_ok.1 hps⟩

theorem editAt_eq_ok {ps : List Position}
    (h : ((editAt t ps edit).run s).1 = .ok (t', n)) :
    ∃ us s', ((ps.filterMap t.get?).mapM edit).run s = (.ok us, s') ∧
      t' = t.setAll (ps.zip us) ∧ n = ps.length := by
  obtain ⟨us, s', hus, h⟩ := run_bind_eq_ok.1 h
  obtain ⟨rfl, rfl⟩ := Prod.mk.inj (run_pure_eq_ok.1 h)
  exact ⟨us, s', hus, rfl, rfl⟩

theorem applied_eq_ok {create : Bool} (h : ((p.applied create edit t).run s).1 = .ok (t', n)) :
    ∃ base ps us s₁ s₂, base = (if create then (t.grow p.segments).1 else t) ∧
      base.addressed true p.segments = .ok ps ∧
      ((ps.filterMap base.get?).mapM edit).run s₁ = (.ok us, s₂) ∧
      t' = if ps = [] then t else base.setAll (ps.zip us) := by
  cases create with
  | true =>
    cases hl : p.locateGrown t with
    | mk base located =>
      cases located with
      | error e =>
        rw [run_applied_of_locateGrown_error hl] at h
        cases h
      | ok ps =>
        rw [run_applied_of_locateGrown hl] at h
        obtain ⟨⟨edited, count⟩, s₂, hedit, hpure⟩ := run_bind_eq_ok.1 h
        obtain ⟨us, s₃, hus, rfl, rfl⟩ := editAt_eq_ok (congrArg Prod.fst hedit)
        obtain ⟨rfl, -⟩ := Prod.mk.inj (run_pure_eq_ok.1 hpure)
        obtain ⟨hbase, haddressed⟩ := locateGrown_eq_ok hl
        refine ⟨base, ps, us, s, s₃, hbase, haddressed, hus, ?_⟩
        cases ps <;> simp
  | false =>
    cases haddressed : t.addressed true p.segments with
    | error m =>
      rw [run_applied_of_error edit s haddressed] at h
      cases h
    | ok ps =>
      rw [run_applied_of_ok edit s haddressed] at h
      obtain ⟨us, s₂, hus, rfl, -⟩ := editAt_eq_ok h
      refine ⟨t, ps, us, s, s₂, rfl, haddressed, hus, ?_⟩
      cases ps <;> rfl

inductive Applied (p : FieldPath) (create : Bool) (edit : Edit σ) (t : Tree) : Tree → Prop
  | same : Applied p create edit t t
  | edited {base ps us s s'} : base = (if create then (t.grow p.segments).1 else t) →
      base.addressed true p.segments = .ok ps →
      ((ps.filterMap base.get?).mapM edit).run s = (.ok us, s') →
      Applied p create edit t (base.setAll (ps.zip us))

theorem applied_of_run {create : Bool} (h : ((p.applied create edit t).run s).1 = .ok (t', n)) :
    Applied p create edit t t' := by
  obtain ⟨base, ps, us, s₁, s₂, hbase, hps, hus, rfl⟩ := applied_eq_ok h
  split
  · exact .same
  · exact .edited hbase hps hus

end FieldPath

end Manifest
