import Manifest.Proofs.EncodedField
import Manifest.Proofs.FieldPath.KeyOrder
import Manifest.Proofs.FieldPath.Lacking

namespace Manifest

namespace Tree

variable {t u : Tree} {keys : List String}

theorem addressed_ofKeys (there : t.get? (.ofKeys keys) = some u)
    (single : ∀ items, u ≠ .list items) :
    t.addressed true (keys.map .field) = .ok [.ofKeys keys] := by
  induction keys generalizing t with
  | nil =>
    obtain rfl := Option.some.inj there
    cases t with
    | list items => exact absurd rfl (single items)
    | _ => rfl
  | cons key keys ih =>
    obtain ⟨es, v, rfl, hv, there⟩ := exists_entries_of_get?_ofKeys_cons there
    rw [List.map_cons, addressed, addressedEntry_eq, hv]
    dsimp only
    rw [ih there]
    rfl

theorem grow_ofKeys (there : t.get? (.ofKeys keys) = some u) :
    (t.grow (keys.map .field)).1 = t := by
  induction keys generalizing t with
  | nil => cases t <;> rfl
  | cons key keys ih =>
    obtain ⟨es, v, rfl, hv, there⟩ := exists_entries_of_get?_ofKeys_cons there
    rw [List.map_cons, grow_map_of_find? hv, growEntry_eq_self hv (ih there)]

end Tree

variable {σ : Type} {p : FieldPath} {t u v : Tree} {keys : List String} {q : Position}

namespace FieldPath

theorem run_editAt_singleton (there : t.get? q = some u) (edit : Edit σ) (s : σ) :
    (editAt t [q] edit).run s =
      (((edit u).run s).1.map fun v => (Tree.set q v t, 1), ((edit u).run s).2) := by
  have hnodes : [q].filterMap t.get? = [u] := List.filterMap_cons_some there
  rw [editAt, hnodes, List.mapM_cons, run_bind, run_bind]
  cases (edit u).run s with
  | mk r s' => cases r <;> rfl

theorem run_applied_singleton (segments : p.segments = keys.map .field)
    (there : t.get? (.ofKeys keys) = some u) (single : ∀ items, u ≠ .list items) (create : Bool)
    (edit : Edit σ) (s : σ) : (p.applied create edit t).run s =
      (((edit u).run s).1.map fun v => (Tree.set (.ofKeys keys) v t, 1), ((edit u).run s).2) := by
  have haddressed : t.addressed true p.segments = .ok [.ofKeys keys] :=
    segments ▸ Tree.addressed_ofKeys there single
  have hgrow : (t.grow p.segments).1 = t := segments ▸ Tree.grow_ofKeys there
  cases create with
  | false => rw [run_applied_of_ok edit s haddressed, run_editAt_singleton there]
  | true =>
    obtain ⟨qs, hqs, hrun⟩ := run_applied_creating_of_ok edit s haddressed
    rw [hgrow] at hqs hrun
    obtain rfl := Except.ok.inj (haddressed.symm.trans hqs)
    rw [hrun, run_bind, run_editAt_singleton there]
    cases (edit u).run s with
    | mk r s' => cases r <;> rfl

end FieldPath

namespace EncodedField

variable {fields : List EncodedField} {d : Document}

theorem run_applied_singleton (covered : covers fields d.kind p = true)
    (segments : p.segments = keys.map .field) (there : d.tree.get? (.ofKeys keys) = some u)
    (single : ∀ items, u ≠ .list items) (decoded : decoded? u = some v) (create : Bool)
    (edit : Edit σ) (s : σ) : (d.applied fields p create edit).run s =
      (((edit v).run s).1.map fun x =>
          ({ d with tree := Tree.set (.ofKeys keys) (restored u x) d.tree }, 1),
        ((edit v).run s).2) := by
  rw [run_applied, if_pos covered]
  dsimp only
  rw [FieldPath.run_applied_singleton segments there single, run_decoding_of_some decoded]
  cases (edit v).run s with
  | mk r s' => cases r <;> rfl

end EncodedField

end Manifest
