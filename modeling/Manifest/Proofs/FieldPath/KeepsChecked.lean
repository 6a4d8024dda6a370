import Manifest.FieldEdits
import Manifest.Proofs.Document
import Manifest.Proofs.FieldPath.Spared
import Manifest.Proofs.Tree.KeepsTexts

namespace Manifest

def Document.checkedFields : List (List String) := [["apiVersion"], ["kind"], ["metadata", "name"]]

def FieldPath.SparesChecked (p : FieldPath) : Prop :=
  ∀ keys ∈ Document.checkedFields, ¬ p.LeadsTo keys

instance (p : FieldPath) : Decidable p.SparesChecked := inferInstanceAs (Decidable (∀ _ ∈ _, _))

namespace Tree

variable {t t' t'' : Tree} {p : FieldPath}

structure KeepsChecked (t t' : Tree) : Prop where
  text : ∀ keys ∈ Document.checkedFields, KeepsText (.ofKeys keys) t t'
  absent : t.get? (.ofKeys ["apiVersion"]) = none → t'.get? (.ofKeys ["apiVersion"]) = none

namespace KeepsChecked

theorem trans (h : t.KeepsChecked t') (h' : t'.KeepsChecked t'') : t.KeepsChecked t'' :=
  ⟨fun keys hkeys => (h.text keys hkeys).trans (h'.text keys hkeys), h'.absent ∘ h.absent⟩

theorem of_keepsTexts (h : t.KeepsTexts t') : t.KeepsChecked t' := ⟨fun _ _ => h.text _, h.none⟩

theorem grow (version : p.firstField? ≠ some "apiVersion") (map : ∃ es, t = .map es) :
    t.KeepsChecked (t.grow p.segments).1 where
  text _ _ s hs := ⟨s, get?_grow_text t _ hs, id⟩
  absent hnone := by
    rw [Position.ofKeys, List.map_singleton, get?_key] at hnone ⊢
    rw [field?_grow_of_ne version map, hnone]

theorem setAll_of_spares {ps : List Position} (spares : p.SparesChecked)
    (hps : t.addressed true p.segments = .ok ps) (us : List Tree) :
    t.KeepsChecked (t.setAll (ps.zip us)) := by
  have hget : ∀ keys ∈ Document.checkedFields, t.IsLeaf (.ofKeys keys) →
      (t.setAll (ps.zip us)).get? (.ofKeys keys) = t.get? (.ofKeys keys) := by
    intro keys hkeys leaf
    have apart := apart_of_not_leadsTo hps (spares keys hkeys) leaf
    exact get?_setAll_of_apart _ (fun u hu => apart u.1 (List.of_mem_zip hu).1) t
  constructor
  · intro keys hkeys s hs
    exact KeepsText.of_get?_eq (hget keys hkeys (.inr ⟨s, hs⟩)) s hs
  · intro hnone
    rw [hget _ List.mem_cons_self (.inl hnone), hnone]

end KeepsChecked

end Tree

theorem Document.Valid.of_keepsChecked {d e : Document} (valid : d.Valid)
    (h : d.tree.KeepsChecked e.tree) : e.Valid := by
  rw [valid_iff, ← textAt_kind, ← textAt_name] at valid ⊢
  obtain ⟨hkind, hversion, hname⟩ := valid
  have hne : ∀ keys ∈ checkedFields, d.tree.textAt keys ≠ "" → e.tree.textAt keys ≠ "" := by
    intro keys hkeys hne
    obtain ⟨s, hs, hs'⟩ := Tree.textAt_ne_empty_iff.1 hne
    obtain ⟨s', hs'', hkept⟩ := h.text keys hkeys s hs
    exact Tree.textAt_ne_empty_iff.2 ⟨s', hs'', hkept hs'⟩
  refine ⟨hne _ (by decide) hkind, ?_, hne _ (by decide) hname⟩
  rcases hversion with hnone | ⟨s, hs⟩
  · exact .inl (h.absent hnone)
  · obtain ⟨s', hs', -⟩ := h.text _ (by decide) s hs
    exact .inr ⟨s', hs'⟩

namespace FieldPath

variable {σ : Type} {p : FieldPath} {create : Bool} {edit : Edit σ} {t t' : Tree}

theorem Applied.keepsChecked (h : Applied p create edit t t') (map : ∃ es, t = .map es)
    (version : create = true → p.firstField? ≠ some "apiVersion")
    (write : ∀ (base : Tree) (ps : List Position) (us : List Tree) (s s' : σ),
      base.addressed true p.segments = .ok ps →
      ((ps.filterMap base.get?).mapM edit).run s = (.ok us, s') →
      base.KeepsChecked (base.setAll (ps.zip us))) : t.KeepsChecked t' := by
  cases h with
  | same => exact .of_keepsTexts (.refl t)
  | edited hbase hps hus =>
    have hwrite := write _ _ _ _ _ hps hus
    cases create with
    | true => exact .trans (hbase ▸ .grow (version rfl) map) hwrite
    | false => exact hbase ▸ hwrite

theorem Applied.keepsChecked_of_spares (h : Applied p create edit t t') (map : ∃ es, t = .map es)
    (version : create = true → p.firstField? ≠ some "apiVersion") (spares : p.SparesChecked) :
    t.KeepsChecked t' :=
  h.keepsChecked map version fun _ _ us _ _ hps _ => .setAll_of_spares spares hps us

theorem Applied.keepsChecked_of_keepsTexts {f : Tree → Tree}
    (h : Applied p create (fun u => (ExceptT.mk (pure (.ok (f u))) : ExceptT Error (StateM σ) Tree))
      t t') (map : ∃ es, t = .map es)
    (version : create = true → p.firstField? ≠ some "apiVersion")
    (keeps : ∀ u : Tree, u.KeepsTexts (f u)) : t.KeepsChecked t' := by
  refine h.keepsChecked map version fun base ps us s s' hps hus => ?_
  rw [eq_map_of_run_mapM hus]
  exact .of_keepsTexts (.setAll_mapped keeps hps)

end FieldPath

theorem Document.Valid.editFields {specs : List FieldSpec} {edit : Tree → Except Error Tree}
    {d d' : Document} (valid : d.Valid)
    (keeps : ∀ spec ∈ specs, ∀ p, spec.fieldPath = .ok p → ∀ t t' n, (∃ es, t = .map es) →
      p.appliedPure spec.create edit t = .ok (t', n) → t.KeepsChecked t')
    (h : d.editFields specs edit = .ok d') : d'.Valid := by
  obtain ⟨t, hfold, h⟩ := bind_eq_ok.1 h
  obtain rfl := pure_eq_ok.1 h
  refine foldlM_invariant (P := fun u => (Document.mk u d.previous).Valid)
    (fun u spec u' hspec hu hstep => ?_) valid hfold
  obtain ⟨p, hp, hstep⟩ := bind_eq_ok.1 hstep
  obtain ⟨⟨u'', n⟩, happly, hstep⟩ := bind_eq_ok.1 hstep
  obtain rfl := pure_eq_ok.1 hstep
  exact hu.of_keepsChecked
    (keeps spec (List.mem_of_mem_filter hspec) p hp u u'' n hu.tree_eq_map happly)

end Manifest
