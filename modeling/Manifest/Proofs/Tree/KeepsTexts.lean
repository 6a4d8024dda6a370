import Manifest.Proofs.FieldPath.Addressed
import Manifest.Proofs.Tree.Texts

namespace Manifest.Tree

variable {t t' t'' : Tree} {q : Position}

def KeepsText (q : Position) (t t' : Tree) : Prop :=
  ∀ s, t.get? q = some (.text s) → ∃ s', t'.get? q = some (.text s') ∧ (s ≠ "" → s' ≠ "")

namespace KeepsText

theorem of_get?_eq (h : t'.get? q = t.get? q) : KeepsText q t t' :=
  fun s hs => ⟨s, h.trans hs, id⟩

theorem trans (h : KeepsText q t t') (h' : KeepsText q t' t'') : KeepsText q t t'' := by
  intro s hs
  obtain ⟨s', hs', hne⟩ := h s hs
  obtain ⟨s'', hs'', hne'⟩ := h' s' hs'
  exact ⟨s'', hs'', hne' ∘ hne⟩

end KeepsText

structure KeepsTexts (t t' : Tree) : Prop where
  text (q : Position) : KeepsText q t t'
  none {q : Position} : t.get? q = none → t'.get? q = none

namespace KeepsTexts

@[refl] theorem refl (t : Tree) : t.KeepsTexts t := ⟨fun _ => .of_get?_eq rfl, id⟩

theorem trans (h : t.KeepsTexts t') (h' : t'.KeepsTexts t'') : t.KeepsTexts t'' :=
  ⟨fun q => (h.text q).trans (h'.text q), h'.none ∘ h.none⟩

theorem of_text {s s' : String} (h : s ≠ "" → s' ≠ "") : KeepsTexts (.text s) (.text s') where
  text
    | [], _, hs => by
      obtain rfl := text.inj (Option.some.inj hs)
      exact ⟨s', rfl, h⟩
    | _ :: _, _, hs => by cases hs
  none {q} hq := by
    cases q with
    | nil => cases hq
    | cons step q => rfl

theorem of_child? (noText : ∀ s, t ≠ .text s)
    (h : ∀ step, Option.Rel KeepsTexts (t.child? step) (t'.child? step)) : t.KeepsTexts t' where
  text
    | [], s, hs => absurd (Option.some.inj hs) (noText s)
    | step :: q, s, hs => by
      rw [get?_cons] at hs ⊢
      have hrel := h step
      generalize t.child? step = x, t'.child? step = x' at hrel hs ⊢
      cases hrel with
      | none => cases hs
      | some keeps => exact keeps.text q s hs
  none {q} hq := by
    cases q with
    | nil => cases hq
    | cons step q =>
      rw [get?_cons] at hq ⊢
      have hrel := h step
      generalize t.child? step = x, t'.child? step = x' at hrel hq ⊢
      cases hrel with
      | none => rfl
      | some keeps => exact keeps.none hq

theorem list {items items' : List Tree}
    (h : ∀ i : Nat, Option.Rel KeepsTexts items[i]? items'[i]?) :
    KeepsTexts (.list items) (.list items') := by
  refine of_child? nofun fun step => ?_
  cases step with
  | key key => exact .none
  | index i => exact h i

theorem map {es es' : Entries Tree}
    (h : ∀ key, Option.Rel KeepsTexts (Entries.find? key es) (Entries.find? key es')) :
    KeepsTexts (.map es) (.map es') := by
  refine of_child? nofun fun step => ?_
  cases step with
  | key key => exact h key
  | index i => exact .none

theorem find?_cons {u u' : Tree} {es es' : Entries Tree} {key : String} (k : String)
    (h : u.KeepsTexts u')
    (rest : Option.Rel KeepsTexts (Entries.find? key es) (Entries.find? key es')) :
    Option.Rel KeepsTexts (Entries.find? key ((k, u) :: es))
      (Entries.find? key ((k, u') :: es')) := by
  rw [Entries.find?_cons, Entries.find?_cons]
  split
  · exact .some h
  · exact rest

theorem null (s : String) : KeepsTexts .null (.text s) where
  text
    | [], _, hs => by cases hs
    | _ :: _, _, hs => by cases hs
  none {q} hq := by
    cases q with
    | nil => cases hq
    | cons step q => rfl

theorem editTexts {f : String → Option String} (h : ∀ s s', f s = some s' → s ≠ "" → s' ≠ "")
    (t : Tree) : t.KeepsTexts (t.editTexts f).1 where
  text q s hs := by
    rw [editTexts_eq, get?_mapTexts, hs]
    refine ⟨(f s).getD s, rfl, ?_⟩
    cases hf : f s with
    | none => exact id
    | some s' => exact h s s' hf
  none hq := by rw [editTexts_eq, get?_mapTexts, hq, Option.map_none]

theorem setAll_mapped {f : Tree → Tree} (h : ∀ u : Tree, u.KeepsTexts (f u)) {spread : Bool}
    {segments : List Segment} {ps : List Position}
    (hps : t.addressed spread segments = .ok ps) : t.KeepsTexts (t.setAll (t.mapped f ps)) := by
  have there : ∀ p ∈ ps, (t.get? p).isSome := fun p hp =>
    (addresses_of_mem_addressed spread t _ hps hp).get?_isSome
  have inside : ∀ p ∈ ps, ∃ u, t.get? p = some u ∧
      (t.setAll (t.mapped f ps)).get? p = some (f u) := fun p hp => by
    obtain ⟨u, hu⟩ := Option.isSome_iff_exists.1 (there p hp)
    have hget := get?_setAll_mapped (f := f) there (addressed_pairwise_apart spread t _ hps) hp
    exact ⟨u, hu, by rw [hget, hu, Option.map_some]⟩
  -- above an addressed node there is neither a text nor nothing
  have outside : ∀ q, t.IsLeaf q → (¬ ∃ p ∈ ps, p <+: q) →
      (t.setAll (t.mapped f ps)).get? q = t.get? q := fun q leaf hq =>
    get?_setAll_mapped_of_apart fun p hp => ⟨fun hpq => hq ⟨p, hp, hpq⟩, fun hqp =>
      hq ⟨p, hp, leaf.eq_of_prefix (there p hp) hqp ▸ List.prefix_rfl⟩⟩
  constructor
  · intro q s hs
    by_cases hq : ∃ p ∈ ps, p <+: q
    · obtain ⟨p, hp, r, rfl⟩ := hq
      obtain ⟨u, hu, hfu⟩ := inside p hp
      rw [get?_append, hu] at hs
      rw [get?_append, hfu]
      exact (h u).text r s hs
    · exact KeepsText.of_get?_eq (outside q (.inr ⟨s, hs⟩) hq) s hs
  · intro q hnone
    by_cases hq : ∃ p ∈ ps, p <+: q
    · obtain ⟨p, hp, r, rfl⟩ := hq
      obtain ⟨u, hu, hfu⟩ := inside p hp
      rw [get?_append, hu] at hnone
      rw [get?_append, hfu]
      exact (h u).none hnone
    · rw [outside q (.inl hnone) hq, hnone]

end KeepsTexts

end Manifest.Tree
