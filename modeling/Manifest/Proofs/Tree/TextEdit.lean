import Manifest.Proofs.Tree.Texts

namespace Manifest

def Position.within (ps : List Position) (q : Position) : Bool := ps.any (·.isPrefixOf q)

theorem Position.within_eq_true_iff {ps : List Position} {q : Position} :
    within ps q = true ↔ ∃ p ∈ ps, p <+: q := by
  simp [within]

theorem Position.not_within_of_apart {ps qs : List Position}
    (apart : ∀ p ∈ ps, ∀ q ∈ qs, Apart p q) {x : Position} (h : within ps x) : ¬ within qs x := by
  intro h'
  obtain ⟨p, hp, hpx⟩ := within_eq_true_iff.1 h
  obtain ⟨q, hq, hqx⟩ := within_eq_true_iff.1 h'
  rcases List.prefix_or_prefix_of_prefix hpx hqx with hpq | hqp
  · exact (apart p hp q hq).1 hpq
  · exact (apart p hp q hq).2 hqp

abbrev TextEdit := Position → String → Option String

namespace TextEdit

def or (e e' : TextEdit) : TextEdit := fun p s => (e p s).or (e' p s)

def below (ps : List Position) (f : String → Option String) : TextEdit := fun q s =>
  if Position.within ps q then f s else none

theorem below_of_within {ps : List Position} {q : Position} (h : Position.within ps q)
    (f : String → Option String) (s : String) : below ps f q s = f s := if_pos h

theorem below_cons (p : Position) (ps : List Position) (f : String → Option String) :
    below (p :: ps) f = (below [p] f).or (below ps f) := by
  funext q s
  cases hp : List.isPrefixOf p q <;> cases hps : ps.any (·.isPrefixOf q) <;>
    simp only [or, below, Position.within, List.any_cons, List.any_nil, hp, hps,
      Bool.or_false, Bool.or_self, if_true, Bool.false_eq_true, if_false, Bool.or_true,
      Option.or_none, Option.none_or, Option.or_self]

def Within (e : TextEdit) (ps : List Position) : Prop :=
  ∀ q s, ¬ Position.within ps q → e q s = none

theorem within_below (ps : List Position) (f : String → Option String) : (below ps f).Within ps :=
  fun _ _ h => if_neg h

def Disjoint (e e' : TextEdit) (xs : List (Position × String)) : Prop :=
  ∀ x ∈ xs, e x.1 x.2 = none ∨ ∀ s, e' x.1 s = none

theorem Within.disjoint {e e' : TextEdit} {ps qs : List Position} (he : e.Within ps)
    (he' : e'.Within qs) (apart : ∀ p ∈ ps, ∀ q ∈ qs, Position.Apart p q)
    (xs : List (Position × String)) : e.Disjoint e' xs := by
  intro x _
  by_cases h : Position.within ps x.1
  · exact .inr fun s => he' x.1 s (Position.not_within_of_apart apart h)
  · exact .inl (he x.1 x.2 h)

end TextEdit

namespace Tree

def rewrite (e : TextEdit) (t : Tree) : Tree := t.mapTexts fun p s => (e p s).getD s

def touched (e : TextEdit) (t : Tree) : Nat := t.texts.countP fun x => (e x.1 x.2).isSome

theorem outline_rewrite (e : TextEdit) (t : Tree) : (t.rewrite e).outline = t.outline :=
  outline_mapTexts _ t

theorem wellFormed_rewrite {e : TextEdit} {t : Tree} (wf : t.WellFormed) :
    (t.rewrite e).WellFormed := (wellFormed_mapTexts _ t).2 wf

theorem rewrite_eq_self {e : TextEdit} {t : Tree} (h : ∀ x ∈ t.texts, e x.1 x.2 = none) :
    t.rewrite e = t := mapTexts_eq_self fun x hx => by rw [h x hx, Option.getD_none]

theorem rewrite_congr {e e' : TextEdit} {t : Tree}
    (h : ∀ x ∈ t.texts, e x.1 x.2 = e' x.1 x.2) : t.rewrite e = t.rewrite e' :=
  mapTexts_congr t fun x hx => by rw [h x hx]

theorem touched_congr {e e' : TextEdit} {t : Tree}
    (h : ∀ x ∈ t.texts, e x.1 x.2 = e' x.1 x.2) : t.touched e = t.touched e' :=
  List.countP_congr fun x hx => by rw [h x hx]

variable {e e' : TextEdit} {t : Tree}

theorem rewrite_rewrite (h : e.Disjoint e' t.texts) :
    (t.rewrite e).rewrite e' = t.rewrite (e.or e') := by
  rw [rewrite, rewrite, mapTexts_mapTexts]
  refine mapTexts_congr t fun x hx => ?_
  rcases h x hx with hnone | hnone
  · simp [TextEdit.or, hnone]
  · simp [TextEdit.or, hnone]

theorem touched_rewrite (h : e.Disjoint e' t.texts) : (t.rewrite e).touched e' = t.touched e' := by
  rw [touched, touched, rewrite, texts_mapTexts, List.countP_map]
  refine List.countP_congr fun x hx => ?_
  rcases h x hx with hnone | hnone
  · simp [hnone]
  · simp [hnone]

theorem touched_or (h : e.Disjoint e' t.texts) :
    t.touched (e.or e') = t.touched e + t.touched e' := by
  rw [touched, touched, touched]
  generalize t.texts = xs at h
  induction xs with
  | nil => rfl
  | cons x xs ih =>
    rw [TextEdit.Disjoint, List.forall_mem_cons] at h
    rw [List.countP_cons, List.countP_cons, List.countP_cons, ih h.2, TextEdit.or]
    rcases h.1 with hnone | hnone
    · simp only [hnone, Option.none_or, Option.isSome_none, Bool.false_eq_true, if_false]
      omega
    · simp only [hnone, Option.or_none, Option.isSome_none, Bool.false_eq_true, if_false]
      omega

theorem touched_below_singleton (wf : t.WellFormed) {p : Position} {u : Tree}
    (h : t.get? p = some u) (f : String → Option String) :
    t.touched (.below [p] f) = (u.editTexts f).2 := by
  have hat : t.touched (.below [p] f) =
      (textsAt p t.texts).countP fun x => (f x.2).isSome := by
    rw [touched, textsAt, List.countP_filter]
    refine List.countP_congr fun x _ => ?_
    simp only [TextEdit.below, Position.within, List.any_cons, List.any_nil, Bool.or_false]
    cases p.isPrefixOf x.1 <;> simp
  rw [hat, textsAt_texts wf, h, Option.elim_some, List.countP_map, editTexts_eq]
  rfl

end Tree

end Manifest
