import Manifest.Proofs.Tree.Entries
import Manifest.Tree.Position

namespace Manifest

def Position.Apart (p q : Position) : Prop := ¬ p <+: q ∧ ¬ q <+: p

namespace Position

def ofKeys (keys : List String) : Position := keys.map .key

instance (p q : Position) : Decidable (Apart p q) := inferInstanceAs (Decidable (_ ∧ _))

theorem Apart.symm {p q : Position} (h : Apart p q) : Apart q p := ⟨h.2, h.1⟩

@[simp] theorem apart_cons_cons (s : Step) (p q : Position) :
    Apart (s :: p) (s :: q) ↔ Apart p q := by
  simp [Apart, List.cons_prefix_cons]

theorem apart_of_head_ne {s s' : Step} (h : s ≠ s') (p q : Position) :
    Apart (s :: p) (s' :: q) := by
  simp [Apart, List.cons_prefix_cons, h, Ne.symm h]

/-- The positions part at a list, where the first goes to an earlier element. -/
def Before : Position → Position → Prop
  | .index i :: p, .index j :: q => i < j ∨ i = j ∧ Before p q
  | .key k :: p, .key l :: q => k = l ∧ Before p q
  | _, _ => False

@[simp] theorem before_cons_cons (s : Step) (p q : Position) :
    Before (s :: p) (s :: q) ↔ Before p q := by
  cases s <;> simp [Before]

theorem before_of_lt {i j : Nat} (h : i < j) (p q : Position) :
    Before (.index i :: p) (.index j :: q) :=
  .inl h

theorem Before.apart {p q : Position} (h : Before p q) : Apart p q := by
  induction p generalizing q with
  | nil => cases h
  | cons s p ih =>
    cases q with
    | nil => cases s <;> cases h
    | cons s' q =>
      by_cases hs : s = s'
      · subst hs
        rw [before_cons_cons] at h
        exact (apart_cons_cons s p q).2 (ih h)
      · exact apart_of_head_ne hs p q

end Position

namespace Tree

theorem induction {P : Tree → Prop} (scalar : ∀ t : Tree, t.isScalar = true → P t)
    (list : ∀ items, (∀ u ∈ items, P u) → P (.list items))
    (map : ∀ es, (∀ e ∈ es, P e.2) → P (.map es)) (t : Tree) : P t :=
  go t
where
  go : (t : Tree) → P t
    | .null | .boolean _ | .integer _ | .decimal _ | .text _ => scalar _ rfl
    | .list items => list items (goItems items)
    | .map es => map es (goEntries es)
  goItems : (items : List Tree) → ∀ u ∈ items, P u
    | [] => nofun
    | t :: ts => List.forall_mem_cons.2 ⟨go t, goItems ts⟩
  goEntries : (es : List (String × Tree)) → ∀ e ∈ es, P e.2
    | [] => nofun
    | (_, t) :: es => List.forall_mem_cons.2 ⟨go t, goEntries es⟩

theorem field?_eq_child? (key : String) (t : Tree) : t.field? key = t.child? (.key key) := by
  cases t <;> rfl

theorem child?_modifyChild_self (f : Tree → Tree) (t : Tree) (s : Step) :
    (t.modifyChild f s).child? s = (t.child? s).map f := by
  cases t <;> cases s <;> simp [modifyChild, child?, Entries.find?_modify]

theorem child?_modifyChild_of_ne (f : Tree → Tree) (t : Tree) {s s' : Step} (h : s ≠ s') :
    (t.modifyChild f s).child? s' = t.child? s' := by
  cases t with
  | map es =>
    cases s <;> cases s' <;> simp_all [modifyChild, child?, Entries.find?_modify]
  | list items =>
    cases s <;> cases s' <;> simp_all [modifyChild, child?]
  | _ => cases s <;> rfl

@[simp] theorem get?_nil (t : Tree) : t.get? [] = some t := rfl

theorem get?_cons (t : Tree) (s : Step) (p : Position) :
    t.get? (s :: p) = (t.child? s).bind fun u => u.get? p := rfl

theorem get?_list {items : List Tree} {i : Nat} {u : Tree} (h : items[i]? = some u)
    (p : Position) : (list items).get? (.index i :: p) = u.get? p := by
  rw [get?_cons, child?, h, Option.bind_some]

theorem get?_map {es : Entries Tree} {key : String} {u : Tree} (h : Entries.find? key es = some u)
    (p : Position) : (map es).get? (.key key :: p) = u.get? p := by
  rw [get?_cons, child?, h, Option.bind_some]

theorem get?_key (t : Tree) (key : String) : t.get? [.key key] = t.field? key := by
  cases t <;> simp [get?_cons, child?, field?, entries?]

theorem get?_ofKeys_cons (key : String) (keys : List String) (t : Tree) :
    t.get? (.ofKeys (key :: keys)) = (t.field? key).bind fun u => u.get? (.ofKeys keys) := by
  rw [field?_eq_child?]
  rfl

theorem exists_entries_of_get?_ofKeys_cons {t u : Tree} {key : String} {keys : List String}
    (h : t.get? (.ofKeys (key :: keys)) = some u) :
    ∃ es v, t = .map es ∧ Entries.find? key es = some v ∧ v.get? (.ofKeys keys) = some u := by
  cases t with
  | map es =>
    obtain ⟨v, hv, hu⟩ := Option.bind_eq_some_iff.1 (get?_ofKeys_cons key keys _ ▸ h)
    exact ⟨es, v, rfl, hv, hu⟩
  | _ => cases h

theorem get?_append (t : Tree) (p q : Position) :
    t.get? (p ++ q) = (t.get? p).bind fun u => u.get? q := by
  induction p generalizing t with
  | nil => rfl
  | cons s p ih =>
    rw [List.cons_append, get?_cons, get?_cons]
    cases t.child? s with
    | none => rfl
    | some u => exact ih u

theorem eq_of_prefix_of_text {t : Tree} {p q : Position} {s : String}
    (hq : t.get? q = some (.text s)) (hp : (t.get? p).isSome) (h : q <+: p) : p = q := by
  obtain ⟨r, rfl⟩ := h
  rw [get?_append, hq, Option.bind_some] at hp
  cases r with
  | nil => rw [List.append_nil]
  | cons step r => cases step <;> cases hp

def IsLeaf (t : Tree) (q : Position) : Prop := t.get? q = none ∨ ∃ s, t.get? q = some (.text s)

theorem IsLeaf.eq_of_prefix {t : Tree} {p q : Position} (leaf : t.IsLeaf q)
    (there : (t.get? p).isSome) (h : q <+: p) : p = q := by
  rcases leaf with hnone | ⟨s, hs⟩
  · obtain ⟨r, rfl⟩ := h
    rw [get?_append, hnone] at there
    cases there
  · exact eq_of_prefix_of_text hs there h

theorem IsLeaf.apart {t : Tree} {p q : Position} (leaf : t.IsLeaf q) (there : (t.get? p).isSome)
    (h : ¬ p <+: q) : Position.Apart p q :=
  ⟨h, fun hle => h (leaf.eq_of_prefix there hle ▸ List.prefix_rfl)⟩

def textAt (keys : List String) (t : Tree) : String :=
  ((t.get? (.ofKeys keys)).bind string?).getD ""

theorem textAt_ne_empty_iff {keys : List String} {t : Tree} :
    t.textAt keys ≠ "" ↔ ∃ s, t.get? (.ofKeys keys) = some (.text s) ∧ s ≠ "" := by
  rw [textAt]
  constructor
  · intro h
    cases hu : t.get? (.ofKeys keys) with
    | none => simp [hu] at h
    | some u =>
      cases u with
      | text s => exact ⟨s, rfl, by simpa [hu, string?] using h⟩
      | _ => simp [hu, string?] at h
  · rintro ⟨s, hs, hne⟩
    rw [hs]
    exact hne

theorem modify_cons (f : Tree → Tree) (s : Step) (p : Position) (t : Tree) :
    t.modify f (s :: p) = t.modifyChild (fun u => u.modify f p) s := rfl

theorem modifyChild_modifyChild (f g : Tree → Tree) (t : Tree) (s : Step) :
    (t.modifyChild f s).modifyChild g s = t.modifyChild (fun u => g (f u)) s := by
  cases t with
  | map es =>
    cases s with
    | key key => exact congrArg map (Entries.modify_modify key f g es)
    | index i => rfl
  | list items =>
    cases s with
    | key key => rfl
    | index i => exact congrArg list (List.modify_modify_eq f g i items)
  | _ => cases s <;> rfl

theorem modify_modify (f g : Tree → Tree) (p : Position) (t : Tree) :
    (t.modify f p).modify g p = t.modify (fun u => g (f u)) p := by
  induction p generalizing t with
  | nil => rfl
  | cons s p ih =>
    rw [modify_cons, modify_cons, modifyChild_modifyChild, modify_cons]
    simp only [ih]

theorem get?_modify_self (f : Tree → Tree) (p : Position) (t : Tree) :
    (t.modify f p).get? p = (t.get? p).map f := by
  induction p generalizing t with
  | nil => rfl
  | cons s p ih =>
    rw [modify_cons, get?_cons, child?_modifyChild_self, get?_cons]
    cases t.child? s with
    | none => rfl
    | some u => simpa using ih u

theorem get?_modify_of_apart (f : Tree → Tree) {p q : Position} (h : Position.Apart p q)
    (t : Tree) : (t.modify f p).get? q = t.get? q := by
  induction p generalizing t q with
  | nil => exact absurd (List.nil_prefix) h.1
  | cons s p ih =>
    cases q with
    | nil => exact absurd (List.nil_prefix) h.2
    | cons s' q =>
      rw [modify_cons, get?_cons, get?_cons]
      by_cases hs : s = s'
      · subst hs
        rw [child?_modifyChild_self]
        cases t.child? s with
        | none => rfl
        | some u => exact ih ((Position.apart_cons_cons s p q).1 h) u
      · rw [child?_modifyChild_of_ne _ _ hs]

theorem get?_set_self {p : Position} {t : Tree} (h : (t.get? p).isSome) (u : Tree) :
    (set p u t).get? p = some u := by
  obtain ⟨v, hv⟩ := Option.isSome_iff_exists.1 h
  rw [set, get?_modify_self, hv]
  rfl

theorem get?_set_of_apart {p q : Position} (h : Position.Apart p q) (u t : Tree) :
    (set p u t).get? q = t.get? q :=
  get?_modify_of_apart _ h t

@[simp] theorem setAll_nil (t : Tree) : t.setAll [] = t := rfl

theorem setAll_cons (t : Tree) (u : Position × Tree) (us : List (Position × Tree)) :
    t.setAll (u :: us) = (set u.1 u.2 t).setAll us := rfl

theorem get?_setAll_of_apart (updates : List (Position × Tree)) {q : Position}
    (h : ∀ u ∈ updates, Position.Apart u.1 q) (t : Tree) :
    (t.setAll updates).get? q = t.get? q := by
  induction updates generalizing t with
  | nil => rfl
  | cons u us ih =>
    rw [setAll_cons, ih fun v hv => h v (List.mem_cons_of_mem u hv)]
    exact get?_set_of_apart (h u List.mem_cons_self) u.2 t

theorem get?_setAll_of_mem {updates : List (Position × Tree)}
    (apart : updates.Pairwise fun u v => Position.Apart u.1 v.1) {p : Position} {v t : Tree}
    (mem : (p, v) ∈ updates) (there : (t.get? p).isSome) :
    (t.setAll updates).get? p = some v := by
  induction updates generalizing t with
  | nil => cases mem
  | cons u us ih =>
    rw [List.pairwise_cons] at apart
    rw [setAll_cons]
    rcases List.mem_cons.1 mem with rfl | mem
    · rw [get?_setAll_of_apart us fun w hw => (apart.1 w hw).symm]
      exact get?_set_self there v
    · refine ih apart.2 mem ?_
      rwa [get?_set_of_apart (apart.1 _ mem)]

def bare : Tree → Tree
  | .list items => .list (items.map fun _ => .null)
  | .map es => .map (Entries.mapValues (fun _ => .null) es)
  | t => t

theorem bare_modifyChild (f : Tree → Tree) (s : Step) (t : Tree) :
    (t.modifyChild f s).bare = t.bare := by
  cases t with
  | list items => cases s <;> simp [modifyChild, bare, List.map_const']
  | map es =>
    cases s with
    | key key =>
      rw [modifyChild, bare, bare]
      congr 1
      induction es with
      | nil => rfl
      | cons e es ih =>
        rw [Entries.modify]
        split <;> simp_all [Entries.mapValues]
    | index i => rfl
  | _ => cases s <;> rfl

theorem bare_get?_modify (f : Tree → Tree) {p q : Position} (h : ¬ p <+: q) (t : Tree) :
    ((t.modify f p).get? q).map bare = (t.get? q).map bare := by
  induction p generalizing t q with
  | nil => exact absurd List.nil_prefix h
  | cons s p ih =>
    cases q with
    | nil => simp [modify_cons, bare_modifyChild]
    | cons s' q =>
      rw [modify_cons, get?_cons, get?_cons]
      by_cases hs : s = s'
      · subst hs
        rw [child?_modifyChild_self]
        cases t.child? s with
        | none => rfl
        | some u => exact ih (by simpa [List.cons_prefix_cons] using h) u
      · rw [child?_modifyChild_of_ne _ _ hs]

theorem bare_get?_setAll (updates : List (Position × Tree)) {q : Position}
    (h : ∀ u ∈ updates, ¬ u.1 <+: q) (t : Tree) :
    ((t.setAll updates).get? q).map bare = (t.get? q).map bare := by
  induction updates generalizing t with
  | nil => rfl
  | cons u us ih =>
    rw [List.forall_mem_cons] at h
    exact (ih h.2 (set u.1 u.2 t)).trans (bare_get?_modify _ h.1 t)

theorem modifyChild_eq_self {f : Tree → Tree} {s : Step} {t : Tree}
    (h : ∀ u, t.child? s = some u → f u = u) : t.modifyChild f s = t := by
  cases t with
  | list items =>
    cases s with
    | key key => rfl
    | index i =>
      rw [modifyChild]
      congr 1
      refine List.ext_getElem? fun j => ?_
      rw [List.getElem?_modify]
      by_cases hij : i = j
      · subst hij
        cases hu : items[i]? with
        | none => rfl
        | some u => simp [h u hu]
      · simp [hij]
  | map es =>
    cases s with
    | key key =>
      rw [modifyChild]
      congr 1
      induction es with
      | nil => rfl
      | cons e es ih =>
        obtain ⟨k, u⟩ := e
        simp only [child?, Entries.find?_cons] at h ih
        rw [Entries.modify]
        split
        · rename_i hk
          rw [if_pos hk] at h
          rw [h u rfl]
        · rename_i hk
          rw [if_neg hk] at h
          rw [ih h]
    | index i => rfl
  | _ => cases s <;> rfl

theorem modify_eq_self {f : Tree → Tree} {p : Position} {t : Tree}
    (h : ∀ u, t.get? p = some u → f u = u) : t.modify f p = t := by
  induction p generalizing t with
  | nil => exact h t rfl
  | cons s p ih =>
    refine modifyChild_eq_self fun v hv => ih fun u hu => h u ?_
    rwa [get?_cons, hv]

theorem set_eq_self {p : Position} {t u : Tree} (h : t.get? p = some u) : set p u t = t :=
  modify_eq_self fun _ hv => Option.some.inj (h.symm.trans hv)

theorem foldl_modify_eq_self {f : Tree → Tree} {ps : List Position} {t : Tree}
    (h : ∀ p ∈ ps, ∀ u, t.get? p = some u → f u = u) :
    ps.foldl (fun acc p => acc.modify f p) t = t := by
  induction ps with
  | nil => rfl
  | cons p ps ih =>
    rw [List.forall_mem_cons] at h
    rw [List.foldl_cons, modify_eq_self h.1, ih h.2]

theorem setAll_eq_self {updates : List (Position × Tree)} {t : Tree}
    (h : ∀ u ∈ updates, t.get? u.1 = some u.2) : t.setAll updates = t := by
  induction updates with
  | nil => rfl
  | cons u us ih =>
    rw [List.forall_mem_cons] at h
    rw [setAll_cons, set_eq_self h.1, ih h.2]

def mapped (f : Tree → Tree) (t : Tree) (ps : List Position) : List (Position × Tree) :=
  ps.zip ((ps.filterMap t.get?).map f)

variable {f : Tree → Tree} {t : Tree} {ps : List Position} {p : Position}

theorem mapped_cons {u : Tree} (h : t.get? p = some u) (ps : List Position) :
    t.mapped f (p :: ps) = (p, f u) :: t.mapped f ps := by
  simp [mapped, h]

theorem mem_mapped {v : Tree} (there : ∀ p ∈ ps, (t.get? p).isSome) :
    (p, v) ∈ t.mapped f ps ↔ p ∈ ps ∧ (t.get? p).map f = some v := by
  induction ps with
  | nil => simp [mapped]
  | cons q qs ih =>
    obtain ⟨u, hu⟩ := Option.isSome_iff_exists.1 (there q List.mem_cons_self)
    rw [mapped_cons hu, List.mem_cons, List.mem_cons,
      ih fun p hp => there p (List.mem_cons_of_mem q hp)]
    constructor
    · rintro (h | ⟨hp, hv⟩)
      · obtain ⟨rfl, rfl⟩ := Prod.mk.inj h
        exact ⟨.inl rfl, by rw [hu]; rfl⟩
      · exact ⟨.inr hp, hv⟩
    · rintro ⟨rfl | hp, hv⟩
      · rw [hu] at hv
        exact .inl (Prod.ext rfl (Option.some.inj hv).symm)
      · exact .inr ⟨hp, hv⟩

theorem pairwise_apart_mapped (there : ∀ p ∈ ps, (t.get? p).isSome)
    (apart : ps.Pairwise Position.Apart) :
    (t.mapped f ps).Pairwise fun u v => Position.Apart u.1 v.1 := by
  induction ps with
  | nil => exact .nil
  | cons q qs ih =>
    obtain ⟨u, hu⟩ := Option.isSome_iff_exists.1 (there q List.mem_cons_self)
    have there' : ∀ p ∈ qs, (t.get? p).isSome := fun p hp => there p (List.mem_cons_of_mem q hp)
    rw [List.pairwise_cons] at apart
    rw [mapped_cons hu, List.pairwise_cons]
    refine ⟨?_, ih there' apart.2⟩
    rintro ⟨p, v⟩ hp
    exact apart.1 p ((mem_mapped there').1 hp).1

theorem get?_setAll_mapped (there : ∀ p ∈ ps, (t.get? p).isSome)
    (apart : ps.Pairwise Position.Apart) (hp : p ∈ ps) :
    (t.setAll (t.mapped f ps)).get? p = (t.get? p).map f := by
  obtain ⟨u, hu⟩ := Option.isSome_iff_exists.1 (there p hp)
  rw [hu, Option.map_some]
  exact get?_setAll_of_mem (pairwise_apart_mapped there apart)
    ((mem_mapped there).2 ⟨hp, by rw [hu]; rfl⟩) (there p hp)

theorem get?_setAll_mapped_of_apart {q : Position} (h : ∀ p ∈ ps, Position.Apart p q) :
    (t.setAll (t.mapped f ps)).get? q = t.get? q :=
  get?_setAll_of_apart _ (fun u hu => h u.1 (List.of_mem_zip hu).1) t

end Tree

end Manifest
