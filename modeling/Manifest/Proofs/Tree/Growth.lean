import Manifest.Proofs.Tree.TextEdit

/-! A tree grows while its texts are rewritten and keys are added to its maps.  Whatever was there
stays in its place, and what is added is null or a map. -/

namespace Manifest.Tree

def Hollow (t : Tree) : Prop := t = .null ∨ ∃ es, t = .map es

/-- What becomes of a node: a text is rewritten by `g`, null may be filled with keys, a map may get
more of them, and the rest stays. -/
inductive Becomes (g : String → String) (filled : Prop) : Tree → Tree → Prop
  | same {t} : t.isScalar = true → (∀ s, t ≠ .text s) → Becomes g filled t t
  | text {s} : Becomes g filled (.text s) (.text (g s))
  | filled {es} : filled → Becomes g filled .null (.map es)
  | list {items items'} : items'.length = items.length →
      Becomes g filled (.list items) (.list items')
  | map {es es'} : Entries.keys es <+: Entries.keys es' → Becomes g filled (.map es) (.map es')

namespace Becomes

variable {g g' : String → String} {c c' : Prop} {t u v : Tree}

theorem refl (t : Tree) : Becomes (fun s => s) c t t := by
  cases t with
  | text s => exact .text
  | list items => exact .list rfl
  | map es => exact .map (List.prefix_refl _)
  | _ => exact .same rfl nofun

theorem trans (h : Becomes g c t u) (h' : Becomes g' c' u v) :
    Becomes (fun s => g' (g s)) (c ∨ c') t v := by
  cases h with
  | same hscalar htext =>
    cases h' with
    | same => exact .same hscalar htext
    | text => exact absurd rfl (htext _)
    | filled hc => exact .filled (.inr hc)
    | list => cases hscalar
    | map => cases hscalar
  | text =>
    cases h' with
    | same _ htext => exact absurd rfl (htext _)
    | text => exact .text
  | filled hc =>
    cases h' with
    | same hscalar => cases hscalar
    | map => exact .filled (.inl hc)
  | list hlength =>
    cases h' with
    | same hscalar => cases hscalar
    | list hlength' => exact .list (hlength'.trans hlength)
  | map hkeys =>
    cases h' with
    | same hscalar => cases hscalar
    | map hkeys' => exact .map (hkeys.trans hkeys')

theorem mono (h : Becomes g c t u) (hg : ∀ s, t = .text s → g s = g' s) (hc : c → c') :
    Becomes g' c' t u := by
  cases h with
  | same hscalar htext => exact .same hscalar htext
  | text => exact hg _ rfl ▸ .text
  | filled h => exact .filled (hc h)
  | list hlength => exact .list hlength
  | map hkeys => exact .map hkeys

theorem hollow (h : Becomes g c t u) (ht : t.Hollow) : u.Hollow := by
  rcases ht with rfl | ⟨es, rfl⟩
  · cases h with
    | same => exact .inl rfl
    | filled => exact .inr ⟨_, rfl⟩
  · cases h with
    | same hscalar => cases hscalar
    | map => exact .inr ⟨_, rfl⟩

theorem mapTexts (f : Position → String → String) (t : Tree) :
    Becomes (f []) c t (t.mapTexts f) := by
  cases t with
  | text s => exact .text
  | list items => exact .list (length_mapTextItems f 0 items)
  | map es => exact .map ((keys_mapTextEntries f es).symm ▸ List.prefix_refl _)
  | _ => exact .same rfl nofun

theorem of_bare (h : u.bare = t.bare) : Becomes (fun s => s) c t u := by
  cases t with
  | list items =>
    cases u with
    | list items' => exact .list (by simpa [bare] using congrArg List.length (list.inj h))
    | _ => cases h
  | map es =>
    cases u with
    | map es' =>
      have hkeys := congrArg Entries.keys (map.inj h)
      rw [Entries.keys_mapValues, Entries.keys_mapValues] at hkeys
      exact .map (hkeys ▸ List.prefix_refl _)
    | _ => cases h
  | _ =>
    cases u <;> cases h
    exact refl _

end Becomes

/-- One tree has grown out of another: `f` says what its texts are now, and `added` where keys may
have been added. -/
structure Evolves (f : Position → String → String) (added : Position → Prop) (t u : Tree) : Prop
    where
  kept : ∀ q v, t.get? q = some v → ∃ w, u.get? q = some w ∧ Becomes (f q) (added q) v w
  new : ∀ q w, t.get? q = none → u.get? q = some w → added q ∧ w.Hollow

namespace Evolves

variable {f g : Position → String → String} {a b : Position → Prop} {t u v w : Tree}

theorem refl (t : Tree) : Evolves (fun _ s => s) a t t where
  kept _ v h := ⟨v, h, .refl v⟩
  new _ _ h h' := nomatch h.symm.trans h'

theorem trans (h : Evolves f a t u) (h' : Evolves g b u v) :
    Evolves (fun q s => g q (f q s)) (fun q => a q ∨ b q) t v where
  kept q x hx := by
    obtain ⟨y, hy, hxy⟩ := h.kept q x hx
    obtain ⟨z, hz, hyz⟩ := h'.kept q y hy
    exact ⟨z, hz, hxy.trans hyz⟩
  new q z hnone hz := by
    cases hq : u.get? q with
    | none =>
      obtain ⟨hb, hollow⟩ := h'.new q z hq hz
      exact ⟨.inr hb, hollow⟩
    | some y =>
      obtain ⟨ha, hollow⟩ := h.new q y hnone hq
      obtain ⟨z', hz', hyz⟩ := h'.kept q y hq
      obtain rfl := Option.some.inj (hz'.symm.trans hz)
      exact ⟨.inl ha, hyz.hollow hollow⟩

theorem mono (h : Evolves f a t u) (hf : ∀ q s, t.get? q = some (.text s) → f q s = g q s)
    (ha : ∀ q, a q → b q) : Evolves g b t u where
  kept q x hx := by
    obtain ⟨y, hy, hxy⟩ := h.kept q x hx
    exact ⟨y, hy, hxy.mono (fun s hs => hf q s (hs ▸ hx)) (ha q)⟩
  new q y hnone hy := (h.new q y hnone hy).imp_left (ha q)

theorem get?_text (h : Evolves f a t u) {q : Position} {s : String}
    (hs : t.get? q = some (.text s)) : u.get? q = some (.text (f q s)) := by
  obtain ⟨w, hw, hbecomes⟩ := h.kept q _ hs
  cases hbecomes with
  | same _ htext => exact absurd rfl (htext s)
  | text => exact hw

theorem child (h : Evolves f a t u) {s : Step} (ht : t.child? s = some v)
    (hu : u.child? s = some w) : Evolves (fun q => f (s :: q)) (fun q => a (s :: q)) v w where
  kept q x hx := by simpa [get?_cons, hu] using h.kept (s :: q) x (by simpa [get?_cons, ht])
  new q y hnone hy :=
    h.new (s :: q) y (by simpa [get?_cons, ht]) (by simpa [get?_cons, hu])

theorem exists_child (h : Evolves f a t u) {s : Step} (ht : t.child? s = some v) :
    ∃ w, u.child? s = some w ∧ Evolves (fun q => f (s :: q)) (fun q => a (s :: q)) v w := by
  obtain ⟨w, hw, -⟩ := h.kept [s] v (by simp [get?_cons, ht])
  have hu : u.child? s = some w := by simpa [get?_cons] using hw
  exact ⟨w, hu, h.child ht hu⟩

theorem of_child? (node : Becomes (f []) (a []) t u)
    (kept : ∀ s v, t.child? s = some v → ∃ w, u.child? s = some w ∧
      Evolves (fun q => f (s :: q)) (fun q => a (s :: q)) v w)
    (new : ∀ s w, t.child? s = none → u.child? s = some w →
      ∀ q x, w.get? q = some x → a (s :: q) ∧ x.Hollow) : Evolves f a t u where
  kept q x hx := by
    cases q with
    | nil =>
      obtain rfl := Option.some.inj hx
      exact ⟨u, rfl, node⟩
    | cons s q =>
      obtain ⟨v, hv, hx⟩ := Option.bind_eq_some_iff.1 hx
      obtain ⟨w, hw, hvw⟩ := kept s v hv
      simpa [get?_cons, hw] using hvw.kept q x hx
  new q y hnone hy := by
    cases q with
    | nil => cases hnone
    | cons s q =>
      obtain ⟨w, hw, hy⟩ := Option.bind_eq_some_iff.1 hy
      cases hv : t.child? s with
      | none => exact new s w hv hw q y hy
      | some v =>
        obtain ⟨w', hw', hvw⟩ := kept s v hv
        obtain rfl := Option.some.inj (hw'.symm.trans hw)
        exact hvw.new q y (by simpa [get?_cons, hv] using hnone) hy

theorem becomes (h : Evolves f a t u) : Becomes (f []) (a []) t u := by
  obtain ⟨w, hw, hbecomes⟩ := h.kept [] t rfl
  exact Option.some.inj hw ▸ hbecomes

theorem list {items items' : List Tree} (hlength : items'.length = items.length)
    (kept : ∀ (i : Nat) v, items[i]? = some v → ∃ w, items'[i]? = some w ∧
      Evolves (fun q => f (.index i :: q)) (fun q => a (.index i :: q)) v w) :
    Evolves f a (.list items) (.list items') := by
  refine of_child? (.list hlength) (fun s v hv => ?_) fun s w hv hw => ?_
  · cases s with
    | key key => cases hv
    | index i => exact kept i v hv
  · cases s with
    | key key => cases hw
    | index i =>
      have hle := List.getElem?_eq_none_iff.1 hv
      rw [← hlength] at hle
      cases hw.symm.trans (List.getElem?_eq_none_iff.2 hle)

theorem map {es es' : Entries Tree} (hkeys : Entries.keys es <+: Entries.keys es')
    (kept : ∀ k v, Entries.find? k es = some v → ∃ w, Entries.find? k es' = some w ∧
      Evolves (fun q => f (.key k :: q)) (fun q => a (.key k :: q)) v w)
    (new : ∀ k w, Entries.find? k es = none → Entries.find? k es' = some w →
      ∀ q x, w.get? q = some x → a (.key k :: q) ∧ x.Hollow) :
    Evolves f a (.map es) (.map es') := by
  refine of_child? (.map hkeys) (fun s v hv => ?_) fun s w hv hw => ?_
  · cases s with
    | key k => exact kept k v hv
    | index i => cases hv
  · cases s with
    | key k => exact new k w hv hw
    | index i => cases hw

theorem of_hollow (h : ∀ q w, u.get? q = some w → a q ∧ w.Hollow) : Evolves f a .null u where
  kept q v hv := by
    cases q with
    | nil =>
      obtain rfl := Option.some.inj hv
      obtain ⟨ha, rfl | ⟨es, rfl⟩⟩ := h [] u rfl
      · exact ⟨.null, rfl, .same rfl nofun⟩
      · exact ⟨.map es, rfl, .filled ha⟩
    | cons s q => cases s <;> cases hv
  new q w _ hw := h q w hw

theorem setAll_mapped {e : String → Option String} {ps : List Position}
    (there : ∀ p ∈ ps, (t.get? p).isSome) (apart : ps.Pairwise Position.Apart) :
    Evolves (fun q s => if Position.within ps q then (e s).getD s else s) (fun _ => False) t
      (t.setAll (t.mapped (fun u => (u.editTexts e).1) ps)) := by
  have inside : ∀ q, Position.within ps q = true →
      (t.setAll (t.mapped (fun u => (u.editTexts e).1) ps)).get? q =
        (t.get? q).map (Tree.mapTexts fun _ s => (e s).getD s) := fun q hq => by
    obtain ⟨p, hp, r, rfl⟩ := Position.within_eq_true_iff.1 hq
    rw [get?_append, get?_append, get?_setAll_mapped there apart hp]
    cases t.get? p with
    | none => rfl
    | some u => simp [editTexts_eq, get?_mapTexts]
  have outside : ∀ q, ¬ Position.within ps q = true →
      ((t.setAll (t.mapped (fun u => (u.editTexts e).1) ps)).get? q).map bare =
        (t.get? q).map bare := fun q hq =>
    bare_get?_setAll _ (fun u hu hle =>
      hq (Position.within_eq_true_iff.2 ⟨u.1, (List.of_mem_zip hu).1, hle⟩)) t
  constructor
  · intro q x hx
    by_cases hq : Position.within ps q = true
    · refine ⟨x.mapTexts fun _ s => (e s).getD s, by rw [inside q hq, hx]; rfl, ?_⟩
      exact (Becomes.mapTexts _ x).mono (fun _ _ => (if_pos hq).symm) id
    · have hsame := outside q hq
      rw [hx] at hsame
      obtain ⟨y, hy, hxy⟩ := Option.map_eq_some_iff.1 hsame
      exact ⟨y, hy, (Becomes.of_bare hxy).mono (fun _ _ => (if_neg hq).symm) id⟩
  · intro q y hnone hy
    by_cases hq : Position.within ps q = true
    · rw [inside q hq, hnone] at hy
      cases hy
    · have hsame := outside q hq
      rw [hnone, hy] at hsame
      cases hsame

end Evolves

end Manifest.Tree
