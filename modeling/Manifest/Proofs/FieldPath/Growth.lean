import Manifest.Proofs.FieldPath.Compared
import Manifest.Proofs.FieldPath.Pointwise

namespace Manifest.Tree

variable {f : Position → String → String} {a : Position → Prop} {t u v w : Tree} {s : Segment}
  {segments rest : List Segment} {p q : Position}

/-- The rewriting changes the outcome of no comparison with a text of the tree. -/
def KeepsCompared (f : Position → String → String) (t : Tree) (segments : List Segment) : Prop :=
  ∀ c ∈ t.compared segments, ∀ s, t.get? c.1 = some (.text s) → (f c.1 s = c.2 ↔ s = c.2)

theorem keepsCompared_id (t : Tree) (segments : List Segment) :
    KeepsCompared (fun _ s => s) t segments := fun _ _ _ _ => Iff.rfl

theorem mem_comparedItems_self {items : List Tree} {i j : Nat} (hu : items[j]? = some u)
    {c : Position × String} (hc : c ∈ comparisons (i + j) s) :
    c ∈ comparedItems s segments i items := by
  induction items generalizing i j with
  | nil => cases hu
  | cons t ts ih =>
    rw [comparedItems, List.mem_append, List.mem_append]
    cases j with
    | zero => exact .inl (.inl hc)
    | succ j => exact .inr (ih hu (by rwa [show i + 1 + j = i + (j + 1) by omega]))

theorem mem_comparedItems_below {items : List Tree} {i j : Nat} (hu : items[j]? = some u)
    (hpick : picks s (i + j) u = true) {c : Position × String} (hc : c ∈ u.compared segments) :
    under (.index (i + j)) c ∈ comparedItems s segments i items := by
  induction items generalizing i j with
  | nil => cases hu
  | cons t ts ih =>
    rw [comparedItems, List.mem_append, List.mem_append]
    cases j with
    | zero =>
      obtain rfl : t = u := Option.some.inj hu
      rw [Nat.add_zero] at hpick ⊢
      rw [if_pos hpick]
      exact .inl (.inr (List.mem_map_of_mem hc))
    | succ j =>
      rw [show i + (j + 1) = i + 1 + j by omega] at hpick ⊢
      exact .inr (ih hu hpick)

theorem mem_comparedEntry {key : String} {es : Entries Tree} (hu : Entries.find? key es = some u)
    {c : Position × String} (hc : c ∈ u.compared segments) :
    under (.key key) c ∈ comparedEntry key segments es := by
  induction es with
  | nil => cases hu
  | cons e es ih =>
    obtain ⟨k, t⟩ := e
    rw [Entries.find?_cons] at hu
    rw [comparedEntry]
    split at hu
    · rename_i hk
      obtain rfl : t = u := Option.some.inj hu
      rw [if_pos hk]
      exact List.mem_map_of_mem hc
    · rename_i hk
      rw [if_neg hk]
      exact ih hu

theorem exists_of_mem_comparedItems {items : List Tree} {i : Nat} {c : Position × String}
    (h : c ∈ comparedItems s segments i items) : ∃ j u, items[j]? = some u ∧
      (c ∈ comparisons (i + j) s ∨ picks s (i + j) u = true ∧
        ∃ c' ∈ u.compared segments, c = under (.index (i + j)) c') := by
  induction items generalizing i with
  | nil => cases h
  | cons t ts ih =>
    rw [comparedItems, List.mem_append, List.mem_append] at h
    rcases h with (h | h) | h
    · exact ⟨0, t, rfl, .inl h⟩
    · split at h
      · obtain ⟨c', hc', rfl⟩ := List.mem_map.1 h
        exact ⟨0, t, rfl, .inr ⟨‹_›, c', hc', rfl⟩⟩
      · cases h
    · obtain ⟨j, u, hu, hc⟩ := ih h
      rw [show i + 1 + j = i + (j + 1) by omega] at hc
      exact ⟨j + 1, u, hu, hc⟩

theorem exists_of_mem_comparedEntry {key : String} {es : Entries Tree} {c : Position × String}
    (h : c ∈ comparedEntry key segments es) : ∃ u, Entries.find? key es = some u ∧
      ∃ c' ∈ u.compared segments, c = under (.key key) c' := by
  induction es with
  | nil => cases h
  | cons e es ih =>
    obtain ⟨k, t⟩ := e
    rw [comparedEntry] at h
    rw [Entries.find?_cons]
    split at h
    · rename_i hk
      obtain ⟨c', hc', rfl⟩ := List.mem_map.1 h
      exact ⟨t, if_pos hk, c', hc', rfl⟩
    · rename_i hk
      rw [if_neg hk]
      exact ih h

theorem KeepsCompared.item {items : List Tree} {i : Nat}
    (h : KeepsCompared f (.list items) (s :: rest)) (hu : items[i]? = some u)
    (hpick : picks s i u = true) :
    KeepsCompared (fun q => f (.index i :: q)) u (afterList s rest) := by
  intro c hc x hx
  refine h (under (.index i) c) ?_ x (by simpa [under, get?_cons, child?, hu] using hx)
  have hmem := mem_comparedItems_below (i := 0) hu (by rwa [Nat.zero_add]) hc
  rwa [Nat.zero_add] at hmem

theorem KeepsCompared.entry {es : Entries Tree} {key : String}
    (h : KeepsCompared f (.map es) (.field key :: rest)) (hu : Entries.find? key es = some u) :
    KeepsCompared (fun q => f (.key key :: q)) u rest := by
  intro c hc x hx
  exact h (under (.key key) c) (mem_comparedEntry hu hc) x
    (by simpa [under, get?_cons, child?, hu] using hx)

theorem Evolves.hasField_eq {key value : String} (h : Evolves f a t u)
    (kept : ∀ s, t.get? [.key key] = some (.text s) → (f [.key key] s = value ↔ s = value)) :
    u.hasField key value = t.hasField key value := by
  rw [hasField, hasField, ← get?_key, ← get?_key]
  cases ht : t.get? [.key key] with
  | none =>
    cases hu : u.get? [.key key] with
    | none => rfl
    | some w => rcases (h.new _ w ht hu).2 with rfl | ⟨es, rfl⟩ <;> rfl
  | some v =>
    obtain ⟨w, hw, hbecomes⟩ := h.kept _ v ht
    rw [hw, Option.bind_some, Option.bind_some]
    cases hbecomes with
    | text => simpa [text?] using kept _ ht
    | _ => rfl

theorem Evolves.picks_eq {items items' : List Tree} {i : Nat}
    (h : Evolves f a (.list items) (.list items'))
    (k : KeepsCompared f (.list items) (s :: rest)) (hu : items[i]? = some u)
    (hw : items'[i]? = some w) : picks s i w = picks s i u := by
  cases s with
  | matching key value =>
    refine (h.child (s := .index i) hu hw).hasField_eq fun x hx => ?_
    refine k ([.index i, .key key], value) ?_ x (by simpa [get?_cons, child?, hu] using hx)
    exact mem_comparedItems_self (i := 0) hu (by simp [comparisons])
  | _ => rfl

theorem Becomes.blockage?_eq {g : String → String} {c : Prop} (h : Becomes g c t u)
    {m : Mismatch} (hm : blockage? s t = some m) : blockage? s u = some m := by
  cases h with
  | same => exact hm
  | _ => cases s <;> first | exact hm | cases hm

namespace Evolves

theorem exists_item {items : List Tree} {i : Nat} (h : Evolves f a (.list items) u)
    (hv : items[i]? = some v) : ∃ items' w, u = .list items' ∧ items'[i]? = some w ∧
      Evolves (fun q => f (.index i :: q)) (fun q => a (.index i :: q)) v w := by
  obtain ⟨w, hw, hvw⟩ := h.exists_child (s := .index i) hv
  cases h.becomes with
  | same hscalar => cases hscalar
  | list => exact ⟨_, w, rfl, hw, hvw⟩

theorem exists_entry {es : Entries Tree} {key : String} (h : Evolves f a (.map es) u)
    (hv : Entries.find? key es = some v) : ∃ es' w, u = .map es' ∧
      Entries.find? key es' = some w ∧
      Evolves (fun q => f (.key key :: q)) (fun q => a (.key key :: q)) v w := by
  obtain ⟨w, hw, hvw⟩ := h.exists_child (s := .key key) hv
  cases h.becomes with
  | same hscalar => cases hscalar
  | map => exact ⟨_, w, rfl, hw, hvw⟩

theorem of_item {items : List Tree} {i : Nat} (h : Evolves f a t (.list items))
    (hw : items[i]? = some w) : ∃ items' v, t = .list items' ∧ items'[i]? = some v ∧
      Evolves (fun q => f (.index i :: q)) (fun q => a (.index i :: q)) v w := by
  cases h.becomes with
  | same hscalar => cases hscalar
  | @list items' _ hlength =>
    have hlt := (List.getElem?_eq_some_iff.1 hw).1
    rw [hlength] at hlt
    have hv := List.getElem?_eq_getElem hlt
    exact ⟨items', _, rfl, hv, h.child (s := .index i) hv hw⟩

end Evolves

theorem Addresses.evolves {spread : Bool} (h : Addresses spread t segments p)
    (e : Evolves f a t u) (k : KeepsCompared f t segments) : Addresses spread u segments p := by
  induction h generalizing u f a with
  | here hlist =>
    refine .here fun hspread items hu => ?_
    subst hu
    cases e.becomes with
    | same hscalar => cases hscalar
    | list => exact hlist hspread _ rfl
  | element hspread hi =>
    cases e.becomes with
    | same hscalar => cases hscalar
    | list hlength => exact .element hspread (hlength ▸ hi)
  | item hu hpick _ ih =>
    obtain ⟨items', w, rfl, hw, hchild⟩ := e.exists_item hu
    exact .item hw ((e.picks_eq k hu hw).trans hpick) (ih hchild (k.item hu hpick))
  | entry hu _ ih =>
    obtain ⟨es', w, rfl, hw, hchild⟩ := e.exists_entry hu
    exact .entry hw (ih hchild (k.entry hu))

theorem Addresses.of_evolves {spread : Bool} (h : Addresses spread u segments p)
    (e : Evolves f a t u) (k : KeepsCompared f t segments) (there : (t.get? p).isSome) :
    Addresses spread t segments p := by
  induction h generalizing t f a with
  | here hlist =>
    refine .here fun hspread items ht => ?_
    subst ht
    cases e.becomes with
    | same hscalar => cases hscalar
    | list => exact hlist hspread _ rfl
  | element hspread hi =>
    cases e.becomes with
    | same hscalar => cases hscalar
    | list hlength => exact .element hspread (hlength ▸ hi)
  | item hw hpick _ ih =>
    obtain ⟨items', v, rfl, hv, hchild⟩ := e.of_item hw
    rw [e.picks_eq k hv hw] at hpick
    refine .item hv hpick (ih hchild (k.item hv hpick) ?_)
    simpa [get?_cons, child?, hv] using there
  | entry hw _ ih =>
    cases t with
    | map es =>
      rw [get?_cons, child?] at there
      obtain ⟨v, hv⟩ := Option.isSome_iff_exists.1 (Option.isSome_of_isSome_bind there)
      rw [hv] at there
      exact .entry hv (ih (e.child (s := .key _) hv hw) (k.entry hv) there)
    | _ => cases there

theorem Blocks.evolves {m : Mismatch} (h : Blocks t segments p m) (e : Evolves f a t u)
    (k : KeepsCompared f t segments) : Blocks u segments p m := by
  induction h generalizing u f a with
  | here hb => exact .here (e.becomes.blockage?_eq hb)
  | item hu hpick _ ih =>
    obtain ⟨items', w, rfl, hw, hchild⟩ := e.exists_item hu
    exact .item hw ((e.picks_eq k hu hw).trans hpick) (ih hchild (k.item hu hpick))
  | entry hu _ ih =>
    obtain ⟨es', w, rfl, hw, hchild⟩ := e.exists_entry hu
    exact .entry hw (ih hchild (k.entry hu))

theorem Evolves.exists_addressed {qs : List Position} (e : Evolves f a t u)
    (k : KeepsCompared f t segments) (hqs : u.addressed true segments = .ok qs) :
    ∃ ps, t.addressed true segments = .ok ps := by
  cases h : t.addressed true segments with
  | ok ps => exact ⟨ps, rfl⟩
  | error m =>
    obtain ⟨q, hq, -⟩ := exists_firstBlock h
    exact absurd hqs (hq.evolves e k).not_addressed

theorem Evolves.mem_addressed_iff {ps qs : List Position} (e : Evolves f a t u)
    (k : KeepsCompared f t segments) (hqs : u.addressed true segments = .ok qs)
    (hps : t.addressed true segments = .ok ps) (there : (t.get? p).isSome) : p ∈ qs ↔ p ∈ ps := by
  rw [Tree.mem_addressed_iff hqs, Tree.mem_addressed_iff hps]
  exact ⟨fun h => h.of_evolves e k there, fun h => h.evolves e k⟩

theorem Evolves.mem_compared (e : Evolves f a t u) (k : KeepsCompared f t segments)
    {c : Position × String} (hc : c ∈ u.compared segments) (there : (t.get? c.1).isSome) :
    c ∈ t.compared segments := by
  induction u using Tree.induction generalizing t segments f a c with
  | scalar u hscalar =>
    cases u with
    | list | map => cases hscalar
    | _ => cases segments <;> cases hc
  | list items ih =>
    cases segments with
    | nil => cases hc
    | cons s rest =>
      obtain ⟨j, w, hw, hc⟩ := exists_of_mem_comparedItems (i := 0) hc
      obtain ⟨items', v, rfl, hv, hchild⟩ := e.of_item hw
      rw [Nat.zero_add] at hc
      rcases hc with hc | ⟨hpick, c', hc', rfl⟩
      · exact mem_comparedItems_self (i := 0) hv (by rwa [Nat.zero_add])
      · rw [e.picks_eq k hv hw] at hpick
        rw [under, get?_list hv] at there
        have hmem := mem_comparedItems_below (i := 0) hv (by rwa [Nat.zero_add])
          (ih w (List.mem_of_getElem? hw) hchild (k.item hv hpick) hc' there)
        rwa [Nat.zero_add] at hmem
  | map es ih =>
    cases segments with
    | nil => cases hc
    | cons s rest =>
      cases s with
      | index | matching => cases hc
      | field key =>
        obtain ⟨w, hw, c', hc', rfl⟩ := exists_of_mem_comparedEntry hc
        cases t with
        | map es' =>
          rw [under, get?_cons, child?] at there
          obtain ⟨v, hv⟩ := Option.isSome_iff_exists.1 (Option.isSome_of_isSome_bind there)
          rw [hv] at there
          exact mem_comparedEntry hv (ih (key, w) (Entries.mem_of_find? hw)
            (e.child (s := .key key) hv hw) (k.entry hv) hc' there)
        | _ => cases there

theorem Lacks.exists_keys (h : Lacks u segments q)
    (hollow : ∀ p w, u.get? p = some w → w.Hollow) :
    ∃ keys : List String, segments = keys.map .field ∧ keys ≠ [] ∧ q <+: Position.ofKeys keys := by
  induction h with
  | null hkeys hne hle => exact ⟨_, hkeys, hne, hle⟩
  | @missing es key segments keys q _ hkeys hle =>
    refine ⟨key :: keys, by rw [hkeys]; rfl, List.cons_ne_nil _ _, ?_⟩
    exact List.cons_prefix_cons.2 ⟨rfl, hle⟩
  | item => rcases hollow [] _ rfl with h | ⟨es, h⟩ <;> cases h
  | @entry es key u rest q hu _ ih =>
    obtain ⟨keys, rfl, -, hle⟩ := ih fun p w hw =>
      hollow (.key key :: p) w (by simpa [get?_cons, child?, hu] using hw)
    exact ⟨key :: keys, rfl, List.cons_ne_nil _ _, List.cons_prefix_cons.2 ⟨rfl, hle⟩⟩

theorem Lacks.of_evolves_null (h : Lacks u segments q) (e : Evolves f a .null u) :
    Lacks .null segments q := by
  obtain ⟨keys, hkeys, hne, hle⟩ := h.exists_keys fun p w hw => by
    cases p with
    | nil => exact Option.some.inj hw ▸ e.becomes.hollow (.inl rfl)
    | cons s p => exact (e.new (s :: p) w (by cases s <;> rfl) hw).2
  exact .null hkeys hne hle

theorem Lacks.of_evolves (h : Lacks u segments q) (e : Evolves f a t u)
    (k : KeepsCompared f t segments) : Lacks t segments q := by
  induction h generalizing t f a with
  | null hkeys hne hle =>
    cases e.becomes with
    | same => exact .null hkeys hne hle
  | @missing es key segments keys q hnone hkeys hle =>
    have hlacks := Lacks.missing hnone hkeys hle
    cases e.becomes with
    | same hscalar => cases hscalar
    | filled => exact hlacks.of_evolves_null e
    | @map es' =>
      refine .missing ?_ hkeys hle
      cases hv : Entries.find? key es' with
      | none => rfl
      | some v =>
        obtain ⟨_, w, heq, hw, -⟩ := e.exists_entry hv
        cases heq
        cases hnone.symm.trans hw
  | item hw hpick hlacks ih =>
    obtain ⟨items', v, rfl, hv, hchild⟩ := e.of_item hw
    rw [e.picks_eq k hv hw] at hpick
    exact .item hv hpick (ih hchild (k.item hv hpick))
  | @entry es key w rest q hw hlacks ih =>
    cases e.becomes with
    | same hscalar => cases hscalar
    | filled => exact (Lacks.entry hw hlacks).of_evolves_null e
    | @map es' =>
      cases hv : Entries.find? key es' with
      | some v => exact .entry hv (ih (e.child (s := .key key) hv hw) (k.entry hv))
      | none =>
        -- the key was added, and so was all that is below it
        obtain ⟨keys, hkeys, -, hle⟩ := hlacks.exists_keys fun p x hx =>
          (e.new (.key key :: p) x (by simp [get?_cons, child?, hv])
            (by simpa [get?_cons, child?, hw] using hx)).2
        exact .missing hv hkeys hle

end Manifest.Tree
