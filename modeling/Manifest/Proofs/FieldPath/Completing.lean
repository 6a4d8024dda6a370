import Manifest.Proofs.FieldPath.KeyOrder
import Manifest.Proofs.FieldPath.Lacking

/-! An edit that may add keys reaches a node on every way along its path, unless the way ends at an
empty list.  It leaves its results where the path leads afterwards; what was there stays in its
place, and what is new are the keys of the path.  Only keys are ever added: an edit whose path ends
with an index or a match adds nothing. -/

namespace Manifest

namespace Position

@[simp] theorem keys_key (k : String) (p : Position) : keys (.key k :: p) = k :: p.keys := rfl

@[simp] theorem keys_ofKeys (keys : List String) : (ofKeys keys).keys = keys := by
  induction keys with
  | nil => rfl
  | cons k ks ih => exact congrArg (k :: ·) ih

theorem keys_prefix {p q : Position} (h : p <+: q) : p.keys <+: q.keys := h.filterMap _

end Position

namespace Tree

variable {t u v w : Tree} {segments rest : List Segment} {key : String} {keys : List String}
  {es : Entries Tree} {q : Position} {ps : List Position}

theorem eq_nil_of_get?_scalar (h : t.isScalar = true) (hw : t.get? q = some w) : q = [] := by
  cases q with
  | nil => rfl
  | cons s q => cases t <;> cases s <;> first | cases hw | cases h

theorem addressedItems_modify {f : Tree → Tree} {items : List Tree} {j : Nat}
    (h : ∀ u, items[j]? = some u → (f u).addressed true segments = u.addressed true segments)
    (i : Nat) : addressedItems true (fun _ _ => true) segments i (items.modify j f) =
      addressedItems true (fun _ _ => true) segments i items := by
  induction items generalizing i j with
  | nil => cases j <;> rfl
  | cons u us ih =>
    cases j with
    | zero => rw [List.modify_zero_cons, addressedItems, addressedItems, h u rfl]
    | succ j => rw [List.modify_succ_cons, addressedItems, addressedItems, ih h]

theorem addressed_set (h : t.Addresses true segments q) (hkeys : segments = keys.map .field)
    (hv : v.isScalar = true) : (set q v t).addressed true segments = t.addressed true segments := by
  induction h generalizing keys with
  | @here t hlist =>
    have hone : ∀ u : Tree, (∀ items, u ≠ .list items) → u.addressed true [] = .ok [[]] := by
      intro u hu
      cases u with
      | list items => exact absurd rfl (hu items)
      | _ => rfl
    refine (hone v ?_).trans (hone t (hlist rfl)).symm
    rintro items rfl
    cases hv
  | element =>
    rw [set, modify_cons, modifyChild, addressed, addressed, List.length_modify]
  | @item items i u s rest p hu _ _ ih =>
    cases keys with
    | nil => cases hkeys
    | cons k ks =>
      obtain ⟨rfl, -⟩ := List.cons.inj hkeys
      rw [set, modify_cons, modifyChild]
      refine addressedItems_modify (fun u' hu' => ?_) 0
      obtain rfl := Option.some.inj (hu.symm.trans hu')
      exact ih hkeys
  | @entry es key u rest p hu _ ih =>
    cases keys with
    | nil => cases hkeys
    | cons k ks =>
      rw [set, modify_cons, modifyChild, addressed, addressed, addressedEntry_eq,
        addressedEntry_eq, Entries.find?_modify, if_pos rfl, hu]
      exact congrArg (Except.map _) (ih (List.cons.inj hkeys).2)

theorem addressed_setAll {updates : List (Position × Tree)} (hkeys : segments = keys.map .field)
    (h : t.addressed true segments = .ok ps)
    (hscalars : ∀ x ∈ updates, x.1 ∈ ps ∧ x.2.isScalar = true) :
    (t.setAll updates).addressed true segments = .ok ps := by
  induction updates generalizing t with
  | nil => exact h
  | cons x xs ih =>
    obtain ⟨⟨hmem, hx⟩, hxs⟩ := List.forall_mem_cons.1 hscalars
    rw [setAll_cons]
    exact ih ((addressed_set ((mem_addressed_iff h).1 hmem) hkeys hx).trans h) hxs

theorem get?_of_addresses_grow
    (h : (t.grow (keys.map .field)).1.Addresses true (keys.map .field) q) :
    (t.grow (keys.map .field)).1.get? q = some ((t.get? q).getD .null) := by
  induction t using Tree.induction generalizing keys q with
  | scalar t hscalar =>
    cases keys with
    | nil => cases t <;> cases h <;> first | rfl | cases hscalar
    | cons key keys =>
      cases t with
      | null =>
        rw [grow_null] at h ⊢
        rw [get?_of_addresses_chain h]
        cases q with
        | nil => rfl
        | cons step q => cases step <;> rfl
      | list items => cases hscalar
      | map es => cases hscalar
      | _ => cases h
  | list items ih =>
    cases keys with
    | nil =>
      obtain ⟨v, hv⟩ := Option.isSome_iff_exists.1 h.get?_isSome
      change (list items).get? q = _ at hv
      change (list items).get? q = _
      rw [hv, Option.getD_some]
    | cons key keys =>
      cases h with
      | @item _ i v _ _ q hv _ hq =>
        refine (get?_list hv q).trans ?_
        obtain ⟨w, hw, rfl | ⟨-, rfl⟩⟩ := exists_of_growItems hv
        · obtain ⟨x, hx⟩ := Option.isSome_iff_exists.1 hq.get?_isSome
          rw [get?_list hw, hx, Option.getD_some]
        · rw [get?_list hw]
          exact @ih w (List.mem_of_getElem? hw) (key :: keys) q hq
  | map es ih =>
    cases keys with
    | nil =>
      cases h with
      | here => rfl
    | cons key keys =>
      rw [List.map_cons] at h ⊢
      cases hfind : Entries.find? key es with
      | some w =>
        rw [grow_map_of_find? hfind] at h ⊢
        cases h with
        | @entry _ _ v _ q hv hq =>
          obtain rfl := Option.some.inj ((find?_grown hfind _).symm.trans hv)
          rw [get?_map hfind]
          exact (get?_map hv q).trans (ih (key, w) (Entries.mem_of_find? hfind) hq)
      | none =>
        rw [grow_map_of_missing hfind] at h ⊢
        cases h with
        | @entry _ _ v _ q hv hq =>
          obtain rfl := Option.some.inj ((find?_added hfind _).symm.trans hv)
          refine (get?_map hv q).trans ((get?_of_addresses_chain hq).trans ?_)
          simp [get?_cons, child?, hfind]

theorem exists_addresses_grow (unblocked : ∀ q m, ¬ t.Blocks (keys.map .field) q m) :
    (∃ q, (t.grow (keys.map .field)).1.Addresses true (keys.map .field) q) ∨
      ∃ q, t.get? q = some (.list []) ∧ q.keys <+: keys := by
  induction t using Tree.induction generalizing keys with
  | scalar t hscalar =>
    cases keys with
    | nil =>
      cases t with
      | list | map => cases hscalar
      | _ => exact .inl ⟨[], .here fun _ _ => nofun⟩
    | cons key keys =>
      cases t with
      | null => exact .inl ⟨Position.ofKeys (key :: keys), grow_null key keys ▸ addresses_chain _⟩
      | list items => cases hscalar
      | map es => cases hscalar
      | boolean | integer | decimal | text => exact absurd (.here rfl) (unblocked [] _)
  | list items ih =>
    cases items with
    | nil => exact .inr ⟨[], rfl, List.nil_prefix⟩
    | cons u us =>
      cases keys with
      | nil => exact .inl ⟨[.index 0], .element rfl (Nat.succ_pos _)⟩
      | cons key keys =>
        rcases @ih u List.mem_cons_self (key :: keys) fun q m hq =>
          unblocked (.index 0 :: q) m (.item rfl rfl hq) with ⟨q, hq⟩ | ⟨q, hq, hle⟩
        · obtain ⟨us', -, hgrow⟩ :=
            growItems_cons (picks (.field key)) (.field key :: keys.map .field) 0 u us
          have hlist : ((list (u :: us)).grow ((key :: keys).map .field)).1 =
              list ((u.grow ((key :: keys).map .field)).1 :: us') := congrArg list hgrow
          exact .inl ⟨.index 0 :: q, hlist ▸ .item rfl rfl hq⟩
        · exact .inr ⟨.index 0 :: q, (get?_list rfl q).trans hq, hle⟩
  | map es ih =>
    cases keys with
    | nil => exact .inl ⟨[], .here fun _ _ => nofun⟩
    | cons key keys =>
      rw [List.map_cons]
      cases hfind : Entries.find? key es with
      | some u =>
        rw [grow_map_of_find? hfind]
        rcases @ih (key, u) (Entries.mem_of_find? hfind) keys fun q m hq =>
          unblocked (.key key :: q) m (.entry hfind hq) with ⟨q, hq⟩ | ⟨q, hq, hle⟩
        · exact .inl ⟨.key key :: q, .entry (find?_grown hfind _) hq⟩
        · exact .inr ⟨.key key :: q, (get?_map hfind q).trans hq,
            List.cons_prefix_cons.2 ⟨rfl, hle⟩⟩
      | none =>
        rw [grow_map_of_missing hfind]
        exact .inl ⟨.key key :: Position.ofKeys keys,
          .entry (find?_added hfind _) (addresses_chain keys)⟩

theorem chain_get?_of_off (off : ¬ q.keys <+: keys) : (chain (keys.map .field)).get? q = none := by
  refine Option.eq_none_iff_forall_ne_some.2 fun w hw => off ?_
  have hle := Position.keys_prefix (chain_get? hw).1
  rwa [Position.keys_ofKeys] at hle

theorem get?_grow_map_of_ne {k : String} (h : key ≠ k) (es : Entries Tree) (keys : List String)
    (q : Position) : ((map es).grow (.field key :: keys.map .field)).1.get? (.key k :: q) =
      (map es).get? (.key k :: q) := by
  cases hfind : Entries.find? key es with
  | some u => rw [grow_map_of_find? hfind, get?_cons, child?, find?_growEntry_of_ne h]; rfl
  | none =>
    rw [grow_map_of_missing hfind, get?_cons, child?, find?_added_of_ne h]
    rfl

theorem get?_grow_of_off (off : ¬ q.keys <+: keys) (off' : ¬ keys <+: q.keys) :
    (t.grow (keys.map .field)).1.get? q = t.get? q := by
  induction q generalizing t keys with
  | nil => exact absurd List.nil_prefix off
  | cons step q ih =>
    cases keys with
    | nil => exact absurd List.nil_prefix off'
    | cons key keys =>
      cases t with
      | null =>
        rw [grow_null, chain_get?_of_off off]
        cases step <;> rfl
      | list items =>
        cases step with
        | key k => rfl
        | index i =>
          cases hu : items[i]? with
          | none =>
            have hle := List.getElem?_eq_none_iff.1 hu
            rw [← length_growItems (picks (.field key)) (.field key :: keys.map .field) 0] at hle
            rw [get?_cons, get?_cons, child?, hu]
            exact congrArg (Option.bind · fun u => u.get? q) (List.getElem?_eq_none_iff.2 hle)
          | some u =>
            rw [get?_list hu]
            rcases getElem?_growItems (picks (.field key)) (.field key :: keys.map .field) 0 hu
              with hu' | ⟨-, hu'⟩
            · exact get?_list hu' q
            · exact (get?_list hu' q).trans (@ih u (key :: keys) off off')
      | map es =>
        rw [List.map_cons]
        cases step with
        | index i =>
          cases hfind : Entries.find? key es with
          | some u => rw [grow_map_of_find? hfind]; rfl
          | none => rw [grow_map_of_missing hfind]; rfl
        | key k =>
          rw [Position.keys_key, List.cons_prefix_cons, not_and] at off off'
          by_cases hk : key = k
          · subst hk
            cases hfind : Entries.find? key es with
            | some u =>
              rw [grow_map_of_find? hfind, get?_map hfind, get?_map (find?_grown hfind _)]
              exact ih (off rfl) (off' rfl)
            | none =>
              rw [grow_map_of_missing hfind, get?_map (find?_added hfind _), get?_cons, child?,
                hfind]
              exact chain_get?_of_off (off rfl)
          · exact get?_grow_map_of_ne hk es keys q
      | boolean | integer | decimal | text => rfl

end Tree

namespace FieldPath

variable {σ : Type} {p : FieldPath} {edit : Edit σ} {t t' : Tree} {keys : List String}
  {ps : List Position} {us vs : List Tree} {s s' : σ} {n : Nat}

theorem run_editAt_eq_ok (h : (editAt t ps edit).run s = (.ok (t', n), s')) :
    ∃ vs, Calls edit (ps.filterMap t.get?) s (.ok vs) s' ∧ t' = t.setAll (ps.zip vs) ∧
      n = ps.length := by
  have hcalls := calls_mapM edit (ps.filterMap t.get?) s
  rw [editAt, run_bind] at h
  cases hrun : ((ps.filterMap t.get?).mapM edit).run s with
  | mk r s₁ =>
    rw [hrun] at h hcalls
    cases r with
    | error e => cases h
    | ok vs =>
      obtain ⟨hok, rfl⟩ := Prod.mk.inj h
      obtain ⟨rfl, rfl⟩ := Prod.mk.inj (Except.ok.inj hok)
      exact ⟨vs, hcalls, rfl, rfl⟩

theorem run_applied_creating_eq_ok (h : (p.applied true edit t).run s = (.ok (t', n), s')) :
    ∃ ps vs, (t.grow p.segments).1.addressed true p.segments = .ok ps ∧ n = ps.length ∧
      Calls edit (ps.filterMap (t.grow p.segments).1.get?) s (.ok vs) s' ∧
      t' = if 0 < n then (t.grow p.segments).1.setAll (ps.zip vs) else t := by
  cases haddressed : t.addressed true p.segments with
  | error m => cases (run_applied_creating_of_error edit s haddressed).symm.trans h
  | ok =>
    obtain ⟨ps, hps, hrun⟩ := run_applied_creating_of_ok edit s haddressed
    rw [hrun, run_bind] at h
    cases hedit : (editAt (t.grow p.segments).1 ps edit).run s with
    | mk r s₁ =>
      rw [hedit] at h
      cases r with
      | error e => cases h
      | ok x =>
        obtain ⟨vs, hcalls, hwritten, hcount⟩ := run_editAt_eq_ok hedit
        obtain ⟨hok, rfl⟩ := Prod.mk.inj h
        obtain ⟨rfl, rfl⟩ := Prod.mk.inj (Except.ok.inj hok)
        exact ⟨ps, vs, hps, hcount, hcalls, hwritten ▸ rfl⟩

theorem Calls.forall_isScalar {r : Except Error (List Tree)}
    (h : Calls edit us s r s') (hr : r = .ok vs)
    (scalar : ∀ u s v s', (edit u).run s = (.ok v, s') → v.isScalar = true) :
    ∀ v ∈ vs, v.isScalar = true := by
  induction h generalizing vs with
  | nil => cases hr; exact nofun
  | error => cases hr
  | ok hrun _ ih =>
    obtain ⟨ws, rfl, rfl⟩ := map_eq_ok.1 hr
    exact List.forall_mem_cons.2 ⟨scalar _ _ _ _ hrun, ih rfl⟩

theorem applied_creating_eq (h : ∀ s ∈ p.segments.getLast?, s.isField = false) (edit : Edit σ)
    (t : Tree) : p.applied true edit t = p.applied false edit t := by
  funext s
  change (p.applied true edit t).run s = (p.applied false edit t).run s
  cases haddressed : t.addressed true p.segments with
  | error m =>
    rw [run_applied_creating_of_error edit s haddressed, run_applied_of_error edit s haddressed]
  | ok ps =>
    obtain ⟨qs, hqs, hrun⟩ := run_applied_creating_of_ok edit s haddressed
    rw [Tree.grow_eq_self h] at hqs hrun
    obtain rfl := Except.ok.inj (haddressed.symm.trans hqs)
    rw [hrun, run_applied_of_ok edit s haddressed, run_bind]
    cases hedit : (editAt t ps edit).run s with
    | mk r s₁ =>
      cases r with
      | error e => rfl
      | ok x =>
        obtain ⟨t', n⟩ := x
        obtain ⟨vs, -, hwritten, hcount⟩ := run_editAt_eq_ok hedit
        have hkept : (if 0 < n then t' else t) = t' := by
          split
          · rfl
          · have hnil : ps = [] := List.length_eq_zero_iff.1 (by omega)
            rw [hwritten, hnil]
            rfl
        change (Except.ok (if 0 < n then t' else t, n), s₁) = (Except.ok (t', n), s₁)
        rw [hkept]

theorem apply_creating_eq (h : ∀ s ∈ p.segments.getLast?, s.isField = false) (edit : Edit σ) :
    p.apply true edit = p.apply false edit := by
  funext t s
  change ((p.apply true edit).call t).run s = ((p.apply false edit).call t).run s
  rw [run_apply_eq, run_apply_eq, applied_creating_eq h edit t]

/-- One tree is the other with the missing keys of a path of keys, and with values where the path
leads. -/
structure Completed (keys : List String) (t : Tree) (ps : List Position) (vs : List Tree)
    (t' : Tree) : Prop where
  results : ps.map t'.get? = vs.map some
  kept : ∀ q v, t.get? q = some v → (∀ p ∈ ps, ¬ p <+: q) → ∃ w, t'.get? q = some w ∧
    Tree.Becomes (fun s => s) (t.Lacks (keys.map .field) q) v w
  added : ∀ q w, t.get? q = none → t'.get? q = some w →
    t.Lacks (keys.map .field) q ∧ (q ∈ ps ∨ w.Hollow)
  off : ∀ q, ¬ q.keys <+: keys → ¬ keys <+: q.keys → t'.get? q = t.get? q
  empty : ps = [] → t' = t ∧ ∃ q, t.get? q = some (.list []) ∧ q.keys <+: keys

theorem addressed_of_addressed_grow_nil {segments : List Segment}
    (h : (t.grow segments).1.addressed true segments = .ok []) :
    t.addressed true segments = .ok [] := by
  have hgrow := t.evolves_grow segments
  have hcompared := t.keepsCompared_id segments
  obtain ⟨ps, hps⟩ := hgrow.exists_addressed hcompared h
  cases ps with
  | nil => exact hps
  | cons q qs =>
    have hq := ((Tree.mem_addressed_iff hps).1 List.mem_cons_self).evolves hgrow hcompared
    cases (Tree.mem_addressed_iff h).2 hq

theorem completed_nil (h : (t.grow (keys.map .field)).1.addressed true (keys.map .field) = .ok []) :
    Completed keys t [] [] t where
  results := rfl
  kept _ v hv _ := ⟨v, hv, .refl v⟩
  added _ _ hnone hw := nomatch hnone.symm.trans hw
  off _ _ _ := rfl
  empty _ := by
    refine ⟨rfl, ?_⟩
    have unblocked : ∀ q m, ¬ t.Blocks (keys.map .field) q m := fun q m hq =>
      (hq.evolves (t.evolves_grow _) (t.keepsCompared_id _)).not_addressed h
    rcases Tree.exists_addresses_grow unblocked with ⟨q, hq⟩ | hempty
    · cases (Tree.mem_addressed_iff h).2 hq
    · exact hempty

theorem completed_of_written
    (h : (t.grow (keys.map .field)).1.AddressedAt (keys.map .field) ps) (hne : ps ≠ [])
    (written : (t.grow (keys.map .field)).1.Written ps vs t')
    (scalar : ∀ v ∈ vs, v.isScalar = true) : Completed keys t ps vs t' where
  results := written.map_get?
  kept q v hv hq := by
    obtain ⟨w, hw, hvw⟩ := (t.evolves_grow (keys.map .field)).kept q v hv
    have hsame := written.around q hq
    rw [hw] at hsame
    obtain ⟨x, hx, hwx⟩ := Option.map_eq_some_iff.1 hsame
    exact ⟨x, hx, (hvw.trans (.of_bare (c := False) hwx)).mono (fun _ _ => rfl)
      (Or.elim · id False.elim)⟩
  added q w hnone hw := by
    by_cases hq : ∃ p ∈ ps, p <+: q
    · obtain ⟨p, hp, r, rfl⟩ := hq
      obtain ⟨v, hv, hpv⟩ := List.mem_map.1 (written.map_get? ▸ List.mem_map_of_mem hp)
      rw [Tree.get?_append, ← hpv, Option.bind_some] at hw
      obtain rfl := Tree.eq_nil_of_get?_scalar (scalar v hv) hw
      rw [List.append_nil] at hnone ⊢
      obtain ⟨x, hx⟩ := Option.isSome_iff_exists.1 ((h.mem_iff p).1 hp).get?_isSome
      exact ⟨((t.evolves_grow (keys.map .field)).new p x hnone hx).1, .inl hp⟩
    · have hsame := written.around q fun p hp hle => hq ⟨p, hp, hle⟩
      rw [hw] at hsame
      obtain ⟨x, hx, hwx⟩ := Option.map_eq_some_iff.1 hsame.symm
      obtain ⟨hlacks, hollow⟩ := (t.evolves_grow (keys.map .field)).new q x hnone hx
      exact ⟨hlacks, .inr ((Tree.Becomes.of_bare (c := False) hwx.symm).hollow hollow)⟩
  off q off off' := by
    refine (written.apart q fun p hp => ?_).trans (Tree.get?_grow_of_off off off')
    have hkeys := ((h.mem_iff p).1 hp).keys_eq rfl
    exact Position.apart_of_keys (hkeys ▸ off') (hkeys ▸ off)
  empty hnil := absurd hnil hne

theorem nodes_of_addressed_grow
    (h : (t.grow (keys.map .field)).1.addressed true (keys.map .field) = .ok ps) :
    ps.filterMap (t.grow (keys.map .field)).1.get? = ps.map fun q => (t.get? q).getD .null := by
  have hps : ∀ q ∈ ps, (t.grow (keys.map .field)).1.get? q = some ((t.get? q).getD .null) :=
    fun q hq => Tree.get?_of_addresses_grow ((Tree.mem_addressed_iff h).1 hq)
  rw [List.filterMap_congr hps, ← List.filterMap_eq_map]
  rfl

/-- An edit that may add keys completes the tree along a path of keys: it calls the mutator on the
nodes that the path leads to, null for those that are missing, and its results are what the path
leads to afterwards.  Along a path that ends with an index or a match it adds nothing, and an edit
that fails leaves the tree as it was. -/
theorem completed_apply (p : FieldPath) (edit : Edit σ) (t : Tree) (s : σ) :
    (∀ keys : List String, p.segments = keys.map .field →
      (∀ u s v s', (edit u).run s = (.ok v, s') → v.isScalar = true) →
      ∀ t' n s', ((p.apply true edit).call t).run s = ((.ok n, t'), s') →
        ∃ ps vs, p.locate t' = .ok ps ∧ ps.length = n ∧
          Calls edit (ps.map fun q => (t.get? q).getD .null) s (.ok vs) s' ∧
          Completed keys t ps vs t') ∧
    (∀ last, p.segments.getLast? = some last → last.isField = false →
      p.apply true edit = p.apply false edit) ∧
    ∀ e t' s', ((p.apply true edit).call t).run s = ((.error e, t'), s') → t' = t := by
  refine ⟨fun keys hkeys scalar t' n s' hrun => ?_, fun last hlast hfield => ?_,
    fun _ _ _ => eq_of_run_apply⟩
  · have happlied : (p.applied true edit t).run s = (.ok (t', n), s') := by rw [run_applied, hrun]
    obtain ⟨ps, vs, hps, rfl, hcalls, rfl⟩ := run_applied_creating_eq_ok happlied
    rw [hkeys] at hps hcalls ⊢
    rw [nodes_of_addressed_grow hps] at hcalls
    have hlength : vs.length = ps.length :=
      (Calls.length_eq hcalls rfl).trans (List.length_map _)
    have hscalars := Calls.forall_isScalar hcalls rfl scalar
    refine ⟨ps, vs, ?_, rfl, hcalls, ?_⟩
    · rw [locate_eq_ok, hkeys]
      split
      · exact Tree.addressed_setAll rfl hps fun x hx =>
          ⟨(List.of_mem_zip hx).1, hscalars x.2 (List.of_mem_zip hx).2⟩
      · rename_i hzero
        obtain rfl : ps = [] := List.length_eq_zero_iff.1 (by omega)
        exact addressed_of_addressed_grow_nil hps
    · split
      · rename_i hpos
        have haddressed := Tree.addressedAt_of_addressed hps
        exact completed_of_written haddressed (List.ne_nil_of_length_pos hpos)
          (Tree.written_setAll haddressed.apart
            (fun q hq => ((haddressed.mem_iff q).1 hq).get?_isSome) hlength) hscalars
      · rename_i hzero
        obtain rfl : ps = [] := List.length_eq_zero_iff.1 (by omega)
        obtain rfl : vs = [] := List.length_eq_zero_iff.1 hlength
        exact completed_nil hps
  · exact apply_creating_eq (fun s hs => Option.some.inj (hlast.symm.trans hs) ▸ hfield) edit

def named : Edit Nat
  | .text s => do
    modify (· + 1)
    return .text (s ++ "!")
  | _ => return .text "new"

theorem isScalar_of_named {u v : Tree} {s s' : Nat} (h : (named u).run s = (.ok v, s')) :
    v.isScalar = true := by
  cases u <;> (cases h; rfl)

def elementNames : FieldPath := ⟨"items/meta/name", ["items", "meta", "name"].map .field⟩

def firstElement : FieldPath := ⟨"items[0]", [.field "items", .index 0]⟩

def elementsToName : Tree :=
  .map [("items", .list [.map [("meta", .map [("name", .text "a")])], .map [("meta", .null)],
    .map [("kind", .text "b")], .list [], .null])]

def elementsNamed : Tree :=
  .map [("items", .list [.map [("meta", .map [("name", .text "a!")])],
    .map [("meta", .map [("name", .text "new")])],
    .map [("kind", .text "b"), ("meta", .map [("name", .text "new")])], .list [],
    .map [("meta", .map [("name", .text "new")])]])]

theorem completed_apply_elements :
    (∃ ps vs, elementNames.locate elementsNamed = .ok ps ∧ ps.length = 4 ∧
      Calls named (ps.map fun q => (elementsToName.get? q).getD .null) 0 (.ok vs) 1 ∧
      Completed ["items", "meta", "name"] elementsToName ps vs elementsNamed) ∧
    firstElement.apply true named = firstElement.apply false named ∧
    ∃ e t' s', ((firstElement.apply true named).call (.text "a")).run 0 = ((.error e, t'), s') ∧
      t' = .text "a" := by
  have hrun : ((elementNames.apply true named).call elementsToName).run 0 =
      ((.ok 4, elementsNamed), 1) := rfl
  exact ⟨(completed_apply elementNames named elementsToName 0).1 _ rfl
      (fun _ _ _ _ => isScalar_of_named) _ _ _ hrun,
    (completed_apply firstElement named elementsToName 0).2.1 (.index 0) rfl rfl,
    _, _, _, rfl, (completed_apply firstElement named (.text "a") 0).2.2 _ _ _ rfl⟩

end FieldPath

end Manifest
