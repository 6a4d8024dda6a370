import Mathlib.Data.List.Forall2

namespace Manifest

variable {ε α β : Type}

theorem bind_eq_ok {x : Except ε α} {f : α → Except ε β} {b : β} :
    x >>= f = .ok b ↔ ∃ a, x = .ok a ∧ f a = .ok b := by
  cases x <;> simp [bind, Except.bind]

theorem pure_eq_ok {a b : α} : (pure a : Except ε α) = .ok b ↔ a = b := by
  simp [pure, Except.pure]

theorem map_eq_ok {x : Except ε α} {f : α → β} {b : β} :
    x.map f = .ok b ↔ ∃ a, x = .ok a ∧ f a = b := by
  cases x <;> simp [Except.map]

theorem mapError_eq_ok {ε' : Type} {x : Except ε α} {f : ε → ε'} {a : α} :
    x.mapError f = .ok a ↔ x = .ok a := by
  cases x with
  | error e => exact ⟨nofun, nofun⟩
  | ok b =>
    exact ⟨fun h => congrArg Except.ok (Except.ok.inj h),
      fun h => congrArg Except.ok (Except.ok.inj h)⟩

theorem eq_ok_of_toOption {x : Except ε α} {a : α} (h : x.toOption = some a) : x = .ok a := by
  cases x with
  | error e => cases h
  | ok b => exact congrArg Except.ok (Option.some.inj h)

theorem mapM_eq_ok {f : α → Except ε β} {xs : List α} {ys : List β} :
    xs.mapM f = .ok ys ↔ xs.map f = ys.map .ok := by
  induction xs generalizing ys with
  | nil => cases ys <;> simp [pure, Except.pure]
  | cons x xs ih =>
    rw [List.mapM_cons, bind_eq_ok]
    constructor
    · rintro ⟨y, hy, h⟩
      obtain ⟨zs, hzs, h⟩ := bind_eq_ok.1 h
      obtain rfl := pure_eq_ok.1 h
      rw [List.map_cons, List.map_cons, hy, ih.1 hzs]
    · intro h
      cases ys with
      | nil => cases h
      | cons y ys =>
        obtain ⟨hy, hys⟩ := List.cons.inj h
        exact ⟨y, hy, bind_eq_ok.2 ⟨ys, ih.2 hys, rfl⟩⟩

theorem exists_map_eq_ok {f : α → Except ε β} {xs : List α} (h : ∀ x ∈ xs, ∃ y, f x = .ok y) :
    ∃ ys : List β, xs.map f = ys.map .ok := by
  induction xs with
  | nil => exact ⟨[], rfl⟩
  | cons x xs ih =>
    obtain ⟨⟨y, hy⟩, hxs⟩ := List.forall_mem_cons.1 h
    obtain ⟨ys, hys⟩ := ih hxs
    exact ⟨y :: ys, by rw [List.map_cons, List.map_cons, hy, hys]⟩

theorem exists_map_eq_ok_iff {f : α → Except ε β} {xs : List α} :
    (∃ ys : List β, xs.map f = ys.map .ok) ↔ ∀ x ∈ xs, ∃ y, f x = .ok y := by
  refine ⟨fun ⟨ys, h⟩ x hx => ?_, exists_map_eq_ok⟩
  obtain ⟨y, -, hy⟩ := List.mem_map.1 (h ▸ List.mem_map_of_mem hx : f x ∈ ys.map .ok)
  exact ⟨y, hy.symm⟩

theorem exists_error_of_mapM {f : α → Except ε β} {xs : List α} {e : ε}
    (h : xs.mapM f = .error e) : ∃ x ∈ xs, f x = .error e := by
  induction xs with
  | nil => cases h
  | cons x xs ih =>
    rw [List.mapM_cons] at h
    cases hx : f x with
    | error e' =>
      rw [hx] at h
      obtain rfl : e' = e := Except.error.inj h
      exact ⟨x, List.mem_cons_self, hx⟩
    | ok y =>
      cases hxs : xs.mapM f with
      | error e' =>
        rw [hx, hxs] at h
        obtain rfl : e' = e := Except.error.inj h
        obtain ⟨z, hz, hfz⟩ := ih hxs
        exact ⟨z, List.mem_cons_of_mem x hz, hfz⟩
      | ok ys =>
        rw [hx, hxs] at h
        cases h

theorem exists_mapM_eq_error_iff {f : α → Except ε β} {xs : List α} :
    (∃ e, xs.mapM f = .error e) ↔ ∃ x ∈ xs, ∃ e, f x = .error e := by
  constructor
  · rintro ⟨e, h⟩
    obtain ⟨x, hx, hfx⟩ := exists_error_of_mapM h
    exact ⟨x, hx, e, hfx⟩
  · rintro ⟨x, hx, e, he⟩
    cases h : xs.mapM f with
    | error e' => exact ⟨e', rfl⟩
    | ok ys =>
      obtain ⟨y, hy⟩ := exists_map_eq_ok_iff.1 ⟨ys, mapM_eq_ok.1 h⟩ x hx
      cases he.symm.trans hy

theorem mapM_congr {f g : α → Except ε β} {xs : List α} (h : ∀ x ∈ xs, f x = g x) :
    xs.mapM f = xs.mapM g := by
  induction xs with
  | nil => rfl
  | cons x xs ih =>
    obtain ⟨hx, hxs⟩ := List.forall_mem_cons.1 h
    rw [List.mapM_cons, List.mapM_cons, hx, ih hxs]

theorem map_eq_ok_congr {f g : α → Except ε β} {xs : List α} {ys : List β}
    (h : ∀ x ∈ xs, ∀ y, f x = .ok y ↔ g x = .ok y) :
    xs.map f = ys.map .ok ↔ xs.map g = ys.map .ok := by
  induction xs generalizing ys with
  | nil => exact Iff.rfl
  | cons x xs ih =>
    obtain ⟨hx, hxs⟩ := List.forall_mem_cons.1 h
    cases ys with
    | nil => exact ⟨nofun, nofun⟩
    | cons y ys =>
      rw [List.map_cons, List.map_cons, List.map_cons, List.cons.injEq, List.cons.injEq, hx y,
        ih hxs]

theorem eq_map_of_map_eq_ok {f : α → Except ε β} {g : α → β} {xs : List α} {ys : List β}
    (h : xs.map f = ys.map .ok) (hg : ∀ x ∈ xs, ∀ y, f x = .ok y → y = g x) : ys = xs.map g := by
  induction xs generalizing ys with
  | nil => exact List.map_eq_nil_iff.1 h.symm
  | cons x xs ih =>
    obtain ⟨hgx, hgxs⟩ := List.forall_mem_cons.1 hg
    cases ys with
    | nil => cases h
    | cons y ys =>
      obtain ⟨hy, hys⟩ := List.cons.inj h
      rw [List.map_cons, ← hgx y hy, ← ih hys hgxs]

theorem map_eq_of_map_eq_ok {γ : Type} {f : α → Except ε β} {g : α → γ} {k : β → γ} {xs : List α}
    {ys : List β} (h : xs.map f = ys.map .ok) (hk : ∀ x ∈ xs, ∀ y, f x = .ok y → k y = g x) :
    ys.map k = xs.map g := by
  induction xs generalizing ys with
  | nil => rw [List.map_eq_nil_iff.1 h.symm]; rfl
  | cons x xs ih =>
    obtain ⟨hkx, hkxs⟩ := List.forall_mem_cons.1 hk
    cases ys with
    | nil => cases h
    | cons y ys =>
      obtain ⟨hy, hys⟩ := List.cons.inj h
      rw [List.map_cons, List.map_cons, hkx y hy, ih hys hkxs]

theorem forall_of_map_eq_ok {P : β → Prop} {f : α → Except ε β} {xs : List α} {ys : List β}
    (h : xs.map f = ys.map .ok) (hf : ∀ x ∈ xs, ∀ y, f x = .ok y → P y) : ∀ y ∈ ys, P y := by
  intro y hy
  obtain ⟨x, hx, hxy⟩ := List.mem_map.1 (h ▸ List.mem_map_of_mem hy : .ok y ∈ xs.map f)
  exact hf x hx y hxy

theorem forall₂_of_map_eq_ok {R : α → β → Prop} {f : α → Except ε β} {xs : List α} {ys : List β}
    (h : xs.map f = ys.map .ok) (hf : ∀ x ∈ xs, ∀ y, f x = .ok y → R x y) :
    List.Forall₂ R xs ys := by
  induction xs generalizing ys with
  | nil =>
    obtain rfl := List.map_eq_nil_iff.1 h.symm
    exact .nil
  | cons x xs ih =>
    obtain ⟨hfx, hfxs⟩ := List.forall_mem_cons.1 hf
    cases ys with
    | nil => cases h
    | cons y ys =>
      obtain ⟨hy, hys⟩ := List.cons.inj h
      exact .cons (hfx y hy) (ih hys hfxs)

theorem mapM_eq_ok_iff_forall₂ {R : α → β → Prop} {f : α → Except ε β}
    (hf : ∀ x y, f x = .ok y ↔ R x y) {xs : List α} {ys : List β} :
    xs.mapM f = .ok ys ↔ List.Forall₂ R xs ys := by
  have hR : R = fun x y => f x = .ok y := funext₂ fun x y => propext (hf x y).symm
  rw [mapM_eq_ok, ← List.forall₂_eq_eq_eq, List.forall₂_map_left_iff, List.forall₂_map_right_iff,
    hR]

theorem exists_forall₂_iff {R : α → β → Prop} {xs : List α} :
    (∃ ys, List.Forall₂ R xs ys) ↔ ∀ x ∈ xs, ∃ y, R x y := by
  induction xs with
  | nil => exact ⟨fun _ => nofun, fun _ => ⟨[], .nil⟩⟩
  | cons x xs ih =>
    rw [List.forall_mem_cons, ← ih]
    constructor
    · rintro ⟨ys, h⟩
      cases h with
      | cons hx hxs => exact ⟨⟨_, hx⟩, _, hxs⟩
    · rintro ⟨⟨y, hy⟩, ys, hys⟩
      exact ⟨y :: ys, .cons hy hys⟩

theorem map_eq_ok_iff_eq_self {P : α → Prop} {f : α → Except ε α} {xs ys : List α}
    (hf : ∀ x ∈ xs, ∀ y, f x = .ok y ↔ y = x ∧ P x) :
    xs.map f = ys.map .ok ↔ ys = xs ∧ ∀ x ∈ xs, P x := by
  induction xs generalizing ys with
  | nil => simp [eq_comm]
  | cons x xs ih =>
    obtain ⟨hfx, hfxs⟩ := List.forall_mem_cons.1 hf
    cases ys with
    | nil => exact ⟨nofun, fun h => nomatch h.1⟩
    | cons y ys =>
      rw [List.map_cons, List.map_cons, List.cons.injEq, List.cons.injEq, hfx y, ih hfxs,
        List.forall_mem_cons]
      exact and_and_and_comm

theorem foldlM_invariant {P : β → Prop} {f : β → α → Except ε β} {xs : List α} {b b' : β}
    (step : ∀ b x b', x ∈ xs → P b → f b x = .ok b' → P b') (start : P b)
    (h : xs.foldlM f b = .ok b') : P b' := by
  induction xs generalizing b with
  | nil => exact pure_eq_ok.1 h ▸ start
  | cons x xs ih =>
    rw [List.foldlM_cons] at h
    obtain ⟨c, hc, h⟩ := bind_eq_ok.1 h
    refine ih (fun b y b' hy => step b y b' (List.mem_cons_of_mem x hy)) ?_ h
    exact step b x c List.mem_cons_self start hc

theorem exists_error_of_foldlM {P : β → Prop} {f : β → α → Except ε β} {xs : List α} {b : β} {e : ε}
    (step : ∀ b x b', x ∈ xs → P b → f b x = .ok b' → P b') (start : P b)
    (h : xs.foldlM f b = .error e) : ∃ x ∈ xs, ∃ b', P b' ∧ f b' x = .error e := by
  induction xs generalizing b with
  | nil => cases h
  | cons x xs ih =>
    rw [List.foldlM_cons] at h
    cases hx : f b x with
    | error e' =>
      rw [hx] at h
      obtain rfl : e' = e := Except.error.inj h
      exact ⟨x, List.mem_cons_self, b, start, hx⟩
    | ok c =>
      rw [hx] at h
      obtain ⟨y, hy, b', hb', hyb'⟩ := ih (fun b y b' hy => step b y b' (List.mem_cons_of_mem x hy))
        (step b x c List.mem_cons_self start hx) h
      exact ⟨y, List.mem_cons_of_mem x hy, b', hb', hyb'⟩

theorem foldlM_eq_ok {σ : Type} {f : α → Except ε β} {g : σ → β → σ} {xs : List α} {s s' : σ} :
    xs.foldlM (fun s x => do return g s (← f x)) s = .ok s' ↔
      ∃ ys, xs.mapM f = .ok ys ∧ ys.foldl g s = s' := by
  induction xs generalizing s with
  | nil => simp [pure, Except.pure]
  | cons x xs ih =>
    rw [List.foldlM_cons, List.mapM_cons]
    cases hx : f x with
    | error e => exact ⟨nofun, nofun⟩
    | ok y =>
      refine ih.trans ⟨?_, ?_⟩
      · rintro ⟨ys, hys, rfl⟩
        exact ⟨y :: ys, bind_eq_ok.2 ⟨y, rfl, bind_eq_ok.2 ⟨ys, hys, rfl⟩⟩, rfl⟩
      · rintro ⟨_, h, rfl⟩
        obtain ⟨_, hy, h⟩ := bind_eq_ok.1 h
        obtain ⟨ys, hys, h⟩ := bind_eq_ok.1 h
        cases hy
        cases h
        exact ⟨ys, hys, rfl⟩

section State

variable {σ : Type} {s : σ}

theorem run_bind (x : ExceptT ε (StateM σ) α) (f : α → ExceptT ε (StateM σ) β) (s : σ) :
    (x >>= f).run s = ExceptT.bindCont f (x.run s).1 (x.run s).2 := rfl

theorem run_bind_eq_ok {x : ExceptT ε (StateM σ) α} {f : α → ExceptT ε (StateM σ) β} {b : β} :
    ((x >>= f).run s).1 = .ok b ↔
      ∃ a s', x.run s = (.ok a, s') ∧ ((f a).run s').1 = .ok b := by
  rw [run_bind]
  obtain ⟨r, s'⟩ := x.run s
  cases r with
  | error e =>
    refine ⟨nofun, ?_⟩
    rintro ⟨_, _, h, -⟩
    cases h
  | ok a =>
    refine ⟨fun h => ⟨a, s', rfl, h⟩, ?_⟩
    rintro ⟨_, _, h, hb⟩
    cases h
    exact hb

theorem run_pure_eq_ok {a b : α} :
    (((pure a : ExceptT ε (StateM σ) α)).run s).1 = .ok b ↔ a = b :=
  ⟨Except.ok.inj, congrArg Except.ok⟩

theorem eq_map_of_run_mapM {f : α → β} {xs : List α} {ys : List β} {s' : σ}
    (h : (xs.mapM fun x => (ExceptT.mk (pure (.ok (f x))) : ExceptT ε (StateM σ) β)).run s =
      (.ok ys, s')) : ys = xs.map f := by
  have hpure : (xs.mapM fun x => (pure (f x) : ExceptT ε (StateM σ) β)) = pure (xs.map f) :=
    List.mapM_pure
  exact (run_pure_eq_ok.1 (congrArg Prod.fst (hpure ▸ h))).symm

end State

end Manifest
