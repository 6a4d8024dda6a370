import Mathlib.Logic.Function.Iterate
import Manifest.FieldEdits
import Manifest.Proofs.FieldPath.Lacking
import Manifest.Proofs.Reference.Tally

/-! An edit of nodes acts on the texts that it reaches.  Specs are taken one after the other, so a
text is edited as many times as a spec names it, and nothing else changes but for the keys that a
spec adds.  This holds as long as no edit changes the outcome of a comparison on the path of a spec.
-/

namespace Manifest

open Reference
open Tree (Evolves KeepsCompared)

namespace Tree

variable {f g h : Position → String → String} {a b c : Position → Prop} {t u v : Tree}
  {segments : List Segment} {q : Position}

theorem Evolves.exists_text (e : Evolves f a t u) {s : String} (hs : u.get? q = some (.text s)) :
    ∃ s₀, t.get? q = some (.text s₀) ∧ s = f q s₀ := by
  cases hq : t.get? q with
  | none => rcases (e.new q _ hq hs).2 with hnull | ⟨es, hmap⟩ <;> contradiction
  | some w =>
    obtain ⟨x, hx, hbecomes⟩ := e.kept q w hq
    obtain rfl := Option.some.inj (hx.symm.trans hs)
    cases hbecomes with
    | same _ htext => exact absurd rfl (htext s)
    | text => exact ⟨_, rfl, rfl⟩

/-- Of two changes that keep the outcome of all comparisons together and the first of which does
alone, so does the second. -/
theorem KeepsCompared.of_evolves (e : Evolves f a t u) (e' : Evolves g b u v)
    (e'' : Evolves h c t v) (k : KeepsCompared f t segments) (k'' : KeepsCompared h t segments) :
    KeepsCompared g u segments := by
  intro x hx s hs
  obtain ⟨s₀, hs₀, rfl⟩ := e.exists_text hs
  have hx₀ := e.mem_compared k hx (Option.isSome_of_eq_some hs₀)
  have heq : g x.1 (f x.1 s₀) = h x.1 s₀ :=
    text.inj (Option.some.inj ((e'.get?_text hs).symm.trans (e''.get?_text hs₀)))
  rw [heq, k'' x hx₀ s₀ hs₀, k x hx₀ s₀ hs₀]

end Tree

namespace FieldPath

variable {p : FieldPath} {create : Bool} {f : Tree → Tree} {t t' : Tree} {n : Nat}

theorem appliedPure_eq_ok (h : p.appliedPure create (fun u => .ok (f u)) t = .ok (t', n)) :
    ∃ base ps, base = (if create then (t.grow p.segments).1 else t) ∧
      base.addressed true p.segments = .ok ps ∧
      t' = if ps = [] then t else base.setAll (base.mapped f ps) := by
  change ((p.applied create (fun u => pure (f u)) t).run ()).1 = .ok (t', n) at h
  obtain ⟨base, ps, us, s₁, s₂, hbase, hps, hus, rfl⟩ := applied_eq_ok h
  rw [List.mapM_pure] at hus
  obtain rfl := Except.ok.inj (congrArg Prod.fst hus)
  exact ⟨base, ps, hbase, hps, rfl⟩

theorem appliedPure_of_fixed (full : create = true → (t.grow p.segments).1 = t)
    (fixed : ∀ ps, t.addressed true p.segments = .ok ps → ∀ q ∈ ps, ∀ u, t.get? q = some u →
      f u = u) :
    p.appliedPure create (fun u => .ok (f u)) t =
      (p.locate t).map fun ps => (t, ps.length) := by
  change ((p.applied create (fun u => pure (f u)) t).run ()).1 = _
  cases haddressed : t.addressed true p.segments with
  | error m =>
    have hlocate : p.locate t = .error (m.toError p.source) := by
      rw [locate, haddressed]
      rfl
    rw [hlocate]
    cases create with
    | true => rw [run_applied_creating_of_error _ _ haddressed]; rfl
    | false => rw [run_applied_of_error _ _ haddressed]; rfl
  | ok ps =>
    have hsame : t.setAll (t.mapped f ps) = t := by
      refine Tree.setAll_eq_self fun x hx => ?_
      have there : ∀ q ∈ ps, (t.get? q).isSome := fun q hq =>
        ((Tree.mem_addressed_iff haddressed).1 hq).get?_isSome
      obtain ⟨hmem, hx⟩ := (Tree.mem_mapped (p := x.1) (v := x.2) there).1 hx
      obtain ⟨u, hu, hux⟩ := Option.map_eq_some_iff.1 hx
      rw [hu, ← hux, fixed ps haddressed x.1 hmem u hu]
    rw [locate_eq_ok.2 haddressed]
    cases create with
    | true =>
      obtain ⟨qs, hqs, hrun⟩ := run_applied_creating_of_ok (fun u => pure (f u)) () haddressed
      rw [full rfl] at hqs hrun
      obtain rfl := Except.ok.inj (haddressed.symm.trans hqs)
      rw [hrun, editAt_pure, pure_bind, hsame, ite_self]
      rfl
    | false =>
      rw [run_applied_of_ok _ _ haddressed, editAt_pure, hsame]
      rfl

end FieldPath

def FieldSpec.AddsAt (specs : List FieldSpec) (t : Tree) (q : Position) : Prop :=
  ∃ spec ∈ specs, spec.create = true ∧ ∃ p, spec.fieldPath = .ok p ∧ t.Lacks p.segments q

def FieldSpec.Full (specs : List FieldSpec) (t : Tree) : Prop :=
  ∀ spec ∈ specs, spec.create = true → ∀ p, spec.fieldPath = .ok p → ∀ q, ¬ t.Lacks p.segments q

structure NodeEdit where
  node : Tree → Tree
  text : String → String
  /-- The edit of the node at one position reaches the text at the other. -/
  reaches : Position → Position → Bool
  prefix_of_reaches : ∀ {p q : Position}, reaches p q = true → p <+: q
  evolves : ∀ {t : Tree} {ps : List Position}, (∀ p ∈ ps, (t.get? p).isSome) →
    ps.Pairwise Position.Apart →
    Evolves (fun q s => if ps.any (reaches · q) then text s else s) (fun _ => False) t
      (t.setAll (t.mapped node ps))

namespace NodeEdit

variable {e : NodeEdit} {specs before rest : List FieldSpec} {spec : FieldSpec} {p : FieldPath}
  {t u u' : Tree} {n : Nat}

def timesNamed (e : NodeEdit) (specs : List FieldSpec) (t : Tree) (q : Position) : Nat :=
  specs.countP fun spec => (nodesAt spec.path t).any (e.reaches · q)

def edited (e : NodeEdit) (specs : List FieldSpec) (t : Tree) (q : Position) (s : String) :
    String :=
  e.text^[e.timesNamed specs t q] s

def turn (e : NodeEdit) (t : Tree) (spec : FieldSpec) : Except Error Tree := do
  let p ← spec.fieldPath
  return (← p.appliedPure spec.create (fun u => .ok (e.node u)) t).1

theorem turn_eq_ok (h : e.turn u spec = .ok u') : ∃ p n, spec.fieldPath = .ok p ∧
    p.appliedPure spec.create (fun u => .ok (e.node u)) u = .ok (u', n) := by
  obtain ⟨p, hp, h⟩ := bind_eq_ok.1 h
  obtain ⟨⟨u₁, n⟩, happly, h⟩ := bind_eq_ok.1 h
  obtain rfl := pure_eq_ok.1 h
  exact ⟨p, n, hp, happly⟩

theorem timesNamed_append_singleton (e : NodeEdit) (q : Position) :
    e.timesNamed (before ++ [spec]) t q =
      e.timesNamed before t q + if (nodesAt spec.path t).any (e.reaches · q) then 1 else 0 := by
  simp [timesNamed, List.countP_append, List.countP_singleton]

theorem any_reaches_iff {f : Position → String → String} {a : Position → Prop}
    {segments : List Segment} {ps qs : List Position} {q : Position} (ev : Evolves f a t u)
    (k : KeepsCompared f t segments) (hqs : u.addressed true segments = .ok qs)
    (hps : t.addressed true segments = .ok ps) (there : (t.get? q).isSome) :
    qs.any (e.reaches · q) = true ↔ ps.any (e.reaches · q) = true := by
  have haround : ∀ r, e.reaches r q = true → (r ∈ qs ↔ r ∈ ps) := by
    intro r hr
    obtain ⟨x, rfl⟩ := e.prefix_of_reaches hr
    rw [Tree.get?_append] at there
    exact ev.mem_addressed_iff k hqs hps (Option.isSome_of_isSome_bind there)
  rw [List.any_eq_true, List.any_eq_true]
  exact exists_congr fun r => and_congr_left (haround r)

theorem exists_evolves_of_appliedPure {create : Bool}
    (h : p.appliedPure create (fun u => .ok (e.node u)) u = .ok (u', n)) :
    ∃ base ps, base.addressed true p.segments = .ok ps ∧
      Evolves (fun _ s => s) (fun q => create = true ∧ u.Lacks p.segments q) u base ∧
      Evolves (fun q s => if ps.any (e.reaches · q) then e.text s else s)
        (fun q => create = true ∧ u.Lacks p.segments q) u u' := by
  obtain ⟨base, ps, hbase, hps, rfl⟩ := FieldPath.appliedPure_eq_ok h
  have hgrown : Evolves (fun _ s => s) (fun q => create = true ∧ u.Lacks p.segments q) u base := by
    cases create with
    | true =>
      rw [hbase]
      exact (u.evolves_grow p.segments).mono (fun _ _ _ => rfl) fun _ hq => ⟨rfl, hq⟩
    | false => exact hbase ▸ .refl u
  refine ⟨base, ps, hps, hgrown, ?_⟩
  split
  · rename_i hnil
    subst hnil
    exact .refl u
  · have hedit := e.evolves (fun q hq => ((Tree.mem_addressed_iff hps).1 hq).get?_isSome)
      (Tree.addressed_pairwise_apart true base _ hps)
    exact (hgrown.trans hedit).mono (fun _ _ _ => rfl) fun q hq => hq.elim id False.elim

theorem evolves_turn (k : ∀ p, spec.fieldPath = .ok p →
      KeepsCompared (e.edited before t) t p.segments)
    (ev : Evolves (e.edited before t) (FieldSpec.AddsAt before t) t u)
    (h : e.turn u spec = .ok u') :
    Evolves (e.edited (before ++ [spec]) t) (FieldSpec.AddsAt (before ++ [spec]) t) t u' := by
  obtain ⟨p, n, hp, happly⟩ := turn_eq_ok h
  obtain ⟨base, ps, hps, hbase, hstep⟩ := exists_evolves_of_appliedPure happly
  have ebase := ev.trans hbase
  obtain ⟨ps₀, hps₀⟩ := ebase.exists_addressed (k p hp) hps
  have hnodes : nodesAt spec.path t = ps₀ :=
    nodesAt_of_located (located_eq_ok.2 ⟨p, mapError_eq_ok.1 hp, hps₀⟩)
  refine (ev.trans hstep).mono (fun q s hs => ?_) fun q hq => ?_
  · have hreached := any_reaches_iff (e := e) ebase (k p hp) hps hps₀ (Option.isSome_of_eq_some hs)
    rw [edited, edited, timesNamed_append_singleton, hnodes]
    by_cases hq : ps₀.any (e.reaches · q) = true
    · rw [if_pos (hreached.2 hq), if_pos hq, Function.iterate_succ_apply']
    · rw [if_neg (mt hreached.1 hq), if_neg hq, Nat.add_zero]
  · rcases hq with ⟨spec', hspec', hadds⟩ | ⟨hcreate, hlacks⟩
    · exact ⟨spec', List.mem_append_left _ hspec', hadds⟩
    · exact ⟨spec, by simp, hcreate, p, hp, hlacks.of_evolves ev (k p hp)⟩

/-- No edit by the specs before a spec changes the outcome of a comparison on its path. -/
def KeepsInTurn (e : NodeEdit) (specs : List FieldSpec) (t : Tree) : Prop :=
  ∀ before spec after, specs = before ++ spec :: after → ∀ c ∈ comparedAt spec.path t,
    ∀ s, t.get? c.1 = some (.text s) → (e.edited before t c.1 s = c.2 ↔ s = c.2)

theorem keepsInTurn_of_nil (h : ∀ spec ∈ specs, comparedAt spec.path t = []) :
    e.KeepsInTurn specs t := by
  rintro before spec after rfl c hc
  rw [h spec (by simp)] at hc
  cases hc

theorem comparedAt_eq (hp : spec.fieldPath = .ok p) (t : Tree) :
    comparedAt spec.path t = t.compared p.segments := by
  rw [comparedAt, mapError_eq_ok.1 hp]
  rfl

theorem KeepsInTurn.keepsCompared (k : e.KeepsInTurn (before ++ spec :: rest) t)
    (hp : spec.fieldPath = .ok p) : KeepsCompared (e.edited before t) t p.segments := by
  rw [KeepsCompared, ← comparedAt_eq hp]
  exact k before spec rest rfl

theorem evolves_foldlM (k : e.KeepsInTurn (before ++ rest) t)
    (ev : Evolves (e.edited before t) (FieldSpec.AddsAt before t) t u)
    (h : rest.foldlM e.turn u = .ok u') :
    Evolves (e.edited (before ++ rest) t) (FieldSpec.AddsAt (before ++ rest) t) t u' := by
  induction rest generalizing before u with
  | nil =>
    obtain rfl := pure_eq_ok.1 h
    rwa [List.append_nil]
  | cons spec rest ih =>
    rw [List.foldlM_cons] at h
    obtain ⟨u₁, hu₁, h⟩ := bind_eq_ok.1 h
    have ev₁ := evolves_turn (fun p hp => k.keepsCompared hp) ev hu₁
    rw [List.append_cons] at k ⊢
    exact ih k ev₁ h

theorem evolves_nil (e : NodeEdit) (t : Tree) :
    Evolves (e.edited [] t) (FieldSpec.AddsAt [] t) t t :=
  (Evolves.refl (a := fun _ => False) t).mono (fun _ _ _ => rfl) fun _ => False.elim

theorem evolves_of_foldlM (k : e.KeepsInTurn specs t) (h : specs.foldlM e.turn t = .ok u) :
    Evolves (e.edited specs t) (FieldSpec.AddsAt specs t) t u :=
  evolves_foldlM k (evolves_nil e t) h

/-- However often the text is edited on the way, no comparison with it on the path of a spec has
another outcome. -/
def KeepsComparisons (e : NodeEdit) (specs : List FieldSpec) (t : Tree) : Prop :=
  ∀ spec ∈ specs, ∀ c ∈ comparedAt spec.path t, ∀ s, t.get? c.1 = some (.text s) →
    ∀ n ≤ e.timesNamed specs t c.1, (e.text^[n] s = c.2 ↔ s = c.2)

theorem keepsComparisons_of_nil (h : ∀ spec ∈ specs, comparedAt spec.path t = []) :
    e.KeepsComparisons specs t := by
  intro spec hspec c hc
  rw [h spec hspec] at hc
  cases hc

theorem KeepsComparisons.edited_eq_iff (k : e.KeepsComparisons (before ++ rest) t)
    (hspec : spec ∈ before ++ rest) : ∀ c ∈ comparedAt spec.path t,
      ∀ s, t.get? c.1 = some (.text s) → (e.edited before t c.1 s = c.2 ↔ s = c.2) := by
  intro c hc s hs
  refine k spec hspec c hc s hs _ ?_
  rw [timesNamed, timesNamed, List.countP_append]
  exact Nat.le_add_right _ _

theorem KeepsComparisons.keepsInTurn (k : e.KeepsComparisons specs t) : e.KeepsInTurn specs t := by
  rintro before spec after rfl
  exact k.edited_eq_iff (by simp)

theorem KeepsComparisons.keepsCompared (k : e.KeepsComparisons (before ++ rest) t)
    (hspec : spec ∈ before ++ rest) (hp : spec.fieldPath = .ok p) :
    KeepsCompared (e.edited before t) t p.segments := by
  rw [KeepsCompared, ← comparedAt_eq hp]
  exact k.edited_eq_iff hspec

theorem KeepsComparisons.keepsCompared_all (k : e.KeepsComparisons specs t) (hspec : spec ∈ specs)
    (hp : spec.fieldPath = .ok p) : KeepsCompared (e.edited specs t) t p.segments := by
  rw [← specs.append_nil] at k hspec
  exact k.keepsCompared hspec hp

theorem full_turn (k : e.KeepsComparisons (before ++ spec :: rest) t)
    (ev : Evolves (e.edited before t) (FieldSpec.AddsAt before t) t u)
    (full : FieldSpec.Full before u) (h : e.turn u spec = .ok u') :
    FieldSpec.Full (before ++ [spec]) u' := by
  have k' : e.KeepsComparisons (before ++ [spec] ++ rest) t := by
    rwa [List.append_assoc, List.singleton_append]
  have ev' := evolves_turn (fun p hp => k.keepsCompared (by simp) hp) ev h
  obtain ⟨p, n, hp, happly⟩ := turn_eq_ok h
  intro spec' hspec' hcreate p' hp' q hlacks
  have hmem' : spec' ∈ before ++ spec :: rest := by
    rw [List.append_cons]
    exact List.mem_append_left rest hspec'
  have hbefore := k.keepsCompared hmem' hp'
  have hafter := k'.keepsCompared (List.mem_append_left rest hspec') hp'
  rcases List.mem_append.1 hspec' with hmem | hmem
  · obtain ⟨base, ps, -, -, hstep⟩ := exists_evolves_of_appliedPure happly
    have hkept := KeepsCompared.of_evolves ev hstep ev' hbefore hafter
    exact full spec' hmem hcreate p' hp' q (hlacks.of_evolves hstep hkept)
  · obtain rfl := List.mem_singleton.1 hmem
    obtain rfl := Except.ok.inj (hp.symm.trans hp')
    obtain ⟨base, ps, hbase, hps, rfl⟩ := FieldPath.appliedPure_eq_ok happly
    rw [hcreate, if_pos rfl] at hbase
    subst hbase
    have hgrown := u.evolves_grow p.segments
    have haddressed := hgrown.exists_addressed (u.keepsCompared_id p.segments) hps
    by_cases hnil : ps = []
    · rw [if_pos hnil] at hlacks
      obtain ⟨r, hr⟩ := hlacks.exists_addresses haddressed
      rw [hnil] at hps
      cases (Tree.mem_addressed_iff hps).2 hr
    · rw [if_neg hnil] at hlacks ev'
      have hedit := e.evolves (fun r hr => ((Tree.mem_addressed_iff hps).1 hr).get?_isSome)
        (Tree.addressed_pairwise_apart true _ _ hps)
      have hkept := KeepsCompared.of_evolves (ev.trans hgrown) hedit ev' hbefore hafter
      exact Tree.not_lacks_grow haddressed (hlacks.of_evolves hedit hkept)

theorem full_foldlM (k : e.KeepsComparisons (before ++ rest) t)
    (ev : Evolves (e.edited before t) (FieldSpec.AddsAt before t) t u)
    (full : FieldSpec.Full before u) (h : rest.foldlM e.turn u = .ok u') :
    FieldSpec.Full (before ++ rest) u' := by
  induction rest generalizing before u with
  | nil =>
    obtain rfl := pure_eq_ok.1 h
    rwa [List.append_nil]
  | cons spec rest ih =>
    rw [List.foldlM_cons] at h
    obtain ⟨u₁, hu₁, h⟩ := bind_eq_ok.1 h
    have ev₁ := evolves_turn (fun p hp => k.keepsCompared (by simp) hp) ev hu₁
    have full₁ := full_turn k ev full hu₁
    rw [List.append_cons] at k ⊢
    exact ih k ev₁ full₁ h

theorem full_of_foldlM (k : e.KeepsComparisons specs t) (h : specs.foldlM e.turn t = .ok u) :
    FieldSpec.Full specs u :=
  full_foldlM k (evolves_nil e t) nofun h

theorem editFields_eq_ok {d d' : Document} :
    Document.editFields specs (fun u => .ok (e.node u)) d = .ok d' ↔
      ∃ t, (specs.filter (·.appliesTo d.type)).foldlM e.turn d.tree = .ok t ∧
        d' = { d with tree := t } := by
  rw [Document.editFields, bind_eq_ok]
  exact exists_congr fun t => and_congr_right fun _ => pure_eq_ok.trans eq_comm

theorem turn_of_fixed (full : FieldSpec.Full specs u) (hspec : spec ∈ specs)
    (fixed : ∀ q ∈ nodesAt spec.path u, ∀ v, u.get? q = some v → e.node v = v) :
    e.turn u spec = (located spec.path u).map fun _ => u := by
  rw [turn, located]
  cases hp : spec.fieldPath with
  | error err =>
    rw [FieldSpec.fieldPath] at hp
    rw [hp]
    rfl
  | ok p =>
    have hfull : spec.create = true → (u.grow p.segments).1 = u := fun hcreate =>
      Tree.grow_eq_self_of_not_lacks (full spec hspec hcreate p hp)
    have hrun := FieldPath.appliedPure_of_fixed hfull fun ps hps => by
      rwa [nodesAt_of_located (located_eq_ok.2 ⟨p, mapError_eq_ok.1 hp, hps⟩)] at fixed
    rw [FieldSpec.fieldPath] at hp
    rw [hp]
    change (p.appliedPure spec.create (fun u => .ok (e.node u)) u >>= fun x => pure x.1) =
      (p.locate u).map fun _ => u
    rw [hrun]
    cases p.locate u <;> rfl

theorem foldlM_of_fixed (full : FieldSpec.Full specs u)
    (fixed : ∀ spec ∈ specs, ∀ q ∈ nodesAt spec.path u, ∀ v, u.get? q = some v → e.node v = v) :
    specs.foldlM e.turn u = .ok u' ↔
      u' = u ∧ ∀ spec ∈ specs, ∃ ps, located spec.path u = .ok ps := by
  have hturn : ∀ spec ∈ specs, e.turn u spec = (located spec.path u).map fun _ => u :=
    fun spec hspec => turn_of_fixed full hspec (fixed spec hspec)
  clear full fixed
  induction specs with
  | nil =>
    rw [List.foldlM_nil, pure_eq_ok]
    exact ⟨fun h => ⟨h.symm, List.forall_mem_nil _⟩, fun h => h.1.symm⟩
  | cons spec specs ih =>
    obtain ⟨hspec, hspecs⟩ := List.forall_mem_cons.1 hturn
    rw [List.foldlM_cons, hspec, List.forall_mem_cons]
    cases hlocated : located spec.path u with
    | error err =>
      refine ⟨nofun, ?_⟩
      rintro ⟨-, ⟨ps, hps⟩, -⟩
      cases hps
    | ok ps =>
      refine (ih hspecs).trans (and_congr_right fun _ => ?_)
      exact ⟨fun h => ⟨⟨ps, rfl⟩, h⟩, fun h => h.2⟩

end NodeEdit

end Manifest
