import Manifest.Proofs.FieldPath.Addressed
import Manifest.Proofs.FieldPath.Slashes
import Manifest.Proofs.FieldPath.Steps
import Manifest.Proofs.Reference.Counting
import Manifest.Proofs.Reference.Pairs
import Manifest.Proofs.Reference.Token
import Manifest.Proofs.Success

namespace Manifest.Reference

theorem renameText_eq_none_iff {pairs : NamePairs} {s : String} :
    renameText pairs s = none ↔ ∀ p ∈ pairs, ¬ Stands p.1.toList s.toList := by
  rw [renameText, Option.map_eq_none_iff, renameTokens?_eq_none_iff]
  simp only [List.forall_mem_map]

theorem toList_getD_renameText (pairs : NamePairs) (s : String) :
    ((renameText pairs s).getD s).toList =
      (renameTokens? (pairs.map fun p => (p.1.toList, p.2.toList)) s.toList).getD s.toList := by
  rw [renameText]
  cases renameTokens? (pairs.map fun p => (p.1.toList, p.2.toList)) s.toList with
  | none => rfl
  | some out => exact String.toList_ofList

theorem renameText_of_mem {pairs : NamePairs} {s new : String} (hne : s ≠ "")
    (mem : ∃ p ∈ pairs, p.1 = s) (only : ∀ p ∈ pairs, p.1 = s → p.2 = new) :
    renameText pairs s = some new := by
  have h : renameTokens? (pairs.map fun p => (p.1.toList, p.2.toList)) s.toList =
      some new.toList := by
    refine renameTokens?_of_mem (by simpa using hne) ?_ ?_
    · obtain ⟨p, hp, rfl⟩ := mem
      exact ⟨_, List.mem_map_of_mem hp, rfl⟩
    · simp only [List.forall_mem_map]
      intro p hp heq
      rw [only p hp (String.toList_inj.1 heq)]
  rw [renameText, h, Option.map_some, String.ofList_toList]

def renamed (pairs : NamePairs) (t : Tree) : Tree := (t.editTexts (renameText pairs)).1

def renameAt (path : String) (pairs : NamePairs) (t : Tree) : Except Error Tree := do
  let p ← (FieldPath.parse path).mapError (.path path ·)
  let ps ← p.locate t
  return t.setAll (ps.zip ((ps.filterMap t.get?).map (renamed pairs)))

def renameAll (byPath : Entries NamePairs) (t : Tree) : Except Error Tree :=
  byPath.foldlM (fun t e => renameAt e.1 e.2 t) t

def repaired (rules : Rules) (renames : List Rename) (d : Document) : Except Error Document := do
  return { d with tree := ← renameAll (pairsByPath rules renames d) d.tree }

def repairAt (path : String) (pairs : NamePairs) (t : Tree) : ExceptT Error (StateM Nat) Tree :=
  match FieldPath.parse path with
  | .error fault => throw (.path path fault)
  | .ok p => return (← p.applied false (renameEdit pairs) t).1

theorem repairTree_eq_foldlM (byPath : Entries NamePairs) (t : Tree) :
    repairTree byPath t = byPath.foldlM (fun t e => repairAt e.1 e.2 t) t := rfl

theorem tallies_renameEdit (pairs : NamePairs) (t : Tree) :
    Tallies (renameEdit pairs t) (.ok (renamed pairs t, (t.editTexts (renameText pairs)).2)) :=
  fun _ => rfl

theorem mapM_ok {α β : Type} (g : α → β) (xs : List α) :
    xs.mapM (fun a => (.ok (g a) : Except Error β)) = .ok (xs.map g) := by
  induction xs with
  | nil => rfl
  | cons x xs ih => rw [List.mapM_cons, ih]; rfl

theorem tallies_applied (p : FieldPath) (pairs : NamePairs) (t : Tree) :
    Tallies (p.applied false (renameEdit pairs) t) ((p.locate t).map fun ps =>
      ((t.setAll (t.mapped (renamed pairs) ps), ps.length),
        ((ps.filterMap t.get?).map fun u => (u.editTexts (renameText pairs)).2).sum)) := by
  cases haddressed : t.addressed true p.segments with
  | error m =>
    have hlocate : p.locate t = .error (m.toError p.source) := by
      rw [FieldPath.locate, haddressed]
      rfl
    rw [hlocate]
    exact fun n => ⟨n, FieldPath.run_applied_of_error _ n haddressed⟩
  | ok ps =>
    have hedits : p.applied false (renameEdit pairs) t = FieldPath.editAt t ps (renameEdit pairs) :=
      funext fun n => FieldPath.run_applied_of_ok _ n haddressed
    have h := (Tallies.mapM fun u (_ : u ∈ ps.filterMap t.get?) => tallies_renameEdit pairs u).bind
      fun updates _ _ => .pure (t.setAll (ps.zip updates), ps.length)
    rw [mapM_ok] at h
    rw [hedits, FieldPath.locate_eq_ok.2 haddressed]
    exact h.congr (by simp [Tree.mapped, Except.map, bind, Except.bind, Function.comp_def])

theorem exists_tallies_repairAt (path : String) (pairs : NamePairs) (t : Tree) :
    ∃ r, Tallies (repairAt path pairs t) r ∧ r.map Prod.fst = renameAt path pairs t := by
  rw [repairAt, renameAt]
  cases FieldPath.parse path with
  | error fault => exact ⟨_, .throw _, rfl⟩
  | ok p =>
    refine ⟨_, (tallies_applied p pairs t).bind fun r _ _ => .pure r.1, ?_⟩
    change _ = p.locate t >>= fun ps => _
    cases p.locate t <;> rfl

theorem exists_tallies_repairTree (byPath : Entries NamePairs) (t : Tree) :
    ∃ r, Tallies (repairTree byPath t) r ∧ r.map Prod.fst = renameAll byPath t := by
  rw [repairTree_eq_foldlM, renameAll]
  induction byPath generalizing t with
  | nil => exact ⟨_, .pure t, rfl⟩
  | cons e byPath ih =>
    obtain ⟨r, hr, heq⟩ := exists_tallies_repairAt e.1 e.2 t
    choose later hlater hlatereq using ih
    refine ⟨_, hr.bind fun u _ _ => hlater u, ?_⟩
    rw [List.foldlM_cons, ← heq]
    cases r with
    | error err => rfl
    | ok y =>
      change ((later y.1).map _).map Prod.fst = byPath.foldlM _ y.1
      rw [← hlatereq y.1]
      cases later y.1 <;> rfl

theorem exists_tallies_repairDocument (rules : Rules) (renames : List Rename) (d : Document) :
    ∃ r, Tallies (repairDocument rules renames d) r ∧
      r.map Prod.fst = repaired rules renames d := by
  obtain ⟨r, hr, heq⟩ := exists_tallies_repairTree (pairsByPath rules renames d) d.tree
  refine ⟨_, hr.bind fun t _ _ => .pure { d with tree := t }, ?_⟩
  rw [repaired, ← heq]
  cases r <;> rfl

theorem repair_eq (rules : Rules) (renames : List Rename) (s : Store) :
    ∃ n, repair rules renames s =
      (s.documents.mapM (repaired rules renames)).map fun ds => ({ documents := ds }, n) := by
  obtain ⟨r, hr, heq⟩ :=
    exists_tallies_mapM (exists_tallies_repairDocument rules renames) s.documents
  obtain ⟨n, hn⟩ := hr.exists_run 0
  refine ⟨n, ?_⟩
  rw [repair, hn, heq]
  cases s.documents.mapM (repaired rules renames) <;> rfl

theorem repair_eq_ok {rules : Rules} {renames : List Rename} {s s' : Store} :
    (∃ n, repair rules renames s = .ok (s', n)) ↔
      s.documents.map (repaired rules renames) = s'.documents.map .ok := by
  obtain ⟨n, hn⟩ := repair_eq rules renames s
  rw [hn, ← mapM_eq_ok]
  constructor
  · rintro ⟨_, h⟩
    obtain ⟨ds, hds, h⟩ := map_eq_ok.1 h
    rwa [← (Prod.mk.inj h).1]
  · intro h
    exact ⟨n, by rw [h]; rfl⟩

theorem repaired_getElem? {rules : Rules} {renames : List Rename} {s s' : Store} {n i : Nat}
    {d : Document} (h : repair rules renames s = .ok (s', n)) (hd : s.documents[i]? = some d) :
    ∃ d', s'.documents[i]? = some d' ∧ repaired rules renames d = .ok d' := by
  have hi := congrArg (·[i]?) (repair_eq_ok.1 ⟨n, h⟩)
  simp only [List.getElem?_map, hd, Option.map_some] at hi
  obtain ⟨d', hd', heq⟩ := Option.map_eq_some_iff.1 hi.symm
  exact ⟨d', hd', heq.symm⟩

theorem repaired_eq_ok {rules : Rules} {renames : List Rename} {d d' : Document} :
    repaired rules renames d = .ok d' ↔
      renameAll (pairsByPath rules renames d) d.tree = .ok d'.tree ∧ d'.previous = d.previous := by
  rw [repaired, bind_eq_ok]
  constructor
  · rintro ⟨t, ht, h⟩
    obtain rfl := pure_eq_ok.1 h
    exact ⟨ht, rfl⟩
  · rintro ⟨ht, hprev⟩
    exact ⟨d'.tree, ht, pure_eq_ok.2 (by rw [← hprev])⟩

theorem repaired_of_not_appliesTo {rules : Rules} {d : Document}
    (h : ∀ rule ∈ rules.names, ∀ spec ∈ rule.fields, spec.appliesTo d.type = false)
    (renames : List Rename) : repaired rules renames d = .ok d := by
  have hnil : pairsByPath rules renames d = [] := by
    cases hp : pairsByPath rules renames d with
    | nil => rfl
    | cons e es =>
      have he : e.1 ∈ (pairsByPath rules renames d).keys := by simp [hp, Entries.keys]
      obtain ⟨r, _, _, hpath⟩ := mem_keys_pairsByPath.1 he
      obtain ⟨rule, hrule, _, spec, hspec, happ, _⟩ := mem_referringPaths.1 hpath
      rw [h rule hrule spec hspec] at happ
      cases happ
  exact repaired_eq_ok.2 ⟨by rw [hnil]; rfl, rfl⟩

theorem getLast?_of_repaired {rules : Rules} {renames : List Rename} {ds ds' : List Document}
    {d : Document} (h : ∀ rule ∈ rules.names, ∀ spec ∈ rule.fields, spec.appliesTo d.type = false)
    (hds' : (ds ++ [d]).map (repaired rules renames) = ds'.map .ok) : ds'.getLast? = some d := by
  have hlast := congrArg List.getLast? hds'
  rw [List.map_append, List.map_singleton, List.getLast?_concat, List.getLast?_map,
    repaired_of_not_appliesTo h] at hlast
  obtain ⟨last, hlast, heq⟩ := Option.map_eq_some_iff.1 hlast.symm
  rw [hlast, Except.ok.inj heq]

theorem outline_renamed (pairs : NamePairs) (t : Tree) : (renamed pairs t).outline = t.outline :=
  Tree.outline_editTexts _ t

@[simp] theorem renamed_text (pairs : NamePairs) (s : String) :
    renamed pairs (.text s) = .text ((renameText pairs s).getD s) := by
  rw [renamed, Tree.editTexts]
  cases renameText pairs s <;> rfl

/-- What a rename at one path does: it keeps the outline, renames the addressed nodes, and leaves
alone whatever lies apart from them. -/
theorem renameAt_eq_ok {path : String} {pairs : NamePairs} {t t' : Tree}
    (h : renameAt path pairs t = .ok t') :
    ∃ p ps, FieldPath.parse path = .ok p ∧ t.addressed true p.segments = .ok ps ∧
      t'.outline = t.outline ∧
      (∀ q ∈ ps, t'.get? q = (t.get? q).map (renamed pairs)) ∧
      ∀ q, (∀ p ∈ ps, Position.Apart p q) → t'.get? q = t.get? q := by
  obtain ⟨p, hp, h⟩ := bind_eq_ok.1 h
  obtain ⟨ps, hps, h⟩ := bind_eq_ok.1 h
  replace hp := mapError_eq_ok.1 hp
  replace hps := mapError_eq_ok.1 hps
  obtain rfl : t.setAll (t.mapped (renamed pairs) ps) = t' := pure_eq_ok.1 h
  have there : ∀ q ∈ ps, (t.get? q).isSome := fun q hq =>
    (Tree.addresses_of_mem_addressed true t _ hps hq).get?_isSome
  have apart := Tree.addressed_pairwise_apart true t _ hps
  refine ⟨p, ps, hp, hps, ?_, fun q hq => Tree.get?_setAll_mapped there apart hq,
    fun q hq => Tree.get?_setAll_mapped_of_apart hq⟩
  refine Tree.outline_setAll _ rfl ?_
  rintro ⟨q, v⟩ hq
  obtain ⟨-, hv⟩ := (Tree.mem_mapped there).1 hq
  obtain ⟨u, hu, rfl⟩ := Option.map_eq_some_iff.1 hv
  rw [hu, Option.map_some, outline_renamed]

theorem outline_renameAll {byPath : Entries NamePairs} {t t' : Tree}
    (h : renameAll byPath t = .ok t') : t'.outline = t.outline := by
  refine foldlM_invariant (P := fun u => u.outline = t.outline) (fun u e u' _ hu hstep => ?_) rfl h
  obtain ⟨_, _, _, _, hout, _⟩ := renameAt_eq_ok hstep
  rw [hout, hu]

open FieldPath (Keyed)

def KeysApart (keys keys' : List String) : Prop := ¬ keys <+: keys' ∧ ¬ keys' <+: keys

theorem renameAt_keyed {path : String} {keys : List String} (keyed : Keyed path keys)
    {pairs : NamePairs} {t t' : Tree} (h : renameAt path pairs t = .ok t') :
    ∃ ps, t.addressed true (keys.map .field) = .ok ps ∧
      (∀ q ∈ ps, t'.get? q = (t.get? q).map (renamed pairs)) ∧
      ∀ q : Position, KeysApart keys q.keys → t'.get? q = t.get? q := by
  obtain ⟨p, ps, hp, hps, -, hin, hout⟩ := renameAt_eq_ok h
  obtain rfl := Except.ok.inj (keyed.symm.trans hp)
  refine ⟨ps, hps, hin, fun q hq => hout q fun p hpq => ?_⟩
  have hkeys := (Tree.addresses_of_mem_addressed true t _ hps hpq).keys_eq rfl
  exact Position.apart_of_keys (hkeys ▸ hq.1) (hkeys ▸ hq.2)

theorem exists_renameAll {byPath : Entries NamePairs} {t : Tree}
    (walks : ∀ path ∈ byPath.keys, ∃ keys ps, Keyed path keys ∧
      t.addressed true (keys.map .field) = .ok ps) : ∃ t', renameAll byPath t = .ok t' := by
  induction byPath generalizing t with
  | nil => exact ⟨t, rfl⟩
  | cons e byPath ih =>
    obtain ⟨keys, ps, keyed, hps⟩ := walks e.1 List.mem_cons_self
    obtain ⟨u, hu⟩ : ∃ u, renameAt e.1 e.2 t = .ok u :=
      ⟨_, bind_eq_ok.2 ⟨_, mapError_eq_ok.2 keyed, bind_eq_ok.2 ⟨ps, mapError_eq_ok.2 hps, rfl⟩⟩⟩
    obtain ⟨_, _, _, _, hline, _⟩ := renameAt_eq_ok hu
    have walks' : ∀ path ∈ Entries.keys byPath, ∃ keys ps, Keyed path keys ∧
        u.addressed true (keys.map .field) = .ok ps := by
      intro path hpath
      obtain ⟨keys, ps, keyed, hps⟩ := walks path (List.mem_cons_of_mem _ hpath)
      exact ⟨keys, ps, keyed, (Tree.addressed_congr hline true keys).trans hps⟩
    obtain ⟨t', ht'⟩ := ih walks'
    exact ⟨t', bind_eq_ok.2 ⟨u, hu, ht'⟩⟩

theorem get?_renameAll_of_apart {byPath : Entries NamePairs} {t t' : Tree}
    (h : renameAll byPath t = .ok t') {q : Position}
    (apart : ∀ path ∈ byPath.keys, ∃ keys, Keyed path keys ∧ KeysApart keys q.keys) :
    t'.get? q = t.get? q := by
  refine foldlM_invariant (P := fun u => u.get? q = t.get? q) (fun u e u' he hu hstep => ?_) rfl h
  obtain ⟨keys, keyed, hkeys⟩ := apart e.1 (List.mem_map_of_mem he)
  obtain ⟨_, _, _, hout⟩ := renameAt_keyed keyed hstep
  rw [hout q hkeys, hu]

theorem get?_renameAll_text {byPath : Entries NamePairs} (distinct : Entries.Distinct byPath)
    {t t' : Tree} (h : renameAll byPath t = .ok t') {path : String} {keys : List String}
    (keyed : Keyed path keys)
    (others : ∀ path' ∈ byPath.keys, path' ≠ path →
      ∃ keys', Keyed path' keys' ∧ KeysApart keys' keys)
    {ps : List Position} (addressed : t.addressed true (keys.map .field) = .ok ps) {q : Position}
    (hq : q ∈ ps) {s : String} (hs : t.get? q = some (.text s)) :
    t'.get? q = some (.text ((renameText (pairsAt path byPath) s).getD s)) := by
  have hkeys : q.keys = keys := (Tree.addresses_of_mem_addressed true t _ addressed hq).keys_eq rfl
  induction byPath generalizing t with
  | nil =>
    obtain rfl : t = t' := pure_eq_ok.1 h
    have hnone : renameText [] s = none := renameText_eq_none_iff.2 nofun
    rw [hs, pairsAt, Entries.find?_nil, Option.getD_none, hnone, Option.getD_none]
  | cons e byPath ih =>
    obtain ⟨path', pairs⟩ := e
    obtain ⟨u, hu, h⟩ := bind_eq_ok.1 h
    rw [Entries.Distinct, Entries.keys, List.map_cons, List.nodup_cons] at distinct
    by_cases hpath : path' = path
    · subst hpath
      obtain ⟨ps', hps', hin, -⟩ := renameAt_keyed keyed hu
      obtain rfl := Except.ok.inj (addressed.symm.trans hps')
      rw [get?_renameAll_of_apart h, hin q hq, hs, pairsAt, Entries.find?_cons, if_pos rfl]
      · rw [Option.map_some, renamed_text, Option.getD_some]
      · intro path hp
        rw [hkeys]
        exact others path (List.mem_cons_of_mem _ hp) fun heq => distinct.1 (heq ▸ hp)
    · obtain ⟨keys', keyed', hapart⟩ := others path' List.mem_cons_self hpath
      obtain ⟨_, _, _, hout⟩ := renameAt_keyed keyed' hu
      obtain ⟨_, _, _, _, hline, _⟩ := renameAt_eq_ok hu
      rw [pairsAt, Entries.find?_cons, if_neg hpath]
      refine ih distinct.2 h (fun path hp => others path (List.mem_cons_of_mem _ hp)) ?_ ?_
      · rw [Tree.addressed_congr hline, addressed]
      · rw [hout q (hkeys ▸ hapart), hs]

end Manifest.Reference
