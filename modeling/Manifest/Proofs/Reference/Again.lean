import Manifest.Proofs.Reference.Order
import Manifest.Proofs.Reference.Runs

namespace Manifest.Reference

variable {renames renames' : List Rename} {name : String} {d d' : Document}

structure Repeats (name : String) (renames renames' : List Rename) : Prop where
  plain : ∀ r ∈ renames, r.old.name.toList.all isNameChar = true
  new : ∀ r ∈ renames, r.new = name
  new' : ∀ r ∈ renames', r.new = name
  known : ∀ r ∈ renames', ∃ r' ∈ renames, r.old = r'.old ∨ r.old = r'.old.withName name

theorem namesAgree_of_new {rules : Rules} (new : ∀ r ∈ renames, r.new = name) :
    NamesAgree rules renames d := by
  intro x _ p hp p' hp' heq
  obtain ⟨r, hr, rfl⟩ := exists_rename_of_mem_pairsIn hp
  obtain ⟨r', hr', rfl⟩ := exists_rename_of_mem_pairsIn hp'
  exact Prod.ext heq ((new r hr).trans (new r' hr').symm)

theorem repaired_builtin_eq_ok (wf : d.tree.WellFormed) (agree : NamesAgree .builtin renames d) :
    repaired .builtin renames d = .ok d' ↔
      (∀ x ∈ referrals .builtin renames d, ∃ ps, located x.1 d.tree = .ok ps) ∧
        renamedAtOnce .builtin renames d = d' := by
  rw [repaired_eq_repairedAtOnce wf (pathsApart_builtin renames d) agree
    (matchesKept_builtin renames d), map_eq_ok]
  simp only [repairedAtOnce_eq_ok]
  constructor
  · rintro ⟨y, ⟨hwalk, rfl⟩, rfl⟩
    exact ⟨hwalk, rfl⟩
  · rintro ⟨hwalk, rfl⟩
    exact ⟨_, ⟨hwalk, rfl⟩, rfl⟩

theorem exists_keyed_of_referral {x : String × (String × String)}
    (hx : x ∈ referrals .builtin renames d) : ∃ keys, FieldPath.Keyed x.1 keys := by
  obtain ⟨e, he, heq⟩ := exists_mem_of_referral hx
  obtain ⟨k, spec, keys, hf, hpath, -⟩ := exists_keys_of_mem_pairsByPath (List.mem_map_of_mem he)
  exact ⟨keys, by rw [← heq, ← hpath]; exact hf.keyed⟩

theorem renameText_again {pairs pairs' : NamePairs}
    (plain : ∀ p ∈ pairs, p.1.toList.all isNameChar = true) (hne : name ≠ "")
    (all : name.toList.all isNameChar = true) (new : ∀ p ∈ pairs, p.2 = name)
    (new' : ∀ p ∈ pairs', p.2 = name) (known : ∀ p ∈ pairs', p.1 = name ∨ p ∈ pairs) (s : String) :
    (renameText pairs' ((renameText pairs s).getD s)).getD ((renameText pairs s).getD s) =
      (renameText pairs s).getD s := by
  refine String.toList_inj.1 ?_
  rw [toList_getD_renameText pairs', toList_getD_renameText pairs]
  refine getD_renameTokens?_again (List.forall_mem_map.2 plain) (by simpa using hne) all
    (List.forall_mem_map.2 fun p hp => congrArg String.toList (new p hp))
    (List.forall_mem_map.2 fun p hp => congrArg String.toList (new' p hp))
    (List.forall_mem_map.2 fun p hp => ?_) s.toList
  exact (known p hp).imp (congrArg String.toList) fun hp' => List.mem_map_of_mem hp'

namespace Repeats

variable (h : Repeats name renames renames')

include h

theorem exists_referral (same : d'.SameIdentity d) {path : String} {pair : String × String}
    (hpair : (path, pair) ∈ referrals .builtin renames' d') :
    ∃ pair', (path, pair') ∈ referrals .builtin renames d ∧
      (pair.1 = name ∨ pair = pair') := by
  obtain ⟨r, hr, hns, hpath, rfl⟩ := mem_referrals.1 hpair
  obtain ⟨r', hr', hold⟩ := h.known r hr
  have htype : r.old.type = r'.old.type := by rcases hold with hold | hold <;> rw [hold]; rfl
  have hns' : r.old.inNamespace d'.ns = r'.old.inNamespace d.ns := by
    rw [same.ns_eq]
    rcases hold with hold | hold <;> rw [hold]
    rfl
  have hpath' : path ∈ referringPaths .builtin d.type r' := by
    rw [← same.type_eq]
    rwa [referringPaths, htype] at hpath
  refine ⟨(r'.old.name, r'.new), mem_referrals.2 ⟨r', hr', hns' ▸ hns, hpath', rfl⟩, ?_⟩
  rcases hold with hold | hold
  · exact .inr (by rw [hold, h.new r' hr', h.new' r hr])
  · exact .inl (congrArg Identity.name hold)

theorem referenceEdit_again (hne : name ≠ "") (all : name.toList.all isNameChar = true)
    (same : d'.SameIdentity d) (outline : d'.tree.outline = d.tree.outline) (q : Position)
    (s : String) :
    (referenceEdit .builtin renames' d' q ((referenceEdit .builtin renames d q s).getD s)).getD
        ((referenceEdit .builtin renames d q s).getD s) =
      (referenceEdit .builtin renames d q s).getD s := by
  refine renameText_again (fun p hp => ?plain) hne all (fun p hp => ?new) (fun p hp => ?new')
    (fun p hp => ?known) s
  case plain =>
    obtain ⟨r, hr, rfl⟩ := exists_rename_of_mem_pairsIn hp
    exact h.plain r hr
  case new =>
    obtain ⟨r, hr, rfl⟩ := exists_rename_of_mem_pairsIn hp
    exact h.new r hr
  case new' =>
    obtain ⟨r, hr, rfl⟩ := exists_rename_of_mem_pairsIn hp
    exact h.new' r hr
  case known =>
    obtain ⟨path, hpath, hin⟩ := mem_pairsIn.1 hp
    obtain ⟨keys, keyed⟩ := exists_keyed_of_referral hpath
    obtain ⟨pair', hpair', heq⟩ := h.exists_referral same hpath
    -- the path leads to the same places, as keys are all that it follows
    rw [nodesAt_congr keyed outline] at hin
    rcases heq with hname | rfl
    · exact .inl hname
    · exact .inr (mem_pairsIn.2 ⟨path, hpair', hin⟩)

theorem repaired (hne : name ≠ "") (all : name.toList.all isNameChar = true)
    (wf : d.tree.WellFormed) (hd' : Reference.repaired .builtin renames d = .ok d') :
    Reference.repaired .builtin renames' d' = .ok d' := by
  have same := sameIdentity_repaired hd'
  obtain ⟨hwalk, rfl⟩ := (repaired_builtin_eq_ok wf (namesAgree_of_new h.new)).1 hd'
  have houtline := Tree.outline_rewrite (referenceEdit .builtin renames d) d.tree
  refine (repaired_builtin_eq_ok (Tree.wellFormed_rewrite wf) (namesAgree_of_new h.new')).2
    ⟨fun x hx => ?_, Document.withTree_eq_self_iff.2 (Tree.mapTexts_eq_self ?_)⟩
  · obtain ⟨pair', hpair', -⟩ := h.exists_referral same hx
    obtain ⟨keys, keyed⟩ := exists_keyed_of_referral hx
    obtain ⟨ps, hps⟩ := hwalk _ hpair'
    exact ⟨ps, (located_congr keyed houtline).trans hps⟩
  · rw [renamedAtOnce, Tree.rewrite, Tree.texts_mapTexts, List.forall_mem_map]
    exact fun x _ => h.referenceEdit_again hne all same houtline x.1 x.2

theorem map_repaired (hne : name ≠ "") (all : name.toList.all isNameChar = true)
    {ds ds' : List Document} (wf : ∀ d ∈ ds, d.tree.WellFormed)
    (hds' : ds.map (Reference.repaired .builtin renames) = ds'.map .ok) :
    ds'.map (Reference.repaired .builtin renames') = ds'.map .ok :=
  List.map_inj_left.2 <| forall_of_map_eq_ok hds' fun d hd _ => h.repaired hne all (wf d hd)

end Repeats

end Manifest.Reference
