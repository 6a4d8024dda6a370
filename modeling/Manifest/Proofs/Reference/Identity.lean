import Manifest.Proofs.FieldPath.KeepsChecked
import Manifest.Proofs.Reference.Builtin
import Manifest.Proofs.Store

namespace Manifest.Reference

variable {rules : Rules} {renames : List Rename} {d d' : Document} {s s' : Store}

def Rules.SpareIdentity (rules : Rules) : Prop :=
  ∀ rule ∈ rules.names, ∀ spec ∈ rule.fields, ∀ p, FieldPath.parse spec.path = .ok p →
    ∀ keys ∈ Document.identityFields, ¬ p.LeadsTo keys

theorem spareIdentity_builtin : Rules.builtin.SpareIdentity := by
  intro rule hrule spec hspec p hp keys hkeys
  obtain ⟨k, segments, -, hf⟩ := builtinField_of_mem hrule hspec
  obtain ⟨key, rest, rfl, hkey⟩ := hf.head
  obtain rfl := Except.ok.inj (hf.keyed.symm.trans hp)
  have hne : ∀ keys ∈ Document.identityFields, ∀ key ∈ ["spec", "secrets", "imagePullSecrets"],
      keys.head? ≠ some key := by decide
  cases keys with
  | nil => simp [Document.identityFields] at hkeys
  | cons k ks =>
    intro h
    rw [FieldPath.LeadsTo, List.map_cons, List.map_cons, List.cons_prefix_cons] at h
    exact hne _ hkeys key hkey (by rw [List.head?_cons, Segment.field.inj h.1])

theorem textAt_renameAt {path : String} {pairs : NamePairs} {t t' : Tree} {keys : List String}
    (spared : ∀ p, FieldPath.parse path = .ok p → ¬ p.LeadsTo keys)
    (h : renameAt path pairs t = .ok t') : t'.textAt keys = t.textAt keys := by
  obtain ⟨p, ps, hp, hps, hline, -, hout⟩ := renameAt_eq_ok h
  rw [Tree.textAt, Tree.textAt]
  by_cases leaf : t.IsLeaf (.ofKeys keys)
  · rw [hout _ (Tree.apart_of_not_leadsTo hps (spared p hp) leaf)]
  · -- no text was there, and with the same outline none is there now
    have hget := congrArg (fun u => u.get? (.ofKeys keys)) hline
    simp only [Tree.get?_outline] at hget
    cases hu : t.get? (.ofKeys keys) with
    | none => exact absurd (.inl hu) leaf
    | some u =>
      rw [hu] at hget
      obtain ⟨u', hu', heq⟩ := Option.map_eq_some_iff.1 hget
      rw [hu']
      cases u with
      | text s => exact absurd (.inr ⟨s, hu⟩) leaf
      | _ => cases u' <;> first | rfl | cases heq

theorem textAt_repaired {keys : List String} (spares : rules.SpareIdentity)
    (hkeys : keys ∈ Document.identityFields) (h : repaired rules renames d = .ok d') :
    d'.tree.textAt keys = d.tree.textAt keys := by
  refine foldlM_invariant (P := fun u => u.textAt keys = d.tree.textAt keys)
    (fun u e u' he hu hstep => ?_) rfl (repaired_eq_ok.1 h).1
  obtain ⟨r, -, -, hpath⟩ := mem_keys_pairsByPath.1 (List.mem_map_of_mem he)
  obtain ⟨rule, hrule, -, spec, hspec, -, hpath⟩ := mem_referringPaths.1 hpath
  rw [← hu]
  exact textAt_renameAt (fun p hp => spares rule hrule spec hspec p (hpath ▸ hp) keys hkeys) hstep

theorem id_repaired (spares : rules.SpareIdentity) (h : repaired rules renames d = .ok d') :
    d'.id = d.id :=
  Document.id_eq_of_textAt fun _ hkeys => textAt_repaired spares hkeys h

theorem ids_repair {n : Nat} (spares : rules.SpareIdentity)
    (h : repair rules renames s = .ok (s', n)) : s'.ids = s.ids :=
  map_eq_of_map_eq_ok (repair_eq_ok.1 ⟨n, h⟩) fun _ _ _ => id_repaired spares

theorem renameText_ne_empty {pairs : NamePairs} (new : ∀ p ∈ pairs, p.2 ≠ "") {s s' : String}
    (hs : s ≠ "") (h : renameText pairs s = some s') : s' ≠ "" := by
  obtain ⟨out, hout, rfl⟩ := Option.map_eq_some_iff.1 h
  have hchars : ∀ {s : String}, s ≠ "" → s.toList ≠ [] := mt String.toList_eq_nil_iff.1
  refine mt String.ofList_eq_empty_iff.1 (renameTokens?_ne_nil ?_ (hchars hs) hout)
  rw [List.forall_mem_map]
  exact fun p hp => hchars (new p hp)

theorem keepsTexts_renameAt {path : String} {pairs : NamePairs} {t t' : Tree}
    (new : ∀ p ∈ pairs, p.2 ≠ "") (h : renameAt path pairs t = .ok t') : t.KeepsTexts t' := by
  obtain ⟨p, -, h⟩ := bind_eq_ok.1 h
  obtain ⟨ps, hps, h⟩ := bind_eq_ok.1 h
  obtain rfl : t.setAll (t.mapped (renamed pairs) ps) = t' := pure_eq_ok.1 h
  exact .setAll_mapped (.editTexts fun _ _ hrename hs => renameText_ne_empty new hs hrename)
    (FieldPath.locate_eq_ok.1 hps)

theorem valid_repaired (new : ∀ r ∈ renames, r.new ≠ "") (valid : d.Valid)
    (h : repaired rules renames d = .ok d') : d'.Valid := by
  refine valid.of_keepsChecked (.of_keepsTexts ?_)
  refine foldlM_invariant (P := fun u => d.tree.KeepsTexts u) (fun u e u' he hu hstep => ?_)
    (.refl d.tree) (repaired_eq_ok.1 h).1
  refine hu.trans (keepsTexts_renameAt (fun p hp => ?_) hstep)
  obtain ⟨r, hr, -, -, rfl⟩ := mem_referrals.1 ((mem_pairsByPath he).1 hp)
  exact new r hr

theorem valid_of_repair {n : Nat} (new : ∀ r ∈ renames, r.new ≠ "")
    (valid : s.Valid) (h : repair rules renames s = .ok (s', n)) : s'.Valid :=
  forall_of_map_eq_ok (repair_eq_ok.1 ⟨n, h⟩) fun d hd _ => valid_repaired new (valid d hd)

end Manifest.Reference
