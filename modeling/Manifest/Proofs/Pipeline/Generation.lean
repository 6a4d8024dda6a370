import Manifest.Proofs.Pipeline
import Manifest.Proofs.Reference.Tally

namespace Manifest

open Reference

namespace Reference

def Rules.Covers (rules : Rules) (d : Document) (q : Position) : Prop :=
  ∃ rule ∈ rules.names, ∃ spec ∈ rule.fields, spec.appliesTo d.type = true ∧
    Position.within (nodesAt spec.path d.tree) q = true

structure Rules.SameOutside (rules : Rules) (d d' : Document) : Prop where
  id_eq : d'.id = d.id
  previous_eq : d'.previous = d.previous
  outline_eq : d'.tree.outline = d.tree.outline
  text_eq : ∀ q s, d.tree.get? q = some (.text s) → ¬ rules.Covers d q →
    d'.tree.get? q = some (.text s)

variable {renames : List Rename} {d d' : Document} {path : String} {pairs : NamePairs}
  {t t' : Tree} {q : Position} {s : String}

theorem get?_renameAt_text (h : renameAt path pairs t = .ok t') (hs : t.get? q = some (.text s))
    (outside : Position.within (nodesAt path t) q = false) : t'.get? q = some (.text s) := by
  obtain ⟨p, ps, hp, hps, -, -, hout⟩ := renameAt_eq_ok h
  rw [nodesAt_of_located (located_eq_ok.2 ⟨p, hp, hps⟩)] at outside
  rw [hout q fun r hr => ?_, hs]
  have hthere := (Tree.addresses_of_mem_addressed true t _ hps hr).get?_isSome
  exact Tree.IsLeaf.apart (.inr ⟨s, hs⟩) hthere fun hle =>
    Bool.false_ne_true (outside.symm.trans (Position.within_eq_true_iff.2 ⟨r, hr, hle⟩))

theorem sameOutside_repaired (h : repaired .builtin renames d = .ok d') :
    Rules.builtin.SameOutside d d' := by
  have same := sameIdentity_repaired h
  have htree := (repaired_eq_ok.1 h).1
  refine ⟨same.id_eq, same.previous, outline_renameAll htree, fun q s hs hout => ?_⟩
  refine (foldlM_invariant (P := fun u => u.outline = d.tree.outline ∧
    u.get? q = some (.text s)) (fun u e u' he hu hstep => ?_) ⟨rfl, hs⟩ htree).2
  obtain ⟨r, -, -, hpath⟩ := mem_keys_pairsByPath.1 (List.mem_map_of_mem he)
  obtain ⟨rule, hrule, -, spec, hspec, happ, hpath⟩ := mem_referringPaths.1 hpath
  obtain ⟨k, keys, -, hf⟩ := builtinField_of_mem hrule hspec
  obtain ⟨_, _, _, _, hline, _⟩ := renameAt_eq_ok hstep
  refine ⟨hline.trans hu.1, get?_renameAt_text hstep hu.2 ?_⟩
  rw [← hpath, nodesAt_congr hf.keyed hu.1, ← Bool.not_eq_true]
  exact fun hin => hout ⟨rule, hrule, spec, hspec, happ, hin⟩

end Reference

theorem Generator.exists_kind_of_generate {w : Workspace} {g : Generator} {d : Document}
    (h : g.generate w = .ok d) : ∃ k : MapKind, d.kind = k.name := by
  obtain ⟨r, hr⟩ : ∃ r : MapRecipe, r.generate w = .ok d := by
    cases g with
    | map r => exact ⟨r, h⟩
    | layeredMap m => exact ⟨m.recipe, h⟩
  obtain ⟨ps, name, -, -, htree, -⟩ := MapRecipe.tree_of_generate hr
  exact ⟨r.kind, MapRecipe.kind_of_tree htree⟩

namespace Pipeline

variable {w : Workspace} {p : Pipeline} {s out : Store}

theorem run_without_transformers (builtin : p.rules = .builtin) (alone : p.transformers = [])
    (h : p.run w s = .ok out) : ∃ rs ds, out.documents = rs ++ ds ∧
      p.generators.map (Generator.generate w) = ds.map .ok ∧
      List.Forall₂ Rules.builtin.SameOutside s.documents rs := by
  obtain ⟨s₁, s₂, k, hgenerate, hrepair, hrest⟩ := run_eq_ok.1 h
  rw [alone] at hrest
  obtain rfl : s₂ = out := pure_eq_ok.1 hrest
  obtain ⟨ds, hds, hdocs⟩ := documents_generateAll hgenerate
  rw [builtin] at hrepair
  have hall := repair_eq_ok.1 ⟨k, hrepair⟩
  have hsame : ds.map (repaired .builtin (pastRenames s₁)) = ds.map .ok := by
    refine List.map_congr_left fun d hd => ?_
    obtain ⟨g, -, hg⟩ := List.mem_map.1 (hds ▸ List.mem_map_of_mem hd :
      .ok d ∈ p.generators.map (Generator.generate w))
    obtain ⟨m, hm⟩ := Generator.exists_kind_of_generate hg
    exact repaired_map m hm
  rw [hdocs, List.map_append, hsame] at hall
  obtain ⟨rs, ds', hout, hrs, hds'⟩ := List.map_eq_append_iff.1 hall.symm
  obtain rfl : ds' = ds := List.map_injective_iff.2 (fun _ _ => Except.ok.inj) hds'
  exact ⟨rs, ds', hout, hds, forall₂_of_map_eq_ok hrs.symm fun _ _ _ => sameOutside_repaired⟩

theorem run_without_transformers_settings : ∃ out rs ds,
    { settingsPipeline with transformers := [] }.run ⟨".", {}, []⟩ ⟨[podWithVolume "settings"]⟩ =
      .ok out ∧ out.documents = rs ++ ds ∧
        [LayeredMap.settings.generate ⟨".", {}, []⟩] = ds.map .ok ∧
        List.Forall₂ Rules.builtin.SameOutside [podWithVolume "settings"] rs := by
  obtain ⟨d, e, -, -, -, hrun⟩ := exists_settings_generated ⟨".", {}, []⟩
  obtain ⟨rs, ds, hdocs, hds, hrs⟩ := run_without_transformers rfl rfl hrun
  exact ⟨_, rs, ds, hrun, hdocs, hds, hrs⟩

end Pipeline

end Manifest
