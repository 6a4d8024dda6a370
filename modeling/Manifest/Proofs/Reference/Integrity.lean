import Mathlib.Data.List.Nodup
import Manifest.Proofs.Reference.Builtin
import Manifest.Proofs.Store

namespace Manifest

open Reference

def Store.renameAll (renames : List Rename) (s : Store) : Except Error Store :=
  renames.foldlM (fun s r => s.renamed r.old r.new) s

def Document.renamedBy (renames : List Rename) (d : Document) : Document :=
  match renames.find? (fun r => r.old = d.id) with
  | none => d
  | some r => d.rename r.new

namespace Document

variable {renames : List Rename} {d : Document}

theorem renamedBy_of_mem (once : (renames.map Rename.old).Nodup) {r : Rename} (hr : r ∈ renames)
    (hid : r.old = d.id) : d.renamedBy renames = d.rename r.new := by
  rw [renamedBy, ← hid, Entries.find?_key_of_mem once hr]

theorem renamedBy_of_ne (h : ∀ r ∈ renames, r.old ≠ d.id) : d.renamedBy renames = d := by
  have hnone : renames.find? (fun r => r.old = d.id) = none := by simpa using h
  rw [renamedBy, hnone]

theorem renamedBy_cons_of_ne {r : Rename} (h : r.old ≠ d.id) :
    d.renamedBy (r :: renames) = d.renamedBy renames := by
  rw [renamedBy, List.find?_cons, decide_eq_false h]
  rfl

theorem renamedBy_eq (renames : List Rename) (d : Document) :
    d.renamedBy renames = d ∨ ∃ name, d.renamedBy renames = d.rename name := by
  rw [renamedBy]
  cases renames.find? (fun r => r.old = d.id) with
  | none => exact .inl rfl
  | some r => exact .inr ⟨r.new, rfl⟩

end Document

theorem Store.documents_renameAll {renames : List Rename} {s s' : Store}
    (hasMetadata : ∀ d ∈ s.documents, d.HasMetadata) (distinct : s.ids.Nodup)
    (once : (renames.map Rename.old).Nodup) (there : ∀ r ∈ renames, r.old ∈ s.ids)
    (h : s.renameAll renames = .ok s') :
    s'.documents = s.documents.map (·.renamedBy renames) := by
  induction renames generalizing s with
  | nil =>
    obtain rfl : s = s' := pure_eq_ok.1 h
    exact (List.map_id _).symm
  | cons r renames ih =>
    obtain ⟨s₁, hs₁, h⟩ := bind_eq_ok.1 h
    obtain ⟨hr, hrenames⟩ := List.nodup_cons.1 once
    have hdocs := documents_renamed distinct hs₁
    have hfree := (renamed_eq_ok.1 hs₁).1
    have hne : ∀ r' ∈ renames, r'.old ≠ r.old := fun r' hr' heq =>
      hr (heq ▸ List.mem_map_of_mem hr')
    have hthere : ∀ r' ∈ renames, r'.old ∈ s₁.ids := by
      intro r' hr'
      obtain ⟨d, hd, hid⟩ := List.mem_map.1 (there r' (List.mem_cons_of_mem r hr'))
      refine List.mem_map.2 ⟨d, ?_, hid⟩
      rw [hdocs]
      exact List.mem_map.2 ⟨d, hd, if_neg (hid ▸ hne r' hr')⟩
    have hmeta : ∀ d ∈ s₁.documents, d.HasMetadata := by
      rw [hdocs, List.forall_mem_map]
      intro d hd
      split
      · exact (hasMetadata d hd).setMetadata _ _
      · exact hasMetadata d hd
    rw [ih hmeta (nodup_ids_renamed hasMetadata distinct hs₁) hrenames hthere h, hdocs,
      List.map_map]
    refine List.map_congr_left fun d hd => ?_
    rw [Function.comp_apply]
    split
    · rename_i hid
      -- no later rename starts from the name that this one gives
      rw [Document.renamedBy_of_mem (r := r) once List.mem_cons_self hid.symm]
      refine Document.renamedBy_of_ne fun r' hr' heq => hne r' hr' ?_
      rw [(hasMetadata d hd).id_rename, hid] at heq
      exact heq.trans (hfree (heq ▸ there r' (List.mem_cons_of_mem r hr')))
    · rename_i hid
      exact (Document.renamedBy_cons_of_ne (Ne.symm hid)).symm

namespace Reference

structure Batch (renames : List Rename) (s : Store) : Prop where
  valid : ∀ d ∈ s.documents, d.Valid
  distinct : s.ids.Nodup
  once : (renames.map Rename.old).Nodup
  there : ∀ r ∈ renames, r.old ∈ s.ids

/-- By a field at a position of `d`, the document at `i`, it refers to `e`, the document at `j`, and
to no other document. -/
structure NameRule.RefersTo (rule : NameRule) (s : Store) (i j : Nat) (d e : Document)
    (q : Position) : Prop where
  referrer : s.documents[i]? = some d
  target : s.documents[j]? = some e
  hold : rule.FieldHolds d q e.name
  reaches : rule.Reaches d e.id
  only : ∀ e' ∈ s.documents, rule.Reaches d e'.id → e'.name = e.name → e' = e

namespace Batch

variable {renames : List Rename} {s s₁ s₂ : Store} (batch : Batch renames s)

include batch

theorem hasMetadata : ∀ d ∈ s.documents, d.HasMetadata := fun d hd =>
  Document.hasMetadata_of_name (batch.valid d hd).name_ne_empty

theorem getElem? {i k : Nat} {d : Document} (renamed : s.renameAll renames = .ok s₁)
    (repaired : repair .builtin renames s₁ = .ok (s₂, k)) (hd : s.documents[i]? = some d) :
    ∃ d', s₂.documents[i]? = some d' ∧
      Reference.repaired .builtin renames (d.renamedBy renames) = .ok d' := by
  refine repaired_getElem? repaired ?_
  rw [Store.documents_renameAll batch.hasMetadata batch.distinct batch.once batch.there renamed,
    List.getElem?_map, hd, Option.map_some]

theorem fieldHolds_renamedBy {rule : NameRule} (hrule : rule ∈ Rules.builtin.names) {d : Document}
    (hd : d ∈ s.documents) {q : Position} {name : String} (hold : rule.FieldHolds d q name) :
    rule.FieldHolds (d.renamedBy renames) q name := by
  rcases d.renamedBy_eq renames with h | ⟨new, h⟩
  · rwa [h]
  · rw [h]
    exact hold.rename hrule (batch.valid d hd).tree_eq_map new

end Batch

theorem NameRule.reaches_renamedBy {rule : NameRule} (renames : List Rename) (d : Document)
    {id : Identity} : rule.Reaches (d.renamedBy renames) id ↔ rule.Reaches d id := by
  rcases d.renamedBy_eq renames with h | ⟨name, h⟩
  · rw [h]
  · rw [h, Reaches, Reaches, Document.ns_rename]

/-- After a batch of renames and one repair, a reference to a document holds the name that the
document has then.  If the document is not renamed itself, no old name may stand in its name. -/
theorem references_follow_renames {renames : List Rename} {s s₁ s₂ : Store} {rule : NameRule}
    {i j k : Nat} {d e : Document} {q : Position} (batch : Batch renames s)
    (hrule : rule ∈ Rules.builtin.names) (refers : rule.RefersTo s i j d e q)
    (whole : (∀ r ∈ renames, r.old ≠ e.id) →
      ∀ r ∈ renames, rule.Reaches d r.old → ¬ Stands r.old.name.toList e.name.toList)
    (renamed : s.renameAll renames = .ok s₁) (repaired : repair .builtin renames s₁ = .ok (s₂, k)) :
    ∃ d' e', s₂.documents[i]? = some d' ∧ s₂.documents[j]? = some e' ∧
      rule.FieldHolds d' q e'.name ∧ (∀ r ∈ renames, r.old = e.id → e'.name = r.new) ∧
      ((∀ r ∈ renames, r.old ≠ e.id) → e'.name = e.name) := by
  have hd := List.mem_of_getElem? refers.referrer
  have he := List.mem_of_getElem? refers.target
  obtain ⟨d', hd', hrd⟩ := batch.getElem? renamed repaired refers.referrer
  obtain ⟨e', he', hre⟩ := batch.getElem? renamed repaired refers.target
  have hname : e'.name = (e.renamedBy renames).name := (sameIdentity_repaired hre).name_eq
  have hold := batch.fieldHolds_renamedBy hrule hd refers.hold
  refine ⟨d', e', hd', he', ?_⟩
  by_cases hren : ∃ r ∈ renames, r.old = e.id
  · obtain ⟨r, hr, hid⟩ := hren
    have hnew : e'.name = r.new := by
      rw [hname, Document.renamedBy_of_mem batch.once hr hid, (batch.hasMetadata e he).name_rename]
    have hall : ∀ r' ∈ renames, r'.old = e.id → r' = r := fun r' hr' hid' =>
      List.inj_on_of_nodup_map batch.once hr' hr (hid'.trans hid.symm)
    refine ⟨?_, fun r' hr' hid' => hall r' hr' hid' ▸ hnew, fun hno => absurd hid (hno r hr)⟩
    rw [hnew]
    refine hold.repaired_of_renamed hrule hrd (batch.valid e he).name_ne_empty
      ⟨r, hr, (NameRule.reaches_renamedBy _ _).2 (hid ▸ refers.reaches), congrArg Identity.name hid⟩
      fun r' hr' hc hs => ?_
    -- the only document with the old name is the one that is renamed
    obtain ⟨e'', he'', hid''⟩ := List.mem_map.1 (batch.there r' hr')
    have heq : e'' = e := refers.only e'' he'' (hid'' ▸ (NameRule.reaches_renamedBy _ _).1 hc)
      ((congrArg Identity.name hid'').trans hs)
    exact congrArg Rename.new (hall r' hr' (hid'' ▸ congrArg Document.id heq))
  · have hno : ∀ r ∈ renames, r.old ≠ e.id := fun r hr hid => hren ⟨r, hr, hid⟩
    have hkept : e'.name = e.name := by rw [hname, Document.renamedBy_of_ne hno]
    refine ⟨?_, fun r hr hid => absurd hid (hno r hr), fun _ => hkept⟩
    rw [hkept]
    exact hold.repaired_of_not_stands hrule hrd fun r hr hc =>
      whole hno r hr ((NameRule.reaches_renamedBy _ _).1 hc)

def emptyConfigMap (name : String) : Document := .skeleton MapKind.configMap.type name

theorem references_follow_renames_of_longer_name :
    ∃ d' e' : Document, configMapRule.FieldHolds d' volumeName e'.name ∧
      e'.name = "app-config-2" := by
  obtain ⟨d', e', -, -, hold, hnew, -⟩ := @references_follow_renames
    [⟨(emptyConfigMap "app").id, "app-1"⟩, ⟨(emptyConfigMap "app-config").id, "app-config-2"⟩]
    ⟨[podWithVolume "app-config", emptyConfigMap "app", emptyConfigMap "app-config"]⟩
    ⟨[podWithVolume "app-config", (emptyConfigMap "app").rename "app-1",
      (emptyConfigMap "app-config").rename "app-config-2"]⟩
    ⟨[podWithVolume "app-config-2", (emptyConfigMap "app").rename "app-1",
      (emptyConfigMap "app-config").rename "app-config-2"]⟩
    configMapRule 0 2 1 (podWithVolume "app-config") (emptyConfigMap "app-config") volumeName
    ⟨by decide +kernel, by decide +kernel, by decide +kernel, by decide +kernel⟩
    configMapRule_mem ⟨rfl, rfl, fieldHolds_podWithVolume _, by decide +kernel, by decide +kernel⟩
    (fun h => absurd rfl (h _ (List.mem_cons_of_mem _ List.mem_cons_self)))
    (eq_ok_of_toOption (by decide +kernel)) (eq_ok_of_toOption (by decide +kernel))
  exact ⟨d', e', hold, hnew _ (List.mem_cons_of_mem _ List.mem_cons_self) rfl⟩

/-- Without the condition on old names in the name of a document that keeps it, a reference to the
document may be split: points end names. -/
theorem not_references_follow_renames_in_general :
    ¬ ∀ (renames : List Rename) (s s₁ s₂ : Store) (rule : NameRule) (i j k : Nat)
      (d e : Document) (q : Position), Batch renames s → rule ∈ Rules.builtin.names →
      rule.RefersTo s i j d e q → s.renameAll renames = .ok s₁ →
      repair .builtin renames s₁ = .ok (s₂, k) →
      ∃ d' e', s₂.documents[i]? = some d' ∧ s₂.documents[j]? = some e' ∧
        rule.FieldHolds d' q e'.name := by
  intro h
  obtain ⟨d', e', hd', he', _, _, _, _, _, _, _, _, hname⟩ :=
    h [⟨(emptyConfigMap "a").id, "x"⟩]
      ⟨[podWithVolume "a.b", emptyConfigMap "a", emptyConfigMap "a.b"]⟩
      ⟨[podWithVolume "a.b", (emptyConfigMap "a").rename "x", emptyConfigMap "a.b"]⟩
      ⟨[podWithVolume "x.b", (emptyConfigMap "a").rename "x", emptyConfigMap "a.b"]⟩
      configMapRule 0 2 1 (podWithVolume "a.b") (emptyConfigMap "a.b") volumeName
      ⟨by decide +kernel, by decide +kernel, by decide +kernel, by decide +kernel⟩
      configMapRule_mem ⟨rfl, rfl, fieldHolds_podWithVolume _, by decide +kernel, by decide +kernel⟩
      (eq_ok_of_toOption (by decide +kernel)) (eq_ok_of_toOption (by decide +kernel))
  cases hd'
  cases he'
  exact absurd hname (by decide +kernel)

end Reference

end Manifest
