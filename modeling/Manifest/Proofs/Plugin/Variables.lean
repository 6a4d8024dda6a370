import Manifest.Plugin.Variables
import Manifest.Proofs.FieldEdits
import Manifest.Proofs.Reference.Integrity
import Manifest.Proofs.Reference.Variable
import Manifest.Proofs.Store

namespace Manifest

open Reference

namespace VariableExpansion

open Tree (Evolves)

variable {vars : Variables} {specs : List FieldSpec}

def expanding (vars : Variables) : NodeEdit where
  node := expandNode vars
  text := expandText vars
  reaches := List.isPrefixOf
  prefix_of_reaches := List.isPrefixOf_iff_prefix.1
  evolves := Evolves.setAll_mapped

structure Expands (vars : Variables) (specs : List FieldSpec) (d d' : Document) : Prop where
  previous_eq : d'.previous = d.previous
  evolves : Evolves ((expanding vars).edited specs d.tree) (FieldSpec.AddsAt specs d.tree) d.tree
    d'.tree
  once : ∀ q s, (expanding vars).timesNamed specs d.tree q = 1 → d.tree.get? q = some (.text s) →
    d'.tree.get? q = some (.text (expandText vars s))
  escaped : ∀ q pre name rest, (expanding vars).timesNamed specs d.tree q = 1 →
    '$' ∉ pre.toList → '$' ∉ name.toList →
    d.tree.get? q = some (.text (pre ++ "$$(" ++ name ++ ")" ++ rest)) →
    d'.tree.get? q = some (.text (pre ++ "$(" ++ name ++ ")" ++ expandText vars rest))
  valued : ∀ q pre name value rest, (expanding vars).timesNamed specs d.tree q = 1 →
    '$' ∉ pre.toList → ')' ∉ name.toList → Entries.find? name vars = some value →
    d.tree.get? q = some (.text (pre ++ "$(" ++ name ++ ")" ++ rest)) →
    d'.tree.get? q = some (.text (pre ++ value ++ expandText vars rest))

theorem expands_of_evolves {d d' : Document} (hprevious : d'.previous = d.previous)
    (e : Evolves ((expanding vars).edited specs d.tree) (FieldSpec.AddsAt specs d.tree) d.tree
      d'.tree) : Expands vars specs d d' := by
  have once : ∀ q s, (expanding vars).timesNamed specs d.tree q = 1 →
      d.tree.get? q = some (.text s) → d'.tree.get? q = some (.text (expandText vars s)) := by
    intro q s hone hs
    rw [e.get?_text hs, NodeEdit.edited, hone]
    rfl
  refine ⟨hprevious, e, once, fun q pre name rest hone hpre hname hs => ?_,
    fun q pre name value rest hone hpre hname hvalue hs => ?_⟩
  · rw [once q _ hone hs, expandText_escaped hpre hname]
  · rw [once q _ hone hs, expandText_variable hpre hname hvalue]

variable {c : VariableExpansion} {s s' : Store}

def specsFor (c : VariableExpansion) (d : Document) : List FieldSpec :=
  c.rules.expanded.filter (·.appliesTo d.type)

theorem expands_of_transform (hvars : values c.vars s = .ok vars)
    (kept : ∀ d ∈ s.documents, (expanding vars).KeepsInTurn (c.specsFor d) d.tree)
    (h : c.transform s = .ok s') : (vars = [] → s' = s) ∧ (vars ≠ [] →
      List.Forall₂ (fun d d' => Expands vars (c.specsFor d) d d') s.documents s'.documents) := by
  rw [transform, hvars] at h
  constructor
  · rintro rfl
    exact (pure_eq_ok.1 h).symm
  · intro hne
    replace h : s.mapM _ = .ok s' := (if_neg hne).symm.trans h
    refine forall₂_of_map_eq_ok (Store.mapM_eq_ok.1 h) fun d hd d' hd' => ?_
    obtain ⟨t, hfold, rfl⟩ := (NodeEdit.editFields_eq_ok (e := expanding vars)).1 hd'
    exact expands_of_evolves rfl (NodeEdit.evolves_of_foldlM (kept d hd) hfold)

def podRunning (command argument : String) : Document :=
  MapRecipe.topField "spec" (.map [("containers", .list [.map
    [("command", .list [.text command]), ("args", .list [.text argument])]])])
    (.skeleton { version := "v1", kind := "Pod" } "web")

def podArguments : FieldSpec :=
  { type := { version := "v1", kind := "Pod" }, path := "spec/containers/args" }

def expandingName : VariableExpansion where
  vars := [{ name := "A", object := { kind := "ConfigMap", name := "settings" } }]
  rules := Rules.builtin.merge { expanded := [podArguments] }

theorem expands_of_transform_overlapping :
    ∃ s', expandingName.transform ⟨[emptyConfigMap "settings", podRunning "$$(A)" "$$(A)"]⟩ =
        .ok s' ∧
      s' = ⟨[emptyConfigMap "settings", podRunning "$(A)" "settings"]⟩ ∧
      List.Forall₂ (fun d d' => Expands [("A", "settings")] (expandingName.specsFor d) d d')
        [emptyConfigMap "settings", podRunning "$$(A)" "$$(A)"] s'.documents := by
  have hrun : expandingName.transform ⟨[emptyConfigMap "settings", podRunning "$$(A)" "$$(A)"]⟩ =
      .ok ⟨[emptyConfigMap "settings", podRunning "$(A)" "settings"]⟩ :=
    eq_ok_of_toOption (by decide +kernel)
  have hvars : values expandingName.vars
      ⟨[emptyConfigMap "settings", podRunning "$$(A)" "$$(A)"]⟩ = .ok [("A", "settings")] :=
    eq_ok_of_toOption (by decide +kernel)
  have hnil : ∀ d ∈ [emptyConfigMap "settings", podRunning "$$(A)" "$$(A)"],
      ∀ spec ∈ expandingName.specsFor d, comparedAt spec.path d.tree = [] := by decide +kernel
  exact ⟨_, hrun, rfl, (expands_of_transform hvars
    (fun d hd => NodeEdit.keepsInTurn_of_nil (hnil d hd)) hrun).2 (List.cons_ne_nil _ _)⟩

/-- Where two specs name the same field, what the first expansion has unescaped is expanded by the
second. -/
theorem not_expanded_once_in_general :
    ¬ ∀ (c : VariableExpansion) (custom : Rules) (vars : Variables) (s s' : Store) (i : Nat)
      (d d' : Document) (spec : FieldSpec) (q : Position) (text : String),
      c.rules = Rules.builtin.merge custom → values c.vars s = .ok vars → c.transform s = .ok s' →
      s.documents[i]? = some d → s'.documents[i]? = some d' → spec ∈ c.specsFor d →
      Position.within (nodesAt spec.path d.tree) q = true → d.tree.get? q = some (.text text) →
      d'.tree.get? q = some (.text (expandText vars text)) := by
  intro h
  have honce := h expandingName { expanded := [podArguments] } [("A", "settings")]
    ⟨[emptyConfigMap "settings", podRunning "" "$$(A)"]⟩
    ⟨[emptyConfigMap "settings", podRunning "" "settings"]⟩ 1 _ _ podArguments
    [.key "spec", .key "containers", .index 0, .key "args", .index 0] "$$(A)" rfl
    (eq_ok_of_toOption (by decide +kernel)) (eq_ok_of_toOption (by decide +kernel)) rfl rfl
    (by decide +kernel) (by decide +kernel) (by decide +kernel)
  exact absurd honce (by decide +kernel)

end VariableExpansion

end Manifest
