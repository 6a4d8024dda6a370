import Manifest.Proofs.FieldPath.SingleNode
import Manifest.Proofs.FieldPath.Slashes
import Manifest.Proofs.Plugin.MapSources
import Manifest.Proofs.Validity

namespace Manifest

open Validity

theorem FieldPath.keyed_data {key : String} (valid : keyFault? key = none) :
    Keyed ("data/" ++ key) ["data", key] := by
  obtain ⟨-, hne, -, -, hchars⟩ := keyFault?_eq_none_iff.1 valid
  have hout : ∀ c, isKeyChar c = false → c ∉ key.toList := fun c hc hmem =>
    Bool.false_ne_true (hc.symm.trans (hchars c hmem))
  have hplain : isPlain key = true := isPlain_iff.2 fun c hmem =>
    ⟨fun h => hout '[' (by decide) (h ▸ hmem), fun h => hout ']' (by decide) (h ▸ hmem)⟩
  have hkeyed : Keyed ("data" ++ "/" ++ key) (slashKeys "data" ++ slashKeys key) :=
    keyed_append (by decide) hplain
  rwa [slashKeys_of_not_mem (by decide) (by decide),
    slashKeys_of_not_mem (hout '/' (by decide)) hne] at hkeyed

inductive MapKind.Keeps : MapKind → String × String → String × Tree → Prop
  | plain {key text} : Keeps .configMap (key, text) (key, .text text)
  | encoded {key text e} : EncodedField.decode? e = some text →
      Keeps .secret (key, text) (key, .text e)

theorem MapKind.keeps_stored (k : MapKind) (p : String × String) :
    k.Keeps p (p.1, .text (k.stored p.2)) := by
  cases k with
  | configMap => exact .plain
  | secret => exact .encoded (EncodedField.decode?_encode p.2)

/-- The data has one entry for each pair, and an edit of a Secret along the key of a pair is one
call with the text of the pair. -/
structure MapKind.Holds (k : MapKind) (ps : List (String × String)) (d : Document) : Prop where
  entries : ∃ es, d.tree.field? "data" = some (.map es) ∧ List.Forall₂ k.Keeps ps es
  calls : k = .secret → ∀ pair ∈ ps, ∃ p, FieldPath.parse ("data/" ++ pair.1) = .ok p ∧
    ∀ (σ : Type) (create : Bool) (edit : Edit σ) (s : σ),
      (d.applied EncodedField.standard p create edit).run s =
        (((edit (.text pair.2)).run s).1.map fun v =>
            ({ d with tree := Tree.set (.ofKeys ["data", pair.1]) (EncodedField.restore v) d.tree },
              1),
          ((edit (.text pair.2)).run s).2)

namespace MapRecipe

variable {w : Workspace} {r : MapRecipe} {name : String} {ps : List (String × String)}
  {d : Document}

theorem distinct_entries (h : ValidPairs ps) : Entries.Distinct (r.entries ps) := by
  have hkeys : Entries.keys (r.entries ps) = ps.map Prod.fst := List.map_map
  rw [Entries.Distinct, hkeys]
  exact h.distinct

theorem get?_of_tree (h : d.tree = r.tree name (r.entries ps)) (valid : ValidPairs ps)
    {pair : String × String} (hpair : pair ∈ ps) :
    d.tree.get? (.ofKeys ["data", pair.1]) = some (.text (r.kind.stored pair.2)) := by
  have hentry : (pair.1, .text (r.kind.stored pair.2)) ∈ r.entries ps := List.mem_map_of_mem hpair
  have hfind := Entries.find?_of_mem (distinct_entries valid) hentry
  rw [Tree.get?_ofKeys_cons, data_of_tree h, Option.bind_some, Tree.get?_ofKeys_cons]
  exact Option.bind_eq_some_iff.2 ⟨_, hfind, rfl⟩

theorem holds_of_tree (h : d.tree = r.tree name (r.entries ps)) (valid : ValidPairs ps) :
    r.kind.Holds ps d where
  entries := ⟨_, data_of_tree h, List.forall₂_map_right_iff.2
    (List.forall₂_same.2 fun p _ => r.kind.keeps_stored p)⟩
  calls hsecret pair hpair := by
    have hkeyed := FieldPath.keyed_data (valid.keys pair hpair)
    have there := get?_of_tree h valid hpair
    rw [hsecret] at there
    have hcovers : EncodedField.covers EncodedField.standard d.kind
        ⟨"data/" ++ pair.1, ["data", pair.1].map .field⟩ = true := by
      rw [kind_of_tree h, hsecret]
      rfl
    have hdecoded : EncodedField.decoded? (.text (MapKind.secret.stored pair.2)) =
        some (.text pair.2) := congrArg (Option.map Tree.text) (EncodedField.decode?_encode pair.2)
    exact ⟨_, hkeyed, fun σ create edit s =>
      EncodedField.run_applied_singleton hcovers rfl there nofun hdecoded create edit s⟩

def Complete (w : Workspace) (r : MapRecipe) : Prop :=
  Readable w r ∧ ∀ ps, Reads w r ps → ValidPairs ps

theorem complete_iff : Complete w r ↔ ∃ ps, r.pairs w = .ok ps ∧ ValidPairs ps := by
  rw [Complete, ← exists_reads_iff]
  simp only [← pairs_eq_ok]
  constructor
  · rintro ⟨⟨ps, hps⟩, hvalid⟩
    exact ⟨ps, hps, hvalid ps hps⟩
  · rintro ⟨ps, hps, hvalid⟩
    exact ⟨⟨ps, hps⟩, fun ps' hps' => Except.ok.inj (hps.symm.trans hps') ▸ hvalid⟩

theorem exists_build_iff : (∃ d, r.build w = .ok d) ↔ Complete w r := by
  simp only [complete_iff, build_eq_ok]
  exact ⟨fun ⟨_, ps, hps, hvalid, _⟩ => ⟨ps, hps, hvalid⟩,
    fun ⟨ps, hps, hvalid⟩ => ⟨_, ps, hps, hvalid, rfl⟩⟩

theorem exists_generate_iff : (∃ d, r.generate w = .ok d) ↔ Complete w r := by
  rw [complete_iff]
  constructor
  · rintro ⟨d, hd⟩
    obtain ⟨ps, -, hps, hvalid, -⟩ := tree_of_generate hd
    exact ⟨ps, hps, hvalid⟩
  · rintro ⟨ps, hps, hvalid⟩
    cases hplain : r.plainName with
    | false => exact ⟨_, (generate_eq_ok hplain).2 ⟨ps, hps, hvalid, rfl⟩⟩
    | true =>
      refine ⟨r.assemble (r.entries ps), bind_eq_ok.2 ⟨_, build_eq_ok.2 ⟨ps, hps, hvalid, rfl⟩, ?_⟩⟩
      rw [hplain]
      rfl

theorem complete_ofKind {k : MapKind} : Complete w (r.ofKind k) ↔ Complete w r := by
  simp only [Complete, ← exists_reads_iff, reads_ofKind]

/-- A configuration gives maps of both kinds under the same conditions, and they hold the pairs of
its sources. -/
theorem holds_sources {kind : MapKind} {config : Tree} (accepted : configure kind config = .ok r)
    (w : Workspace) (k : MapKind) :
    configure k config = .ok (r.ofKind k) ∧
      ((∃ d, (r.ofKind k).build w = .ok d) ↔ Complete w r) ∧
      ((∃ d, (r.ofKind k).generate w = .ok d) ↔ Complete w r) ∧
      ∀ d, (r.ofKind k).build w = .ok d ∨ (r.ofKind k).generate w = .ok d →
        ∃ ps, Reads w r ps ∧ k.Holds ps d := by
  refine ⟨configure_ofKind accepted k, exists_build_iff.trans complete_ofKind,
    exists_generate_iff.trans complete_ofKind, ?_⟩
  rintro d (hd | hd)
  · obtain ⟨ps, hps, hvalid, rfl⟩ := build_eq_ok.1 hd
    exact ⟨ps, reads_ofKind.1 (pairs_eq_ok.1 hps),
      holds_of_tree ((r.ofKind k).tree_assemble _) hvalid⟩
  · obtain ⟨ps, name, hps, hvalid, htree, -⟩ := tree_of_generate hd
    exact ⟨ps, reads_ofKind.1 (pairs_eq_ok.1 hps), holds_of_tree htree hvalid⟩

def mixed : Tree := .map [("name", .text "settings"), ("envs", .list [.text "app.env"]),
  ("literals", .list [.text "greeting='a=b'"]), ("data", .map [("on", .boolean true)]),
  ("files", .list [.text "conf/notes.txt"])]

def mixedFiles : Workspace where
  root := "."
  files := { files := [(["app.env"], "# ports\n PORT = 80\n".toUTF8.toList),
    (["conf", "notes.txt"], "hi".toUTF8.toList)] }

def mixedPairs : List (String × String) :=
  [("PORT", " 80"), ("greeting", "a=b"), ("on", "true"), ("notes.txt", "hi")]

theorem holds_sources_mixed : ∃ r d, configure .configMap mixed = .ok r ∧
    (r.ofKind .secret).generate mixedFiles = .ok d ∧ MapKind.secret.Holds mixedPairs d := by
  obtain ⟨r, accepted⟩ : ∃ r, configure .configMap mixed = .ok r := ⟨_, rfl⟩
  have hpairs : r.pairs mixedFiles = .ok mixedPairs := by
    cases accepted
    exact eq_ok_of_toOption (by decide +kernel)
  have hvalid : ValidPairs mixedPairs := ⟨by decide, by decide⟩
  obtain ⟨-, -, hgenerate, hholds⟩ := holds_sources accepted mixedFiles .secret
  obtain ⟨d, hd⟩ := hgenerate.2 (complete_iff.2 ⟨_, hpairs, hvalid⟩)
  obtain ⟨ps, hps, hd'⟩ := hholds d (.inr hd)
  obtain rfl := Except.ok.inj (hpairs.symm.trans (pairs_eq_ok.2 hps))
  exact ⟨r, d, accepted, hd, hd'⟩

end MapRecipe

end Manifest
