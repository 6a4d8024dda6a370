import Manifest.Proofs.Pipeline.Identity
import Manifest.Proofs.Plugin.Validity

namespace Manifest.Pipeline

open Reference

variable {w : Workspace} {p : Pipeline} {s s' out : Store}

theorem valid_of_generateAll (configured : p.Configured w) (valid : s.Valid)
    (h : generateAll w p.generators s = .ok s') : s'.Valid := by
  obtain ⟨ds, hds, hdocs⟩ := documents_generateAll h
  intro d hd
  rw [hdocs, List.mem_append] at hd
  refine hd.elim (valid d) (forall_of_map_eq_ok hds (fun g hg d hgen => ?_) d)
  obtain ⟨config, hconfig⟩ := configured.generators g hg
  obtain ⟨kind, -, hconfigure⟩ := bind_eq_ok.1 hconfig
  exact Generator.valid_of_generate hconfigure hgen

theorem valid_of_step {x : Transformer}
    (configured : ∃ config, configureTransformer w config = .ok x) (spares : x.SparesChecked)
    (valid : s.Valid) (h : step w s x = .ok s') : s'.Valid := by
  obtain ⟨config, hconfig⟩ := configured
  obtain ⟨kind, -, hconfigure⟩ := bind_eq_ok.1 hconfig
  obtain ⟨t, ht, h⟩ := bind_eq_ok.1 h
  obtain ⟨_, -, h⟩ := bind_eq_ok.1 h
  exact pure_eq_ok.1 h ▸ Transformer.valid_of_transform hconfigure spares valid ht

/-- A run ends with documents that can be read again, if its transformers spare what is checked. -/
theorem ofTree_of_run (configured : p.Configured w)
    (spares : ∀ x ∈ p.transformers, x.SparesChecked) (valid : s.Valid)
    (h : p.run w s = .ok out) :
    ∀ d ∈ out.documents, Document.ofTree d.tree = .ok { tree := d.tree } := by
  obtain ⟨s₁, s₂, k, hgenerate, hrepair, hsteps⟩ := run_eq_ok.1 h
  have hvalid₁ := valid_of_generateAll configured valid hgenerate
  have hvalid₂ : s₂.Valid := by
    refine valid_of_repair (fun r hr => ?_) hvalid₁ hrepair
    obtain ⟨d, hd, rfl⟩ := List.mem_map.1 hr
    exact (hvalid₁ d (List.mem_of_mem_filter hd)).name_ne_empty
  have hvalid : out.Valid := foldlM_invariant (P := Store.Valid) (fun _ x _ hx ht hstep =>
    valid_of_step (configured.transformers x hx) (spares x hx) ht hstep) hvalid₂ hsteps
  exact fun d hd => Document.valid_iff_ofTree.1 (hvalid d hd)

def removing (text path : String) : Tree :=
  .map [("apiVersion", .text "kfuse/v1"), ("kind", .text SearchReplace.kind),
    ("target", .map [("kind", .text "ConfigMap")]), ("path", .text path), ("search", .text text),
    ("replace", .text "")]

def ofReplacement (c : SearchReplace) : Pipeline where
  generators := []
  transformers := [.searchReplace c]

theorem configured_ofReplacement {text path : String} {c : SearchReplace}
    (h : SearchReplace.configure (removing text path) = .ok c) :
    (ofReplacement c).Configured w where
  generators := List.forall_mem_nil _
  transformers := List.forall_mem_singleton.2 ⟨removing text path, by
    have hcatalog : configureTransformer w (removing text path) =
        (SearchReplace.configure (removing text path)).map .searchReplace := rfl
    rw [hcatalog, h]
    rfl⟩

theorem exists_run_removing {text path : String} {names : List String}
    (h : ((SearchReplace.configure (removing text path) >>= fun c =>
      (ofReplacement c).run w s).toOption.map fun out => out.documents.map Document.name) =
        some names) :
    ∃ c out, SearchReplace.configure (removing text path) = .ok c ∧
      (ofReplacement c).run w s = .ok out ∧ out.documents.map Document.name = names := by
  obtain ⟨out, hout, hnames⟩ := Option.map_eq_some_iff.1 h
  obtain ⟨c, hc, hrun⟩ := bind_eq_ok.1 (eq_ok_of_toOption hout)
  exact ⟨c, out, hc, hrun, hnames⟩

theorem ofTree_of_run_removing_data : ∃ c out,
    SearchReplace.configure (removing "1" "data/a") = .ok c ∧
      (ofReplacement c).run ⟨".", {}, []⟩
        ⟨[⟨configMapTree "settings" [("data", .map [("a", .text "1")])], []⟩]⟩ = .ok out ∧
      ∀ d ∈ out.documents, Document.ofTree d.tree = .ok { tree := d.tree } := by
  obtain ⟨c, out, hc, hrun, -⟩ := @exists_run_removing ⟨".", {}, []⟩
    ⟨[⟨configMapTree "settings" [("data", .map [("a", .text "1")])], []⟩]⟩ "1" "data/a"
    ["settings"] (by decide +kernel)
  have hspares : (SearchReplace.configure (removing "1" "data/a")).toOption.map
      (fun c => decide c.path.SparesChecked) = some true := by decide +kernel
  rw [hc] at hspares
  refine ⟨c, out, hc, hrun, ofTree_of_run (configured_ofReplacement hc) ?_ ?_ hrun⟩
  · exact List.forall_mem_singleton.2 (.inr (of_decide_eq_true (Option.some.inj hspares)))
  · exact List.forall_mem_singleton.2 (by decide +kernel)

theorem not_ofTree_of_run_in_general :
    ¬ ∀ (w : Workspace) (p : Pipeline) (s out : Store), p.Configured w → s.Valid →
      p.run w s = .ok out →
      ∀ d ∈ out.documents, Document.ofTree d.tree = .ok { tree := d.tree } := by
  intro h
  obtain ⟨c, out, hc, hrun, hnames⟩ := @exists_run_removing ⟨".", {}, []⟩
    ⟨[emptyConfigMap "settings"]⟩ "settings" "metadata/name" [""] (by decide +kernel)
  obtain ⟨d, hd, hname⟩ : ∃ d ∈ out.documents, d.name = "" :=
    List.mem_map.1 (hnames ▸ List.mem_singleton_self "")
  have hvalid : (Store.mk [emptyConfigMap "settings"]).Valid :=
    List.forall_mem_singleton.2 (by decide +kernel)
  have htree := h _ _ _ out (configured_ofReplacement hc) hvalid hrun d hd
  exact (Document.valid_iff_ofTree.2 htree).name_ne_empty hname

end Manifest.Pipeline
