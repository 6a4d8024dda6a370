import Manifest.Plugin.SearchReplace
import Manifest.Proofs.EncodedField
import Manifest.Proofs.Json.RoundTrip
import Manifest.Proofs.Store

namespace Manifest

namespace NamedPattern

theorem replaceAll_of_allMatches_eq_nil {p : NamedPattern} {s : String} (replacement : String)
    (h : p.pattern.allMatches s.toList = []) : p.replaceAll replacement s = s := by
  rw [replaceAll, h]
  exact String.ofList_toList

end NamedPattern

namespace Tree

theorem get?_of_mem_zip {t : Tree} {ps : List Position} {us : List Tree}
    (nodes : ps.map t.get? = us.map some) : ∀ x ∈ ps.zip us, t.get? x.1 = some x.2 := by
  induction ps generalizing us with
  | nil => nofun
  | cons p ps ih =>
    cases us with
    | nil => nofun
    | cons u us =>
      obtain ⟨hu, hus⟩ := List.cons.inj nodes
      exact List.forall_mem_cons.2 ⟨hu, ih hus⟩

theorem setAll_zip_eq_self_iff {t : Tree} {ps : List Position} {us vs : List Tree}
    (apart : ps.Pairwise Position.Apart) (nodes : ps.map t.get? = us.map some)
    (hlength : vs.length = ps.length) : t.setAll (ps.zip vs) = t ↔ vs = us := by
  have there : ∀ p ∈ ps, (t.get? p).isSome := by
    intro p hp
    have hmem : t.get? p ∈ us.map some := nodes ▸ List.mem_map_of_mem hp
    obtain ⟨u, -, hu⟩ := List.mem_map.1 hmem
    exact hu ▸ rfl
  constructor
  · intro h
    have hwritten := (written_setAll apart there hlength).map_get?
    rw [h, nodes] at hwritten
    exact ((List.map_inj_right fun _ _ => Option.some.inj).1 hwritten).symm
  · rintro rfl
    exact setAll_eq_self (get?_of_mem_zip nodes)

end Tree

namespace FieldPath

variable {σ : Type} {edit : Edit σ}

theorem forall₂_of_calls {R : Tree → Tree → Prop} {us vs : List Tree} {s s' : σ}
    {r : Except Error (List Tree)} (h : Calls edit us s r s') (hr : r = .ok vs)
    (hR : ∀ u ∈ us, ∀ v s s', (edit u).run s = (.ok v, s') → R u v) : List.Forall₂ R us vs := by
  induction h generalizing vs with
  | nil =>
    obtain rfl := Except.ok.inj hr
    exact .nil
  | error => cases hr
  | ok hrun _ ih =>
    obtain ⟨ws, rfl, rfl⟩ := map_eq_ok.1 hr
    rw [List.forall_mem_cons] at hR
    exact .cons (hR.1 _ _ _ hrun) (ih rfl hR.2)

theorem eq_iff_of_forall₂ {K : Tree → Prop} {us ws : List Tree}
    (h : List.Forall₂ (fun u w => w = u ↔ K u) us ws) : ws = us ↔ ∀ u ∈ us, K u := by
  induction h with
  | nil => simp
  | cons hw _ ih => rw [List.cons.injEq, hw, ih, List.forall_mem_cons]

theorem applied_eq_self_iff {p : FieldPath} {t t' : Tree} {s : σ} {n : Nat} {K : Tree → Prop}
    (h : ((p.applied false edit t).run s).1 = .ok (t', n))
    (kept : ∀ q u, t.Addresses true p.segments q → t.get? q = some u →
      ∀ w s s', (edit u).run s = (.ok w, s') → (w = u ↔ K u)) :
    t' = t ↔ ∀ q u, t.Addresses true p.segments q → t.get? q = some u → K u := by
  obtain ⟨base, ps, ws, s₁, s₂, hbase, hps, hws, rfl⟩ := applied_eq_ok h
  obtain rfl : t = base := hbase.symm
  have haddressed : ∀ q, q ∈ ps ↔ t.Addresses true p.segments q :=
    fun _ => Tree.mem_addressed_iff hps
  have hnodes := Tree.map_get?_eq fun q hq => ((haddressed q).1 hq).get?_isSome
  have hcalls := calls_mapM edit (ps.filterMap t.get?) s₁
  rw [hws] at hcalls
  have hcount : (ps.filterMap t.get?).length = ps.length := by
    simpa using (congrArg List.length hnodes).symm
  have hlength := (Calls.length_eq hcalls rfl).trans hcount
  have hstored : List.Forall₂ (fun u w => w = u ↔ K u) (ps.filterMap t.get?) ws := by
    refine forall₂_of_calls hcalls rfl fun u hu => ?_
    obtain ⟨q, hq, hget⟩ := List.mem_filterMap.1 hu
    exact kept q u ((haddressed q).1 hq) hget
  have hwritten : (if ps = [] then t else t.setAll (ps.zip ws)) = t.setAll (ps.zip ws) := by
    split
    · rename_i hnil
      rw [hnil]
      rfl
    · rfl
  refine (hwritten.symm ▸ Tree.setAll_zip_eq_self_iff
    (Tree.addressed_pairwise_apart true _ _ hps) hnodes hlength).trans ?_
  rw [eq_iff_of_forall₂ hstored]
  constructor
  · intro hall q u hq hget
    exact hall u (List.mem_filterMap.2 ⟨q, (haddressed q).2 hq, hget⟩)
  · intro hall u hu
    obtain ⟨q, hq, hget⟩ := List.mem_filterMap.1 hu
    exact hall q u ((haddressed q).1 hq) hget

end FieldPath

namespace SearchReplace

variable {c : SearchReplace} {r : Replacement} {d d' : Document} {t u v w : Tree}

def Covers (c : SearchReplace) (d : Document) : Prop :=
  EncodedField.covers EncodedField.standard d.kind c.path = true

instance : Decidable (c.Covers d) := inferInstanceAs (Decidable (_ = true))

def seen? (c : SearchReplace) (d : Document) (u : Tree) : Option Tree :=
  if c.Covers d then EncodedField.decoded? u else some u

def searchedText? (t : Tree) : Option String :=
  match t.text? with
  | some text => some text
  | none => if t.isNull then none else some (Json.render t)

def FindsNothing (c : SearchReplace) (d : Document) : Prop :=
  ∀ p u v text, d.tree.Addresses true c.path.segments p → d.tree.get? p = some u →
    c.seen? d u = some v → searchedText? v = some text →
    c.search.pattern.allMatches text.toList = []

def Selects (c : SearchReplace) (d : Document) : Prop :=
  ∃ accepts, c.target.matcher = .ok accepts ∧ accepts d = true

theorem selects_iff {accepts : Document → Bool} (h : c.target.matcher = .ok accepts) :
    c.Selects d ↔ accepts d = true := by
  constructor
  · rintro ⟨accepts', haccepts', hd⟩
    obtain rfl := Except.ok.inj (h.symm.trans haccepts')
    exact hd
  · exact fun hd => ⟨accepts, h, hd⟩

/-- The node is the only one for what was searched: no blanks in an encoded text, and no decimals in
a list or a map that the JSON text does not keep. -/
structure Canonical (c : SearchReplace) (d : Document) (u : Tree) : Prop where
  notBlank : c.Covers d → ∀ e, u = .text e → ∀ x ∈ e.toList, Text.isBlank x = false
  reread : u.isScalar = false → ∀ x ∈ u.decimals, x.reread? = some (.decimal x)

theorem replaceNode_of_isScalar (hscalar : v.isScalar = true)
    (nothing : ∀ text, searchedText? v = some text →
      c.search.pattern.allMatches text.toList = []) : c.replaceNode r v = .ok v := by
  rw [replaceNode]
  split
  · rename_i text htext
    have hnone : c.search.pattern.allMatches text.toList = [] :=
      nothing text (by rw [searchedText?, htext])
    rw [NamedPattern.replaceAll_of_allMatches_eq_nil _ hnone]
    exact if_pos rfl
  · rename_i htext
    cases v with
    | null => rfl
    | list _ | map _ => cases hscalar
    | boolean b => cases b <;> cases htext
    | _ => cases htext

theorem replaceNode_eq_self_iff (wf : v.WellFormed) (hscalar : v.isScalar = false)
    (nothing : ∀ text, searchedText? v = some text →
      c.search.pattern.allMatches text.toList = []) (h : c.replaceNode r v = .ok w) :
    w = v ↔ ∀ x ∈ v.decimals, x.reread? = some (.decimal x) := by
  have htext : v.text? = none ∧ v.isNull = false := by
    cases v <;> first | exact ⟨rfl, rfl⟩ | cases hscalar
  have hnone : c.search.pattern.allMatches (Json.render v).toList = [] :=
    nothing _ (by rw [searchedText?, htext.1, htext.2]; rfl)
  have hread : Json.parse? (Json.render v) = some w := by
    rw [replaceNode, htext.1, htext.2] at h
    dsimp only at h
    rw [if_neg Bool.false_ne_true, NamedPattern.replaceAll_of_allMatches_eq_nil _ hnone] at h
    split at h
    · rw [← Except.ok.inj h]
      assumption
    · cases h
  rw [Json.parse?_render wf, Json.readBack?] at hread
  split at hread
  · rw [← Tree.reread?_eq_self_iff, hread, Option.some.injEq]
  · cases hread

def storedNode (c : SearchReplace) (r : Replacement) (d : Document) : Edit Unit :=
  let edit : Edit Unit := fun t => ExceptT.mk (pure (c.replaceNode r t))
  if c.Covers d then EncodedField.decoding c.path edit else edit

theorem replaceNode_eq_self_iff_canonical (wf : u.WellFormed)
    (hplain : c.Covers d → ∀ e, u ≠ .text e)
    (nothing : ∀ text, searchedText? u = some text →
      c.search.pattern.allMatches text.toList = [])
    (h : c.replaceNode r u = .ok w) : w = u ↔ c.Canonical d u := by
  have hblank : c.Covers d → ∀ e, u = .text e → ∀ x ∈ e.toList, Text.isBlank x = false :=
    fun hcovers e he => absurd he (hplain hcovers e)
  cases hscalar : u.isScalar with
  | true =>
    rw [replaceNode_of_isScalar hscalar nothing] at h
    refine iff_of_true (Except.ok.inj h).symm ⟨hblank, fun hmap => ?_⟩
    rw [hscalar] at hmap
    cases hmap
  | false =>
    rw [replaceNode_eq_self_iff wf hscalar nothing h]
    exact ⟨fun hdecimals => ⟨hblank, fun _ => hdecimals⟩,
      fun hcanonical => hcanonical.reread hscalar⟩

theorem encode_eq_self_iff_canonical (hcovers : c.Covers d) {encoded plain : String}
    (hplain : EncodedField.decode? encoded = some plain) :
    Tree.text (EncodedField.encode plain) = .text encoded ↔ c.Canonical d (.text encoded) := by
  rw [Tree.text.injEq, EncodedField.encode_eq_iff hplain]
  constructor
  · intro hblank
    exact ⟨fun _ e he => Tree.text.inj he ▸ hblank, nofun⟩
  · exact fun hcanonical => hcanonical.notBlank hcovers encoded rfl

theorem reencoded_eq_self_iff (hcovers : c.Covers d) (wf : u.WellFormed)
    (hu : EncodedField.decoded? u = some v)
    (nothing : ∀ text, searchedText? v = some text →
      c.search.pattern.allMatches text.toList = [])
    (h : c.replaceNode r v = .ok w) : EncodedField.restored u w = u ↔ c.Canonical d u := by
  cases u with
  | text encoded =>
    obtain ⟨plain, hplain, rfl⟩ := Option.map_eq_some_iff.1 hu
    rw [replaceNode_of_isScalar rfl nothing] at h
    obtain rfl := Except.ok.inj h
    exact encode_eq_self_iff_canonical hcovers hplain
  | null =>
    obtain rfl := Option.some.inj hu
    rw [replaceNode_of_isScalar rfl nothing] at h
    obtain rfl := Except.ok.inj h
    exact iff_of_true rfl ⟨fun _ _ => nofun, nofun⟩
  | _ =>
    obtain rfl := Option.some.inj hu
    exact replaceNode_eq_self_iff_canonical wf (fun _ => nofun) nothing h

theorem storedNode_eq_self_iff {s s' : Unit} (wf : u.WellFormed)
    (nothing : ∀ v text, c.seen? d u = some v → searchedText? v = some text →
      c.search.pattern.allMatches text.toList = [])
    (h : (c.storedNode r d u).run s = (.ok w, s')) : w = u ↔ c.Canonical d u := by
  by_cases hcovers : c.Covers d
  · have hseen : c.seen? d u = EncodedField.decoded? u := if_pos hcovers
    rw [storedNode, if_pos hcovers] at h
    cases hu : EncodedField.decoded? u with
    | none =>
      rw [EncodedField.run_decoding_of_none hu] at h
      cases h
    | some v =>
      rw [EncodedField.run_decoding_of_some hu] at h
      obtain ⟨x, hx, rfl⟩ := map_eq_ok.1 (congrArg Prod.fst h)
      exact reencoded_eq_self_iff hcovers wf hu (fun text => nothing v text (hseen.trans hu)) hx
  · have hseen : c.seen? d u = some u := if_neg hcovers
    rw [storedNode, if_neg hcovers] at h
    exact replaceNode_eq_self_iff_canonical wf (fun h => absurd h hcovers)
      (fun text => nothing u text hseen) (congrArg Prod.fst h)

def CanonicalIn (c : SearchReplace) (d : Document) : Prop :=
  ∀ p u, d.tree.Addresses true c.path.segments p → d.tree.get? p = some u → c.Canonical d u

theorem not_covers_of_isRoot (hroot : c.path.isRoot = true) : ¬ c.Covers d := by
  have hsegments : c.path.segments = [] := List.isEmpty_iff.1 hroot
  rw [Covers, EncodedField.covers, FieldPath.firstField?, hsegments]
  exact Bool.false_ne_true

theorem addresses_iff_of_isRoot {p : Position} (valid : d.Valid) (hroot : c.path.isRoot = true) :
    d.tree.Addresses true c.path.segments p ↔ p = [] := by
  have hsegments : c.path.segments = [] := List.isEmpty_iff.1 hroot
  obtain ⟨es, hes⟩ := valid.tree_eq_map
  rw [hsegments, hes]
  constructor
  · intro hp
    cases hp
    rfl
  · rintro rfl
    refine .here fun _ _ hlist => ?_
    cases hlist

theorem exists_of_replaceRoot (h : c.replaceRoot r d = .ok d') :
    ∃ t, c.replaceNode r d.tree = .ok t ∧ d' = { d with tree := t } := by
  obtain ⟨t, ht, h⟩ := bind_eq_ok.1 h
  refine ⟨t, ht, ?_⟩
  cases t with
  | map _ => exact Document.eq_of_replaceTree h
  | _ => cases h

theorem exists_of_replaceIn (hroot : ¬ c.path.isRoot = true) (h : c.replaceIn r d = .ok d') :
    ∃ t n, ((c.path.applied false (c.storedNode r d) d.tree).run ()).1 = .ok (t, n) ∧
      d' = { d with tree := t } := by
  rw [replaceIn, if_neg hroot] at h
  obtain ⟨⟨e, n⟩, happly, rfl⟩ := map_eq_ok.1 h
  obtain ⟨t, ht, rfl⟩ := EncodedField.applied_eq_ok happly
  exact ⟨t, n, ht, rfl⟩

theorem replaceRoot_eq_self_iff (wf : d.tree.WellFormed) (valid : d.Valid)
    (hroot : c.path.isRoot = true) (nothing : c.FindsNothing d)
    (h : c.replaceRoot r d = .ok d') : d' = d ↔ c.CanonicalIn d := by
  have haddressed : d.tree.Addresses true c.path.segments [] :=
    (addresses_iff_of_isRoot valid hroot).2 rfl
  have hcovers : ¬ c.Covers d := not_covers_of_isRoot hroot
  obtain ⟨t, ht, rfl⟩ := exists_of_replaceRoot h
  rw [Document.withTree_eq_self_iff, replaceNode_eq_self_iff_canonical (d := d) wf
    (fun h => absurd h hcovers)
    (fun text => nothing [] d.tree d.tree text haddressed rfl (if_neg hcovers)) ht]
  constructor
  · intro hcanonical p u hp hu
    obtain rfl := (addresses_iff_of_isRoot valid hroot).1 hp
    exact Option.some.inj hu ▸ hcanonical
  · exact fun hcanonical => hcanonical [] d.tree haddressed rfl

theorem replaceIn_eq_self_iff (wf : d.tree.WellFormed) (valid : d.Valid)
    (nothing : c.FindsNothing d) (h : c.replaceIn r d = .ok d') :
    d' = d ↔ c.CanonicalIn d := by
  by_cases hroot : c.path.isRoot = true
  · rw [replaceIn, if_pos hroot] at h
    exact replaceRoot_eq_self_iff wf valid hroot nothing h
  · obtain ⟨t, n, hstored, rfl⟩ := exists_of_replaceIn hroot h
    rw [Document.withTree_eq_self_iff]
    refine FieldPath.applied_eq_self_iff hstored fun p u hp hget w s s' hrun => ?_
    exact storedNode_eq_self_iff (Tree.wellFormed_get? wf hget)
      (fun v text => nothing p u v text hp hget) hrun

/-- A search that finds nothing in the selected documents leaves the store as it was exactly when
there is nothing to put in, or what it searched was canonical. -/
theorem transform_eq_self_iff {w : Workspace} {s s' : Store} (valid : s.Valid)
    (wf : ∀ d ∈ s.documents, d.tree.WellFormed)
    (nothing : ∀ d ∈ s.documents, c.Selects d → c.FindsNothing d)
    (h : c.transform w s = .ok s') :
    s' = s ↔ c.replacement w s = .ok none ∨
      ∀ d ∈ s.documents, c.Selects d → c.CanonicalIn d := by
  obtain ⟨r?, hr, h⟩ := bind_eq_ok.1 h
  cases r? with
  | none => exact iff_of_true (pure_eq_ok.1 h).symm (.inl hr)
  | some r =>
    obtain ⟨accepts, haccepts, h⟩ := bind_eq_ok.1 h
    have hselects : ∀ d, c.Selects d ↔ accepts d = true := fun d => selects_iff haccepts
    have hsome : ¬ c.replacement w s = .ok none := by
      rw [hr]
      nofun
    rw [or_iff_right hsome, Store.mapM_eq_self_iff h]
    refine forall₂_congr fun d hd => ?_
    split
    · rename_i hd'
      have hselected := (hselects d).2 hd'
      obtain ⟨d', hrun⟩ := Store.exists_of_mapM h hd
      rw [if_pos hd'] at hrun
      rw [hrun, Except.ok.injEq, replaceIn_eq_self_iff (wf d hd) (valid d hd)
        (nothing d hd hselected) hrun]
      exact ⟨fun h _ => h, fun h => h hselected⟩
    · rename_i hd'
      exact iff_of_true rfl fun hselected => absurd ((hselects d).1 hselected) hd'

def searching : Tree :=
  .map [("apiVersion", .text "kfuse/v1"), ("kind", .text SearchReplace.kind),
    ("target", .map [("kind", .text "Secret")]), ("path", .text "data/password"),
    ("search", .text "zzz"), ("replace", .text "x")]

def secretWithPassword (encoded : String) : Document where
  tree := .map [("apiVersion", .text "v1"), ("kind", .text "Secret"),
    ("metadata", .map [("name", .text "s")]), ("data", .map [("password", .text encoded)])]

theorem valid_secretWithPassword (encoded : String) :
    (Store.mk [secretWithPassword encoded]).Valid := List.forall_mem_singleton.2 rfl

theorem wellFormed_secretWithPassword (encoded : String) :
    ∀ d ∈ (Store.mk [secretWithPassword encoded]).documents, d.tree.WellFormed := by
  refine List.forall_mem_singleton.2 ?_
  simp [secretWithPassword, Tree.WellFormed, Tree.WellFormedEntries, Entries.Distinct, Entries.keys]

theorem get?_of_addresses_password {encoded : String} {p : Position} (hp :
    (secretWithPassword encoded).tree.Addresses true [.field "data", .field "password"] p)
    (hu : (secretWithPassword encoded).tree.get? p = some u) : u = .text encoded := by
  cases hp with
  | entry hdata hp =>
    obtain rfl := Option.some.inj hdata
    cases hp with
    | entry hpassword hp =>
      obtain rfl := Option.some.inj hpassword
      cases hp
      exact (Option.some.inj hu).symm

theorem exists_transform_searching {encoded : String} {encoded' : String}
    (h : ((configure searching >>= fun c =>
        (c.transform ⟨".", {}, []⟩ ⟨[secretWithPassword encoded]⟩).map fun s => (c.path.segments,
          c.search.pattern.allMatches "hunter2".toList, s)).toOption =
      some ([.field "data", .field "password"], [], ⟨[secretWithPassword encoded']⟩))) :
    ∃ c, configure searching = .ok c ∧ c.path.segments = [.field "data", .field "password"] ∧
      c.search.pattern.allMatches "hunter2".toList = [] ∧
      c.transform ⟨".", {}, []⟩ ⟨[secretWithPassword encoded]⟩ =
        .ok ⟨[secretWithPassword encoded']⟩ := by
  obtain ⟨c, hc, h⟩ := bind_eq_ok.1 (eq_ok_of_toOption h)
  obtain ⟨s, hs, h⟩ := map_eq_ok.1 h
  simp only [Prod.mk.injEq] at h
  exact ⟨c, hc, h.1, h.2.1, h.2.2 ▸ hs⟩

theorem findsNothing_secretWithPassword {encoded : String}
    (hpath : c.path.segments = [.field "data", .field "password"])
    (hmatches : c.search.pattern.allMatches "hunter2".toList = [])
    (hdecode : EncodedField.decode? encoded = some "hunter2") :
    c.FindsNothing (secretWithPassword encoded) := by
  intro p u v text hp hu hv htext
  rw [hpath] at hp
  obtain rfl := get?_of_addresses_password hp hu
  have hcovers : c.Covers (secretWithPassword encoded) := by
    rw [Covers, EncodedField.covers, FieldPath.firstField?, hpath]
    rfl
  rw [seen?, if_pos hcovers, EncodedField.decoded?, hdecode] at hv
  obtain rfl := Option.some.inj hv
  obtain rfl := Option.some.inj htext
  exact hmatches

theorem transform_eq_self_iff_password : ∃ c s', configure searching = .ok c ∧
    c.FindsNothing (secretWithPassword "aHVudGVyMg==") ∧
    c.CanonicalIn (secretWithPassword "aHVudGVyMg==") ∧
    c.transform ⟨".", {}, []⟩ ⟨[secretWithPassword "aHVudGVyMg=="]⟩ = .ok s' ∧
    s' = ⟨[secretWithPassword "aHVudGVyMg=="]⟩ := by
  obtain ⟨c, hc, hpath, hmatches, h⟩ :=
    @exists_transform_searching "aHVudGVyMg==" "aHVudGVyMg==" (by decide +kernel)
  have hdecode : EncodedField.decode? "aHVudGVyMg==" = some "hunter2" := by decide +kernel
  have hnothing := findsNothing_secretWithPassword hpath hmatches hdecode
  have hcanonical : c.CanonicalIn (secretWithPassword "aHVudGVyMg==") := by
    intro p u hp hu
    rw [hpath] at hp
    obtain rfl := get?_of_addresses_password hp hu
    refine ⟨fun _ e he x hx => ?_, nofun⟩
    obtain rfl := Tree.text.inj he
    have hblank : ("aHVudGVyMg==".toList.all fun x => !Text.isBlank x) = true := by decide +kernel
    simpa using List.all_eq_true.1 hblank x hx
  exact ⟨c, _, hc, hnothing, hcanonical, h,
    (transform_eq_self_iff (valid_secretWithPassword _) (wellFormed_secretWithPassword _)
      (List.forall_mem_singleton.2 fun _ => hnothing) h).2
      (.inr (List.forall_mem_singleton.2 fun _ => hcanonical))⟩

/-- Blanks in an encoded text are lost, although nothing was found in it. -/
theorem not_transform_eq_self_in_general :
    ¬ ∀ (w : Workspace) (config : Tree) (c : SearchReplace) (s s' : Store),
      configure config = .ok c → s.Valid → (∀ d ∈ s.documents, d.tree.WellFormed) →
      (∀ d ∈ s.documents, c.Selects d → c.FindsNothing d) → c.transform w s = .ok s' →
      s' = s := by
  intro h
  obtain ⟨c, hc, hpath, hmatches, htransform⟩ :=
    @exists_transform_searching "aHVu dGVyMg==" "aHVudGVyMg==" (by decide +kernel)
  have hdecode : EncodedField.decode? "aHVu dGVyMg==" = some "hunter2" := by decide +kernel
  have hnothing := findsNothing_secretWithPassword hpath hmatches hdecode
  have hsame := h _ _ c _ _ hc (valid_secretWithPassword _) (wellFormed_secretWithPassword _)
    (List.forall_mem_singleton.2 fun _ => hnothing) htransform
  revert hsame
  decide

end SearchReplace

end Manifest
