import Manifest.Proofs.Pattern.Replacement
import Manifest.Proofs.Plugin.SearchReplace
import Manifest.Proofs.Text.Unsigned

namespace Manifest

namespace Text

theorem readInt64?_writeInt (n : Int64) : readInt64? (writeInt n.toInt) = some n := by
  have hrange : -(Nat.pow 2 63 : Int) ≤ n.toInt ∧ n.toInt < (Nat.pow 2 63 : Int) :=
    ⟨n.le_toInt, n.toInt_lt⟩
  have hin : ∀ k : Int, k = n.toInt →
      (if -(Nat.pow 2 63 : Int) ≤ k ∧ k < (Nat.pow 2 63 : Int) then some (Int64.ofInt k)
        else none) = some n := by
    rintro k rfl
    rw [if_pos hrange, Int64.ofInt_toInt]
  have hread := readNat?_writeNat n.toInt.natAbs
  obtain ⟨d, ds, hcons, hminus, hplus⟩ :=
    exists_cons_of_digits (Json.digits_writeNat n.toInt.natAbs)
  rw [writeInt]
  rw [hcons] at hread ⊢
  split
  · have habs : -(n.toInt.natAbs : Int) = n.toInt := by omega
    rw [readInt64?, hread]
    · exact Option.bind_eq_some_iff.2 ⟨_, rfl, hin _ habs⟩
    · exact fun r heq => hplus (List.cons.inj heq).1
  · have habs : (n.toInt.natAbs : Int) = n.toInt := by omega
    rw [readInt64?, hread, Option.map_some]
    · exact Option.bind_eq_some_iff.2 ⟨_, rfl, hin _ habs⟩
    · exact fun r heq => hminus (List.cons.inj heq).1
    · exact fun r heq => hminus (List.cons.inj heq).1

end Text

namespace ScalarType

variable {t v : Tree} {text : String}

theorem exists_read?_of_text? (ht : t.text? = some text) :
    ∃ v, (ofTree t).read? text = some v ∧ v.text? = some text := by
  cases t with
  | null | list _ | map _ => cases ht
  | boolean b =>
    cases b
    · obtain rfl := Option.some.inj ht
      exact ⟨.boolean false, rfl, rfl⟩
    · obtain rfl := Option.some.inj ht
      exact ⟨.boolean true, rfl, rfl⟩
  | integer n =>
    obtain rfl := Option.some.inj ht
    refine ⟨.integer n, ?_, rfl⟩
    rw [ofTree, read?, String.toList_ofList, Text.readInt64?_writeInt]
    rfl
  | decimal d =>
    obtain rfl := Option.some.inj ht
    obtain ⟨e, he, hwrite⟩ := Option.map_eq_some_iff.1 (Decimal.write_read?_write d)
    refine ⟨.decimal e, ?_, congrArg (some ∘ String.ofList) hwrite⟩
    rw [ofTree, read?, String.toList_ofList, he]
    rfl
  | text s =>
    obtain rfl := Option.some.inj ht
    exact ⟨.text s, rfl, rfl⟩

theorem text?_of_read?_boolean (h : boolean.read? text = some v) : v.text? = some text := by
  rw [read?] at h
  split at h
  · obtain rfl := Option.some.inj h
    exact congrArg some (Eq.symm ‹_›)
  · split at h
    · obtain rfl := Option.some.inj h
      exact congrArg some (Eq.symm ‹_›)
    · cases h

end ScalarType

namespace FieldPath

variable {σ : Type} {edit : Edit σ}

theorem exists_of_forall₂ {α : Type} {R : Tree → Tree → Prop} {f g : α → Option Tree}
    {ps : List α} {us vs : List Tree} (h : List.Forall₂ R us vs) (hf : ps.map f = us.map some)
    (hg : ps.map g = vs.map some) : ∀ p ∈ ps, ∃ u v, f p = some u ∧ g p = some v ∧ R u v := by
  induction h generalizing ps with
  | nil =>
    obtain rfl : ps = [] := List.map_eq_nil_iff.1 hf
    nofun
  | cons huv _ ih =>
    cases ps with
    | nil => cases hf
    | cons p ps =>
      obtain ⟨hfp, hfs⟩ := List.cons.inj hf
      obtain ⟨hgp, hgs⟩ := List.cons.inj hg
      exact List.forall_mem_cons.2 ⟨⟨_, _, hfp, hgp, huv⟩, ih hfs hgs⟩

theorem exists_call_of_applied {p : FieldPath} {t t' u : Tree} {s : σ} {n : Nat} {q : Position}
    (h : ((p.applied false edit t).run s).1 = .ok (t', n)) (hq : t.Addresses true p.segments q)
    (hu : t.get? q = some u) :
    ∃ v s s', (edit u).run s = (.ok v, s') ∧ t'.get? q = some v := by
  have houtcome := outcome_of_apply p edit t s
  rw [run_apply_eq] at houtcome
  obtain ⟨s', hrun⟩ : ∃ s', (p.applied false edit t).run s = (.ok (t', n), s') :=
    ⟨_, Prod.ext h rfl⟩
  rw [hrun] at houtcome
  cases houtcome with
  | @edited ps us vs _ _ haddressed hnodes hcalls hwritten =>
    have hran : List.Forall₂ (fun u v => ∃ s s', (edit u).run s = (.ok v, s')) us vs :=
      forall₂_of_calls hcalls rfl fun u _ v s s' hrun => ⟨s, s', hrun⟩
    obtain ⟨u', v, hu', hv, s, s', hrun⟩ :=
      exists_of_forall₂ hran hnodes hwritten.map_get? q ((haddressed.mem_iff q).2 hq)
    obtain rfl := Option.some.inj (hu.symm.trans hu')
    exact ⟨v, s, s', hrun, hv⟩

end FieldPath

namespace SearchReplace

open Pattern

variable {w : Workspace} {c : SearchReplace} {s s' : Store} {r : Replacement} {d d' : Document}
  {path : FieldPath} {u v x : Tree} {text text' : String}

def content? (path : FieldPath) (d : Document) (u : Tree) : Option Tree :=
  if EncodedField.covers EncodedField.standard d.kind path then EncodedField.decoded? u else some u

def IsField (path : FieldPath) (d : Document) (r : Replacement) : Prop :=
  path.lookup d.tree = .ok (some r.value) ∧
    (content? path d r.value).bind Tree.text? = some r.text

/-- What a search puts in: the scalar that is given, the first usable field among the documents that
are referred to, or a variable of the environment. -/
inductive PutsIn (w : Workspace) (c : SearchReplace) (s : Store) : Replacement → Prop
  | given {text : String} : c.replace ≠ .text "" → c.replace.text? = some text →
      PutsIn w c s ⟨text, c.replace⟩
  | field {v : Reference.NamedValue} {path : FieldPath} {d : Document} {r : Replacement}
      {before after : List Document} : c.replace = .null ∨ c.replace = .text "" →
      c.object? = some v → FieldPath.parse v.field = .ok path →
      s.documents.filter v.object.selects = before ++ d :: after →
      (∀ e ∈ before, ∀ r', ¬ IsField path e r') → IsField path d r → PutsIn w c s r
  | environment : c.replace = .null ∨ c.replace = .text "" → c.object? = none →
      c.environmentName ≠ "" → PutsIn w c s (.ofText (w.environmentValue c.environmentName))
  | nothing : c.replace = .null ∨ c.replace = .text "" → c.object? = none →
      c.environmentName = "" → PutsIn w c s (.ofText "")

theorem content?_of_ne_text (h : ∀ e, u ≠ .text e) : content? path d u = some u := by
  rw [content?]
  cases u with
  | text e => exact absurd rfl (h e)
  | _ => split <;> rfl

theorem fieldValue?_of_lookup (h : path.lookup d.tree = .ok (some u)) :
    fieldValue? path d = ((content? path d u).bind Tree.text?).map (⟨·, u⟩) := by
  rw [fieldValue?, h]
  cases u with
  | text encoded =>
    dsimp only [Replacement.ofTree?, Tree.text?, Option.map_some]
    rw [content?]
    split
    · rw [EncodedField.decoded?]
      cases EncodedField.decode? encoded <;> rfl
    · rfl
  | boolean b =>
    rw [content?_of_ne_text]
    · cases b <;> rfl
    · rintro e ⟨⟩
  | _ =>
    rw [content?_of_ne_text]
    · rfl
    · rintro e ⟨⟩

theorem fieldValue?_eq_some_iff : fieldValue? path d = some r ↔ IsField path d r := by
  cases hlookup : path.lookup d.tree with
  | error e =>
    rw [fieldValue?, hlookup]
    exact iff_of_false nofun fun h => nomatch hlookup.symm.trans h.1
  | ok u? =>
    cases u? with
    | none =>
      rw [fieldValue?, hlookup]
      exact iff_of_false nofun fun h => nomatch hlookup.symm.trans h.1
    | some u =>
      rw [fieldValue?_of_lookup hlookup, Option.map_eq_some_iff]
      constructor
      · rintro ⟨text, htext, rfl⟩
        exact ⟨hlookup, htext⟩
      · rintro ⟨hvalue, htext⟩
        obtain rfl := Option.some.inj (Except.ok.inj (hlookup.symm.trans hvalue))
        exact ⟨r.text, htext, rfl⟩

theorem referencedValue_eq_some_iff {v : Reference.NamedValue} :
    referencedValue v s = .ok (some r) ↔ ∃ path before d after,
      FieldPath.parse v.field = .ok path ∧
      s.documents.filter v.object.selects = before ++ d :: after ∧
      (∀ e ∈ before, ∀ r', ¬ IsField path e r') ∧ IsField path d r := by
  have hnone : ∀ path e, fieldValue? path e = none ↔ ∀ r', ¬ IsField path e r' := fun path e => by
    rw [Option.eq_none_iff_forall_ne_some]
    exact forall_congr' fun r' => not_congr fieldValue?_eq_some_iff
  rw [referencedValue, bind_eq_ok]
  refine exists_congr fun path => ?_
  rw [mapError_eq_ok, pure_eq_ok, List.findSome?_eq_some_iff]
  simp only [fieldValue?_eq_some_iff, hnone]
  constructor
  · rintro ⟨hpath, before, d, after, hsplit, hd, hbefore⟩
    exact ⟨before, d, after, hpath, hsplit, hbefore, hd⟩
  · rintro ⟨before, d, after, hpath, hsplit, hbefore, hd⟩
    exact ⟨hpath, before, d, after, hsplit, hd, hbefore⟩

theorem replacement_eq_some_iff_of_given (hgiven : c.replace ≠ .null ∧ c.replace ≠ .text "") :
    c.replacement w s = .ok (some r) ↔ PutsIn w c s r := by
  rw [replacement, if_pos hgiven, Replacement.ofTree?]
  have hpresent : ¬ (c.replace = .null ∨ c.replace = .text "") := not_or.2 hgiven
  constructor
  · intro h
    cases htext : c.replace.text? with
    | none =>
      rw [htext] at h
      cases h
    | some text =>
      rw [htext] at h
      cases h
      exact .given hgiven.2 htext
  · intro h
    cases h with
    | given _ htext =>
      rw [htext]
      rfl
    | field h | environment h | nothing h => exact absurd h hpresent

theorem replacement_eq_some_iff_of_missing (hmissing : c.replace = .null ∨ c.replace = .text "") :
    c.replacement w s = .ok (some r) ↔ PutsIn w c s r := by
  have hnone : c.replace ≠ .text "" → c.replace.text? = none := fun hne => by
    rw [hmissing.resolve_right hne]
    rfl
  rw [replacement, if_neg fun hgiven => hmissing.elim hgiven.1 hgiven.2]
  cases hobject : c.object? with
  | some v =>
    refine referencedValue_eq_some_iff.trans ⟨?_, fun h => ?_⟩
    · rintro ⟨path, before, d, after, hpath, hsplit, hbefore, hd⟩
      exact .field hmissing hobject hpath hsplit hbefore hd
    · cases h with
      | given hne htext => cases (hnone hne).symm.trans htext
      | field _ hv hpath hsplit hbefore hd =>
        obtain rfl := Option.some.inj (hobject.symm.trans hv)
        exact ⟨_, _, _, _, hpath, hsplit, hbefore, hd⟩
      | environment _ hv | nothing _ hv => cases hobject.symm.trans hv
  | none =>
    constructor
    · intro h
      dsimp only at h
      split at h
      · cases h
        exact .nothing hmissing hobject ‹_›
      · cases h
        exact .environment hmissing hobject ‹_›
    · intro h
      cases h with
      | given hne htext => cases (hnone hne).symm.trans htext
      | field _ hv => cases hobject.symm.trans hv
      | environment _ _ hname => exact if_neg hname
      | nothing _ _ hname => exact if_pos hname

theorem replacement_eq_some_iff : c.replacement w s = .ok (some r) ↔ PutsIn w c s r := by
  by_cases hgiven : c.replace ≠ .null ∧ c.replace ≠ .text ""
  · exact replacement_eq_some_iff_of_given hgiven
  · rw [not_and_or, not_not, not_not] at hgiven
    exact replacement_eq_some_iff_of_missing hgiven

theorem PutsIn.text?_value (h : PutsIn w c s r) :
    r.value.text? = some r.text ∨ ∃ e, r.value = .text e := by
  cases h with
  | given _ htext => exact .inl htext
  | field _ _ _ _ _ hfield =>
    by_cases htext : ∃ e, r.value = .text e
    · exact .inr htext
    · have hcontent := hfield.2
      rw [content?_of_ne_text fun e he => htext ⟨e, he⟩] at hcontent
      exact .inl hcontent
  | environment | nothing => exact .inl rfl

/-- What becomes of a scalar `v` with the text `text`, when its text becomes `text'` and it becomes
`x`. -/
structure Inserts (c : SearchReplace) (r : Replacement) (v : Tree) (text : String) (x : Tree)
    (text' : String) : Prop where
  inserted : Inserted (fun m => expandFrom (c.search.valueOf text.toList m) 0 r.text.toList) 0
    (c.search.pattern.allMatches text.toList) text.toList text'.toList
  literal : Literal r.text.toList → Inserted (fun _ => r.text.toList) 0
    (c.search.pattern.allMatches text.toList) text.toList text'.toList
  whole : Literal r.text.toList → ∀ m, c.search.pattern.allMatches text.toList = [m] →
    matchStart m = 0 → matchEnd m = text.toList.length → text' = r.text
  kept : text' = text → x = v
  read : text' ≠ text → (c.changedType r text').read? text' = some x
  text : c.type? ≠ some .integer → c.type? ≠ some .decimal → x.text? = some text'

theorem text?_of_changedType (hr : r.value.text? = some r.text ∨ ∃ e, r.value = .text e)
    (hinteger : c.type? ≠ some .integer) (hdecimal : c.type? ≠ some .decimal)
    (h : (c.changedType r text').read? text' = some x) : x.text? = some text' := by
  have hstring : ∀ {y}, ScalarType.string.read? text' = some y → y.text? = some text' := by
    intro y hy
    obtain rfl := Option.some.inj hy
    rfl
  rw [changedType] at h
  split at h
  · rename_i type htype
    cases type with
    | string => exact hstring h
    | boolean => exact ScalarType.text?_of_read?_boolean h
    | integer => exact absurd htype hinteger
    | decimal => exact absurd htype hdecimal
  · split at h
    · rename_i hwhole
      subst hwhole
      -- A decoded field has another text than its scalar, but then the text is read as a text.
      obtain htext | ⟨e, he⟩ := hr
      · obtain ⟨y, hy, hytext⟩ := ScalarType.exists_read?_of_text? htext
        obtain rfl := Option.some.inj (hy.symm.trans h)
        exact hytext
      · rw [he] at h
        exact hstring h
    · exact hstring h

theorem exists_inserts (hr : r.value.text? = some r.text ∨ ∃ e, r.value = .text e)
    (htext : v.text? = some text) (h : c.replaceNode r v = .ok x) :
    ∃ text', c.Inserts r v text x text' := by
  have hpieces := NamedPattern.inserted_replaceAll c.search r.text text
  have hliteral := fun hr : Literal r.text.toList =>
    NamedPattern.inserted_replaceAll_of_literal hr c.search text
  have hwhole : Literal r.text.toList → ∀ m, c.search.pattern.allMatches text.toList = [m] →
      matchStart m = 0 → matchEnd m = text.toList.length →
      c.search.replaceAll r.text text = r.text := by
    intro hr m hm hstart hend
    have hinserted := hliteral hr
    rw [hm] at hinserted
    exact String.toList_inj.1 (NamedPattern.eq_of_inserted_whole hinserted hstart hend)
  rw [replaceNode, htext] at h
  dsimp only at h
  split at h
  · rename_i hsame
    obtain rfl := Except.ok.inj h
    exact ⟨c.search.replaceAll r.text text, hpieces, hliteral, hwhole, fun _ => rfl,
      fun hne => absurd hsame hne, fun _ _ => htext.trans (congrArg some hsame.symm)⟩
  · rename_i hchanged
    split at h
    · rename_i y hread
      obtain rfl := Except.ok.inj h
      exact ⟨c.search.replaceAll r.text text, hpieces, hliteral, hwhole,
        fun hsame => absurd hsame hchanged, fun _ => hread,
        fun hinteger hdecimal => text?_of_changedType hr hinteger hdecimal hread⟩
    · cases h

/-- What is stored in the place of `u` for `x`, which what the search saw of `u` has become: `x`
itself, or its text form in base 64 where a text was decoded. -/
def Stores (c : SearchReplace) (d : Document) (u x w : Tree) : Prop :=
  (c.Covers d → EncodedField.Restored u x w) ∧ (¬ c.Covers d → w = x)

def Rewrites (c : SearchReplace) (R : Tree → Tree → Prop) (d d' : Document) : Prop :=
  ∀ p u, d.tree.Addresses true c.path.segments p → d.tree.get? p = some u →
    ∃ v x w, c.seen? d u = some v ∧ d'.tree.get? p = some w ∧ c.Stores d u x w ∧ R v x

theorem exists_of_storedNode {s s' : Unit} {w : Tree}
    (h : (c.storedNode r d u).run s = (.ok w, s')) :
    ∃ v x, c.seen? d u = some v ∧ c.replaceNode r v = .ok x ∧ c.Stores d u x w := by
  rw [storedNode] at h
  by_cases hcovers : c.Covers d
  · rw [if_pos hcovers] at h
    cases hu : EncodedField.decoded? u with
    | none =>
      rw [EncodedField.run_decoding_of_none hu] at h
      cases h
    | some v =>
      rw [EncodedField.run_decoding_of_some hu] at h
      obtain ⟨x, hx, rfl⟩ := map_eq_ok.1 (congrArg Prod.fst h)
      exact ⟨v, x, (if_pos hcovers).trans hu, hx, fun _ => EncodedField.restored_spec u x,
        fun hnot => absurd hcovers hnot⟩
  · rw [if_neg hcovers] at h
    exact ⟨u, w, if_neg hcovers, congrArg Prod.fst h, fun h => absurd h hcovers, fun _ => rfl⟩

theorem rewrites_of_replaceRoot {R : Tree → Tree → Prop} (valid : d.Valid)
    (hroot : c.path.isRoot = true) (hR : ∀ v x, c.replaceNode r v = .ok x → R v x)
    (h : c.replaceRoot r d = .ok d') : c.Rewrites R d d' := by
  intro p u hp hu
  obtain rfl := (addresses_iff_of_isRoot valid hroot).1 hp
  obtain rfl := Option.some.inj hu
  have hcovers : ¬ c.Covers d := not_covers_of_isRoot hroot
  obtain ⟨t, ht, rfl⟩ := exists_of_replaceRoot h
  exact ⟨d.tree, t, t, if_neg hcovers, rfl, ⟨fun h => absurd h hcovers, fun _ => rfl⟩, hR _ _ ht⟩

theorem rewrites_of_replaceIn {R : Tree → Tree → Prop} (valid : d.Valid)
    (hR : ∀ v x, c.replaceNode r v = .ok x → R v x) (h : c.replaceIn r d = .ok d') :
    c.Rewrites R d d' := by
  by_cases hroot : c.path.isRoot = true
  · rw [replaceIn, if_pos hroot] at h
    exact rewrites_of_replaceRoot valid hroot hR h
  · obtain ⟨t, n, hstored, rfl⟩ := exists_of_replaceIn hroot h
    intro p u hp hu
    obtain ⟨w, _, _, hrun, hw⟩ := FieldPath.exists_call_of_applied hstored hp hu
    obtain ⟨v, x, hv, hx, hstores⟩ := exists_of_storedNode hrun
    exact ⟨v, x, w, hv, hw, hstores, hR v x hx⟩

/-- In the selected documents every scalar at the path becomes the one in which something is put in
for each match, which is the replacement as it is where no dollar sign of it refers to anything; the
other documents stay as they are. -/
theorem transform_inserts (valid : s.Valid) (put : PutsIn w c s r) (h : c.transform w s = .ok s') :
    List.Forall₂ (fun d d' =>
      (c.Selects d → c.Rewrites (fun v x => ∀ text, v.text? = some text →
        ∃ text', c.Inserts r v text x text') d d') ∧
      (¬ c.Selects d → d' = d)) s.documents s'.documents := by
  obtain ⟨r?, hr, h⟩ := bind_eq_ok.1 h
  obtain rfl := Except.ok.inj (hr.symm.trans (replacement_eq_some_iff.2 put))
  obtain ⟨accepts, haccepts, h⟩ := bind_eq_ok.1 h
  refine forall₂_of_map_eq_ok (Store.mapM_eq_ok.1 h) fun d hd d' hd' => ?_
  rw [selects_iff haccepts]
  split at hd'
  · rename_i haccepted
    refine ⟨fun _ => ?_, fun hnot => absurd haccepted hnot⟩
    exact rewrites_of_replaceIn (valid d hd)
      (fun v x hx text htext => exists_inserts put.text?_value htext hx) hd'
  · rename_i hrefused
    exact ⟨fun haccepted => absurd haccepted hrefused, fun _ => (Except.ok.inj hd').symm⟩

def referring (search : String) : Tree :=
  .map [("apiVersion", .text "kfuse/v1"), ("kind", .text SearchReplace.kind),
    ("target", .map [("kind", .text "ConfigMap")]), ("path", .text "data/password"),
    ("search", .text search), ("replaceType", .text "string"),
    ("replaceWithObjRef", .map [
      ("objref", .map [("apiVersion", .text "v1"), ("kind", .text "Secret"), ("name", .text "s")]),
      ("fieldref", .map [("fieldpath", .text "data/password")])])]

def configMapWithPassword (password : String) : Document where
  tree := .map [("apiVersion", .text "v1"), ("kind", .text "ConfigMap"),
    ("metadata", .map [("name", .text "m")]), ("data", .map [("password", .text password)])]

def passwords (encoded password : String) : Store :=
  ⟨[secretWithPassword encoded, configMapWithPassword password]⟩

theorem valid_passwords (encoded password : String) : (passwords encoded password).Valid :=
  List.forall_mem_cons.2 ⟨rfl, List.forall_mem_singleton.2 rfl⟩

theorem exists_transform_referring {search encoded plain password password' : String}
    (h : (configure (referring search) >>= fun c => do
        let r? ← c.replacement ⟨".", {}, []⟩ (passwords encoded password)
        let s ← c.transform ⟨".", {}, []⟩ (passwords encoded password)
        return (r?.map fun r => (r.text, r.value), s)).toOption =
      some (some (plain, .text encoded), passwords encoded password')) :
    ∃ c, configure (referring search) = .ok c ∧
      PutsIn ⟨".", {}, []⟩ c (passwords encoded password) ⟨plain, .text encoded⟩ ∧
      c.transform ⟨".", {}, []⟩ (passwords encoded password) =
        .ok (passwords encoded password') := by
  obtain ⟨c, hc, h⟩ := bind_eq_ok.1 (eq_ok_of_toOption h)
  obtain ⟨r?, hr, h⟩ := bind_eq_ok.1 h
  obtain ⟨s, hs, h⟩ := bind_eq_ok.1 h
  obtain ⟨hreplacement, rfl⟩ := Prod.mk.inj (pure_eq_ok.1 h)
  obtain ⟨⟨text, value⟩, rfl, hpair⟩ := Option.map_eq_some_iff.1 hreplacement
  obtain ⟨rfl, rfl⟩ := Prod.mk.inj hpair
  exact ⟨c, hc, replacement_eq_some_iff.1 hr, hs⟩

theorem transform_inserts_dollar : ∃ c, configure (referring "far") = .ok c ∧
    Literal "100$".toList ∧
    c.transform ⟨".", {}, []⟩ (passwords "MTAwJA==" "near:far!") =
      .ok (passwords "MTAwJA==" "near:100$!") ∧
    List.Forall₂ (fun d d' =>
      (c.Selects d → c.Rewrites (fun v x => ∀ text, v.text? = some text →
        ∃ text', c.Inserts ⟨"100$", .text "MTAwJA=="⟩ v text x text') d d') ∧
      (¬ c.Selects d → d' = d))
      (passwords "MTAwJA==" "near:far!").documents
      (passwords "MTAwJA==" "near:100$!").documents := by
  obtain ⟨c, hc, hput, h⟩ := @exists_transform_referring "far" "MTAwJA==" "100$" "near:far!"
    "near:100$!" (by decide +kernel)
  exact ⟨c, hc, by decide, h, transform_inserts (valid_passwords _ _) hput h⟩

theorem refers_to_string (hc : configure (referring "^far$") = .ok c) :
    c.replace = .null ∧ c.type? = some .string := by
  have h : ((configure (referring "^far$")).map fun c => (c.replace, c.type?)).toOption =
      some (.null, some .string) := by decide +kernel
  obtain ⟨c', hc', h⟩ := map_eq_ok.1 (eq_ok_of_toOption h)
  obtain rfl := Except.ok.inj (hc.symm.trans hc')
  exact Prod.mk.inj h

theorem searches_whole_password (hc : configure (referring "^far$") = .ok c) :
    c.path.segments = [.field "data", .field "password"] ∧
      c.search.pattern.allMatches "far".toList = [[some 0, some 3]] ∧
      c.Selects (configMapWithPassword "far") := by
  have h : (configure (referring "^far$") >>= fun c => do
      let accepts ← c.target.matcher
      return (c.path.segments, c.search.pattern.allMatches "far".toList,
        accepts (configMapWithPassword "far"))).toOption =
      some ([.field "data", .field "password"], [[some 0, some 3]], true) := by decide
  obtain ⟨c', hc', h⟩ := bind_eq_ok.1 (eq_ok_of_toOption h)
  obtain rfl := Except.ok.inj (hc.symm.trans hc')
  obtain ⟨accepts, haccepts, h⟩ := bind_eq_ok.1 h
  have hall := pure_eq_ok.1 h
  simp only [Prod.mk.injEq] at hall
  exact ⟨hall.1, hall.2.1, (selects_iff haccepts).2 hall.2.2⟩

/-- Two dollar signs of a password become one, although the whole text is found. -/
theorem not_transform_inserts_in_general :
    ¬ ∀ (w : Workspace) (config : Tree) (c : SearchReplace) (s s' : Store) (r : Replacement),
      configure config = .ok c → c.replace = .null → c.type? = some .string → s.Valid →
      PutsIn w c s r → c.transform w s = .ok s' →
      List.Forall₂ (fun d d' => c.Selects d →
        c.Rewrites (fun v x => ∀ text, v.text? = some text → ∃ text', x.text? = some text' ∧
          Inserted (fun _ => r.text.toList) 0 (c.search.pattern.allMatches text.toList) text.toList
            text'.toList) d d') s.documents s'.documents := by
  intro h
  obtain ⟨c, hc, hput, htransform⟩ :=
    @exists_transform_referring "^far$" "cGEkJHdvcmQ=" "pa$$word" "far" "pa$word"
      (by decide +kernel)
  obtain ⟨hreplace, htype⟩ := refers_to_string hc
  obtain ⟨hpath, hmatches, hselects⟩ := searches_whole_password hc
  have hliteral := h _ _ c _ _ _ hc hreplace htype (valid_passwords _ _) hput htransform
  cases hliteral with
  | cons _ hrest =>
    cases hrest with
    | cons hdocument _ =>
      have haddressed : (configMapWithPassword "far").tree.Addresses true c.path.segments
          [.key "data", .key "password"] := by
        rw [hpath]
        exact .entry rfl (.entry rfl (.here fun _ _ => nofun))
      obtain ⟨v, x, w, hv, hw, hstores, htext⟩ := hdocument hselects _ _ haddressed rfl
      have hcovers : ¬ c.Covers (configMapWithPassword "far") := by
        rw [Covers, EncodedField.covers, FieldPath.firstField?, hpath]
        decide
      obtain rfl := Option.some.inj ((if_neg hcovers).symm.trans hv)
      obtain rfl := (Option.some.inj hw).trans (hstores.2 hcovers)
      obtain ⟨text', htext', hinserted⟩ := htext "far" rfl
      obtain rfl := Option.some.inj htext'
      rw [hmatches] at hinserted
      have hsame := NamedPattern.eq_of_inserted_whole hinserted rfl rfl
      revert hsame
      decide

end SearchReplace

end Manifest
