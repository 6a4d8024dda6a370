import Manifest.Proofs.Tree.Merge

/-! A list is merged element by element if all elements have names.  The elements of the target stay
where they are, under their names: the first one of a name is merged with all elements of the patch
that have it, and new names are added at the end.  Names are compared as scalars, for which the two
zeros are equal. -/

namespace Manifest

namespace Decimal

theorem sameNumber_comm (d e : Decimal) : d.sameNumber e = e.sameNumber d := by
  rw [sameNumber, sameNumber, Bool.and_comm (!d.isNaN), Bool.and_comm d.isZero,
    BEq.comm (a := d)]

theorem sameNumber_trans {d e f : Decimal} (h : d.sameNumber e = true)
    (h' : e.sameNumber f = true) : d.sameNumber f = true := by
  simp only [sameNumber, Bool.and_eq_true, Bool.or_eq_true, beq_iff_eq] at h h' ⊢
  obtain ⟨⟨hd, -⟩, rfl | ⟨hdz, hez⟩⟩ := h
  · exact h'
  · obtain ⟨⟨-, hf⟩, rfl | ⟨-, hfz⟩⟩ := h'
    · exact ⟨⟨hd, hf⟩, .inr ⟨hdz, hez⟩⟩
    · exact ⟨⟨hd, hf⟩, .inr ⟨hdz, hfz⟩⟩

end Decimal

namespace Tree

variable {item p t u v : Tree} {items target given : List Tree}

theorem sameScalar_comm (t u : Tree) : t.sameScalar u = u.sameScalar t := by
  cases t <;> cases u <;> simp [sameScalar, Decimal.sameNumber_comm, eq_comm]

theorem sameScalar_iff : t.sameScalar u = true ↔
    (t = u ∧ t.isScalar = true ∧ ∀ d, t ≠ .decimal d) ∨
      ∃ d e, t = .decimal d ∧ u = .decimal e ∧ d.sameNumber e = true := by
  cases t <;> cases u <;> simp [sameScalar, isScalar]

theorem sameScalar_trans (h : t.sameScalar u = true) (h' : u.sameScalar v = true) :
    t.sameScalar v = true := by
  rcases sameScalar_iff.1 h with ⟨rfl, -⟩ | ⟨d, e, rfl, rfl, hde⟩
  · exact h'
  · rcases sameScalar_iff.1 h' with ⟨-, -, hdecimal⟩ | ⟨e', f, he, rfl, hef⟩
    · exact absurd rfl (hdecimal e)
    · cases he
      exact Decimal.sameNumber_trans hde hef

theorem sameName_iff : sameName t u = true ↔
    ∃ a b, t.elementName? = some a ∧ u.elementName? = some b ∧ a.sameScalar b = true := by
  rw [sameName]
  cases t.elementName? <;> cases u.elementName? <;> simp

theorem sameName_comm (t u : Tree) : sameName t u = sameName u t := by
  rw [sameName, sameName]
  cases t.elementName? <;> cases u.elementName? <;> first | rfl | exact sameScalar_comm _ _

theorem sameName_trans (h : sameName t u = true) (h' : sameName u v = true) :
    sameName t v = true := by
  obtain ⟨a, b, ha, hb, hab⟩ := sameName_iff.1 h
  obtain ⟨b', c, hb', hc, hbc⟩ := sameName_iff.1 h'
  obtain rfl := Option.some.inj (hb.symm.trans hb')
  exact sameName_iff.2 ⟨a, c, ha, hc, sameScalar_trans hab hbc⟩

def Namesakes (t u : Tree) : Prop := t.elementName? = u.elementName? ∨ sameName t u = true

namespace Namesakes

@[refl] theorem refl (t : Tree) : Namesakes t t := .inl rfl

theorem sameName_eq (h : Namesakes t u) (v : Tree) : sameName v t = sameName v u := by
  rcases h with h | h
  · rw [sameName, sameName, h]
  · refine Bool.eq_iff_iff.2 ⟨fun hv => sameName_trans hv h, fun hv => sameName_trans hv ?_⟩
    rwa [sameName_comm]

theorem sameName_eq' (h : Namesakes t u) (v : Tree) : sameName t v = sameName u v := by
  rw [sameName_comm t, sameName_comm u, h.sameName_eq]

theorem trans (h : Namesakes t u) (h' : Namesakes u v) : Namesakes t v := by
  rcases h' with heq | hsame
  · rcases h with h | h
    · exact .inl (h.trans heq)
    · exact .inr ((Namesakes.sameName_eq (.inl heq) t).symm.trans h)
  · exact .inr ((h.sameName_eq' v).trans hsame)

end Namesakes

abbrev SameNames (ts us : List Tree) : Prop := List.Forall₂ Namesakes ts us

theorem SameNames.any_eq {ts us : List Tree} (h : SameNames ts us) (t : Tree) :
    ts.any (sameName t) = us.any (sameName t) := by
  induction h with
  | nil => rfl
  | cons head _ ih => rw [List.any_cons, List.any_cons, head.sameName_eq, ih]

theorem SameNames.refl (ts : List Tree) : SameNames ts ts :=
  List.forall₂_same.2 fun t _ => .refl t

theorem SameNames.trans {ts us vs : List Tree} (h : SameNames ts us) (h' : SameNames us vs) :
    SameNames ts vs := by
  induction h generalizing vs with
  | nil => exact h'
  | cons head _ ih =>
    cases h' with
    | cons head' tail' => exact .cons (head.trans head') (ih tail')

theorem merge_of_isScalar (h : p.isScalar = true) (t : Tree) : merge p t = p := by
  cases p with
  | list items => cases h
  | map es => cases h
  | _ => rw [merge] <;> simp

def KeepsName (item : Tree) : Prop :=
  ∀ t, sameName item t = true → (merge item t).elementName? = item.elementName?

theorem exists_entries_of_elementName? {name : Tree} (h : t.elementName? = some name) :
    ∃ es, t = .map es ∧ Entries.find? "name" es = some name ∧ name.isScalar = true := by
  obtain ⟨hname, hscalar⟩ := Option.filter_eq_some_iff.1 h
  cases t with
  | map es => exact ⟨es, rfl, hname, hscalar⟩
  | _ => cases hname

theorem keepsName_of_ne_null (wf : item.WellFormed) (h : item.field? "name" ≠ some .null) :
    item.KeepsName := by
  intro t same
  obtain ⟨a, b, ha, hb, -⟩ := sameName_iff.1 same
  obtain ⟨es, rfl, hes, hscalar⟩ := exists_entries_of_elementName? ha
  obtain ⟨ts, rfl, hts, -⟩ := exists_entries_of_elementName? hb
  have hnull : a.isNull = false := by
    cases a with
    | null => exact absurd hes h
    | _ => rfl
  have hfind := find?_mergeEntries ts wf.1 hes fun ha' => by rw [hnull] at ha'; cases ha'
  rw [mergedValue?, hnull, if_neg Bool.false_ne_true, hts, Option.elim_some,
    merge_of_isScalar hscalar] at hfind
  rw [merge_map_map, ha]
  exact Option.filter_eq_some_iff.2 ⟨hfind, hscalar⟩

theorem KeepsName.namesakes (h : item.KeepsName) (same : sameName item t = true) :
    Namesakes (merge item t) t := .trans (.inl (h t same)) (.inr same)

theorem modifyFirst_append_of_any {q : Tree → Bool} {f : Tree → Tree} {new : Tree}
    (h : given.any q = true) (ts : List Tree) :
    modifyFirst q f new (given ++ ts) = modifyFirst q f new given ++ ts := by
  induction given with
  | nil => cases h
  | cons u us ih =>
    rw [List.any_cons, Bool.or_eq_true] at h
    rw [List.cons_append, modifyFirst, modifyFirst]
    split
    · rfl
    · rename_i hu
      rw [ih (h.resolve_left hu), List.cons_append]

theorem modifyFirst_append {q : Tree → Bool} {f : Tree → Tree} {new : Tree}
    (h : given.any q = false) (ts : List Tree) :
    modifyFirst q f new (given ++ ts) = given ++ modifyFirst q f new ts := by
  induction given with
  | nil => rfl
  | cons u us ih =>
    rw [List.any_cons, Bool.or_eq_false_iff] at h
    rw [List.cons_append, modifyFirst, h.1, if_neg Bool.false_ne_true, ih h.2, List.cons_append]

theorem modifyFirst_of_not_any {q : Tree → Bool} {f : Tree → Tree} {new : Tree}
    (h : given.any q = false) : modifyFirst q f new given = given ++ [new] := by
  have happend : modifyFirst q f new (given ++ []) = given ++ modifyFirst q f new [] :=
    modifyFirst_append h []
  rwa [List.append_nil] at happend

theorem sameNames_modifyFirst (keeps : item.KeepsName) (h : target.any (sameName item) = true) :
    SameNames (modifyFirst (sameName item) (merge item) item target) target := by
  induction target with
  | nil => cases h
  | cons t ts ih =>
    rw [List.any_cons, Bool.or_eq_true] at h
    rw [modifyFirst]
    split
    · exact .cons (keeps.namesakes ‹_›) (SameNames.refl ts)
    · rename_i ht
      exact .cons (.refl t) (ih (h.resolve_left ht))

def mergedWith (items : List Tree) (t : Tree) : Tree :=
  (items.filter fun item => sameName item t).foldl (fun u item => merge item u) t

theorem mergedWith_cons_of_not (h : sameName item t = false) (items : List Tree) :
    mergedWith (item :: items) t = mergedWith items t := by
  rw [mergedWith, List.filter_cons_of_neg (by simp [h]), mergedWith]

theorem mergedWith_cons (keeps : item.KeepsName) (h : sameName item t = true)
    (items : List Tree) : mergedWith (item :: items) t = mergedWith items (merge item t) := by
  rw [mergedWith, List.filter_cons_of_pos (by exact h), List.foldl_cons, mergedWith]
  simp only [(keeps.namesakes h).sameName_eq]

theorem mergedWith_eq_self (h : ∀ item ∈ items, sameName item t = false) :
    mergedWith items t = t := by
  rw [mergedWith, List.filter_eq_nil_iff.2 fun item hitem => by simp [h item hitem]]
  rfl

theorem namesakes_mergedWith (keeps : ∀ item ∈ items, item.KeepsName) (t : Tree) :
    Namesakes (mergedWith items t) t := by
  induction items generalizing t with
  | nil => rfl
  | cons item items ih =>
    obtain ⟨hitem, hitems⟩ := List.forall_mem_cons.1 keeps
    cases h : sameName item t with
    | true =>
      rw [mergedWith_cons hitem h]
      exact (ih hitems _).trans (hitem.namesakes h)
    | false =>
      rw [mergedWith_cons_of_not h]
      exact ih hitems t

def newNames (given : List Tree) : List Tree → List Tree
  | [] => []
  | item :: items =>
    if given.any (sameName item) then newNames given items
    else item :: newNames (given ++ [item]) items

def added (given : List Tree) : List Tree → List Tree
  | [] => []
  | item :: items =>
    if given.any (sameName item) then added given items
    else mergedWith items item :: added (given ++ [item]) items

theorem sameNames_added (keeps : ∀ item ∈ items, item.KeepsName) (given : List Tree) :
    SameNames (added given items) (newNames given items) := by
  induction items generalizing given with
  | nil => exact .nil
  | cons item items ih =>
    have hitems := (List.forall_mem_cons.1 keeps).2
    rw [added, newNames]
    split
    · exact ih hitems given
    · exact .cons (namesakes_mergedWith hitems item) (ih hitems _)

theorem added_congr {given' : List Tree} (h : SameNames given given') :
    added given items = added given' items := by
  induction items generalizing given given' with
  | nil => rfl
  | cons item items ih =>
    rw [added, added, h.any_eq, ih h, ih (List.rel_append h (SameNames.refl [item]))]

theorem mergeItems_cons (item : Tree) (items target : List Tree) :
    mergeItems (item :: items) target =
      mergeItems items (modifyFirst (sameName item) (merge item) item target) := by
  rw [mergeItems]

/-- What a list of patches makes of one element depends on the names before it.  The induction is on
the patches, over all lists, since each of them meets what the earlier ones have left. -/
theorem mergeItems_append_cons (keeps : ∀ item ∈ items, item.KeepsName)
    (before : List Tree) (t : Tree) (after : List Tree) :
    ∃ before' after', SameNames before' before ∧ mergeItems items (before ++ t :: after) =
      before' ++ (if before.any (sameName t) then t else mergedWith items t) :: after' := by
  induction items generalizing before t after with
  | nil => exact ⟨before, after, SameNames.refl before, by rw [mergeItems, mergedWith]; simp⟩
  | cons item items ih =>
    obtain ⟨hitem, hitems⟩ := List.forall_mem_cons.1 keeps
    rw [mergeItems_cons]
    cases hbefore : before.any (sameName item) with
    | true =>
      have hnames := sameNames_modifyFirst hitem hbefore
      obtain ⟨before', after', hsame, heq⟩ :=
        ih hitems (modifyFirst (sameName item) (merge item) item before) t after
      refine ⟨before', after', SameNames.trans hsame hnames, ?_⟩
      rw [modifyFirst_append_of_any hbefore, heq, hnames.any_eq]
      split
      · rfl
      · rename_i hnew
        have hne : sameName item t = false := by
          by_contra h
          obtain ⟨u, hu, hsame⟩ := List.any_eq_true.1 hbefore
          refine hnew (List.any_eq_true.2 ⟨u, hu, sameName_trans ?_ hsame⟩)
          rw [sameName_comm]
          simpa using h
        rw [mergedWith_cons_of_not hne]
    | false =>
      rw [modifyFirst_append hbefore, modifyFirst]
      split
      · rename_i ht
        have hnot : before.any (sameName t) = false := by
          rw [← hbefore]
          exact congrArg before.any (funext fun u =>
            (Namesakes.sameName_eq' (.inr ht) u).symm)
        have hmerged : before.any (sameName (merge item t)) = false := by
          rw [← hnot]
          exact congrArg before.any (funext (hitem.namesakes ht).sameName_eq')
        obtain ⟨before', after', hsame, heq⟩ := ih hitems before (merge item t) after
        refine ⟨before', after', hsame, ?_⟩
        rw [heq, hnot, hmerged, mergedWith_cons hitem ht]
        rfl
      · rename_i ht
        obtain ⟨before', after', hsame, heq⟩ :=
          ih hitems before t (modifyFirst (sameName item) (merge item) item after)
        refine ⟨before', after', hsame, ?_⟩
        rw [heq, mergedWith_cons_of_not (by simpa using ht)]

theorem mergeItems_eq_append (keeps : ∀ item ∈ items, item.KeepsName) (target : List Tree) :
    ∃ kept, SameNames kept target ∧ mergeItems items target = kept ++ added target items := by
  induction items generalizing target with
  | nil => exact ⟨target, SameNames.refl target, by rw [mergeItems, added, List.append_nil]⟩
  | cons item items ih =>
    obtain ⟨hitem, hitems⟩ := List.forall_mem_cons.1 keeps
    rw [mergeItems_cons, added]
    cases htarget : target.any (sameName item) with
    | true =>
      have hnames := sameNames_modifyFirst hitem htarget
      obtain ⟨kept, hkept, heq⟩ :=
        ih hitems (modifyFirst (sameName item) (merge item) item target)
      exact ⟨kept, SameNames.trans hkept hnames,
        by rw [heq, added_congr hnames, if_pos rfl]⟩
    | false =>
      obtain ⟨kept, hkept, heq⟩ := ih hitems (target ++ [item])
      obtain ⟨before', after', hbefore, heq'⟩ := mergeItems_append_cons hitems target item []
      refine ⟨before', hbefore, ?_⟩
      rw [htarget, if_neg Bool.false_ne_true] at heq'
      have hlength : kept.length = (before' ++ [mergedWith items item]).length := by
        rw [hkept.length_eq, List.length_append, List.length_append, hbefore.length_eq]
        rfl
      rw [modifyFirst_of_not_any htarget, if_neg Bool.false_ne_true]
      obtain ⟨-, rfl⟩ := List.append_inj (heq.symm.trans (heq'.trans
        (List.append_cons before' _ after'))) hlength
      exact heq'

theorem getElem?_of_mergeItems (keeps : ∀ item ∈ items, item.KeepsName) {kept : List Tree}
    (hkept : SameNames kept target) (heq : mergeItems items target = kept ++ added target items)
    {i : Nat} (ht : target[i]? = some t) : kept[i]? =
      some (if (target.take i).any (sameName t) then t else mergedWith items t) := by
  obtain ⟨hi, hget⟩ := List.getElem?_eq_some_iff.1 ht
  obtain ⟨before', after', hbefore, heq'⟩ :=
    mergeItems_append_cons keeps (target.take i) t (target.drop (i + 1))
  have htarget : target.take i ++ t :: target.drop (i + 1) = target := by
    rw [← hget, ← List.drop_eq_getElem_cons hi, List.take_append_drop]
  have hlength : before'.length = i := by
    rw [hbefore.length_eq, List.length_take, Nat.min_eq_left (Nat.le_of_lt hi)]
  have hlt : i < kept.length := by rwa [hkept.length_eq]
  rw [htarget, heq] at heq'
  rw [← List.getElem?_append_left hlt, heq', List.getElem?_append_right (Nat.le_of_eq hlength),
    hlength, Nat.sub_self]
  rfl

/-- A list keyed by name keeps its elements under a patch: they stay in their places, under their
names, and new names follow in the order in which the patch first has them.  The first element of a
name is merged with all elements of the patch that have it, and no other element is changed. -/
theorem merge_keyedByName (htarget : keyedByName target = true) (hitems : keyedByName items = true)
    (nonempty : items ≠ []) (wf : ∀ item ∈ items, item.WellFormed)
    (named : ∀ item ∈ items, item.field? "name" ≠ some .null) :
    ∃ kept, merge (.list items) (.list target) = .list (kept ++ added target items) ∧
      SameNames kept target ∧ SameNames (added target items) (newNames target items) ∧
      (∀ (i : Nat) (t : Tree), target[i]? = some t → (∀ item ∈ items, sameName item t = false) →
        kept[i]? = some t) ∧
      (∀ (i j : Nat) (t u : Tree), i < j → target[i]? = some t → target[j]? = some u →
        sameName t u = true → kept[j]? = some u) ∧
      ∀ (i : Nat) (t : Tree), target[i]? = some t →
        (∀ u ∈ target.take i, sameName u t = false) → kept[i]? = some (mergedWith items t) := by
  have keeps : ∀ item ∈ items, item.KeepsName := fun item hitem =>
    keepsName_of_ne_null (wf item hitem) (named item hitem)
  obtain ⟨kept, hkept, heq⟩ := mergeItems_eq_append keeps target
  refine ⟨kept, ?_, hkept, sameNames_added keeps target, ?_, ?_, ?_⟩
  · rw [merge, if_pos ⟨nonempty, htarget, hitems⟩, heq]
  · intro i t ht hnone
    rw [getElem?_of_mergeItems keeps hkept heq ht, mergedWith_eq_self hnone, ite_self]
  · intro i j t u hij ht hu hsame
    have hmem : t ∈ target.take j :=
      List.mem_of_getElem? (by rwa [List.getElem?_take_of_lt hij])
    rw [getElem?_of_mergeItems keeps hkept heq hu,
      if_pos (List.any_eq_true.2 ⟨t, hmem, sameName_comm t u ▸ hsame⟩)]
  · intro i t ht hfirst
    rw [getElem?_of_mergeItems keeps hkept heq ht, if_neg fun hany => ?_]
    obtain ⟨u, hu, hsame⟩ := List.any_eq_true.1 hany
    rw [sameName_comm, hfirst u hu] at hsame
    cases hsame

def container (name image : String) : Tree := .map [("name", .text name), ("image", .text image)]

theorem merge_keyedByName_containers : ∃ kept,
    merge (.list [container "web" "b", container "log" "x", container "web" "c"])
        (.list [container "web" "a", container "job" "a", container "web" "a"]) =
      .list (kept ++ [container "log" "x"]) ∧
    SameNames kept [container "web" "a", container "job" "a", container "web" "a"] ∧
    kept[0]? = some (container "web" "c") ∧ kept[1]? = some (container "job" "a") ∧
    kept[2]? = some (container "web" "a") := by
  have wf : ∀ item ∈ [container "web" "b", container "log" "x", container "web" "c"],
      item.WellFormed := by decide
  have htarget : keyedByName [container "web" "a", container "job" "a", container "web" "a"] =
      true := rfl
  obtain ⟨kept, hmerge, hkept, -, hother, hlater, hfirst⟩ :=
    merge_keyedByName htarget rfl (by decide) wf (by decide)
  exact ⟨kept, hmerge, hkept, hfirst 0 _ rfl (by decide), hother 1 _ rfl (by decide),
    hlater 0 2 _ _ (by decide) rfl rfl rfl⟩

end Tree

end Manifest
