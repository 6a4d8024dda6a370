import Manifest.Proofs.Json.Unambiguous
import Manifest.Proofs.Tree.NamedLists

/-! Merging a patch again changes nothing if the patch deletes nothing and repeats no name in a
list.  What the first merge leaves has, for every part of the patch, a part into which merging it
changes nothing, and the parts are found again since a merge keeps keys, names and their order. -/

namespace Manifest.Tree

variable {item other p t u : Tree} {items target : List Tree} {s : Step}

/-- The patch deletes nothing, and its lists repeat no name.  A decimal may be no number, and is
then no name that could be found again. -/
structure Repeatable (p : Tree) : Prop where
  wellFormed : p.WellFormed
  decimalFree : p.DecimalFree
  nullFree : ∀ q, p.get? q ≠ some .null
  named : ∀ q items, p.get? q = some (.list items) → keyedByName items = true →
    items.Pairwise fun t u => sameName t u = false

theorem decimalFree_items_iff : DecimalFreeItems items ↔ ∀ t ∈ items, t.DecimalFree := by
  induction items with
  | nil => exact ⟨fun _ => nofun, fun _ => trivial⟩
  | cons t ts ih => rw [DecimalFreeItems, ih, List.forall_mem_cons]

theorem decimalFree_entries_iff {es : Entries Tree} :
    DecimalFreeEntries es ↔ ∀ e ∈ es, e.2.DecimalFree := by
  induction es with
  | nil => exact ⟨fun _ => nofun, fun _ => trivial⟩
  | cons e es ih => rw [DecimalFreeEntries, ih, List.forall_mem_cons]

theorem decimalFree_child? (h : t.DecimalFree) (hu : t.child? s = some u) : u.DecimalFree := by
  cases t with
  | list items =>
    cases s with
    | key key => cases hu
    | index i => exact decimalFree_items_iff.1 h u (List.mem_of_getElem? hu)
  | map es =>
    cases s with
    | key key => exact decimalFree_entries_iff.1 h _ (Entries.mem_of_find? hu)
    | index i => cases hu
  | _ => cases s <;> cases hu

namespace Repeatable

theorem child? (h : p.Repeatable) (hu : p.child? s = some u) : u.Repeatable where
  wellFormed := wellFormed_child? h.wellFormed hu
  decimalFree := decimalFree_child? h.decimalFree hu
  nullFree q hq := h.nullFree (s :: q) (by rwa [get?_cons, hu])
  named q items hq := h.named (s :: q) items (by rwa [get?_cons, hu])

theorem of_mem (h : (list items).Repeatable) (hu : u ∈ items) : u.Repeatable := by
  obtain ⟨i, hi⟩ := List.getElem?_of_mem hu
  exact h.child? (s := .index i) hi

theorem of_mem_entries {es : Entries Tree} (h : (map es).Repeatable) {e : String × Tree}
    (he : e ∈ es) : e.2.Repeatable :=
  h.child? (s := .key e.1) (Entries.find?_of_mem h.wellFormed.1 he)

theorem of_children (wf : t.WellFormed) (free : t.DecimalFree) (hnull : t ≠ .null)
    (distinct : ∀ items, t = .list items → keyedByName items = true →
      items.Pairwise fun t u => sameName t u = false)
    (h : ∀ s u, t.child? s = some u → u.Repeatable) : t.Repeatable where
  wellFormed := wf
  decimalFree := free
  nullFree q hq := by
    cases q with
    | nil => exact hnull (Option.some.inj hq)
    | cons s q =>
      rw [get?_cons] at hq
      obtain ⟨u, hu, hq⟩ := Option.bind_eq_some_iff.1 hq
      exact (h s u hu).nullFree q hq
  named q items hq := by
    cases q with
    | nil => exact distinct items (Option.some.inj hq)
    | cons s q =>
      rw [get?_cons] at hq
      obtain ⟨u, hu, hq⟩ := Option.bind_eq_some_iff.1 hq
      exact (h s u hu).named q items hq

theorem of_isScalar (h : t.isScalar = true) (hnull : t.isNull = false) (free : t.DecimalFree) :
    t.Repeatable := by
  cases t with
  | null => cases hnull
  | list items => cases h
  | map es => cases h
  | _ => exact of_children trivial free (by simp) (by simp) (by simp [Tree.child?])

theorem list (h : ∀ u ∈ items, u.Repeatable)
    (distinct : keyedByName items = true → items.Pairwise fun t u => sameName t u = false) :
    (list items).Repeatable := by
  refine of_children (wellFormedItems_iff.2 fun u hu => (h u hu).wellFormed)
    (decimalFree_items_iff.2 fun u hu => (h u hu).decimalFree) (by simp) ?_ ?_
  · rintro _ ⟨⟩
    exact distinct
  · intro s u hu
    cases s with
    | key key => cases hu
    | index i => exact h u (List.mem_of_getElem? hu)

theorem map {es : Entries Tree} (distinct : Entries.Distinct es)
    (h : ∀ e ∈ es, e.2.Repeatable) : (map es).Repeatable := by
  refine of_children ⟨distinct, wellFormedEntries_iff.2 fun e he => (h e he).wellFormed⟩
    (decimalFree_entries_iff.2 fun e he => (h e he).decimalFree) (by simp) (by simp) ?_
  intro s u hu
  cases s with
  | key key => exact h _ (Entries.mem_of_find? hu)
  | index i => cases hu

theorem isNull_eq_false (h : p.Repeatable) : p.isNull = false := by
  cases p with
  | null => exact absurd rfl (h.nullFree [])
  | _ => rfl

theorem keepsName (h : p.Repeatable) : p.KeepsName := by
  refine keepsName_of_ne_null h.wellFormed fun hname => h.nullFree [.key "name"] ?_
  rw [get?_key, hname]

theorem sameName_self (h : p.Repeatable) (hname : p.elementName?.isSome = true) :
    sameName p p = true := by
  obtain ⟨name, hname⟩ := Option.isSome_iff_exists.1 hname
  obtain ⟨es, rfl, hfind, hscalar⟩ := exists_entries_of_elementName? hname
  have hfree := (h.child? (s := .key "name") hfind).decimalFree
  refine sameName_iff.2 ⟨name, name, hname, hname, sameScalar_iff.2 (.inl ⟨rfl, hscalar, ?_⟩)⟩
  rintro d rfl
  exact hfree

end Repeatable

theorem mergeEntries_eq_self {patch target : Entries Tree}
    (h : ∀ e ∈ patch, e.2.isNull = false ∧
      ∃ u, Entries.find? e.1 target = some u ∧ merge e.2 u = u) :
    mergeEntries patch target = target := by
  induction patch with
  | nil => rfl
  | cons e patch ih =>
    obtain ⟨key, value⟩ := e
    obtain ⟨⟨hnull, u, hu, hself⟩, hpatch⟩ := List.forall_mem_cons.1 h
    have hmodify : (map target).modifyChild (merge value) (.key key) = map target :=
      modifyChild_eq_self fun v hv => by
        obtain rfl := Option.some.inj (hu.symm.trans hv)
        exact hself
    have hentry : mergeEntry key value target = target := by
      rw [mergeEntry, hnull, if_neg Bool.false_ne_true, Entries.has, hu, Option.isSome_some,
        if_pos rfl]
      exact map.inj hmodify
    rw [mergeEntries_cons, hentry, ih hpatch]

def Settled (item : Tree) (ts : List Tree) : Prop :=
  ∃ before t after, ts = before ++ t :: after ∧ before.any (sameName item) = false ∧
    sameName item t = true ∧ merge item t = t

theorem mergeItems_eq_self (h : ∀ item ∈ items, Settled item target) :
    mergeItems items target = target := by
  induction items with
  | nil => rw [mergeItems]
  | cons item items ih =>
    obtain ⟨⟨before, t, after, rfl, hbefore, hsame, hself⟩, hitems⟩ := List.forall_mem_cons.1 h
    rw [mergeItems_cons, modifyFirst_append hbefore, modifyFirst, if_pos hsame, hself, ih hitems]

theorem settled_modifyFirst (keeps : item.KeepsName) (hself : sameName item item = true)
    (fixed : merge item item = item) (again : ∀ t, merge item (merge item t) = merge item t)
    (ts : List Tree) : Settled item (modifyFirst (sameName item) (merge item) item ts) := by
  induction ts with
  | nil => exact ⟨[], item, [], rfl, rfl, hself, fixed⟩
  | cons t ts ih =>
    rw [modifyFirst]
    split
    · rename_i ht
      refine ⟨[], merge item t, ts, rfl, rfl, ?_, again t⟩
      rw [(keeps.namesakes ht).sameName_eq, ht]
    · rename_i ht
      obtain ⟨before, u, after, heq, hbefore, hsame, hu⟩ := ih
      refine ⟨t :: before, u, after, by rw [heq, List.cons_append], ?_, hsame, hu⟩
      rw [List.any_cons, hbefore, Bool.or_false]
      simpa using ht

theorem Settled.modifyFirst {ts : List Tree} (h : Settled item ts) (keeps : other.KeepsName)
    (ne : sameName item other = false) :
    Settled item (modifyFirst (sameName other) (merge other) other ts) := by
  obtain ⟨before, t, after, rfl, hbefore, hsame, hself⟩ := h
  cases hother : before.any (sameName other) with
  | true =>
    rw [modifyFirst_append_of_any hother]
    refine ⟨_, t, after, rfl, ?_, hsame, hself⟩
    rw [(sameNames_modifyFirst keeps hother).any_eq, hbefore]
  | false =>
    have hnot : ¬ sameName other t = true := fun ht => by
      rw [← Namesakes.sameName_eq (.inr ht), sameName_comm] at hsame
      rw [sameName_comm, hsame] at ne
      cases ne
    rw [modifyFirst_append hother, Tree.modifyFirst, if_neg hnot]
    exact ⟨before, t, _, rfl, hbefore, hsame, hself⟩

theorem Settled.mergeItems {ts : List Tree} (h : Settled item ts)
    (keeps : ∀ other ∈ items, other.KeepsName)
    (ne : ∀ other ∈ items, sameName item other = false) : Settled item (mergeItems items ts) := by
  induction items generalizing ts with
  | nil => rwa [Tree.mergeItems]
  | cons other items ih =>
    obtain ⟨hkeeps, keeps⟩ := List.forall_mem_cons.1 keeps
    obtain ⟨hne, ne⟩ := List.forall_mem_cons.1 ne
    rw [mergeItems_cons]
    exact ih (h.modifyFirst hkeeps hne) keeps ne

theorem SameNames.keyedByName_eq {ts us : List Tree} (h : SameNames ts us) :
    keyedByName ts = keyedByName us := by
  have hname : ∀ {t u}, Namesakes t u → t.elementName?.isSome = u.elementName?.isSome := by
    intro t u h
    rcases h with heq | hsame
    · rw [heq]
    · obtain ⟨a, b, ha, hb, -⟩ := sameName_iff.1 hsame
      rw [ha, hb]
      rfl
  induction h with
  | nil => rfl
  | cons head _ ih => exact congrArg₂ (· && ·) (hname head) ih

theorem keyedByName_mergeItems (keeps : ∀ item ∈ items, item.KeepsName)
    (hitems : keyedByName items = true) (htarget : keyedByName target = true) :
    keyedByName (mergeItems items target) = true := by
  induction items generalizing target with
  | nil => rwa [mergeItems]
  | cons item items ih =>
    obtain ⟨hkeeps, keeps⟩ := List.forall_mem_cons.1 keeps
    obtain ⟨hitem, hitems⟩ := List.all_eq_true.1 hitems |> List.forall_mem_cons.1
    rw [mergeItems_cons]
    refine ih keeps (List.all_eq_true.2 hitems) ?_
    cases h : target.any (sameName item) with
    | true => rw [(sameNames_modifyFirst hkeeps h).keyedByName_eq, htarget]
    | false =>
      rw [modifyFirst_of_not_any h, keyedByName, List.all_append, ← keyedByName, htarget]
      simpa using hitem

structure Fixes (p : Tree) : Prop where
  self : merge p p = p
  again : ∀ t, merge p (merge p t) = merge p t

theorem settled_mergeItems (repeatable : ∀ item ∈ items, item.Repeatable)
    (fixes : ∀ item ∈ items, item.Fixes) (hitems : keyedByName items = true)
    (distinct : items.Pairwise fun t u => sameName t u = false) (target : List Tree) :
    ∀ item ∈ items, Settled item (mergeItems items target) := by
  induction items generalizing target with
  | nil => nofun
  | cons item items ih =>
    obtain ⟨hrep, repeatable⟩ := List.forall_mem_cons.1 repeatable
    obtain ⟨hfix, fixes⟩ := List.forall_mem_cons.1 fixes
    obtain ⟨hname, hnames⟩ := List.forall_mem_cons.1 (List.all_eq_true.1 hitems)
    obtain ⟨hne, distinct⟩ := List.pairwise_cons.1 distinct
    rw [mergeItems_cons]
    refine List.forall_mem_cons.2 ⟨?_, ih repeatable fixes (List.all_eq_true.2 hnames) distinct _⟩
    exact (settled_modifyFirst hrep.keepsName (hrep.sameName_self hname) hfix.self hfix.again
      target).mergeItems (fun other hother => (repeatable other hother).keepsName) hne

theorem merge_list_of_keyedByName (hitems : items ≠ [] ∧ keyedByName items = true)
    (htarget : keyedByName target = true) :
    merge (list items) (list target) = list (mergeItems items target) := by
  rw [merge, if_pos ⟨hitems.1, htarget, hitems.2⟩]

theorem merge_list_of_not (h : ∀ target, t = list target →
    ¬ (items ≠ [] ∧ keyedByName target = true ∧ keyedByName items = true)) :
    merge (list items) t = list items := by
  cases t with
  | list target => rw [merge, if_neg (h target rfl)]
  | _ => rw [merge]; simp

theorem fixes_list (h : (list items).Repeatable) (fixes : ∀ item ∈ items, item.Fixes) :
    (list items).Fixes := by
  have distinct := h.named [] items rfl
  have repeatable : ∀ item ∈ items, item.Repeatable := fun item hitem => h.of_mem hitem
  have keeps : ∀ item ∈ items, item.KeepsName := fun item hitem =>
    (repeatable item hitem).keepsName
  have self : merge (list items) (list items) = list items := by
    by_cases hkeyed : items ≠ [] ∧ keyedByName items = true
    · rw [merge_list_of_keyedByName hkeyed hkeyed.2]
      refine congrArg list (mergeItems_eq_self fun item hitem => ?_)
      obtain ⟨before, after, heq⟩ := List.append_of_mem hitem
      have hbefore := (List.pairwise_append.1 (heq ▸ distinct hkeyed.2)).2.2
      refine ⟨before, item, after, heq, ?_, ?_, (fixes item hitem).self⟩
      · refine List.any_eq_false.2 fun u hu => ?_
        rw [sameName_comm, hbefore u hu item List.mem_cons_self]
        exact Bool.false_ne_true
      · exact (repeatable item hitem).sameName_self (List.all_eq_true.1 hkeyed.2 item hitem)
    · exact merge_list_of_not fun _ _ hall => hkeyed ⟨hall.1, hall.2.2⟩
  refine ⟨self, fun t => ?_⟩
  by_cases hkeyed : ∃ target, t = list target ∧
      items ≠ [] ∧ keyedByName target = true ∧ keyedByName items = true
  · obtain ⟨target, rfl, hne, htarget, hitems⟩ := hkeyed
    rw [merge_list_of_keyedByName ⟨hne, hitems⟩ htarget,
      merge_list_of_keyedByName ⟨hne, hitems⟩ (keyedByName_mergeItems keeps hitems htarget)]
    exact congrArg list (mergeItems_eq_self
      (settled_mergeItems repeatable fixes hitems (distinct hitems) target))
  · rw [merge_list_of_not fun target ht hall => hkeyed ⟨target, ht, hall⟩, self]

theorem fixes_map {es : Entries Tree} (h : (map es).Repeatable) (fixes : ∀ e ∈ es, e.2.Fixes) :
    (map es).Fixes := by
  have hnull : ∀ e ∈ es, e.2.isNull = false := fun e he => (h.of_mem_entries he).isNull_eq_false
  have hfind : ∀ e ∈ es, Entries.find? e.1 es = some e.2 := fun e he =>
    Entries.find?_of_mem h.wellFormed.1 he
  have self : merge (map es) (map es) = map es := by
    rw [merge_map_map]
    exact congrArg map (mergeEntries_eq_self fun e he =>
      ⟨hnull e he, e.2, hfind e he, (fixes e he).self⟩)
  refine ⟨self, fun t => ?_⟩
  by_cases hmap : ∃ ts, t = map ts
  · obtain ⟨ts, rfl⟩ := hmap
    rw [merge_map_map, merge_map_map]
    refine congrArg map (mergeEntries_eq_self fun e he => ⟨hnull e he, ?_⟩)
    have hmerged := find?_mergeEntries ts h.wellFormed.1 (hfind e he) fun he' => by
      rw [hnull e he] at he'
      cases he'
    rw [mergedValue?, hnull e he, if_neg Bool.false_ne_true] at hmerged
    refine ⟨_, hmerged, ?_⟩
    cases Entries.find? e.1 ts with
    | none => exact (fixes e he).self
    | some old => exact (fixes e he).again old
  · rw [merge_map_of_not_map fun ts hts => hmap ⟨ts, hts⟩, self]

theorem fixes_of_repeatable (h : p.Repeatable) : p.Fixes := by
  induction p using Tree.induction with
  | scalar p hscalar =>
    exact ⟨merge_of_isScalar hscalar p, fun t => by
      rw [merge_of_isScalar hscalar, merge_of_isScalar hscalar]⟩
  | list items ih => exact fixes_list h fun item hitem => ih item hitem (h.of_mem hitem)
  | map es ih => exact fixes_map h fun e he => ih e he (h.of_mem_entries he)

theorem merge_merge_self (h : p.Repeatable) (t : Tree) : merge p (merge p t) = merge p t :=
  (fixes_of_repeatable h).again t

def redeploying : Tree :=
  .map [("replicas", .integer 2), ("containers", .list [container "log" "x", container "web" "b"])]

theorem repeatable_redeploying : redeploying.Repeatable := by
  have text : ∀ s, (Tree.text s).Repeatable := fun s => .of_isScalar rfl rfl trivial
  have repeatable : ∀ name image, (container name image).Repeatable := fun name image =>
    .map (by simp [Entries.Distinct, Entries.keys])
      (List.forall_mem_cons.2 ⟨text name, List.forall_mem_singleton.2 (text image)⟩)
  refine .map (by simp [Entries.Distinct, Entries.keys]) (List.forall_mem_cons.2
    ⟨.of_isScalar rfl rfl trivial, List.forall_mem_singleton.2 ?_⟩)
  refine .list ?_ fun _ => by decide
  exact List.forall_mem_cons.2 ⟨repeatable _ _, List.forall_mem_singleton.2 (repeatable _ _)⟩

theorem merge_merge_self_redeploying : redeploying.Repeatable ∧
    merge redeploying (.map [("containers", .list [container "web" "a", container "web" "c"])]) =
      .map [("containers", .list [container "web" "b", container "web" "c", container "log" "x"]),
        ("replicas", .integer 2)] ∧
    merge redeploying (.map [("containers",
        .list [container "web" "b", container "web" "c", container "log" "x"]),
        ("replicas", .integer 2)]) =
      .map [("containers", .list [container "web" "b", container "web" "c", container "log" "x"]),
        ("replicas", .integer 2)] := by
  have h : merge redeploying
      (.map [("containers", .list [container "web" "a", container "web" "c"])]) =
      .map [("containers", .list [container "web" "b", container "web" "c", container "log" "x"]),
        ("replicas", .integer 2)] := by decide
  refine ⟨repeatable_redeploying, h, ?_⟩
  rw [← h]
  exact merge_merge_self repeatable_redeploying _

end Manifest.Tree
