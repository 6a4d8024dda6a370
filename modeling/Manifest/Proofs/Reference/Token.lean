import Manifest.Reference.Token

namespace Manifest.Reference

/-- The name stands in the text as a whole token; `fresh` allows it at the very front. -/
def StandsFrom (fresh : Bool) (name text : List Char) : Prop :=
  ∃ before after, text = before ++ name ++ after ∧ name ≠ [] ∧ (before = [] → fresh = true) ∧
    (∀ c ∈ before.getLast?, isNameChar c = false) ∧ ∀ c ∈ after.head?, isNameChar c = false

def Stands (name text : List Char) : Prop := StandsFrom true name text

theorem startsWithToken_iff {name text : List Char} :
    startsWithToken name text = true ↔
      name ≠ [] ∧ ∃ after, text = name ++ after ∧ ∀ c ∈ after.head?, isNameChar c = false := by
  constructor
  · intro h
    simp only [startsWithToken, Bool.and_eq_true, decide_eq_true_eq, List.isPrefixOf_iff_prefix,
      Bool.not_eq_true'] at h
    obtain ⟨⟨hne, after, rfl⟩, hend⟩ := h
    refine ⟨hne, after, rfl, fun c hc => ?_⟩
    rw [List.drop_left, Option.mem_def.1 hc] at hend
    simpa using hend
  · rintro ⟨hne, after, rfl, hend⟩
    simp only [startsWithToken, Bool.and_eq_true, decide_eq_true_eq, List.isPrefixOf_iff_prefix,
      Bool.not_eq_true']
    refine ⟨⟨hne, List.prefix_append name after⟩, ?_⟩
    rw [List.drop_left]
    cases hc : after.head? with
    | none => rfl
    | some c => simpa using hend c hc

theorem standsFrom_cons {fresh : Bool} {name : List Char} {c : Char} {cs : List Char} :
    StandsFrom fresh name (c :: cs) ↔
      (fresh = true ∧ startsWithToken name (c :: cs) = true) ∨
        StandsFrom (!isNameChar c) name cs := by
  constructor
  · rintro ⟨before, after, htext, hne, hfresh, hlast, hend⟩
    cases before with
    | nil => exact .inl ⟨hfresh rfl, startsWithToken_iff.2 ⟨hne, after, htext, hend⟩⟩
    | cons b bs =>
      obtain ⟨rfl, rfl⟩ := List.cons.inj htext
      refine .inr ⟨bs, after, rfl, hne, fun hbs => ?_, fun x hx => ?_, hend⟩
      · subst hbs
        simpa using hlast c (by simp)
      · cases bs with
        | nil => simp at hx
        | cons b' bs => exact hlast x (by simpa using hx)
  · rintro (⟨hfresh, hstart⟩ | ⟨before, after, rfl, hne, hfresh, hlast, hend⟩)
    · obtain ⟨hne, after, htext, hend⟩ := startsWithToken_iff.1 hstart
      exact ⟨[], after, htext, hne, fun _ => hfresh, by simp, hend⟩
    · refine ⟨c :: before, after, rfl, hne, nofun, fun x hx => ?_, hend⟩
      cases before with
      | nil =>
        obtain rfl : c = x := by simpa using hx
        simpa using hfresh rfl
      | cons b bs => exact hlast x (by simpa using hx)

theorem not_standsFrom_nil (fresh : Bool) (name : List Char) : ¬ StandsFrom fresh name [] := by
  rintro ⟨before, after, htext, hne, -⟩
  simp_all

def longer (best : Option (List Char × List Char)) (r : List Char × List Char) :
    Option (List Char × List Char) :=
  match best with
  | none => some r
  | some b => if b.1.length ≤ r.1.length then some r else some b

theorem foldl_longer_some (b : List Char × List Char) (rs : TokenRenames) :
    ∃ r, rs.foldl longer (some b) = some r ∧ (r = b ∨ r ∈ rs) ∧ b.1.length ≤ r.1.length ∧
      ∀ x ∈ rs, x.1.length ≤ r.1.length := by
  induction rs generalizing b with
  | nil => exact ⟨b, rfl, .inl rfl, Nat.le_refl _, nofun⟩
  | cons x rs ih =>
    by_cases hx : b.1.length ≤ x.1.length
    · obtain ⟨r, hr, hmem, hle, hmax⟩ := ih x
      refine ⟨r, by simpa [longer, hx] using hr, .inr ?_, by omega, ?_⟩
      · rcases hmem with rfl | hmem
        · exact List.mem_cons_self
        · exact List.mem_cons_of_mem x hmem
      · rintro y (_ | ⟨_, hy⟩)
        · exact hle
        · exact hmax y hy
    · obtain ⟨r, hr, hmem, hle, hmax⟩ := ih b
      refine ⟨r, by simpa [longer, hx] using hr, hmem.imp_right (List.mem_cons_of_mem x), hle, ?_⟩
      rintro y (_ | ⟨_, hy⟩)
      · omega
      · exact hmax y hy

theorem longestToken?_eq_none {renames : TokenRenames} {text : List Char} :
    longestToken? renames text = none ↔ ∀ r ∈ renames, startsWithToken r.1 text = false := by
  rw [show longestToken? renames text =
    (renames.filter fun r => startsWithToken r.1 text).foldl longer none from rfl]
  cases hrs : renames.filter fun r => startsWithToken r.1 text with
  | nil => simpa [List.filter_eq_nil_iff] using hrs
  | cons x rs =>
    obtain ⟨r, hr, -⟩ := foldl_longer_some x rs
    have hx : x ∈ renames ∧ startsWithToken x.1 text = true :=
      List.mem_filter.1 (hrs ▸ List.mem_cons_self)
    constructor
    · intro h
      rw [List.foldl_cons, show longer none x = some x from rfl, hr] at h
      cases h
    · intro h
      simp [h x hx.1] at hx

theorem longestToken?_eq_some {renames : TokenRenames} {text : List Char}
    {r : List Char × List Char} (h : longestToken? renames text = some r) :
    r ∈ renames ∧ startsWithToken r.1 text = true ∧
      ∀ x ∈ renames, startsWithToken x.1 text = true → x.1.length ≤ r.1.length := by
  rw [show longestToken? renames text =
    (renames.filter fun r => startsWithToken r.1 text).foldl longer none from rfl] at h
  cases hrs : renames.filter fun r => startsWithToken r.1 text with
  | nil => rw [hrs] at h; cases h
  | cons x rs =>
    obtain ⟨r', hr, hmem, hle, hmax⟩ := foldl_longer_some x rs
    rw [hrs, List.foldl_cons, show longer none x = some x from rfl, hr] at h
    obtain rfl := Option.some.inj h
    have hr' : r' ∈ renames.filter fun r => startsWithToken r.1 text := by
      rw [hrs]
      rcases hmem with rfl | hmem
      · exact List.mem_cons_self
      · exact List.mem_cons_of_mem x hmem
    refine ⟨(List.mem_filter.1 hr').1, (List.mem_filter.1 hr').2, fun y hy hstart => ?_⟩
    have hy' : y ∈ x :: rs := hrs ▸ List.mem_filter.2 ⟨hy, hstart⟩
    rcases List.mem_cons.1 hy' with rfl | hy'
    · exact hle
    · exact hmax y hy'

theorem found_renameFrom_iff (renames : TokenRenames) (fresh : Bool) (text : List Char) :
    (renameFrom renames 0 fresh text).2 = true ↔ ∃ r ∈ renames, StandsFrom fresh r.1 text := by
  induction text generalizing fresh with
  | nil =>
    constructor
    · intro h; cases h
    · rintro ⟨r, _, h⟩
      exact absurd h (not_standsFrom_nil fresh r.1)
  | cons c cs ih =>
    rw [renameFrom]
    cases hm : (if fresh then longestToken? renames (c :: cs) else none) with
    | some r =>
      obtain ⟨old, new⟩ := r
      cases fresh with
      | false => cases hm
      | true =>
        obtain ⟨hmem, hstart, -⟩ := longestToken?_eq_some hm
        exact ⟨fun _ => ⟨_, hmem, standsFrom_cons.2 (.inl ⟨rfl, hstart⟩)⟩, fun _ => rfl⟩
    | none =>
      refine (ih (!isNameChar c)).trans (exists_congr fun r => and_congr_right fun hr => ?_)
      rw [standsFrom_cons]
      refine (or_iff_right ?_).symm
      rintro ⟨rfl, hstart⟩
      rw [longestToken?_eq_none.1 hm r hr] at hstart
      cases hstart

theorem renameTokens?_eq (renames : TokenRenames) (text : List Char) :
    renameTokens? renames text = if (renameFrom renames 0 true text).2 then
      some (renameFrom renames 0 true text).1 else none := rfl

theorem renameTokens?_eq_none_iff {renames : TokenRenames} {text : List Char} :
    renameTokens? renames text = none ↔ ∀ r ∈ renames, ¬ Stands r.1 text := by
  rw [renameTokens?_eq]
  split
  · rename_i h
    obtain ⟨r, hr, hs⟩ := (found_renameFrom_iff renames true text).1 h
    exact ⟨nofun, fun hn => absurd hs (hn r hr)⟩
  · rename_i h
    exact ⟨fun _ r hr hs => h ((found_renameFrom_iff renames true text).2 ⟨r, hr, hs⟩),
      fun _ => rfl⟩

instance (name text : List Char) : Decidable (Stands name text) :=
  decidable_of_iff (¬ renameTokens? [(name, [])] text = none) (by
    rw [renameTokens?_eq_none_iff]
    simp)

theorem renameTokens?_ne_nil {renames : TokenRenames} (new : ∀ r ∈ renames, r.2 ≠ [])
    {text out : List Char} (hne : text ≠ []) (h : renameTokens? renames text = some out) :
    out ≠ [] := by
  rw [renameTokens?_eq] at h
  split at h
  · obtain rfl := Option.some.inj h
    cases text with
    | nil => exact absurd rfl hne
    | cons c cs =>
      rw [renameFrom]
      split
      · rename_i old new' hm
        obtain ⟨hmem, -, -⟩ := longestToken?_eq_some hm
        exact List.append_ne_nil_of_left_ne_nil (new _ hmem) _
      · exact List.cons_ne_nil _ _
  · cases h

theorem renameFrom_of_length_le (renames : TokenRenames) {skip : Nat} (fresh : Bool)
    {text : List Char} (h : text.length ≤ skip) :
    renameFrom renames skip fresh text = ([], false) := by
  induction text generalizing skip fresh with
  | nil => cases skip <;> rfl
  | cons c cs ih =>
    cases skip with
    | zero => simp at h
    | succ skip => exact ih _ (by simpa using h)

theorem renameTokens?_of_mem {renames : TokenRenames} {text new : List Char} (hne : text ≠ [])
    (mem : ∃ r ∈ renames, r.1 = text) (only : ∀ r ∈ renames, r.1 = text → r.2 = new) :
    renameTokens? renames text = some new := by
  obtain ⟨r, hr, rfl⟩ := mem
  cases hr1 : r.1 with
  | nil => exact absurd hr1 hne
  | cons c cs =>
    have hstart : startsWithToken r.1 (c :: cs) = true :=
      startsWithToken_iff.2 ⟨hne, [], by simp [hr1], by simp⟩
    cases hm : longestToken? renames (c :: cs) with
    | none =>
      rw [longestToken?_eq_none.1 hm r hr] at hstart
      cases hstart
    | some x =>
      obtain ⟨hx, hxstart, hmax⟩ := longestToken?_eq_some hm
      obtain ⟨-, after, htext, -⟩ := startsWithToken_iff.1 hxstart
      have hlen : (c :: cs).length ≤ x.1.length := hr1 ▸ hmax r hr hstart
      -- nothing is longer than the whole text
      have hx1 : x.1 = c :: cs := by
        have : after = [] := by
          have := congrArg List.length htext
          rw [List.length_append] at this
          exact List.length_eq_zero_iff.1 (by omega)
        rw [htext, this, List.append_nil]
      have hskip : renameFrom renames (x.1.length - 1) (!isNameChar c) cs = ([], false) :=
        renameFrom_of_length_le renames _ (by rw [hx1]; simp)
      obtain ⟨old, new'⟩ := x
      rw [renameTokens?, renameFrom, if_pos rfl, hm]
      simp only [hskip, List.append_nil, if_pos]
      exact congrArg some (only _ hx (by rw [hx1, hr1]))

theorem Stands.eq_of_all {name text : List Char} (h : Stands name text)
    (all : text.all isNameChar = true) : name = text := by
  obtain ⟨before, after, rfl, hne, -, hlast, hend⟩ := h
  rw [List.all_eq_true] at all
  have hbefore : before = [] := by
    cases hb : before.getLast? with
    | none => exact List.getLast?_eq_none_iff.1 hb
    | some c =>
      have := all c (by simp [List.mem_of_getLast? hb])
      rw [hlast c hb] at this
      cases this
  have hafter : after = [] := by
    cases ha : after.head? with
    | none => exact List.head?_eq_none_iff.1 ha
    | some c =>
      have := all c (by simp [List.mem_of_head? ha])
      rw [hend c ha] at this
      cases this
  simp [hbefore, hafter]

section Congr

variable {renames renames' : TokenRenames}

theorem longestToken?_congr (mem : ∀ r, r ∈ renames ↔ r ∈ renames')
    (agree : ∀ r ∈ renames, ∀ r' ∈ renames, r.1 = r'.1 → r = r') (text : List Char) :
    longestToken? renames text = longestToken? renames' text := by
  cases h : longestToken? renames text with
  | none =>
    rw [longestToken?_eq_none] at h
    exact (longestToken?_eq_none.2 fun r hr => h r ((mem r).2 hr)).symm
  | some r =>
    obtain ⟨hr, hstart, hmax⟩ := longestToken?_eq_some h
    cases h' : longestToken? renames' text with
    | none =>
      rw [longestToken?_eq_none.1 h' r ((mem r).1 hr)] at hstart
      cases hstart
    | some r' =>
      obtain ⟨hr', hstart', hmax'⟩ := longestToken?_eq_some h'
      have hlen : r.1.length = r'.1.length := Nat.le_antisymm
        (hmax' r ((mem r).1 hr) hstart) (hmax r' ((mem r').2 hr') hstart')
      -- two names of one length at the front of a text are the same name
      obtain ⟨-, after, htext, -⟩ := startsWithToken_iff.1 hstart
      obtain ⟨-, after', htext', -⟩ := startsWithToken_iff.1 hstart'
      have hname : r.1 = r'.1 := (List.append_inj (htext.symm.trans htext') hlen).1
      rw [agree r hr r' ((mem r').2 hr') hname]

theorem renameFrom_congr (h : ∀ text, longestToken? renames text = longestToken? renames' text)
    (skip : Nat) (fresh : Bool) (text : List Char) :
    renameFrom renames skip fresh text = renameFrom renames' skip fresh text := by
  induction text generalizing skip fresh with
  | nil => cases skip <;> rfl
  | cons c cs ih =>
    cases skip with
    | succ skip => exact ih skip _
    | zero => simp only [renameFrom, h, ih]

theorem renameTokens?_congr (mem : ∀ r, r ∈ renames ↔ r ∈ renames')
    (agree : ∀ r ∈ renames, ∀ r' ∈ renames, r.1 = r'.1 → r = r') (text : List Char) :
    renameTokens? renames text = renameTokens? renames' text := by
  rw [renameTokens?_eq, renameTokens?_eq, renameFrom_congr (longestToken?_congr mem agree)]

end Congr

end Manifest.Reference
