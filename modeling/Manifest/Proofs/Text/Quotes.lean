import Mathlib.Data.List.Basic
import Mathlib.Data.List.TakeWhile
import Manifest.Text.Blank
import Manifest.Text.Split

namespace Manifest.Text

variable {cs inner : List Char}

inductive Quoted (inner : List Char) : List Char → Prop
  | double : Quoted inner ('"' :: (inner ++ ['"']))
  | single : Quoted inner ('\'' :: (inner ++ ['\'']))

theorem Quoted.head?_eq_getLast? (h : Quoted inner cs) : cs.head? = cs.getLast? := by
  cases h with
  | double | single => rw [← List.cons_append, List.getLast?_concat, List.cons_append, List.head?]

theorem unwrap?_eq_some_iff {quote : Char} :
    unwrap? quote cs = some inner ↔ cs = quote :: (inner ++ [quote]) := by
  cases cs with
  | nil => exact ⟨nofun, nofun⟩
  | cons c cs =>
    rw [unwrap?]
    split
    · rename_i h
      obtain ⟨rfl, hlast⟩ := h
      obtain ⟨init, rfl⟩ := List.getLast?_eq_some_iff.1 hlast
      rw [List.dropLast_concat, Option.some.injEq, List.cons.injEq, List.append_left_inj,
        and_iff_right rfl]
    · rename_i h
      refine ⟨nofun, fun heq => ?_⟩
      obtain ⟨rfl, rfl⟩ := List.cons.inj heq
      exact absurd ⟨rfl, List.getLast?_concat⟩ h

theorem unquote?_eq_some_iff : unquote? cs = some inner ↔ Quoted inner cs := by
  rw [unquote?, Option.or_eq_some_iff, unwrap?_eq_some_iff, unwrap?_eq_some_iff]
  constructor
  · rintro (rfl | ⟨-, rfl⟩)
    · exact .double
    · exact .single
  · rintro (_ | _)
    · exact .inl rfl
    · exact .inr ⟨rfl, rfl⟩

theorem unquote?_eq_none_iff : unquote? cs = none ↔ ∀ inner, ¬ Quoted inner cs := by
  rw [Option.eq_none_iff_forall_ne_some]
  exact forall_congr' fun inner => not_congr unquote?_eq_some_iff

inductive Unquoted (cs : List Char) : List Char → Prop
  | quoted {inner : List Char} : Quoted inner cs → Unquoted cs inner
  | bare : (∀ inner, ¬ Quoted inner cs) → Unquoted cs cs

theorem unquoted_iff {text : List Char} : Unquoted cs text ↔ unquote cs = text := by
  rw [unquote]
  cases h : unquote? cs with
  | none =>
    have hbare := unquote?_eq_none_iff.1 h
    constructor
    · rintro (hquoted | -)
      · exact absurd hquoted (hbare _)
      · rfl
    · rintro rfl
      exact .bare hbare
  | some inner =>
    have hquoted := unquote?_eq_some_iff.1 h
    constructor
    · rintro (hinner | hbare)
      · exact Option.some.inj (h.symm.trans (unquote?_eq_some_iff.2 hinner))
      · exact absurd hquoted (hbare inner)
    · rintro rfl
      exact .quoted hquoted

def Blanks (cs : List Char) : Prop := ∀ c ∈ cs, isBlank c = true

instance (cs : List Char) : Decidable (Blanks cs) := List.decidableBAll _ cs

theorem Blanks.append {ds : List Char} (h : Blanks cs) (h' : Blanks ds) : Blanks (cs ++ ds) :=
  fun c hc => (List.mem_append.1 hc).elim (h c) (h' c)

theorem Blanks.not_mem {c : Char} (h : Blanks cs) (hc : isBlank c = false) : c ∉ cs :=
  fun hmem => Bool.false_ne_true (hc.symm.trans (h c hmem))

structure Trimmed (cs : List Char) : Prop where
  first : ∀ c ∈ cs.head?, isBlank c = false
  last : ∀ c ∈ cs.getLast?, isBlank c = false

theorem trimLeft_eq_self (h : ∀ c ∈ cs.head?, isBlank c = false) : trimLeft cs = cs := by
  cases cs with
  | nil => rfl
  | cons c cs => exact List.dropWhile_cons_of_neg (by simp [h c rfl])

theorem trimRight_eq_self (h : ∀ c ∈ cs.getLast?, isBlank c = false) : trimRight cs = cs := by
  have hreverse : trimLeft cs.reverse = cs.reverse :=
    trimLeft_eq_self (by rwa [List.head?_reverse])
  rw [trimRight, ← trimLeft, hreverse, List.reverse_reverse]

theorem trim_eq_self (first : ∀ c ∈ cs.head?, isBlank c = false)
    (last : ∀ c ∈ cs.getLast?, isBlank c = false) : trim cs = cs := by
  rw [trim, trimLeft_eq_self first, trimRight_eq_self last]

theorem not_blank_of_isDigit {c : Char} (h : c.isDigit = true) : isBlank c = false := by
  simp only [Char.isDigit, Bool.and_eq_true, decide_eq_true_eq, ge_iff_le] at h
  have hbounds : 48 ≤ c.toNat ∧ c.toNat ≤ 57 := h
  simp only [isBlank, blankRanges, List.any_cons, List.any_nil, Bool.or_false, Bool.or_eq_false_iff,
    Bool.and_eq_false_iff, decide_eq_false_iff_not]
  omega

theorem not_blank_of_head?_trimLeft {c : Char} (h : c ∈ (trimLeft cs).head?) :
    isBlank c = false := by
  have hhead := List.head?_dropWhile_not isBlank cs
  rwa [← trimLeft, Option.mem_def.1 h] at hhead

theorem exists_blanks_append_trimLeft (cs : List Char) :
    ∃ before, Blanks before ∧ cs = before ++ trimLeft cs :=
  ⟨cs.takeWhile isBlank, fun _ => List.mem_takeWhile_imp, List.takeWhile_append_dropWhile.symm⟩

theorem exists_trimRight_append_blanks (cs : List Char) :
    ∃ after, Blanks after ∧ cs = trimRight cs ++ after := by
  obtain ⟨before, hbefore, hcs⟩ := exists_blanks_append_trimLeft cs.reverse
  refine ⟨before.reverse, fun c hc => hbefore c (List.mem_reverse.1 hc), ?_⟩
  rw [trimRight, ← trimLeft, ← List.reverse_append, ← hcs, List.reverse_reverse]

theorem trimmed_trim (cs : List Char) : Trimmed (trim cs) where
  first := by
    intro c hc
    -- what is first after both cuts was first after the left one
    obtain ⟨after, -, hleft⟩ := exists_trimRight_append_blanks (trimLeft cs)
    have hmem : c ∈ (trimLeft cs).head? := by
      rw [hleft, List.head?_append, ← trim, Option.mem_def.1 hc]
      rfl
    exact not_blank_of_head?_trimLeft hmem
  last := by
    intro c hc
    rw [trim, trimRight, List.getLast?_reverse] at hc
    exact not_blank_of_head?_trimLeft hc

theorem trim_eq_iff {core : List Char} :
    trim cs = core ↔ Trimmed core ∧
      ∃ before after, Blanks before ∧ Blanks after ∧ cs = before ++ core ++ after := by
  constructor
  · rintro rfl
    obtain ⟨before, hbefore, hcs⟩ := exists_blanks_append_trimLeft cs
    obtain ⟨after, hafter, hleft⟩ := exists_trimRight_append_blanks (trimLeft cs)
    refine ⟨trimmed_trim cs, before, after, hbefore, hafter, ?_⟩
    rw [List.append_assoc, trim, ← hleft, ← hcs]
  · rintro ⟨trimmed, before, after, hbefore, hafter, rfl⟩
    have hleft : trimLeft (before ++ core ++ after) = trimLeft (core ++ after) := by
      rw [List.append_assoc]
      exact List.dropWhile_append_of_pos hbefore
    have hright : trimRight (core ++ after) = core := by
      have hdrop : (after.reverse ++ core.reverse).dropWhile isBlank =
          core.reverse.dropWhile isBlank :=
        List.dropWhile_append_of_pos fun c hc => hafter c (List.mem_reverse.1 hc)
      rw [trimRight, List.reverse_append, hdrop]
      exact trimRight_eq_self trimmed.last
    rw [trim, hleft]
    cases core with
    | nil =>
      have hnil : trimLeft after = [] := List.dropWhile_eq_nil_iff.2 hafter
      rw [List.nil_append, hnil]
      rfl
    | cons c cs =>
      have hself : trimLeft (c :: cs ++ after) = c :: cs ++ after :=
        trimLeft_eq_self trimmed.first
      rw [hself, hright]

theorem mem_of_mem_trim {c : Char} (h : c ∈ trim cs) : c ∈ cs := by
  obtain ⟨-, before, after, -, -, hcs⟩ := trim_eq_iff.1 (Eq.refl (trim cs))
  rw [hcs]
  exact List.mem_append_left _ (List.mem_append_right _ h)

theorem trim_append_left {before : List Char} (h : Blanks before) (cs : List Char) :
    trim (before ++ cs) = trim cs := by
  obtain ⟨trimmed, before', after, hbefore', hafter, hcs⟩ := trim_eq_iff.1 (Eq.refl (trim cs))
  refine trim_eq_iff.2 ⟨trimmed, before ++ before', after, h.append hbefore', hafter, ?_⟩
  rw [List.append_assoc, List.append_assoc, ← List.append_assoc before', ← hcs]

theorem trim_append_right {after : List Char} (h : Blanks after) (cs : List Char) :
    trim (cs ++ after) = trim cs := by
  obtain ⟨trimmed, before, after', hbefore, hafter', hcs⟩ := trim_eq_iff.1 (Eq.refl (trim cs))
  refine trim_eq_iff.2 ⟨trimmed, before, after' ++ after, hbefore, hafter'.append h, ?_⟩
  rw [← List.append_assoc, ← hcs]

theorem trim_eq_nil_iff : trim cs = [] ↔ Blanks cs := by
  rw [trim_eq_iff]
  constructor
  · rintro ⟨-, before, after, hbefore, hafter, rfl⟩ c hc
    rw [List.append_nil] at hc
    exact (List.mem_append.1 hc).elim (hbefore c) (hafter c)
  · intro h
    exact ⟨⟨nofun, nofun⟩, cs, [], h, nofun, by rw [List.append_nil, List.append_nil]⟩

theorem not_blank_of_trim_eq_self (h : trim cs = cs) : ∀ c ∈ cs.head?, isBlank c = false :=
  (trim_eq_iff.1 h).1.first

end Manifest.Text
