import Mathlib.Data.List.Basic
import Manifest.Proofs.Text.Split
import Manifest.Validity

namespace Manifest.Validity

variable {cs ds : List Char} {s : String}

structure Label (cs : List Char) : Prop where
  first : ∃ c, cs.head? = some c ∧ isLabelEnd c = true
  last : ∃ c, cs.getLast? = some c ∧ isLabelEnd c = true
  inner : ∀ c ∈ cs, isLabelEnd c = true ∨ c = '-'

theorem isLabel_iff : isLabel cs = true ↔ Label cs := by
  simp only [isLabel, Bool.and_eq_true, Option.any_eq_true, List.all_eq_true, Bool.or_eq_true,
    decide_eq_true_eq]
  exact ⟨fun h => ⟨h.1.1, h.1.2, h.2⟩, fun h => ⟨⟨h.first, h.last⟩, h.inner⟩⟩

theorem Label.point_not_mem (h : Label cs) : '.' ∉ cs := fun hmem => by
  rcases h.inner '.' hmem with hend | hhyphen
  · cases hend
  · cases hhyphen

theorem Label.append (h : Label cs) (hne : ds ≠ []) (hds : ∀ c ∈ ds, isLabelEnd c = true) :
    Label (cs ++ '-' :: ds) where
  first := by
    obtain ⟨c, hc, hend⟩ := h.first
    exact ⟨c, by rw [List.head?_append, hc, Option.some_or], hend⟩
  last := by
    have hlast := List.getLast?_eq_some_getLast hne
    refine ⟨ds.getLast hne, ?_, hds _ (List.getLast_mem hne)⟩
    rw [List.getLast?_append, List.getLast?_cons, hlast, Option.getD_some, Option.some_or]
  inner := List.forall_mem_append.2
    ⟨h.inner, List.forall_mem_cons.2 ⟨.inr rfl, fun c hc => .inl (hds c hc)⟩⟩

def Labels (cs : List Char) : Prop :=
  ∃ labels : List (List Char), labels ≠ [] ∧ (∀ l ∈ labels, Label l) ∧
    cs = ['.'].intercalate labels

theorem isName_iff : isName s = true ↔ Labels s.toList := by
  rw [isName, Text.splitAll_eq_splitOn, List.all_eq_true]
  constructor
  · intro h
    exact ⟨_, List.splitOn_ne_nil _ _, fun l hl => isLabel_iff.1 (h l hl),
      (List.intercalate_splitOn '.').symm⟩
  · rintro ⟨labels, hne, hlabels, htext⟩
    rw [htext, List.splitOn_intercalate '.' (fun l hl => (hlabels l hl).point_not_mem) hne]
    exact fun l hl => isLabel_iff.2 (hlabels l hl)

theorem intercalate_concat_append (sep : List Char) (init : List (List Char))
    (last es : List Char) :
    sep.intercalate (init ++ [last ++ es]) = sep.intercalate (init ++ [last]) ++ es := by
  induction init with
  | nil => rw [List.nil_append, List.nil_append, List.intercalate_singleton,
      List.intercalate_singleton]
  | cons l init ih =>
    have hcons : ∀ x, sep.intercalate (l :: init ++ [x]) =
        l ++ sep ++ sep.intercalate (init ++ [x]) := by
      intro x
      cases init <;> exact List.intercalate_cons_cons
    rw [hcons, hcons, ih, ← List.append_assoc]

theorem Labels.append (h : Labels cs) (hne : ds ≠ []) (hds : ∀ c ∈ ds, isLabelEnd c = true) :
    Labels (cs ++ '-' :: ds) := by
  obtain ⟨labels, hlabels, hall, rfl⟩ := h
  obtain ⟨init, last, rfl⟩ := (List.eq_nil_or_concat labels).resolve_left hlabels
  rw [List.concat_eq_append] at hall ⊢
  obtain ⟨hinit, hlast⟩ := List.forall_mem_append.1 hall
  refine ⟨init ++ [last ++ '-' :: ds], by simp, ?_, (intercalate_concat_append _ _ _ _).symm⟩
  exact List.forall_mem_append.2 ⟨hinit,
    List.forall_mem_singleton.2 ((hlast last List.mem_cons_self).append hne hds)⟩

theorem fault_eq_none_iff {size : Nat} {valid : Bool} {long other : String} :
    (if maxBytes < size then some long else if valid then none else some other) = none ↔
      size ≤ maxBytes ∧ valid = true := by
  split_ifs with hlong hvalid
  · exact ⟨nofun, fun h => absurd h.1 (Nat.not_le_of_lt hlong)⟩
  · exact ⟨fun _ => ⟨Nat.le_of_not_lt hlong, hvalid⟩, fun _ => rfl⟩
  · exact ⟨nofun, fun h => absurd h.2 hvalid⟩

theorem nameFault?_eq_none_iff :
    nameFault? s = none ↔ s.utf8ByteSize ≤ maxBytes ∧ Labels s.toList := by
  rw [nameFault?, fault_eq_none_iff, isName_iff]

theorem keyFault?_eq_none_iff : keyFault? s = none ↔ s.utf8ByteSize ≤ maxBytes ∧ s ≠ "" ∧
    s ≠ "." ∧ s ≠ ".." ∧ ∀ c ∈ s.toList, isKeyChar c = true := by
  rw [keyFault?, fault_eq_none_iff]
  simp [isKey, and_assoc]

theorem utf8Size_of_isLabelEnd {c : Char} (h : isLabelEnd c = true) : c.utf8Size = 1 := by
  rw [Char.utf8Size_eq_one_iff]
  rw [isLabelEnd, Bool.or_eq_true] at h
  rcases h with hlower | hdigit
  · have hle : c.val ≤ 'z'.val := of_decide_eq_true (Bool.and_eq_true_iff.1 hlower).2
    exact UInt32.le_trans hle (by decide)
  · have hle : c.val ≤ '9'.val := of_decide_eq_true (Bool.and_eq_true_iff.1 hdigit).2
    exact UInt32.le_trans hle (by decide)

theorem utf8ByteSize_ofList (h : ∀ c ∈ cs, isLabelEnd c = true) :
    (String.ofList cs).utf8ByteSize = cs.length := by
  induction cs with
  | nil => rfl
  | cons c cs ih =>
    obtain ⟨hc, hcs⟩ := List.forall_mem_cons.1 h
    rw [String.ofList_cons, String.utf8ByteSize_append, String.utf8ByteSize_singleton, ih hcs,
      utf8Size_of_isLabelEnd hc, List.length_cons, Nat.add_comm]

end Manifest.Validity
