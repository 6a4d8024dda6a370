import Manifest.FilePath
import Manifest.Proofs.Text.Split

namespace Manifest.FilePath

variable {absolute : Bool} {stack : List (List Char)} {path c : List Char}

structure IsComponent (c : List Char) : Prop where
  ne_nil : c ≠ []
  ne_here : c ≠ ['.']
  slash_not_mem : '/' ∉ c

theorem isComponent_of_mem_components (h : c ∈ components path) : IsComponent c := by
  obtain ⟨hpiece, hkept⟩ := List.mem_filter.1 h
  rw [Bool.and_eq_true, decide_eq_true_eq, decide_eq_true_eq] at hkept
  exact ⟨hkept.1, hkept.2, Text.not_mem_of_mem_splitAll hpiece⟩

theorem components_append (pre post : List Char) :
    components (pre ++ '/' :: post) = components pre ++ components post := by
  rw [components, Text.splitAll_append, List.filter_append]
  rfl

theorem components_of_isComponent (h : IsComponent c) : components c = [c] := by
  rw [components, Text.splitAll_eq_splitOn, List.splitOn_eq_singleton h.slash_not_mem,
    List.filter_cons_of_pos (by simp [h.ne_nil, h.ne_here]), List.filter_nil]

theorem components_joinWith {cs : List (List Char)} (h : ∀ c ∈ cs, IsComponent c) :
    components (Text.joinWith ['/'] cs) = cs := by
  induction cs with
  | nil => rfl
  | cons c cs ih =>
    rw [List.forall_mem_cons] at h
    cases cs with
    | nil => exact components_of_isComponent h.1
    | cons d ds =>
      rw [Text.joinWith, List.append_assoc, List.singleton_append, components_append,
        components_of_isComponent h.1, ih h.2, List.singleton_append]
      nofun

theorem components_ofComponents {cs : List (List Char)} (h : ∀ c ∈ cs, IsComponent c) :
    components (ofComponents absolute cs) = cs := by
  rw [ofComponents]
  split
  · exact (components_append [] _).trans (components_joinWith h)
  · split
    · rename_i hnil
      rw [hnil]
      rfl
    · exact components_joinWith h

theorem push_subset : push absolute stack c ⊆ c :: stack := by
  unfold push
  split
  · cases stack with
    | nil =>
      dsimp only
      split
      · exact List.nil_subset _
      · exact List.Subset.refl _
    | cons top rest =>
      dsimp only
      split
      · exact List.Subset.refl _
      · exact fun x hx => List.mem_cons_of_mem _ (List.mem_cons_of_mem _ hx)
  · exact List.Subset.refl _

theorem foldl_push_subset (cs : List (List Char)) :
    cs.foldl (push absolute) stack ⊆ cs ++ stack := by
  induction cs generalizing stack with
  | nil => exact List.Subset.refl _
  | cons c cs ih =>
    intro x hx
    rcases List.mem_append.1 (ih hx) with hx | hx
    · exact List.mem_cons_of_mem _ (List.mem_append_left _ hx)
    · rcases List.mem_cons.1 (push_subset hx) with rfl | hx
      · exact List.mem_cons_self
      · exact List.mem_cons_of_mem _ (List.mem_append_right _ hx)

theorem isComponent_of_mem_cleanComponents (h : c ∈ cleanComponents path) : IsComponent c :=
  isComponent_of_mem_components (by simpa using foldl_push_subset _ (List.mem_reverse.1 h))

theorem isAbsolute_of_slash_not_mem (h : '/' ∉ c) : isAbsolute c = false :=
  decide_eq_false fun hhead => h (List.mem_of_head? hhead)

theorem isAbsolute_append {directory : List Char} (h : directory ≠ []) (rest : List Char) :
    isAbsolute (directory ++ rest) = isAbsolute directory := by
  rw [isAbsolute, isAbsolute, List.head?_append_of_ne_nil _ h]

theorem isAbsolute_joinWith {cs : List (List Char)} (h : ∀ c ∈ cs, IsComponent c) :
    isAbsolute (Text.joinWith ['/'] cs) = false := by
  cases cs with
  | nil => rfl
  | cons c cs =>
    have hc := h c List.mem_cons_self
    have hfirst := isAbsolute_of_slash_not_mem hc.slash_not_mem
    cases cs with
    | nil => exact hfirst
    | cons d ds =>
      rw [Text.joinWith, List.append_assoc, isAbsolute_append hc.ne_nil, hfirst]
      nofun

theorem isAbsolute_ofComponents {cs : List (List Char)} (h : ∀ c ∈ cs, IsComponent c) :
    isAbsolute (ofComponents absolute cs) = absolute := by
  rw [ofComponents]
  cases absolute with
  | true => rfl
  | false =>
    rw [if_neg Bool.false_ne_true]
    split
    · rfl
    · exact isAbsolute_joinWith h

theorem isAbsolute_clean (path : List Char) : isAbsolute (clean path) = isAbsolute path :=
  isAbsolute_ofComponents fun _ => isComponent_of_mem_cleanComponents

theorem components_clean (path : List Char) : components (clean path) = cleanComponents path :=
  components_ofComponents fun _ => isComponent_of_mem_cleanComponents

theorem clean_ne_nil (path : List Char) : clean path ≠ [] := by
  intro hnil
  have hcomponents : cleanComponents path = [] := by
    rw [← components_clean, hnil]
    rfl
  rw [clean, ofComponents, hcomponents, if_pos rfl] at hnil
  split at hnil <;> cases hnil

theorem isAbsolute_join {directory : List Char} (h : isAbsolute path = false) :
    isAbsolute (join directory path) = isAbsolute directory := by
  rw [join]
  split
  · rename_i hcases
    rcases hcases with habsolute | rfl
    · rw [h] at habsolute
      cases habsolute
    · exact h
  · rename_i hcases
    rw [not_or] at hcases
    split <;> exact isAbsolute_append hcases.2 _

end Manifest.FilePath
