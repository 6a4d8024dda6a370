import Manifest.FileTree
import Manifest.Proofs.FilePath

namespace Manifest

namespace FilePath

variable {absolute : Bool} {stack names : List (List Char)} {path c : List Char}

structure IsName (c : List Char) : Prop extends IsComponent c where
  ne_parent : c ≠ ['.', '.']

/-- The paths in normal form: where they start, how often they go up, and the names they follow. -/
inductive Normal : List Char → Prop
  | here : Normal ['.']
  | absolute {names : List (List Char)} :
    (∀ n ∈ names, IsName n) → Normal ('/' :: Text.joinWith ['/'] names)
  | relative {ups : Nat} {names : List (List Char)} :
    (∀ n ∈ names, IsName n) → List.replicate ups ['.', '.'] ++ names ≠ [] →
      Normal (Text.joinWith ['/'] (List.replicate ups ['.', '.'] ++ names))

/-- Names on top of `..`, of which none is left at the root. -/
inductive NormalStack (absolute : Bool) : List (List Char) → Prop
  | parents {ups : Nat} : (absolute = true → ups = 0) →
    NormalStack absolute (List.replicate ups ['.', '.'])
  | name {c : List Char} {stack : List (List Char)} :
    IsName c → NormalStack absolute stack → NormalStack absolute (c :: stack)

theorem isComponent_parent : IsComponent ['.', '.'] := ⟨by decide, by decide, by decide⟩

theorem push_name (h : c ≠ ['.', '.']) (absolute : Bool) (stack : List (List Char)) :
    push absolute stack c = c :: stack := if_neg h

theorem push_parent_of_name (h : c ≠ ['.', '.']) (absolute : Bool) (stack : List (List Char)) :
    push absolute (c :: stack) ['.', '.'] = stack := if_neg h

theorem push_parent_relative (ups : Nat) :
    push false (List.replicate ups ['.', '.']) ['.', '.'] =
      List.replicate (ups + 1) ['.', '.'] := by
  cases ups <;> rfl

namespace NormalStack

theorem empty (absolute : Bool) : NormalStack absolute [] := @parents absolute 0 fun _ => rfl

theorem of_names (ups : Nat) (hroot : absolute = true → ups = 0) (h : ∀ n ∈ names, IsName n) :
    NormalStack absolute (names ++ List.replicate ups ['.', '.']) := by
  induction names with
  | nil => exact .parents hroot
  | cons n names ih =>
    rw [List.forall_mem_cons] at h
    exact .name h.1 (ih h.2)

theorem exists_names (h : NormalStack absolute stack) :
    ∃ ups names, (absolute = true → ups = 0) ∧ (∀ n ∈ names, IsName n) ∧
      stack.reverse = List.replicate ups ['.', '.'] ++ names := by
  induction h with
  | @parents ups hroot => exact ⟨ups, [], hroot, nofun, by simp⟩
  | @name c stack hname _ ih =>
    obtain ⟨ups, names, hroot, hnames, hstack⟩ := ih
    refine ⟨ups, names ++ [c], hroot, List.forall_mem_append.2 ⟨hnames, by simpa⟩, ?_⟩
    rw [List.reverse_cons, hstack, List.append_assoc]

theorem isComponent (h : NormalStack absolute stack) : ∀ c ∈ stack, IsComponent c := by
  induction h with
  | parents =>
    intro c hc
    obtain rfl := List.eq_of_mem_replicate hc
    exact isComponent_parent
  | name hname _ ih => exact List.forall_mem_cons.2 ⟨hname.toIsComponent, ih⟩

theorem isComponent_reverse (h : NormalStack absolute stack) :
    ∀ c ∈ stack.reverse, IsComponent c := fun c hc => h.isComponent c (List.mem_reverse.1 hc)

theorem push (h : NormalStack absolute stack) (hc : IsComponent c) :
    NormalStack absolute (push absolute stack c) := by
  by_cases hparent : c = ['.', '.']
  · subst hparent
    cases h with
    | name hname h => rwa [push_parent_of_name hname.ne_parent]
    | parents hroot =>
      cases absolute with
      | true =>
        obtain rfl := hroot rfl
        exact .parents fun _ => rfl
      | false =>
        rw [push_parent_relative]
        exact .parents nofun
  · rw [push_name hparent]
    exact .name ⟨hc, hparent⟩ h

theorem foldl_push {cs : List (List Char)} (h : NormalStack absolute stack)
    (hcs : ∀ c ∈ cs, IsComponent c) :
    NormalStack absolute (cs.foldl (FilePath.push absolute) stack) := by
  induction cs generalizing stack with
  | nil => exact h
  | cons c cs ih =>
    rw [List.forall_mem_cons] at hcs
    exact ih (h.push hcs.1) hcs.2

theorem foldl_push_reverse (h : NormalStack absolute stack) :
    stack.reverse.foldl (FilePath.push absolute) [] = stack := by
  induction h with
  | @parents ups hroot =>
    rw [List.reverse_replicate]
    induction ups with
    | zero => rfl
    | succ ups ih =>
      obtain rfl : absolute = false := by simpa using hroot
      rw [List.replicate_succ', List.foldl_concat, ih nofun, push_parent_relative,
        List.replicate_succ']
  | name hname _ ih => rw [List.reverse_cons, List.foldl_concat, ih, push_name hname.ne_parent]

end NormalStack

theorem normalStack_cleanComponents (path : List Char) :
    NormalStack (isAbsolute path) (cleanComponents path).reverse := by
  rw [cleanComponents, List.reverse_reverse]
  exact (NormalStack.empty _).foldl_push fun _ => isComponent_of_mem_components

theorem cleanComponents_ofComponents (h : NormalStack absolute stack) :
    cleanComponents (ofComponents absolute stack.reverse) = stack.reverse := by
  rw [cleanComponents, components_ofComponents h.isComponent_reverse,
    isAbsolute_ofComponents h.isComponent_reverse, h.foldl_push_reverse]

theorem cleanComponents_clean (path : List Char) :
    cleanComponents (clean path) = cleanComponents path := by
  have h := cleanComponents_ofComponents (normalStack_cleanComponents path)
  rwa [List.reverse_reverse] at h

theorem clean_clean (path : List Char) : clean (clean path) = clean path := by
  rw [clean, isAbsolute_clean, cleanComponents_clean, ← clean]

theorem normal_ofComponents (h : NormalStack absolute stack) :
    Normal (ofComponents absolute stack.reverse) := by
  obtain ⟨ups, names, hroot, hnames, hstack⟩ := h.exists_names
  rw [hstack, ofComponents]
  cases absolute with
  | true =>
    obtain rfl := hroot rfl
    exact .absolute hnames
  | false =>
    rw [if_neg Bool.false_ne_true]
    split
    · exact .here
    · exact .relative hnames ‹_›

theorem Normal.exists_stack (h : Normal path) :
    ∃ absolute stack, NormalStack absolute stack ∧ path = ofComponents absolute stack.reverse := by
  have hnames {names : List (List Char)} (h : ∀ n ∈ names, IsName n) :
      ∀ n ∈ names.reverse, IsName n := fun n hn => h n (List.mem_reverse.1 hn)
  cases h with
  | here => exact ⟨false, [], .empty false, rfl⟩
  | absolute h =>
    refine ⟨true, _, .of_names 0 (fun _ => rfl) (hnames h), ?_⟩
    simp [ofComponents]
  | @relative ups names h hne =>
    refine ⟨false, _, .of_names ups (absurd · Bool.false_ne_true) (hnames h), ?_⟩
    simp only [ofComponents, List.reverse_append, List.reverse_replicate, List.reverse_reverse]
    rw [if_neg Bool.false_ne_true, if_neg hne]

theorem clean_eq_self_iff : clean path = path ↔ Normal path := by
  constructor
  · intro h
    have hnormal := normal_ofComponents (normalStack_cleanComponents path)
    rwa [List.reverse_reverse, ← clean, h] at hnormal
  · intro h
    obtain ⟨absolute, stack, hstack, rfl⟩ := h.exists_stack
    rw [clean, cleanComponents_ofComponents hstack,
      isAbsolute_ofComponents hstack.isComponent_reverse]

theorem join_of_isAbsolute (h : isAbsolute path = true) (directory : List Char) :
    join directory path = path := if_pos (.inl h)

theorem components_join (h : isAbsolute path = false) (directory : List Char) :
    components (join directory path) = components directory ++ components path := by
  rw [join, h]
  split
  · rename_i hnil
    obtain rfl : directory = [] := by simpa using hnil
    rfl
  · split
    · rename_i hslash
      obtain ⟨pre, rfl⟩ := List.getLast?_eq_some_iff.1 hslash
      rw [List.append_assoc, List.singleton_append, components_append, components_append]
      exact congrArg (· ++ components path) (List.append_nil _).symm
    · exact components_append directory path

theorem cleanComponents_join (h : isAbsolute path = false) (directory : List Char) :
    cleanComponents (join directory path) = ((components path).foldl (push (isAbsolute directory))
      (cleanComponents directory).reverse).reverse := by
  rw [cleanComponents, components_join h, isAbsolute_join h, List.foldl_append, cleanComponents,
    List.reverse_reverse]

theorem clean_join_parent (h : IsName c) (directory : List Char) :
    clean (join (join directory c) ['.', '.']) = clean directory := by
  have hname : isAbsolute c = false := isAbsolute_of_slash_not_mem h.slash_not_mem
  have hparent : isAbsolute ['.', '.'] = false := rfl
  have hstack : cleanComponents (join (join directory c) ['.', '.']) =
      cleanComponents directory := by
    rw [cleanComponents_join hparent, cleanComponents_join hname, isAbsolute_join hname,
      List.reverse_reverse, components_of_isComponent h.toIsComponent,
      components_of_isComponent isComponent_parent]
    simp only [List.foldl_cons, List.foldl_nil]
    rw [push_name h.ne_parent, push_parent_of_name h.ne_parent, List.reverse_reverse]
  rw [clean, hstack, isAbsolute_join hparent, isAbsolute_join hname, ← clean]

theorem clean_join_clean (directory path : List Char) :
    clean (join (clean directory) path) = clean (join directory path) := by
  cases h : isAbsolute path with
  | true => rw [join_of_isAbsolute h, join_of_isAbsolute h]
  | false =>
    rw [clean, cleanComponents_join h, isAbsolute_join h, cleanComponents_clean, isAbsolute_clean,
      ← cleanComponents_join h, ← isAbsolute_join h, ← clean]

theorem clean_congr {path' : List Char} (habsolute : isAbsolute path = isAbsolute path')
    (hcomponents : components path = components path') : clean path = clean path' := by
  rw [clean, clean, cleanComponents, cleanComponents, habsolute, hcomponents]

theorem clean_join_join (root directory path : List Char) :
    clean (join (join root directory) path) = clean (join root (join directory path)) := by
  cases hpath : isAbsolute path with
  | true => simp only [join_of_isAbsolute hpath]
  | false =>
    have hjoin : isAbsolute (join directory path) = isAbsolute directory := isAbsolute_join hpath
    cases hdirectory : isAbsolute directory with
    | true => rw [join_of_isAbsolute hdirectory, join_of_isAbsolute (hjoin.trans hdirectory)]
    | false =>
      rw [hdirectory] at hjoin
      apply clean_congr
      · rw [isAbsolute_join hpath, isAbsolute_join hdirectory, isAbsolute_join hjoin]
      · rw [components_join hpath, components_join hdirectory, components_join hjoin,
          components_join hpath, List.append_assoc]

end FilePath

namespace Workspace

open FilePath

def seenFrom (w : Workspace) (directory : String) : Workspace :=
  { w with root := w.resolve directory }

theorem resolve_seenFrom (w : Workspace) (directory path : String) :
    (w.seenFrom directory).resolve path =
      w.resolve (String.ofList (join directory.toList path.toList)) := by
  rw [resolve, seenFrom, resolve, resolve, String.toList_ofList, String.toList_ofList,
    clean_join_clean, clean_join_join]

theorem load_seenFrom (w : Workspace) (directory path : String) :
    (w.seenFrom directory).load path =
      w.load (String.ofList (join directory.toList path.toList)) := by
  have hfiles : (w.seenFrom directory).files = w.files := rfl
  unfold load
  rw [resolve_seenFrom, hfiles]

end Workspace

namespace FilePath

/-- Cleaning leads to the normal form of a path.  It does so in any number of steps: a directory may
be cleaned before a path is seen from it, and so a path leads to the same file if the directory is
resolved first. -/
theorem clean_normal_form (path : List Char) :
    Normal (clean path) ∧ (clean path = path ↔ Normal path) ∧
      isAbsolute (clean path) = isAbsolute path ∧ clean (clean path) = clean path ∧
      (∀ root, clean (join (clean root) path) = clean (join root path)) ∧
      ∀ (w : Workspace) (directory path : String),
        (w.seenFrom directory).resolve path =
            w.resolve (String.ofList (join directory.toList path.toList)) ∧
          (w.seenFrom directory).load path =
            w.load (String.ofList (join directory.toList path.toList)) :=
  ⟨clean_eq_self_iff.1 (clean_clean path), clean_eq_self_iff, isAbsolute_clean path,
    clean_clean path, fun root => clean_join_clean root path, fun w directory path =>
      ⟨w.resolve_seenFrom directory path, w.load_seenFrom directory path⟩⟩

end FilePath

end Manifest
