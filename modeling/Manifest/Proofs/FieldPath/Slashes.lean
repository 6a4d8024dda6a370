import Manifest.FieldPath.Basic
import Manifest.Proofs.Text.Split

namespace Manifest

namespace FieldPath

def isPlain (path : String) : Bool := path.toList.all fun c => c ≠ '[' && c ≠ ']'

def BracketFree (cs : List Char) : Prop := ∀ c ∈ cs, c ≠ '[' ∧ c ≠ ']'

instance (cs : List Char) : Decidable (BracketFree cs) :=
  List.decidableBAll (fun c => c ≠ '[' ∧ c ≠ ']') cs

theorem isPlain_iff {path : String} : isPlain path = true ↔ BracketFree path.toList := by
  simp [isPlain, BracketFree]

def slashKeys (path : String) : List String :=
  ((Text.splitAll '/' path.toList).filter (· ≠ [])).map String.ofList

def Keyed (path : String) (keys : List String) : Prop :=
  parse path = .ok { source := path, segments := keys.map .field }

theorem Keyed.unique {path : String} {keys keys' : List String} (h : Keyed path keys)
    (h' : Keyed path keys') : keys = keys' := by
  have := h.symm.trans h'
  simp only [Except.ok.injEq, FieldPath.mk.injEq, true_and] at this
  exact (List.map_inj_right fun _ _ => Segment.field.inj).1 this

theorem outside_append (read : List Char) {t : List Char} (h : BracketFree t) (cs : List Char) :
    outside read (t ++ cs) = outside (read ++ t) cs := by
  induction t generalizing read with
  | nil => rw [List.nil_append, List.append_nil]
  | cons c t ih =>
    obtain ⟨hc, ht⟩ := List.forall_mem_cons.1 h
    rw [List.cons_append, outside, if_neg hc.1, if_neg hc.2, ih (read ++ [c]) ht,
      List.append_assoc, List.singleton_append]

theorem hasSlash_append (depth : Nat) {t : List Char} (h : BracketFree t) (cs : List Char) :
    hasSlash depth (t ++ cs) = true ↔ (depth = 0 ∧ '/' ∈ t) ∨ hasSlash depth cs = true := by
  induction t with
  | nil => simp
  | cons c t ih =>
    obtain ⟨hc, ht⟩ := List.forall_mem_cons.1 h
    rw [List.cons_append, hasSlash, if_neg hc.1, if_neg hc.2, List.mem_cons]
    split_ifs with hslash
    · exact iff_of_true rfl (.inl ⟨hslash.2, .inl hslash.1.symm⟩)
    · rw [ih ht]
      tauto

theorem keyed_slashKeys {path : String} (plain : isPlain path = true) (slash : '/' ∈ path.toList) :
    Keyed path (slashKeys path) := by
  have hfree := isPlain_iff.1 plain
  have hslash := (hasSlash_append 0 hfree []).2 (.inl ⟨rfl, slash⟩)
  have houtside := outside_append [] hfree []
  rw [List.append_nil] at hslash houtside
  rw [outside, List.nil_append] at houtside
  have hsep : separator path.toList = '/' := if_pos hslash
  rw [Keyed, parse, houtside, hsep]
  simp [Except.map, Part.segments, plainSegments, slashKeys]

theorem isPlain_append (a b : String) : isPlain (a ++ b) = (isPlain a && isPlain b) := by
  simp [isPlain]

theorem slashKeys_of_not_mem {key : String} (h : '/' ∉ key.toList) (hne : key ≠ "") :
    slashKeys key = [key] := by
  rw [slashKeys, Text.splitAll_eq_splitOn, List.splitOn_eq_singleton h,
    List.filter_cons_of_pos (by simpa using hne), List.filter_nil, List.map_singleton,
    String.ofList_toList]

theorem slashKeys_append (a b : String) :
    slashKeys (a ++ "/" ++ b) = slashKeys a ++ slashKeys b := by
  have h : (a ++ "/" ++ b).toList = a.toList ++ '/' :: b.toList := by simp
  rw [slashKeys, h, Text.splitAll_append, List.filter_append, List.map_append]
  rfl

theorem keyed_append {a b : String} (ha : isPlain a = true) (hb : isPlain b = true) :
    Keyed (a ++ "/" ++ b) (slashKeys a ++ slashKeys b) := by
  rw [← slashKeys_append]
  refine keyed_slashKeys ?_ (by simp)
  rw [isPlain_append, isPlain_append, ha, hb]
  rfl

end FieldPath

end Manifest
