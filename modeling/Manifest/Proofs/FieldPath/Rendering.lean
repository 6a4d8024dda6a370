import Manifest.Proofs.FieldPath.Grammar

namespace Manifest

open FieldPath

namespace Segment

variable {s : Segment}

def content : Segment → List Char
  | .field key => '"' :: (key.toList ++ ['"'])
  | .index i => Text.writeNat i
  | .matching key value => key.toList ++ '=' :: '"' :: (value.toList ++ ['"'])

def bracketed (s : Segment) : List Char := '[' :: (s.content ++ [']'])

/-- What can be written in brackets: no brackets, indices of 64 bits, and keys of matches that are
trimmed and neither end early nor begin a quoted text. -/
def Writable : Segment → Prop
  | .field key => BracketFree key.toList
  | .index i => i < Nat.pow 2 64
  | .matching key value => (BracketFree key.toList ∧ BracketFree value.toList) ∧
      Text.trim key.toList = key.toList ∧ '=' ∉ key.toList ∧ key.toList.head? ≠ some '"'

instance : Decidable s.Writable :=
  match s with
  | .field key => inferInstanceAs (Decidable (BracketFree key.toList))
  | .index i => inferInstanceAs (Decidable (i < Nat.pow 2 64))
  | .matching key value => inferInstanceAs (Decidable ((BracketFree key.toList ∧
      BracketFree value.toList) ∧ Text.trim key.toList = key.toList ∧ '=' ∉ key.toList ∧
        key.toList.head? ≠ some '"'))

theorem trim_quoted (cs : List Char) : Text.trim ('"' :: (cs ++ ['"'])) = '"' :: (cs ++ ['"']) := by
  refine Text.trim_eq_self ?_ ?_
  · rintro _ ⟨⟩
    decide
  · rw [← List.cons_append, List.getLast?_concat]
    rintro _ ⟨⟩
    decide

theorem getLast?_matching (key value : String) :
    (content (.matching key value)).getLast? = some '"' := by
  rw [content, ← List.cons_append, ← List.cons_append, ← List.append_assoc, List.getLast?_concat]

theorem head?_matching {key value : String} {c : Char}
    (h : c ∈ (content (.matching key value)).head?) : c ∈ key.toList.head? ∨ c = '=' := by
  rw [content, List.head?_append, Option.mem_def, Option.or_eq_some_iff] at h
  exact h.imp_right fun h => (Option.some.inj h.2).symm

theorem Writable.trim_content (h : s.Writable) : Text.trim s.content = s.content := by
  cases s with
  | field key => exact trim_quoted key.toList
  | index i =>
    have hdigit : ∀ c ∈ Text.writeNat i, Text.isBlank c = false := fun c hc =>
      Text.not_blank_of_isDigit ((Json.digits_writeNat i).2 c hc)
    exact Text.trim_eq_self (fun c hc => hdigit c (List.mem_of_mem_head? hc))
      (fun c hc => hdigit c (List.mem_of_mem_getLast? hc))
  | matching key value =>
    obtain ⟨-, hkey, -, -⟩ := h
    refine Text.trim_eq_self (fun c hc => ?_) ?_
    · rcases head?_matching hc with hc | rfl
      · exact Text.not_blank_of_trim_eq_self hkey c hc
      · decide
    · rw [getLast?_matching]
      rintro _ ⟨⟩
      decide

theorem Writable.reads_content (h : s.Writable) : Reads s.content s := by
  cases s with
  | field key =>
    have hkey : Reads (content (.field key)) (.field (String.ofList key.toList)) :=
      .quoted .double
    rwa [String.ofList_toList] at hkey
  | index i => exact .index (Text.unsigned_writeNat i) h
  | matching key value =>
    obtain ⟨-, hkey, hsplit, hquote⟩ := h
    -- It ends in a double quote, and so does not begin with one.
    have hbare : ∀ inner, ¬ Text.Quoted inner (content (.matching key value)) := by
      intro inner hquoted
      rcases head?_matching (hquoted.head?_eq_getLast?.trans (getLast?_matching key value)) with
        hhead | hhead
      · exact hquote hhead
      · cases hhead
    have hvalue : Text.Unquoted (Text.trim ('"' :: (value.toList ++ ['"']))) value.toList := by
      rw [trim_quoted]
      exact .quoted .double
    have hmatching := Reads.matching hbare hsplit hvalue
    rwa [hkey, String.ofList_toList, String.ofList_toList] at hmatching

theorem bracketFree_quoted {cs : List Char} (h : BracketFree cs) :
    BracketFree ('"' :: (cs ++ ['"'])) :=
  List.forall_mem_cons.2 ⟨by decide, h.concat (by decide) (by decide)⟩

theorem Writable.bracketFree (h : s.Writable) : BracketFree s.content := by
  cases s with
  | field key => exact bracketFree_quoted h
  | index i =>
    intro c hc
    have hdigit := (Json.digits_writeNat i).2 c hc
    constructor <;> rintro rfl <;> cases hdigit
  | matching key value =>
    obtain ⟨⟨hkey, hvalue⟩, -⟩ := h
    exact List.forall_mem_append.2
      ⟨hkey, List.forall_mem_cons.2 ⟨by decide, bracketFree_quoted hvalue⟩⟩

theorem content_ne_nil : s.content ≠ [] := by
  cases s with
  | field key => exact List.cons_ne_nil _ _
  | index i => exact (Json.digits_writeNat i).1
  | matching key value => exact List.append_ne_nil_of_right_ne_nil _ (List.cons_ne_nil _ _)

end Segment

namespace FieldPath

def render (segments : List Segment) : String := String.ofList (segments.flatMap Segment.bracketed)

def bracketedLayout (segments : List Segment) : Layout :=
  ⟨[], segments.map fun s => (s.content, [])⟩

theorem text_bracketedLayout (segments : List Segment) :
    (bracketedLayout segments).text = segments.flatMap Segment.bracketed := by
  rw [Layout.text, bracketedLayout, List.nil_append, List.flatMap_map]
  rfl

theorem wellFormed_bracketedLayout {segments : List Segment}
    (writable : ∀ s ∈ segments, s.Writable) : (bracketedLayout segments).WellFormed := by
  induction segments with
  | nil => exact Layout.wellFormed_nil.2 bracketFree_nil
  | cons s segments ih =>
    obtain ⟨hs, hsegments⟩ := List.forall_mem_cons.1 writable
    refine Layout.wellFormed_cons.2 ⟨bracketFree_nil, ⟨hs.bracketFree, ?_⟩, ih hsegments⟩
    rw [hs.trim_content]
    exact Segment.content_ne_nil

theorem spells_bracketedLayout {segments : List Segment} (writable : ∀ s ∈ segments, s.Writable)
    (sep : Char) : Spells sep (bracketedLayout segments).rest segments := by
  induction segments with
  | nil => exact .nil
  | cons s segments ih =>
    obtain ⟨hs, hsegments⟩ := List.forall_mem_cons.1 writable
    have hreads : Reads (Text.trim s.content) s := by
      rw [hs.trim_content]
      exact hs.reads_content
    exact .cons hreads (ih hsegments)

theorem parse_render {segments : List Segment} (writable : ∀ s ∈ segments, s.Writable) :
    parse (render segments) = .ok { source := render segments, segments } := by
  refine parse_eq_ok_iff.2 ⟨rfl, bracketedLayout segments,
    wellFormed_bracketedLayout writable, ?_, segments, spells_bracketedLayout writable _, rfl⟩
  rw [text_bracketedLayout, render, String.toList_ofList]

def lookalikes : List Segment :=
  [.field "", .field "0", .field "a=b", .field "'a'", .field " x/y.z ", .index 18446744073709551615,
    .matching "" "", .matching "k'" "\"v =\" "]

theorem parse_render_lookalikes : (∀ s ∈ lookalikes, s.Writable) ∧
    render lookalikes = "[\"\"][\"0\"][\"a=b\"][\"'a'\"][\" x/y.z \"][18446744073709551615]" ++
      "[=\"\"][k'=\"\"v =\" \"]" ∧
    parse (render lookalikes) = .ok { source := render lookalikes, segments := lookalikes } := by
  have writable : ∀ s ∈ lookalikes, s.Writable := by decide
  exact ⟨writable, by decide, parse_render writable⟩

end FieldPath

end Manifest
