import Manifest.Proofs.FieldPath.Slashes
import Manifest.Proofs.Success
import Manifest.Proofs.Text.Quotes
import Manifest.Proofs.Text.Unsigned

/-! A text is a field path when it is plain text with bracketed contents, none of which is blank,
and no brackets in either.  The segments are then read off these parts one by one.  Any other text
has a first place at which a bracket, or the end of the text, cannot stand, and that is its fault.
-/

namespace Manifest

namespace FieldPath

structure Layout where
  first : List Char
  rest : List (List Char × List Char) := []

namespace Layout

/-- The text `t₀[c₁]t₁…[cₙ]tₙ`. -/
def text (l : Layout) : List Char := l.first ++ l.rest.flatMap fun x => '[' :: x.1 ++ ']' :: x.2

def plains (l : Layout) : List (List Char) := l.first :: l.rest.map Prod.snd

def contents (l : Layout) : List (List Char) := l.rest.map Prod.fst

structure WellFormed (l : Layout) : Prop where
  plains : ∀ t ∈ l.plains, BracketFree t
  contents : ∀ c ∈ l.contents, BracketFree c ∧ Text.trim c ≠ []

def separator (l : Layout) : Char := if ∃ t ∈ l.plains, '/' ∈ t then '/' else '.'

end Layout

def keys (sep : Char) (t : List Char) : List Segment :=
  ((t.splitOn sep).filter (· ≠ [])).map fun piece => .field (String.ofList piece)

inductive Reads : List Char → Segment → Prop
  | quoted {cs key : List Char} : Text.Quoted key cs → Reads cs (.field (String.ofList key))
  | index {cs : List Char} {i : Nat} : Text.Unsigned cs i → i < Nat.pow 2 64 → Reads cs (.index i)
  | matching {key value text : List Char} : (∀ inner, ¬ Text.Quoted inner (key ++ '=' :: value)) →
      '=' ∉ key → Text.Unquoted (Text.trim value) text →
      Reads (key ++ '=' :: value) (.matching (String.ofList (Text.trim key)) (String.ofList text))
  | literal {cs : List Char} : (∀ inner, ¬ Text.Quoted inner cs) →
      (∀ i < Nat.pow 2 64, ¬ Text.Unsigned cs i) → '=' ∉ cs → Reads cs (.field (String.ofList cs))

inductive Spells (sep : Char) : List (List Char × List Char) → List Segment → Prop
  | nil : Spells sep [] []
  | cons {c t : List Char} {rest : List (List Char × List Char)} {s : Segment}
      {ss : List Segment} : Reads (Text.trim c) s → Spells sep rest ss →
      Spells sep ((c, t) :: rest) (s :: (keys sep t ++ ss))

def Layout.Spells (l : Layout) (segments : List Segment) : Prop :=
  ∃ ss, FieldPath.Spells l.separator l.rest ss ∧ segments = keys l.separator l.first ++ ss

def Opened (before content : List Char) : Prop :=
  ∃ outer, before = outer ++ '[' :: content ∧ BracketFree content

/-- What is wrong between the text before and the text behind.  An unclosed bracket is wrong at the
end of the text. -/
inductive Fault : List Char → List Char → PathFault → Prop
  | nested {before content behind : List Char} : Opened before content →
      Fault before ('[' :: behind) .nested
  | empty {before content behind : List Char} : Opened before content →
      Text.trim content = [] → Fault before (']' :: behind) .empty
  | stray {before behind : List Char} : (∀ content, ¬ Opened before content) →
      Fault before (']' :: behind) .unbalanced
  | unclosed {before content : List Char} : Opened before content → Fault before [] .unbalanced

def LeftmostFault (cs : List Char) (f : PathFault) : Prop :=
  ∃ before behind, cs = before ++ behind ∧ Fault before behind f ∧
    ∀ before' behind' g, cs = before' ++ behind' → Fault before' behind' g →
      before.length ≤ before'.length

section Content

variable {cs : List Char} {s : Segment}

theorem readUInt64?_eq_none_iff :
    Text.readUInt64? cs = none ↔ ∀ i < Nat.pow 2 64, ¬ Text.Unsigned cs i := by
  rw [Option.eq_none_iff_forall_ne_some]
  refine forall_congr' fun i => ?_
  rw [Ne, Text.readUInt64?_eq_some_iff]
  tauto

theorem readUInt64?_of_mem (h : '=' ∈ cs) : Text.readUInt64? cs = none :=
  readUInt64?_eq_none_iff.2 fun _ _ hunsigned => by
    cases hunsigned with
    | digits hdigits => cases hdigits.2 _ h
    | plus hdigits => cases hdigits.2 _ ((List.mem_cons.1 h).resolve_left (by decide))

theorem unquote?_of_unsigned {i : Nat} (h : Text.Unsigned cs i) : Text.unquote? cs = none :=
  Text.unquote?_eq_none_iff.2 fun _ hquoted => by
    cases h with
    | digits hdigits => cases hquoted <;> cases hdigits.2 _ List.mem_cons_self
    | plus _ => cases hquoted

theorem reads_iff : Reads cs s ↔ contentSegment cs = s := by
  rw [contentSegment]
  constructor
  · intro h
    cases h with
    | quoted hquoted => rw [Text.unquote?_eq_some_iff.2 hquoted]
    | index hunsigned hi =>
      rw [unquote?_of_unsigned hunsigned, Text.readUInt64?_eq_some_iff.2 ⟨hunsigned, hi⟩]
    | matching hbare hkey hvalue =>
      rw [Text.unquote?_eq_none_iff.2 hbare, readUInt64?_of_mem (by simp),
        Text.splitFirst?_append hkey, ← Text.unquoted_iff.1 hvalue]
    | literal hbare hnumber hsplit =>
      rw [Text.unquote?_eq_none_iff.2 hbare, readUInt64?_eq_none_iff.2 hnumber,
        Text.splitFirst?_of_not_mem hsplit]
  · rintro rfl
    cases hquoted : Text.unquote? cs with
    | some key => exact .quoted (Text.unquote?_eq_some_iff.1 hquoted)
    | none =>
      have hbare := Text.unquote?_eq_none_iff.1 hquoted
      cases hnumber : Text.readUInt64? cs with
      | some i =>
        obtain ⟨hunsigned, hi⟩ := Text.readUInt64?_eq_some_iff.1 hnumber
        exact .index hunsigned hi
      | none =>
        cases hsplit : Text.splitFirst? '=' cs with
        | some pair =>
          obtain ⟨hkey, rfl⟩ := Text.splitFirst?_eq_some_iff.1 hsplit
          exact .matching hbare hkey (Text.unquoted_iff.2 rfl)
        | none =>
          exact .literal hbare (readUInt64?_eq_none_iff.1 hnumber)
            (Text.splitFirst?_eq_none_iff.1 hsplit)

end Content

section Scan

variable {cs read scanned content before behind : List Char} {f g : PathFault}

theorem inside_append (read : List Char) {c : List Char} (h : BracketFree c) (cs : List Char) :
    inside read (c ++ cs) = inside (read ++ c) cs := by
  induction c generalizing read with
  | nil => rw [List.nil_append, List.append_nil]
  | cons d c ih =>
    obtain ⟨hd, hc⟩ := List.forall_mem_cons.1 h
    rw [List.cons_append, inside, if_neg hd.1, if_neg hd.2, ih (read ++ [d]) hc,
      List.append_assoc, List.singleton_append]

namespace Layout

def parts (l : Layout) : List Part :=
  .plain l.first :: l.rest.flatMap fun x => [.bracketed x.1, .plain x.2]

theorem text_cons (t : List Char) (x : List Char × List Char)
    (rest : List (List Char × List Char)) :
    text ⟨t, x :: rest⟩ = t ++ '[' :: (x.1 ++ ']' :: text ⟨x.2, rest⟩) := by
  simp [text]

theorem wellFormed_nil {t : List Char} : WellFormed ⟨t, []⟩ ↔ BracketFree t :=
  ⟨fun h => h.plains t List.mem_cons_self, fun h => ⟨List.forall_mem_singleton.2 h, nofun⟩⟩

theorem wellFormed_cons {t : List Char} {x : List Char × List Char}
    {rest : List (List Char × List Char)} :
    WellFormed ⟨t, x :: rest⟩ ↔
      BracketFree t ∧ (BracketFree x.1 ∧ Text.trim x.1 ≠ []) ∧ WellFormed ⟨x.2, rest⟩ := by
  constructor
  · intro h
    obtain ⟨hplain, hplains⟩ := List.forall_mem_cons.1 h.plains
    obtain ⟨hcontent, hcontents⟩ := List.forall_mem_cons.1 h.contents
    exact ⟨hplain, hcontent, hplains, hcontents⟩
  · rintro ⟨hplain, hcontent, hplains, hcontents⟩
    exact ⟨List.forall_mem_cons.2 ⟨hplain, hplains⟩, List.forall_mem_cons.2 ⟨hcontent, hcontents⟩⟩

theorem WellFormed.outside_text {l : Layout} (h : l.WellFormed) :
    outside [] l.text = .ok l.parts := by
  obtain ⟨t, rest⟩ := l
  induction rest generalizing t with
  | nil =>
    have hscan := outside_append [] (wellFormed_nil.1 h) []
    rwa [outside, List.nil_append] at hscan
  | cons x rest ih =>
    obtain ⟨hplain, hcontent, hrest⟩ := wellFormed_cons.1 h
    rw [text_cons, outside_append [] hplain, outside, if_pos rfl, inside_append [] hcontent.1,
      inside, if_neg (by decide), if_pos rfl, List.nil_append, List.nil_append,
      if_neg hcontent.2, ih x.2 hrest]
    rfl

theorem WellFormed.hasSlash_text {l : Layout} (h : l.WellFormed) :
    hasSlash 0 l.text = true ↔ ∃ t ∈ l.plains, '/' ∈ t := by
  obtain ⟨t, rest⟩ := l
  induction rest generalizing t with
  | nil =>
    have hplains : Layout.plains ⟨t, []⟩ = [t] := rfl
    have htext : text ⟨t, []⟩ = t ++ [] := rfl
    rw [htext, hasSlash_append 0 (wellFormed_nil.1 h), hplains]
    simp [hasSlash]
  | cons x rest ih =>
    obtain ⟨hplain, hcontent, hrest⟩ := wellFormed_cons.1 h
    -- A slash in the brackets does not count, and behind them none is open again.
    have hinside : hasSlash 1 (x.1 ++ ']' :: text ⟨x.2, rest⟩) = true ↔
        hasSlash 0 (text ⟨x.2, rest⟩) = true :=
      (hasSlash_append 1 hcontent.1 _).trans (or_iff_right fun h => absurd h.1 Nat.one_ne_zero)
    have hplains : Layout.plains ⟨t, x :: rest⟩ = t :: Layout.plains ⟨x.2, rest⟩ := rfl
    rw [text_cons, hasSlash_append 0 hplain, hasSlash, if_pos rfl, hinside, ih x.2 hrest, hplains,
      List.exists_mem_cons_iff, and_iff_right rfl]

theorem WellFormed.separator_text {l : Layout} (h : l.WellFormed) :
    FieldPath.separator l.text = l.separator :=
  if_congr h.hasSlash_text rfl rfl

end Layout

theorem bracketFree_nil : BracketFree [] := nofun

theorem BracketFree.concat {c : Char} (h : BracketFree cs) (hopen : c ≠ '[') (hclose : c ≠ ']') :
    BracketFree (cs ++ [c]) :=
  List.forall_mem_append.2 ⟨h, List.forall_mem_singleton.2 ⟨hopen, hclose⟩⟩

theorem exists_layout_of_scan (hread : BracketFree read) :
    (∀ parts, outside read cs = .ok parts →
      ∃ l : Layout, l.WellFormed ∧ l.text = read ++ cs ∧ parts = l.parts) ∧
    (∀ parts, inside read cs = .ok parts →
      ∃ c, ∃ l : Layout, (BracketFree c ∧ Text.trim c ≠ []) ∧ l.WellFormed ∧
        c ++ ']' :: l.text = read ++ cs ∧ parts = .bracketed c :: l.parts) := by
  induction cs generalizing read with
  | nil =>
    refine ⟨fun parts h => ?_, nofun⟩
    exact ⟨⟨read, []⟩, Layout.wellFormed_nil.2 hread, rfl, (Except.ok.inj h).symm⟩
  | cons c cs ih =>
    refine ⟨fun parts h => ?_, fun parts h => ?_⟩
    · rw [outside] at h
      split_ifs at h with hopen hclose
      · obtain ⟨behind, hbehind, rfl⟩ := map_eq_ok.1 h
        obtain ⟨content, l, hcontent, hl, htext, rfl⟩ := (ih bracketFree_nil).2 behind hbehind
        refine ⟨⟨read, (content, l.first) :: l.rest⟩,
          Layout.wellFormed_cons.2 ⟨hread, hcontent, hl⟩, ?_, rfl⟩
        rw [Layout.text_cons, htext, hopen, List.nil_append]
      · obtain ⟨l, hl, htext, hparts⟩ := (ih (hread.concat hopen hclose)).1 parts h
        exact ⟨l, hl, by rw [htext, List.append_assoc, List.singleton_append], hparts⟩
    · rw [inside] at h
      split_ifs at h with hopen hclose hblank
      · obtain ⟨behind, hbehind, rfl⟩ := map_eq_ok.1 h
        obtain ⟨l, hl, htext, rfl⟩ := (ih bracketFree_nil).1 behind hbehind
        exact ⟨read, l, ⟨hread, hblank⟩, hl, by rw [htext, hclose, List.nil_append], rfl⟩
      · obtain ⟨content, l, hcontent, hl, htext, hparts⟩ :=
          (ih (hread.concat hopen hclose)).2 parts h
        exact ⟨content, l, hcontent, hl,
          by rw [htext, List.append_assoc, List.singleton_append], hparts⟩

theorem not_opened_nil : ¬ Opened [] content := by
  rintro ⟨outer, h, -⟩
  cases outer <;> cases h

theorem opened_concat {c : Char} : Opened (scanned ++ [c]) content ↔
    c = '[' ∧ content = [] ∨
      c ≠ '[' ∧ c ≠ ']' ∧ ∃ init, content = init ++ [c] ∧ Opened scanned init := by
  constructor
  · rintro ⟨outer, h, hfree⟩
    induction content using List.reverseRecOn with
    | nil => exact .inl ⟨(List.append_inj' h rfl).2 |> List.singleton_inj.1, rfl⟩
    | append_singleton init d _ =>
      rw [← List.cons_append, ← List.append_assoc] at h
      obtain ⟨rfl, hd⟩ := List.append_inj' h rfl
      obtain rfl := List.singleton_inj.1 hd
      obtain ⟨hinit, hc⟩ := List.forall_mem_append.1 hfree
      obtain ⟨hopen, hclose⟩ := hc c List.mem_cons_self
      exact .inr ⟨hopen, hclose, init, rfl, outer, rfl, hinit⟩
  · rintro (⟨rfl, rfl⟩ | ⟨hopen, hclose, init, rfl, outer, rfl, hinit⟩)
    · exact ⟨scanned, rfl, bracketFree_nil⟩
    · exact ⟨outer, by simp, hinit.concat hopen hclose⟩

theorem Opened.unique {content' : List Char} (h : Opened scanned content)
    (h' : Opened scanned content') : content = content' := by
  induction scanned using List.reverseRecOn generalizing content content' with
  | nil => exact absurd h not_opened_nil
  | append_singleton scanned c ih =>
    rcases opened_concat.1 h with ⟨rfl, rfl⟩ | ⟨hopen, -, init, rfl, hinit⟩
    · rcases opened_concat.1 h' with ⟨-, rfl⟩ | ⟨hopen, -⟩
      · rfl
      · exact absurd rfl hopen
    · rcases opened_concat.1 h' with ⟨rfl, -⟩ | ⟨-, -, init', rfl, hinit'⟩
      · exact absurd rfl hopen
      · rw [ih hinit hinit']

theorem Fault.unique (h : Fault before behind f) (h' : Fault before behind g) : f = g := by
  cases h with
  | nested _ => cases h'; rfl
  | unclosed _ => cases h'; rfl
  | empty hopened _ =>
    cases h' with
    | empty _ _ => rfl
    | stray hclosed => exact absurd hopened (hclosed _)
  | stray hclosed =>
    cases h' with
    | empty hopened _ => exact absurd hopened (hclosed _)
    | stray _ => rfl

theorem LeftmostFault.unique (h : LeftmostFault cs f) (h' : LeftmostFault cs g) : f = g := by
  obtain ⟨before, behind, rfl, hfault, hleast⟩ := h
  obtain ⟨before', behind', htext, hfault', hleast'⟩ := h'
  have hlength := Nat.le_antisymm (hleast _ _ g htext hfault') (hleast' _ _ f rfl hfault)
  obtain ⟨rfl, rfl⟩ := List.append_inj htext hlength
  exact hfault.unique hfault'

def Clean (scanned : List Char) : Prop :=
  ∀ rest before behind f, scanned ++ rest = before ++ behind → before.length < scanned.length →
    ¬ Fault before behind f

theorem clean_nil : Clean [] := fun _ _ _ _ _ h => absurd h (Nat.not_lt_zero _)

theorem Clean.concat {c : Char} (h : Clean scanned)
    (hnext : ∀ behind f, ¬ Fault scanned (c :: behind) f) : Clean (scanned ++ [c]) := by
  intro rest before behind f htext hlength hfault
  rw [List.append_assoc, List.singleton_append] at htext
  rw [List.length_append, List.length_singleton, Nat.lt_succ_iff] at hlength
  rcases Nat.lt_or_eq_of_le hlength with hlt | heq
  · exact h (c :: rest) before behind f htext hlt hfault
  · obtain ⟨rfl, rfl⟩ := List.append_inj htext heq.symm
    exact hnext rest f hfault

theorem Clean.leftmostFault (h : Clean scanned) (hfault : Fault scanned cs f) :
    LeftmostFault (scanned ++ cs) f :=
  ⟨scanned, cs, rfl, hfault, fun _ _ _ htext hother =>
    Nat.le_of_not_lt fun hlt => h cs _ _ _ htext hlt hother⟩

def Judges {α : Type} (cs : List Char) : Except PathFault α → Prop
  | .error f => LeftmostFault cs f
  | .ok _ => ∀ before behind f, cs = before ++ behind → ¬ Fault before behind f

theorem judges_map {α β : Type} {r : Except PathFault α} {k : α → β} :
    Judges cs (r.map k) ↔ Judges cs r := by
  cases r <;> exact Iff.rfl

theorem not_fault_of_plain {c : Char} (hopen : c ≠ '[') (hclose : c ≠ ']') :
    ¬ Fault before (c :: behind) f := by
  rintro (_ | _ | _ | _)
  · exact hopen rfl
  · exact hclose rfl
  · exact hclose rfl

/-- The scan knows at every place whether a bracket is open, and with which content. -/
theorem judges_scan (hclean : Clean scanned) :
    ((∀ content, ¬ Opened scanned content) → Judges (scanned ++ cs) (outside read cs)) ∧
      (Opened scanned read → Judges (scanned ++ cs) (inside read cs)) := by
  induction cs generalizing scanned read with
  | nil =>
    refine ⟨fun hclosed => ?_, fun hopened => hclean.leftmostFault (.unclosed hopened)⟩
    intro before behind f htext hfault
    rw [List.append_nil] at htext
    have hlength : scanned.length = before.length + behind.length := by
      rw [htext, List.length_append]
    cases behind with
    | nil =>
      rw [List.append_nil] at htext
      cases hfault with
      | unclosed hopened => exact hclosed _ (htext ▸ hopened)
    | cons c behind =>
      rw [List.length_cons] at hlength
      exact hclean [] before (c :: behind) f (by rw [List.append_nil, htext]) (by omega) hfault
  | cons c cs ih =>
    have htext : scanned ++ c :: cs = scanned ++ [c] ++ cs := by
      rw [List.append_assoc, List.singleton_append]
    refine ⟨fun hclosed => ?_, fun hopened => ?_⟩
    · rw [outside]
      split_ifs with hopen hclose
      · subst hopen
        have hnext : Clean (scanned ++ ['[']) := hclean.concat fun behind f hfault => by
          cases hfault with
          | nested hopened => exact hclosed _ hopened
        rw [judges_map, htext]
        exact (ih hnext).2 (opened_concat.2 (.inl ⟨rfl, rfl⟩))
      · subst hclose
        exact hclean.leftmostFault (.stray hclosed)
      · have hnext : Clean (scanned ++ [c]) :=
          hclean.concat fun _ _ => not_fault_of_plain hopen hclose
        rw [htext]
        refine (ih hnext).1 fun content hopened => ?_
        rcases opened_concat.1 hopened with ⟨hc, -⟩ | ⟨-, -, init, -, hinit⟩
        · exact hopen hc
        · exact hclosed init hinit
    · rw [inside]
      split_ifs with hopen hclose hblank
      · subst hopen
        exact hclean.leftmostFault (.nested hopened)
      · subst hclose
        exact hclean.leftmostFault (.empty hopened hblank)
      · subst hclose
        have hnext : Clean (scanned ++ [']']) := hclean.concat fun behind f hfault => by
          cases hfault with
          | empty hother hempty => exact hblank (hopened.unique hother ▸ hempty)
          | stray hclosed => exact hclosed _ hopened
        rw [judges_map, htext]
        refine (ih hnext).1 fun content hcontent => ?_
        rcases opened_concat.1 hcontent with ⟨hc, -⟩ | ⟨-, hc, -⟩
        · cases hc
        · exact hc rfl
      · have hnext : Clean (scanned ++ [c]) :=
          hclean.concat fun _ _ => not_fault_of_plain hopen hclose
        rw [htext]
        exact (ih hnext).2 (opened_concat.2 (.inr ⟨hopen, hclose, read, rfl, hopened⟩))

theorem judges_outside (cs : List Char) : Judges cs (outside [] cs) :=
  (judges_scan clean_nil).1 fun _ => not_opened_nil

theorem outside_eq_error_iff : outside [] cs = .error f ↔ LeftmostFault cs f := by
  have hjudges := judges_outside cs
  cases h : outside [] cs with
  | error g =>
    rw [h] at hjudges
    rw [Except.error.injEq]
    exact ⟨fun heq => heq ▸ hjudges, hjudges.unique⟩
  | ok parts =>
    rw [h] at hjudges
    refine ⟨nofun, fun ⟨before, behind, htext, hfault, _⟩ => ?_⟩
    exact absurd hfault (hjudges before behind f htext)

theorem outside_eq_ok_iff {parts : List Part} : outside [] cs = .ok parts ↔
    ∃ l : Layout, l.WellFormed ∧ l.text = cs ∧ parts = l.parts := by
  constructor
  · exact (exists_layout_of_scan bracketFree_nil).1 parts
  · rintro ⟨l, hl, rfl, rfl⟩
    exact hl.outside_text

end Scan

theorem plainSegments_eq (sep : Char) (t : List Char) : plainSegments sep t = keys sep t := by
  rw [plainSegments, Text.splitAll_eq_splitOn, keys]

theorem spells_iff {sep : Char} {rest : List (List Char × List Char)} {ss : List Segment} :
    Spells sep rest ss ↔ (rest.flatMap fun x =>
      bracketSegment x.1 :: plainSegments sep x.2) = ss := by
  constructor
  · intro h
    induction h with
    | nil => rfl
    | cons hreads _ ih =>
      rw [List.flatMap_cons, ih, bracketSegment, reads_iff.1 hreads, plainSegments_eq,
        List.cons_append]
  · rintro rfl
    induction rest with
    | nil => exact .nil
    | cons x rest ih =>
      rw [List.flatMap_cons, List.cons_append, plainSegments_eq]
      exact .cons (reads_iff.2 rfl) ih

namespace Layout

theorem segments_parts (l : Layout) (sep : Char) : l.parts.flatMap (Part.segments sep) =
    plainSegments sep l.first ++ l.rest.flatMap fun x =>
      bracketSegment x.1 :: plainSegments sep x.2 := by
  simp only [parts, List.flatMap_cons, List.flatMap_assoc, List.flatMap_nil, List.append_nil,
    Part.segments, List.singleton_append]

theorem spells_iff {l : Layout} {segments : List Segment} : l.Spells segments ↔
    l.parts.flatMap (Part.segments l.separator) = segments := by
  rw [segments_parts, plainSegments_eq]
  constructor
  · rintro ⟨ss, hss, rfl⟩
    rw [FieldPath.spells_iff.1 hss]
  · rintro rfl
    exact ⟨_, FieldPath.spells_iff.2 rfl, rfl⟩

end Layout

theorem parse_eq_ok_iff {source : String} {p : FieldPath} : parse source = .ok p ↔
    p.source = source ∧ ∃ l : Layout, l.WellFormed ∧ l.text = source.toList ∧
      l.Spells p.segments := by
  rw [parse, map_eq_ok]
  constructor
  · rintro ⟨parts, hparts, rfl⟩
    obtain ⟨l, hl, htext, rfl⟩ := outside_eq_ok_iff.1 hparts
    rw [← htext, hl.separator_text]
    exact ⟨rfl, l, hl, rfl, Layout.spells_iff.2 rfl⟩
  · rintro ⟨rfl, l, hl, htext, hspells⟩
    refine ⟨l.parts, outside_eq_ok_iff.2 ⟨l, hl, htext, rfl⟩, ?_⟩
    rw [← htext, hl.separator_text, Layout.spells_iff.1 hspells]

theorem parse_grammar (source : String) :
    (∀ p, parse source = .ok p ↔ p.source = source ∧ ∃ l : Layout, l.WellFormed ∧
      l.text = source.toList ∧ l.Spells p.segments) ∧
    ∀ f, parse source = .error f ↔ LeftmostFault source.toList f := by
  refine ⟨fun p => parse_eq_ok_iff, fun f => ?_⟩
  rw [← outside_eq_error_iff, parse]
  cases outside [] source.toList with
  | error g => rw [Except.map, Except.error.injEq, Except.error.injEq]
  | ok parts => exact iff_of_false (fun h => by cases h) fun h => by cases h

end FieldPath

end Manifest
