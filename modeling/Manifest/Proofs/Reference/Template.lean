import Manifest.Proofs.Reference.Variable

namespace Manifest.Reference

variable {vars : Variables}

def escape (text : List Char) : List Char :=
  text.flatMap fun c => if c = '$' then ['$', '$'] else [c]

def reference (name : String) : List Char := '$' :: '(' :: (name.toList ++ [')'])

inductive Part where
  | literal (text : List Char)
  | value (name : String)

namespace Part

def written : Part → List Char
  | .literal text => escape text
  | .value name => reference name

def meaning (vars : Variables) : Part → List Char
  | .literal text => text
  | .value name => ((Entries.find? name vars).map String.toList).getD (reference name)

def Expands (vars : Variables) : Part → Prop
  | .literal text => '$' ∈ text
  | .value name => (Entries.find? name vars).isSome

instance (vars : Variables) : DecidablePred (Expands vars)
  | .literal text => inferInstanceAs (Decidable ('$' ∈ text))
  | .value name => inferInstanceAs (Decidable ((Entries.find? name vars).isSome))

def WellNamed : Part → Prop
  | .literal _ => True
  | .value name => ')' ∉ name.toList

end Part

theorem expandFrom_escape (vars : Variables) (text cs : List Char) :
    expandFrom vars 0 0 (escape text ++ cs) =
      (text ++ (expandFrom vars 0 0 cs).1, decide ('$' ∈ text) || (expandFrom vars 0 0 cs).2) := by
  induction text with
  | nil => rfl
  | cons c text ih =>
    rw [escape, List.flatMap_cons, List.append_assoc, ← escape]
    by_cases hc : c = '$'
    · subst hc
      rw [if_pos rfl, List.cons_append, List.singleton_append, expandFrom_escaped, ih]
      simp
    · have hplain : '$' ∉ [c] := mt List.mem_singleton.1 (Ne.symm hc)
      rw [if_neg hc, expandFrom_plain hplain, ih]
      simp [Ne.symm hc]

theorem expandFrom_reference {name : String} (hname : ')' ∉ name.toList) (cs : List Char) :
    expandFrom vars 0 0 (reference name ++ cs) =
      (((Entries.find? name vars).map String.toList).getD (reference name) ++
          (expandFrom vars 0 0 cs).1,
        (Entries.find? name vars).isSome || (expandFrom vars 0 0 cs).2) := by
  have htext : reference name ++ cs = '$' :: '(' :: (name.toList ++ ')' :: cs) := by
    simp [reference]
  rw [htext]
  cases hvalue : Entries.find? name vars with
  | none =>
    rw [expandFrom_unknown hname hvalue]
    simp [reference]
  | some value =>
    rw [expandFrom_known hname hvalue]
    simp

theorem expandFrom_written {part : Part} (h : part.WellNamed) (cs : List Char) :
    expandFrom vars 0 0 (part.written ++ cs) =
      (part.meaning vars ++ (expandFrom vars 0 0 cs).1,
        decide (part.Expands vars) || (expandFrom vars 0 0 cs).2) := by
  cases part with
  | literal text => exact expandFrom_escape vars text cs
  | value name =>
    have hexpands : decide ((Part.value name).Expands vars) =
        (Entries.find? name vars).isSome := Bool.decide_eq_true
    rw [Part.written, expandFrom_reference h, hexpands]
    rfl

theorem expandFrom_template {parts : List Part} (h : ∀ part ∈ parts, part.WellNamed) :
    expandFrom vars 0 0 (parts.flatMap Part.written) =
      (parts.flatMap (Part.meaning vars), decide (∃ part ∈ parts, part.Expands vars)) := by
  induction parts with
  | nil => rfl
  | cons part parts ih =>
    rw [List.forall_mem_cons] at h
    rw [List.flatMap_cons, expandFrom_written h.1, ih h.2, List.flatMap_cons,
      ← Bool.decide_or]
    simp only [List.exists_mem_cons_iff]

theorem expand?_template (vars : Variables) {parts : List Part}
    (h : ∀ part ∈ parts, part.WellNamed) :
    expand? vars (parts.flatMap Part.written) =
      if ∃ part ∈ parts, part.Expands vars then some (parts.flatMap (Part.meaning vars))
      else none := by
  rw [expand?, expandFrom_template h]
  simp only [decide_eq_true_eq]

/-- A text whose dollar signs are doubled is given back by an expansion, also around a reference:
the value stands between the two texts as it is, and an unknown name stays a reference.  Nothing
comes of a text without dollar signs. -/
theorem expand?_escape (vars : Variables) :
    (∀ text, expand? vars (escape text) = if '$' ∈ text then some text else none) ∧
      ∀ name : String, ')' ∉ name.toList → ∀ pre post,
        expand? vars (escape pre ++ reference name ++ escape post) =
          match Entries.find? name vars with
          | some value => some (pre ++ value.toList ++ post)
          | none =>
            if '$' ∈ pre ∨ '$' ∈ post then some (pre ++ reference name ++ post) else none := by
  refine ⟨fun text => ?_, fun name hname pre post => ?_⟩
  · have hparts : ∀ part ∈ [Part.literal text], part.WellNamed := by simp [Part.WellNamed]
    have h := expand?_template vars hparts
    simpa [Part.written, Part.meaning, Part.Expands] using h
  · have hparts : ∀ part ∈ [Part.literal pre, .value name, .literal post], part.WellNamed := by
      simpa [Part.WellNamed]
    have h := expand?_template vars hparts
    cases hvalue : Entries.find? name vars with
    | none => simpa [Part.written, Part.meaning, Part.Expands, hvalue] using h
    | some value => simpa [Part.written, Part.meaning, Part.Expands, hvalue] using h

theorem expand?_escape_nested :
    ')' ∉ "A".toList ∧
      expand? [("A", "$(B)$$"), ("B", "b")]
          (escape "$(A) 5$".toList ++ reference "A" ++ escape "$(B)".toList) =
        some "$(A) 5$$(B)$$$(B)".toList ∧
      expand? [("B", "b")] (escape "5".toList ++ reference "A" ++ escape ")".toList) = none := by
  have hname : ')' ∉ "A".toList := by decide
  refine ⟨hname, ?_, ?_⟩
  · rw [(expand?_escape _).2 "A" hname]
    decide
  · rw [(expand?_escape _).2 "A" hname]
    decide

end Manifest.Reference
