import Manifest.Proofs.Decimal.RoundTrip

namespace Manifest.Text

variable {cs ds : List Char} {n : Nat}

theorem exists_cons_of_digits (h : Json.Digits cs) :
    ∃ d ds, cs = d :: ds ∧ d ≠ '-' ∧ d ≠ '+' := by
  obtain ⟨hne, hdigits⟩ := h
  obtain ⟨d, ds, rfl⟩ := List.exists_cons_of_ne_nil hne
  have hd := hdigits d List.mem_cons_self
  refine ⟨d, ds, rfl, ?_, ?_⟩ <;> rintro rfl <;> cases hd

/-- Digits in base ten, perhaps behind a plus sign, and their value. -/
inductive Unsigned : List Char → Nat → Prop
  | digits {ds : List Char} : Json.Digits ds → Unsigned ds (Nat.ofDigitChars 10 ds 0)
  | plus {ds : List Char} : Json.Digits ds → Unsigned ('+' :: ds) (Nat.ofDigitChars 10 ds 0)

theorem unsigned_writeNat (n : Nat) : Unsigned (writeNat n) n := by
  have hvalue : Nat.ofDigitChars 10 (writeNat n) 0 = n := Nat.ofDigitChars_ten_toDigits
  have hunsigned := Unsigned.digits (Json.digits_writeNat n)
  rwa [hvalue] at hunsigned

theorem readDigits_eq_some_iff {value : Nat} : readDigits value ds = some n ↔
    (∀ c ∈ ds, c.isDigit = true) ∧ n = Nat.ofDigitChars 10 ds value := by
  constructor
  · intro h
    have hdigits : ∀ c ∈ ds, c.isDigit = true := by
      induction ds generalizing value with
      | nil => nofun
      | cons c ds ih =>
        rw [readDigits] at h
        obtain ⟨d, hd, h⟩ := Option.bind_eq_some_iff.1 h
        have hc : c.isDigit = true := by rw [← Json.isSome_digit?, hd, Option.isSome_some]
        exact List.forall_mem_cons.2 ⟨hc, ih h⟩
    rw [Decimal.readDigits_eq hdigits] at h
    exact ⟨hdigits, (Option.some.inj h).symm⟩
  · rintro ⟨hdigits, rfl⟩
    exact Decimal.readDigits_eq hdigits value

theorem readNat?_plus (c : Char) (cs : List Char) :
    readNat? ('+' :: c :: cs) = readDigits 0 (c :: cs) := rfl

theorem readNat?_cons {c : Char} (h : c ≠ '+') (cs : List Char) :
    readNat? (c :: cs) = readDigits 0 (c :: cs) := by
  rw [readNat?.eq_def]
  split
  · rename_i hnil
    split at hnil
    · rename_i heq
      exact absurd (List.cons.inj heq).1 h
    · cases hnil
  · rename_i hcons
    split at hcons
    · rename_i heq
      exact absurd (List.cons.inj heq).1 h
    · rw [← hcons]

theorem unsigned_nil : ¬ Unsigned [] n := by
  intro h
  cases h with
  | digits h => exact h.1 rfl

theorem unsigned_plus_iff :
    Unsigned ('+' :: ds) n ↔ Json.Digits ds ∧ n = Nat.ofDigitChars 10 ds 0 := by
  constructor
  · intro h
    cases h with
    | digits h => cases h.2 '+' List.mem_cons_self
    | plus h => exact ⟨h, rfl⟩
  · rintro ⟨h, rfl⟩
    exact .plus h

theorem unsigned_cons_iff {c : Char} (hplus : c ≠ '+') : Unsigned (c :: ds) n ↔
    (∀ d ∈ c :: ds, d.isDigit = true) ∧ n = Nat.ofDigitChars 10 (c :: ds) 0 := by
  constructor
  · intro h
    cases h with
    | digits h => exact ⟨h.2, rfl⟩
    | plus => exact absurd rfl hplus
  · rintro ⟨h, rfl⟩
    exact .digits ⟨List.cons_ne_nil c ds, h⟩

theorem readNat?_eq_some_iff : readNat? cs = some n ↔ Unsigned cs n := by
  cases cs with
  | nil => exact iff_of_false (fun h => by cases h) unsigned_nil
  | cons c cs =>
    by_cases hplus : c = '+'
    · subst hplus
      rw [unsigned_plus_iff]
      cases cs with
      | nil => exact iff_of_false (fun h => by cases h) fun h => h.1.1 rfl
      | cons d ds =>
        rw [readNat?_plus, readDigits_eq_some_iff, Json.Digits,
          and_iff_right (List.cons_ne_nil d ds)]
    · rw [readNat?_cons hplus, readDigits_eq_some_iff, unsigned_cons_iff hplus]

theorem readNat?_writeNat (n : Nat) : readNat? (writeNat n) = some n :=
  readNat?_eq_some_iff.2 (unsigned_writeNat n)

theorem readUInt64?_eq_some_iff : readUInt64? cs = some n ↔ Unsigned cs n ∧ n < Nat.pow 2 64 := by
  rw [readUInt64?, Option.bind_eq_bind, Option.bind_eq_some_iff]
  constructor
  · rintro ⟨k, hk, h⟩
    split at h
    · obtain rfl := Option.some.inj h
      exact ⟨readNat?_eq_some_iff.1 hk, ‹_›⟩
    · cases h
  · rintro ⟨hunsigned, hn⟩
    exact ⟨n, readNat?_eq_some_iff.2 hunsigned, if_pos hn⟩

end Manifest.Text
