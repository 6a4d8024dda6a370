import Mathlib.Data.List.TakeWhile
import Manifest.Json.Reader
import Manifest.Json.Writer

namespace Manifest

namespace Tree

mutual

def DecimalFree : Tree → Prop
  | .decimal _ => False
  | .list items => DecimalFreeItems items
  | .map es => DecimalFreeEntries es
  | _ => True

def DecimalFreeItems : List Tree → Prop
  | [] => True
  | t :: ts => DecimalFree t ∧ DecimalFreeItems ts

def DecimalFreeEntries : List (String × Tree) → Prop
  | [] => True
  | (_, t) :: es => DecimalFree t ∧ DecimalFreeEntries es

end

end Tree

namespace Json

open Tree

theorem hexNumber?_control : ∀ n < 0x20,
    Text.hexNumber? ['0', '0', Nat.digitChar (n / 16), Nat.digitChar (n % 16)] = some n := by
  decide

theorem readStringBody_escape (c : Char) (rest : List Char) :
    readStringBody (escape c ++ rest) = withChar c (readStringBody rest) := by
  rw [escape]
  split_ifs with hquote hslash hn hr ht hb hf hcontrol
  · rw [hquote, readStringBody.eq_def]; rfl
  · rw [hslash, readStringBody.eq_def]; rfl
  · rw [hn, readStringBody.eq_def]; rfl
  · rw [hr, readStringBody.eq_def]; rfl
  · rw [ht, readStringBody.eq_def]; rfl
  · rw [hb, readStringBody.eq_def]; rfl
  · rw [hf, readStringBody.eq_def]; rfl
  · have hlow : ¬ (0xD800 ≤ c.toNat ∧ c.toNat < 0xDC00) := by omega
    have hhigh : ¬ (0xDC00 ≤ c.toNat ∧ c.toNat < 0xE000) := by omega
    rw [readStringBody.eq_def]
    simp [hexNumber?_control _ hcontrol, hlow, hhigh, Char.ofNat_toNat]
  · rw [List.singleton_append, readStringBody.eq_def]
    simp only [if_neg hquote, if_neg hslash, if_neg hcontrol]

theorem readStringBody_flatMap (cs rest : List Char) :
    readStringBody (cs.flatMap escape ++ '"' :: rest) = some (cs, rest) := by
  induction cs with
  | nil => rw [List.flatMap_nil, List.nil_append, readStringBody.eq_def]; rfl
  | cons c cs ih =>
    rw [List.flatMap_cons, List.append_assoc, readStringBody_escape, ih]
    rfl

theorem readString?_writeString (s : String) (rest : List Char) :
    readString? (writeString s ++ rest) = some (s, rest) := by
  rw [writeString, List.cons_append, List.append_assoc, readString?, List.singleton_append,
    readStringBody_flatMap]
  simp

theorem writeString_append_inj {s s' : String} {r r' : List Char}
    (h : writeString s ++ r = writeString s' ++ r') : s = s' ∧ r = r' := by
  have hread := congrArg readString? h
  rw [readString?_writeString, readString?_writeString] at hread
  exact Prod.mk.inj (Option.some.inj hread)

def NoDigit (cs : List Char) : Prop := ∀ c ∈ cs.head?, c.isDigit = false

theorem takeWhile_writeNat (n : Nat) {r : List Char} (hr : NoDigit r) :
    (Text.writeNat n ++ r).takeWhile Char.isDigit = Text.writeNat n := by
  have hdigits : ∀ c ∈ Text.writeNat n, c.isDigit = true := fun c hc =>
    Nat.isDigit_of_mem_toDigits (by decide) (by decide) hc
  have hrest : r.takeWhile Char.isDigit = [] := by
    cases r with
    | nil => rfl
    | cons c r => rw [List.takeWhile_cons, hr c rfl]; rfl
  rw [List.takeWhile_append_of_pos hdigits, hrest, List.append_nil]

theorem writeNat_append_inj {n n' : Nat} {r r' : List Char} (hr : NoDigit r) (hr' : NoDigit r')
    (h : Text.writeNat n ++ r = Text.writeNat n' ++ r') : n = n' ∧ r = r' := by
  have hdigits := congrArg (List.takeWhile Char.isDigit) h
  rw [takeWhile_writeNat n hr, takeWhile_writeNat n' hr'] at hdigits
  refine ⟨?_, List.append_cancel_left (hdigits ▸ h)⟩
  rw [← Nat.ofDigitChars_ten_toDigits (n := n), ← Nat.ofDigitChars_ten_toDigits (n := n')]
  exact congrArg (Nat.ofDigitChars 10 · 0) hdigits

theorem exists_writeNat_eq_cons (n : Nat) :
    ∃ c cs, Text.writeNat n = c :: cs ∧ c.isDigit = true := by
  obtain ⟨c, cs, h⟩ := List.exists_cons_of_ne_nil (Nat.toDigits_ne_nil (n := n) (b := 10))
  exact ⟨c, cs, h, Nat.isDigit_of_mem_toDigits (by decide) (by decide) (h ▸ List.mem_cons_self)⟩

theorem writeInt_append_inj {n n' : Int} {r r' : List Char} (hr : NoDigit r) (hr' : NoDigit r')
    (h : Text.writeInt n ++ r = Text.writeInt n' ++ r') : n = n' ∧ r = r' := by
  have hsign : ∀ (k : Nat) (cs cs' : List Char), '-' :: cs ≠ Text.writeNat k ++ cs' := by
    intro k cs cs' heq
    obtain ⟨c, ds, hk, hc⟩ := exists_writeNat_eq_cons k
    rw [hk, List.cons_append, List.cons.injEq] at heq
    obtain ⟨rfl, -⟩ := heq
    exact absurd hc (by decide)
  rw [Text.writeInt, Text.writeInt] at h
  split at h <;> split at h
  · obtain ⟨hn, hrest⟩ := writeNat_append_inj hr hr' (List.cons.inj h).2
    exact ⟨by omega, hrest⟩
  · exact absurd h (hsign _ _ _)
  · exact absurd h.symm (hsign _ _ _)
  · obtain ⟨hn, hrest⟩ := writeNat_append_inj hr hr' h
    exact ⟨by omega, hrest⟩

def opens? (c : Char) : Option String :=
  if c = '"' then some "string"
  else if c = '[' then some "array"
  else if c = '{' then some "object"
  else if c = 'n' then some "null"
  else if c = 't' ∨ c = 'f' then some "boolean"
  else if c = '-' ∨ c.isDigit then some "integer"
  else none

theorem opens?_of_isDigit {c : Char} (h : c.isDigit = true) : opens? c = some "integer" := by
  have hne : ∀ c' : Char, c'.isDigit = false → c ≠ c' := fun c' hc' heq => by
    rw [heq, hc'] at h
    cases h
  rw [opens?, if_neg (hne _ (by decide)), if_neg (hne _ (by decide)), if_neg (hne _ (by decide)),
    if_neg (hne _ (by decide)), if_neg (not_or.2 ⟨hne _ (by decide), hne _ (by decide)⟩),
    if_pos (.inr h)]

theorem exists_write_eq_cons {t : Tree} (free : t.DecimalFree) :
    ∃ c cs, write t = c :: cs ∧ opens? c = some t.shape := by
  cases t with
  | decimal d => exact free.elim
  | boolean b => cases b <;> exact ⟨_, _, rfl, rfl⟩
  | integer n =>
    obtain ⟨c, cs, h, hc⟩ := exists_writeNat_eq_cons n.toInt.natAbs
    have hwrite : write (.integer n) = Text.writeInt n.toInt := by simp [write, writeScalar]
    rw [hwrite, Text.writeInt, h]
    split
    · exact ⟨_, _, rfl, rfl⟩
    · exact ⟨_, _, rfl, opens?_of_isDigit hc⟩
  | _ => exact ⟨_, _, rfl, rfl⟩

theorem shape_eq_of_write {t u : Tree} (ht : t.DecimalFree) (hu : u.DecimalFree) {r s : List Char}
    (h : write t ++ r = write u ++ s) : t.shape = u.shape := by
  obtain ⟨c, cs, htc, hc⟩ := exists_write_eq_cons ht
  obtain ⟨c', cs', huc, hc'⟩ := exists_write_eq_cons hu
  rw [htc, huc] at h
  obtain rfl := (List.cons.inj h).1
  exact Option.some.inj (hc.symm.trans hc')

theorem not_startsWith_write {c : Char} (hc : opens? c = none) {u : Tree} (hu : u.DecimalFree)
    (r s : List Char) : c :: r ≠ write u ++ s := by
  intro h
  obtain ⟨c', cs, huc, hc'⟩ := exists_write_eq_cons hu
  rw [huc] at h
  obtain rfl := (List.cons.inj h).1
  cases hc.symm.trans hc'

theorem noDigit_writeMoreItems (ts : List Tree) (r : List Char) :
    NoDigit (writeMoreItems ts ++ ']' :: r) := by
  cases ts <;> (rintro _ ⟨⟩; rfl)

theorem noDigit_writeMoreEntries (es : Entries Tree) (r : List Char) :
    NoDigit (writeMoreEntries es ++ '}' :: r) := by
  cases es <;> (rintro _ ⟨⟩; rfl)

theorem writeMoreItems_eq_of_writeItems {ts us : List Tree} (hts : DecimalFreeItems ts)
    (hus : DecimalFreeItems us) {r s : List Char}
    (h : writeItems ts ++ ']' :: r = writeItems us ++ ']' :: s) :
    writeMoreItems ts ++ ']' :: r = writeMoreItems us ++ ']' :: s := by
  cases ts with
  | nil =>
    cases us with
    | nil => exact h
    | cons u us =>
      rw [writeItems, writeItems, List.append_assoc] at h
      exact absurd h (not_startsWith_write (by decide) hus.1 _ _)
  | cons t ts =>
    cases us with
    | nil =>
      rw [writeItems, writeItems, List.append_assoc] at h
      exact absurd h.symm (not_startsWith_write (by decide) hts.1 _ _)
    | cons u us => exact congrArg (',' :: ·) h

theorem writeMoreEntries_eq_of_writeEntries {es fs : Entries Tree} {r s : List Char}
    (h : writeEntries es ++ '}' :: r = writeEntries fs ++ '}' :: s) :
    writeMoreEntries es ++ '}' :: r = writeMoreEntries fs ++ '}' :: s := by
  cases es with
  | nil =>
    cases fs with
    | nil => exact h
    | cons f fs => cases h
  | cons e es =>
    cases fs with
    | nil => cases h
    | cons f fs => exact congrArg (',' :: ·) h

mutual

theorem write_append_inj : (t u : Tree) → t.DecimalFree → u.DecimalFree → {r s : List Char} →
    NoDigit r → NoDigit s → write t ++ r = write u ++ s → t = u ∧ r = s
  | .list items, u, ht, hu, r, s, hr, hs, h => by
    have hshape := shape_eq_of_write ht hu h
    cases u with
    | list items' =>
      rw [write, write, List.cons_append, List.cons_append, List.append_assoc, List.append_assoc]
        at h
      obtain ⟨rfl, hrest⟩ := writeMoreItems_append_inj items items' ht hu
        (writeMoreItems_eq_of_writeItems ht hu (List.cons.inj h).2)
      exact ⟨rfl, hrest⟩
    | _ => simp [shape] at hshape
  | .map es, u, ht, hu, r, s, hr, hs, h => by
    have hshape := shape_eq_of_write ht hu h
    cases u with
    | map fs =>
      rw [write, write, List.cons_append, List.cons_append, List.append_assoc, List.append_assoc]
        at h
      obtain ⟨rfl, hrest⟩ := writeMoreEntries_append_inj es fs ht hu
        (writeMoreEntries_eq_of_writeEntries (List.cons.inj h).2)
      exact ⟨rfl, hrest⟩
    | _ => simp [shape] at hshape
  | .text a, u, ht, hu, r, s, hr, hs, h => by
    have hshape := shape_eq_of_write ht hu h
    cases u with
    | text b =>
      obtain ⟨rfl, hrest⟩ := writeString_append_inj h
      exact ⟨rfl, hrest⟩
    | _ => simp [shape] at hshape
  | .integer m, u, ht, hu, r, s, hr, hs, h => by
    have hshape := shape_eq_of_write ht hu h
    cases u with
    | integer n =>
      obtain ⟨hint, hrest⟩ := writeInt_append_inj hr hs h
      exact ⟨congrArg integer (Int64.toInt_inj.1 hint), hrest⟩
    | _ => simp [shape] at hshape
  | .boolean a, u, ht, hu, r, s, hr, hs, h => by
    have hshape := shape_eq_of_write ht hu h
    cases u with
    | boolean b => cases a <;> cases b <;> simp_all [write, writeScalar]
    | _ => simp [shape] at hshape
  | .null, u, ht, hu, r, s, hr, hs, h => by
    have hshape := shape_eq_of_write ht hu h
    cases u with
    | null => exact ⟨rfl, List.append_cancel_left h⟩
    | _ => simp [shape] at hshape
  | .decimal _, u, ht, hu, r, s, hr, hs, h => ht.elim

theorem writeMoreItems_append_inj : (ts us : List Tree) → DecimalFreeItems ts →
    DecimalFreeItems us → {r s : List Char} →
    writeMoreItems ts ++ ']' :: r = writeMoreItems us ++ ']' :: s → ts = us ∧ r = s
  | [], [], _, _, r, s, h => ⟨rfl, (List.cons.inj h).2⟩
  | [], _ :: _, _, _, r, s, h | _ :: _, [], _, _, r, s, h => by cases h
  | t :: ts, u :: us, ht, hu, r, s, h => by
    rw [writeMoreItems, writeMoreItems, List.cons_append, List.cons_append, List.append_assoc,
      List.append_assoc] at h
    obtain ⟨rfl, hmore⟩ := write_append_inj t u ht.1 hu.1 (noDigit_writeMoreItems ts r)
      (noDigit_writeMoreItems us s) (List.cons.inj h).2
    obtain ⟨rfl, hrest⟩ := writeMoreItems_append_inj ts us ht.2 hu.2 hmore
    exact ⟨rfl, hrest⟩

theorem writeMoreEntries_append_inj : (es fs : List (String × Tree)) → DecimalFreeEntries es →
    DecimalFreeEntries fs → {r s : List Char} →
    writeMoreEntries es ++ '}' :: r = writeMoreEntries fs ++ '}' :: s → es = fs ∧ r = s
  | [], [], _, _, r, s, h => ⟨rfl, (List.cons.inj h).2⟩
  | [], _ :: _, _, _, r, s, h | _ :: _, [], _, _, r, s, h => by cases h
  | (k, t) :: es, (l, u) :: fs, he, hf, r, s, h => by
    simp only [writeMoreEntries, List.cons_append, List.append_assoc] at h
    obtain ⟨rfl, hvalue⟩ := writeString_append_inj (List.cons.inj h).2
    obtain ⟨rfl, hmore⟩ := write_append_inj t u he.1 hf.1 (noDigit_writeMoreEntries es r)
      (noDigit_writeMoreEntries fs s) (List.cons.inj hvalue).2
    obtain ⟨rfl, hrest⟩ := writeMoreEntries_append_inj es fs he.2 hf.2 hmore
    exact ⟨rfl, hrest⟩

end

theorem write_inj {t u : Tree} (ht : t.DecimalFree) (hu : u.DecimalFree)
    (h : write t = write u) : t = u :=
  (write_append_inj t u ht hu (r := []) (s := []) nofun nofun (congrArg (· ++ []) h)).1

end Json

end Manifest
