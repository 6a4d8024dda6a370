import Mathlib.Data.List.TakeDrop
import Manifest.Proofs.Json.Unambiguous

namespace Manifest

namespace Json

def Delimited (rest : List Char) : Prop := ∀ c ∈ rest.head?, c = ',' ∨ c = ']' ∨ c = '}'

theorem delimited_nil : Delimited [] := nofun

theorem Delimited.noDigit {rest : List Char} (h : Delimited rest) : NoDigit rest := by
  intro c hc
  rcases h c hc with rfl | rfl | rfl <;> decide

theorem isSome_digit? (c : Char) : (Text.digit? c).isSome = c.isDigit := by
  rw [Bool.eq_iff_iff, Text.digit?, Char.isDigit, Bool.and_eq_true, decide_eq_true_iff,
    decide_eq_true_iff]
  split <;> simp_all [Char.le_def]

theorem digit?_eq_some {c : Char} (h : c.isDigit = true) :
    Text.digit? c = some (c.toNat - '0'.toNat) := by
  rw [← isSome_digit?, Text.digit?] at h
  rw [Text.digit?]
  split at h
  · rename_i hc
    rw [if_pos hc]
  · cases h

def Digits (cs : List Char) : Prop := cs ≠ [] ∧ ∀ c ∈ cs, c.isDigit = true

theorem digits_writeNat (n : Nat) : Digits (Text.writeNat n) :=
  ⟨Nat.toDigits_ne_nil, fun _ hc => Nat.isDigit_of_mem_toDigits (by decide) (by decide) hc⟩

theorem Digits.append {cs ds : List Char} (hcs : Digits cs) (hds : ∀ c ∈ ds, c.isDigit = true) :
    Digits (cs ++ ds) :=
  ⟨List.append_ne_nil_of_left_ne_nil hcs.1 ds,
    fun c hc => (List.mem_append.1 hc).elim (hcs.2 c) (hds c)⟩

theorem spanDigits_append {ds rest : List Char} (h : ∀ c ∈ ds, c.isDigit = true)
    (hrest : NoDigit rest) : Decimal.spanDigits (ds ++ rest) = (ds, rest) := by
  have hend : rest.takeWhile Char.isDigit = [] ∧ rest.dropWhile Char.isDigit = rest := by
    cases rest with
    | nil => exact ⟨rfl, rfl⟩
    | cons c cs =>
      have hc := hrest c rfl
      exact ⟨List.takeWhile_cons_of_neg (by simp [hc]), List.dropWhile_cons_of_neg (by simp [hc])⟩
  have hspan : Decimal.spanDigits (ds ++ rest) = (ds ++ rest).span Char.isDigit :=
    congrArg (List.span · (ds ++ rest)) (funext isSome_digit?)
  rw [hspan, List.span_eq_takeWhile_dropWhile, List.takeWhile_append_of_pos h,
    List.dropWhile_append_of_pos h, hend.1, hend.2, List.append_nil]

inductive PartText : List Char → Prop
  | absent : PartText []
  | digits {ds : List Char} : Digits ds → PartText ('.' :: ds)

inductive ExponentText : List Char → Prop
  | absent : ExponentText []
  | minus {ds : List Char} : Digits ds → ExponentText ('e' :: '-' :: ds)
  | plus {ds : List Char} : Digits ds → ExponentText ('e' :: '+' :: ds)

inductive SignText : List Char → Prop
  | absent : SignText []
  | minus : SignText ['-']

inductive NumberText : List Char → Prop
  | mk {sign whole part exponent : List Char} : SignText sign → Digits whole → PartText part →
      ExponentText exponent → NumberText (sign ++ (whole ++ (part ++ exponent)))

theorem ExponentText.read {cs : List Char} (h : ExponentText cs) :
    ∃ e, ∀ {rest}, Delimited rest → readExponent? (cs ++ rest) = some (e, rest) := by
  cases h with
  | absent =>
    refine ⟨none, fun {rest} hrest => ?_⟩
    cases rest with
    | nil => rfl
    | cons c cs =>
      have hc : ¬ (c = 'e' ∨ c = 'E') := by
        rcases hrest c rfl with rfl | rfl | rfl <;> decide
      rw [List.nil_append, readExponent?.eq_def]
      exact if_neg hc
  | @minus ds hds =>
    refine ⟨some (-(Decimal.digitsValue ds)), fun {rest} hrest => ?_⟩
    rw [List.cons_append, List.cons_append, readExponent?]
    · simp [spanDigits_append hds.2 hrest.noDigit, hds.1]
  | @plus ds hds =>
    refine ⟨some (Decimal.digitsValue ds), fun {rest} hrest => ?_⟩
    rw [List.cons_append, List.cons_append, readExponent?]
    · simp [spanDigits_append hds.2 hrest.noDigit, hds.1]

theorem ExponentText.head?_ne {cs rest : List Char} (h : ExponentText cs) (hrest : Delimited rest) :
    ∀ c ∈ (cs ++ rest).head?, c.isDigit = false ∧ c ≠ '.' := by
  cases h with
  | absent =>
    intro c hc
    rcases hrest c hc with rfl | rfl | rfl <;> decide
  | minus _ | plus _ =>
    rintro _ ⟨⟩
    decide

def readPart? : List Char → Option (List Char × List Char)
  | '.' :: cs =>
    let (ds, rest) := Decimal.spanDigits cs
    if ds = [] then none else some (ds, rest)
  | cs => some ([], cs)

def readUnsigned? (negative : Bool) (cs : List Char) : Option (Tree × List Char) := do
  let (whole, rest) := Decimal.spanDigits cs
  if whole = [] ∨ (whole.head? = some '0' ∧ whole.length ≠ 1) then none
  else
    let (part, rest) ← readPart? rest
    let (exponent, rest) ← readExponent? rest
    let n ← number? negative whole part exponent
    some (n, rest)

theorem readNumber?_eq {cs : List Char} {negative : Bool} {body : List Char}
    (h : (match cs with
      | '-' :: r => (true, r)
      | r => (false, r)) = (negative, body)) :
    readNumber? cs = readUnsigned? negative body := by
  rw [readNumber?.eq_def, readUnsigned?]
  split
  rename_i hcs
  obtain ⟨rfl, rfl⟩ := Prod.mk.inj (hcs.symm.trans h)
  dsimp only
  split
  · rfl
  · split
    · rename_i hpoint
      rw [hpoint, readPart?]
      dsimp only
      split <;> rfl
    · rename_i hpoint
      rw [readPart?]
      exact hpoint

theorem readNumber?_minus (cs : List Char) :
    readNumber? ('-' :: cs) = readUnsigned? true cs := readNumber?_eq rfl

theorem readNumber?_of_head?_ne {cs : List Char} (h : ∀ ds, cs ≠ '-' :: ds) :
    readNumber? cs = readUnsigned? false cs := by
  refine readNumber?_eq ?_
  split
  · exact absurd rfl (h _)
  · rfl

theorem PartText.read {cs : List Char} (h : PartText cs) :
    ∃ ds, ∀ {rest}, NoDigit rest → (∀ c ∈ rest.head?, c ≠ '.') →
      readPart? (cs ++ rest) = some (ds, rest) := by
  cases h with
  | absent =>
    refine ⟨[], fun {rest} _ hpoint => ?_⟩
    rw [List.nil_append, readPart?]
    rintro cs rfl
    exact hpoint '.' rfl rfl
  | @digits ds hds =>
    refine ⟨ds, fun {rest} hrest _ => ?_⟩
    rw [List.cons_append, readPart?, spanDigits_append hds.2 hrest]
    exact if_neg hds.1

theorem NumberText.read {cs : List Char} (h : NumberText cs) :
    ∃ r : Option Tree, ∀ {rest}, Delimited rest →
      readNumber? (cs ++ rest) = r.map fun t => (t, rest) := by
  obtain @⟨sign, whole, part, exponent, hsign, hwhole, hpart, hexponent⟩ := h
  obtain ⟨ds, hds⟩ := hpart.read
  obtain ⟨e, he⟩ := hexponent.read
  have hunsigned : ∀ negative {rest}, Delimited rest →
      readUnsigned? negative (whole ++ (part ++ exponent) ++ rest) =
        (if whole = [] ∨ (whole.head? = some '0' ∧ whole.length ≠ 1) then none
          else number? negative whole ds e).map fun t => (t, rest) := by
    intro negative rest hrest
    have hhead := hexponent.head?_ne hrest
    have hnoDigit : NoDigit (part ++ (exponent ++ rest)) := by
      cases hpart with
      | absent => exact fun c hc => (hhead c hc).1
      | digits _ => rintro _ ⟨⟩; rfl
    rw [List.append_assoc, List.append_assoc, readUnsigned?, spanDigits_append hwhole.2 hnoDigit]
    dsimp only
    split
    · rfl
    · rw [hds (fun c hc => (hhead c hc).1) fun c hc => (hhead c hc).2]
      simp only [Option.bind_eq_bind, Option.bind_some, he hrest]
      cases number? negative whole ds e <;> rfl
  cases hsign with
  | absent =>
    refine ⟨_, fun {rest} hrest => (readNumber?_of_head?_ne ?_).trans (hunsigned false hrest)⟩
    obtain ⟨c, cs, rfl⟩ := List.exists_cons_of_ne_nil hwhole.1
    rintro ds ⟨⟩
    exact absurd (hwhole.2 _ List.mem_cons_self) (by decide)
  | minus => exact ⟨_, fun {rest} hrest => (readNumber?_minus _).trans (hunsigned true hrest)⟩

theorem readNumber?_append {cs rest : List Char} (h : NumberText cs) (hrest : Delimited rest) :
    readNumber? (cs ++ rest) = (readNumber? cs).map fun p => (p.1, rest) := by
  obtain ⟨r, hr⟩ := h.read
  have hnil := hr delimited_nil
  rw [List.append_nil] at hnil
  rw [hr hrest, hnil, Option.map_map]
  rfl

theorem digits_replicate_zero (n : Nat) : ∀ c ∈ List.replicate n '0', c.isDigit = true := by
  intro c hc
  rw [List.eq_of_mem_replicate hc]
  rfl

theorem numberText_writePositional {sign digits : List Char} (hsign : SignText sign)
    (hdigits : Digits digits) (exponent : Int) :
    NumberText (sign ++ decimalStyle.writePositional digits exponent) := by
  rw [Decimal.Style.writePositional]
  dsimp only
  split
  · have hpart : PartText ".0".toList :=
      .digits ⟨List.cons_ne_nil _ _, List.forall_mem_singleton.2 rfl⟩
    have hwhole := hdigits.append (digits_replicate_zero exponent.toNat)
    have := NumberText.mk hsign hwhole hpart .absent
    rwa [List.append_nil] at this
  · rename_i hneg
    split
    · rename_i hplaces
      have hwhole : Digits (digits.take (digits.length - (-exponent).toNat)) :=
        ⟨fun h => by simp [hdigits.1] at h; omega,
          fun c hc => hdigits.2 c (List.mem_of_mem_take hc)⟩
      have hpart : Digits (digits.drop (digits.length - (-exponent).toNat)) :=
        ⟨fun h => by simp at h; omega, fun c hc => hdigits.2 c (List.mem_of_mem_drop hc)⟩
      have := NumberText.mk hsign hwhole (.digits hpart) .absent
      rwa [List.append_nil] at this
    · have hpart : Digits (List.replicate ((-exponent).toNat - digits.length) '0' ++ digits) :=
        ⟨List.append_ne_nil_of_right_ne_nil _ hdigits.1, fun c hc =>
          (List.mem_append.1 hc).elim (digits_replicate_zero _ c) (hdigits.2 c)⟩
      have hwhole : Digits ['0'] := ⟨List.cons_ne_nil _ _, List.forall_mem_singleton.2 rfl⟩
      have := NumberText.mk hsign hwhole (.digits hpart) .absent
      rwa [List.append_nil] at this

theorem exponentText_writeInt (n : Int) :
    ExponentText ('e' :: ((if n < 0 then [] else ['+']) ++ Text.writeInt n)) := by
  rw [Text.writeInt]
  split
  · exact .minus (digits_writeNat _)
  · exact .plus (digits_writeNat _)

theorem numberText_writeScientific {sign digits : List Char} (hsign : SignText sign)
    (hdigits : Digits digits) (leading : Int) :
    NumberText (sign ++ decimalStyle.writeScientific digits leading) := by
  have hexponent := exponentText_writeInt leading
  match digits, hdigits with
  | [], hdigits => exact absurd rfl hdigits.1
  | [d], hdigits => exact .mk hsign hdigits .absent hexponent
  | d :: e :: ds, hdigits =>
    have hwhole : Digits [d] :=
      ⟨List.cons_ne_nil _ _, fun c hc => hdigits.2 c (List.mem_singleton.1 hc ▸ List.mem_cons_self)⟩
    have hpart : Digits (e :: ds) :=
      ⟨List.cons_ne_nil _ _, fun c hc => hdigits.2 c (List.mem_cons_of_mem _ hc)⟩
    exact .mk hsign hwhole (.digits hpart) hexponent

theorem numberText_write {d : Decimal} (h : d.isFinite = true) :
    NumberText (d.write decimalStyle) := by
  have hmagnitude : d.magnitude < Decimal.infiniteMagnitude := of_decide_eq_true h
  have hnan : ¬ (d.isNaN = true) := by simp [Decimal.isNaN]; omega
  have hinfinite : ¬ (d.isInfinite = true) := by simp [Decimal.isInfinite]; omega
  have hsign : SignText (if d.isNegative then ['-'] else []) := by
    split
    · exact .minus
    · exact .absent
  rw [Decimal.write, if_neg hnan]
  dsimp only
  rw [if_neg hinfinite]
  generalize (if d.isNegative then ['-'] else []) = sign at hsign ⊢
  split_ifs
  · exact numberText_writePositional hsign (digits_writeNat _) _
  · exact numberText_writeScientific hsign (digits_writeNat _) _

theorem le_ofDigitChars (ds : List Char) (n : Nat) : n ≤ Nat.ofDigitChars 10 ds n := by
  induction ds generalizing n with
  | nil => exact le_refl n
  | cons d ds ih =>
    rw [Nat.ofDigitChars_cons]
    exact Nat.le_trans (by omega) (ih _)

theorem takeDigits_eq {ds : List Char} (hds : ∀ c ∈ ds, c.isDigit = true) {n : Nat}
    (h : Nat.ofDigitChars 10 ds n < Nat.pow 2 64) :
    takeDigits n ds = (Nat.ofDigitChars 10 ds n, ds.length) := by
  induction ds generalizing n with
  | nil => rfl
  | cons d ds ih =>
    have hd := digit?_eq_some (hds d List.mem_cons_self)
    rw [Nat.ofDigitChars_cons] at h
    have hnext : n * 10 + (Text.digit? d).getD 0 = 10 * n + (d.toNat - '0'.toNat) := by
      rw [hd, Nat.mul_comm, Option.getD_some]
    rw [takeDigits]
    dsimp only
    rw [hnext, if_pos ((le_ofDigitChars ds _).trans_lt h),
      ih (fun c hc => hds c (List.mem_cons_of_mem _ hc)) h, Nat.ofDigitChars_cons]
    rfl

theorem takeDigits_writeNat {n : Nat} (h : n < Nat.pow 2 64) :
    takeDigits 0 (Text.writeNat n) = (n, (Text.writeNat n).length) := by
  have hvalue : Nat.ofDigitChars 10 (Text.writeNat n) 0 = n := Nat.ofDigitChars_ten_toDigits
  rw [takeDigits_eq (digits_writeNat n).2 (hvalue.symm ▸ h), hvalue]

theorem writeNat_zero_of_head? {n : Nat} (h : (Text.writeNat n).head? = some '0') : n = 0 := by
  induction n using Nat.strongRecOn with
  | ind n ih =>
    rw [Text.writeNat, Nat.toDigits_eq_if (by decide)] at h
    split at h
    · rename_i hn
      have hdigit : ∀ n < 10, [n.digitChar].head? = some '0' → n = 0 := by decide
      exact hdigit n hn h
    · rename_i hn
      rw [List.head?_append, List.head?_eq_some_head Nat.toDigits_ne_nil, Option.some_or,
        ← List.head?_eq_some_head Nat.toDigits_ne_nil] at h
      have := ih (n / 10) (by omega) h
      omega

theorem numberText_writeInt (n : Int) : NumberText (Text.writeInt n) := by
  have hdigits := digits_writeNat n.natAbs
  rw [Text.writeInt]
  split
  · have := NumberText.mk .minus hdigits .absent .absent
    rwa [List.append_nil, List.append_nil] at this
  · have := NumberText.mk .absent hdigits .absent .absent
    rwa [List.append_nil, List.append_nil] at this

theorem readUnsigned?_writeNat (negative : Bool) {n : Nat} (h : n < Nat.pow 2 64) :
    readUnsigned? negative (Text.writeNat n) =
      (if negative then
        if n = 0 then some (signed true (Decimal.zero false))
        else if n ≤ Nat.pow 2 63 then some (.integer (Int64.ofInt (-n)))
        else some (signed true (Decimal.ofNat n))
      else if n < Nat.pow 2 63 then some (.integer (Int64.ofInt n))
      else some (signed false (Decimal.ofNat n))).map fun t => (t, []) := by
  have hdigits := digits_writeNat n
  have hspan : Decimal.spanDigits (Text.writeNat n) = (Text.writeNat n, []) := by
    have hend : NoDigit [] := nofun
    simpa using spanDigits_append hdigits.2 hend
  have hzero : ¬ (Text.writeNat n = [] ∨
      (Text.writeNat n).head? = some '0' ∧ (Text.writeNat n).length ≠ 1) := by
    rintro (hnil | ⟨hhead, hlength⟩)
    · exact hdigits.1 hnil
    · rw [writeNat_zero_of_head? hhead] at hlength
      exact hlength rfl
  rw [readUnsigned?, hspan]
  dsimp only
  rw [if_neg hzero]
  simp only [readPart?, readExponent?, Option.bind_eq_bind, Option.bind_some, number?,
    takeDigits_writeNat h, and_self, if_true]
  exact Option.map_eq_bind.symm

theorem readNumber?_writeInt (n : Int64) :
    readNumber? (Text.writeInt n.toInt) = some (.integer n, []) := by
  have hlow := n.le_toInt
  have hhigh := n.toInt_lt
  have habs : n.toInt.natAbs < Nat.pow 2 64 := by
    have : Nat.pow 2 64 = 2 ^ 64 := rfl
    omega
  rw [Text.writeInt]
  split
  · rename_i hneg
    have hzero : n.toInt.natAbs ≠ 0 := by omega
    have hbound : n.toInt.natAbs ≤ Nat.pow 2 63 := by
      have : Nat.pow 2 63 = 2 ^ 63 := rfl
      omega
    have hint : -(n.toInt.natAbs : Int) = n.toInt := by omega
    -- read as a number without its sign, the least integer does not fit
    rw [readNumber?_minus, readUnsigned?_writeNat true habs, if_pos rfl, if_neg hzero,
      if_pos hbound, hint, Int64.ofInt_toInt]
    rfl
  · have hbound : n.toInt.natAbs < Nat.pow 2 63 := by
      have : Nat.pow 2 63 = 2 ^ 63 := rfl
      omega
    have hint : (n.toInt.natAbs : Int) = n.toInt := by omega
    have hsign : ∀ ds, Text.writeNat n.toInt.natAbs ≠ '-' :: ds := by
      intro ds h
      have := (digits_writeNat n.toInt.natAbs).2 '-' (h ▸ List.mem_cons_self)
      exact absurd this (by decide)
    rw [readNumber?_of_head?_ne hsign, readUnsigned?_writeNat false habs, if_neg Bool.false_ne_true,
      if_pos hbound, hint, Int64.ofInt_toInt]
    rfl

end Json

end Manifest
