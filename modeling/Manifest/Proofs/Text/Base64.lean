import Mathlib.Tactic.SplitIfs
import Manifest.Text.Base64
import Manifest.Text.Blank

namespace Manifest.Text.Base64

theorem value?_letter : ∀ n < 64, value? (letter n) = some n := by
  decide

theorem letter_ne_pad : ∀ n < 64, letter n ≠ '=' := by
  decide

theorem letter_not_blank : ∀ n < 64, isBlank (letter n) = false := by
  decide

theorem value?_ofNat :
    ∀ k < 123, ∀ n ∈ value? (Char.ofNat k), n < 64 ∧ Char.ofNat k = letter n := by
  decide

theorem toNat_lt_of_value? {c : Char} {n : Nat} (h : value? c = some n) : c.toNat < 123 := by
  have hcode : ∀ d : Char, c ≤ d → c.toNat ≤ d.toNat := fun d hd => hd
  rw [value?] at h
  split_ifs at h with hupper hlower hdigit hplus hslash
  · exact Nat.lt_of_le_of_lt (hcode _ hupper.2) (by decide)
  · exact Nat.lt_of_le_of_lt (hcode _ hlower.2) (by decide)
  · exact Nat.lt_of_le_of_lt (hcode _ hdigit.2) (by decide)
  · rw [hplus]; decide
  · rw [hslash]; decide

theorem value?_eq_some_iff {c : Char} {n : Nat} : value? c = some n ↔ n < 64 ∧ c = letter n := by
  constructor
  · intro h
    have hread := value?_ofNat c.toNat (toNat_lt_of_value? h)
    rw [Char.ofNat_toNat] at hread
    exact hread n h
  · rintro ⟨hn, rfl⟩
    exact value?_letter n hn

section Group

variable {a b c d : Nat}

theorem decode?_two (ha : a < 64) (hb : b < 64) (hbits : b % 16 = 0) :
    decode? [letter a, letter b, '=', '='] = some [UInt8.ofNat ((a * 64 + b) / 16)] := by
  simp [decode?, value?_letter a ha, value?_letter b hb, hbits]

theorem decode?_three (ha : a < 64) (hb : b < 64) (hc : c < 64) (hbits : c % 4 = 0) :
    decode? [letter a, letter b, letter c, '='] =
      some [UInt8.ofNat (((a * 64 + b) * 64 + c) / 1024),
        UInt8.ofNat (((a * 64 + b) * 64 + c) / 4 % 256)] := by
  simp [decode?, value?_letter a ha, value?_letter b hb, letter_ne_pad c hc, value?_letter c hc,
    hbits]

theorem decode?_four (ha : a < 64) (hb : b < 64) (hc : c < 64) (hd : d < 64) (rest : List Char) :
    decode? (letter a :: letter b :: letter c :: letter d :: rest) =
      (decode? rest).map fun bytes =>
        UInt8.ofNat ((((a * 64 + b) * 64 + c) * 64 + d) / 65536) ::
          UInt8.ofNat ((((a * 64 + b) * 64 + c) * 64 + d) / 256 % 256) ::
          UInt8.ofNat ((((a * 64 + b) * 64 + c) * 64 + d) % 256) :: bytes := by
  rw [decode?, value?_letter a ha, value?_letter b hb]
  simp only [Option.bind_eq_bind, Option.bind_some, if_neg (letter_ne_pad c hc),
    value?_letter c hc, if_neg (letter_ne_pad d hd), value?_letter d hd]
  exact Option.map_eq_bind.symm

end Group

theorem ofNat_eq {n : Nat} {a : UInt8} (h : n = a.toNat) : UInt8.ofNat n = a := by
  rw [h, UInt8.ofNat_toNat]

theorem decode?_encode (bytes : List UInt8) : decode? (encode bytes) = some bytes := by
  induction bytes using encode.induct with
  | case1 => rfl
  | case2 a =>
    have ha := a.toNat_lt
    rw [encode]
    rw [decode?_two (by omega) (by omega) (by omega), ofNat_eq]
    omega
  | case3 a b =>
    have ha := a.toNat_lt
    have hb := b.toNat_lt
    rw [encode]
    rw [decode?_three (by omega) (by omega) (by omega) (by omega), ofNat_eq (a := a) (by omega),
      ofNat_eq (a := b) (by omega)]
  | case4 a b c bytes ih =>
    have ha := a.toNat_lt
    have hb := b.toNat_lt
    have hc := c.toNat_lt
    rw [encode]
    rw [decode?_four (by omega) (by omega) (by omega) (by omega), ih, Option.map_some,
      ofNat_eq (a := a) (by omega), ofNat_eq (a := b) (by omega), ofNat_eq (a := c) (by omega)]

section Group

variable {a b c d : Nat}

theorem toNat_ofNat {n : Nat} (h : n < 256) : (UInt8.ofNat n).toNat = n :=
  UInt8.toNat_ofNat_of_lt' h

theorem encode_two (ha : a < 64) (hb : b < 64) (hbits : b % 16 = 0) :
    encode [UInt8.ofNat ((a * 64 + b) / 16)] = [letter a, letter b, '=', '='] := by
  have hfirst : (a * 64 + b) / 16 * 16 / 64 = a := by omega
  have hsecond : (a * 64 + b) / 16 * 16 % 64 = b := by omega
  rw [encode, toNat_ofNat (by omega), hfirst, hsecond]

theorem encode_three (ha : a < 64) (hb : b < 64) (hc : c < 64) (hbits : c % 4 = 0) :
    encode [UInt8.ofNat (((a * 64 + b) * 64 + c) / 1024),
        UInt8.ofNat (((a * 64 + b) * 64 + c) / 4 % 256)] =
      [letter a, letter b, letter c, '='] := by
  have hn : (((a * 64 + b) * 64 + c) / 1024 * 256 + ((a * 64 + b) * 64 + c) / 4 % 256) * 4 =
      (a * 64 + b) * 64 + c := by omega
  have hfirst : ((a * 64 + b) * 64 + c) / 4096 = a := by omega
  have hsecond : ((a * 64 + b) * 64 + c) / 64 % 64 = b := by omega
  have hthird : ((a * 64 + b) * 64 + c) % 64 = c := by omega
  rw [encode, toNat_ofNat (by omega), toNat_ofNat (by omega), hn, hfirst, hsecond, hthird]

theorem encode_four (ha : a < 64) (hb : b < 64) (hc : c < 64) (hd : d < 64)
    (bytes : List UInt8) :
    encode (UInt8.ofNat ((((a * 64 + b) * 64 + c) * 64 + d) / 65536) ::
        UInt8.ofNat ((((a * 64 + b) * 64 + c) * 64 + d) / 256 % 256) ::
        UInt8.ofNat ((((a * 64 + b) * 64 + c) * 64 + d) % 256) :: bytes) =
      letter a :: letter b :: letter c :: letter d :: encode bytes := by
  have hn : ((((a * 64 + b) * 64 + c) * 64 + d) / 65536 * 256 +
        (((a * 64 + b) * 64 + c) * 64 + d) / 256 % 256) * 256 +
        (((a * 64 + b) * 64 + c) * 64 + d) % 256 = ((a * 64 + b) * 64 + c) * 64 + d := by omega
  have hfirst : (((a * 64 + b) * 64 + c) * 64 + d) / 262144 = a := by omega
  have hsecond : (((a * 64 + b) * 64 + c) * 64 + d) / 4096 % 64 = b := by omega
  have hthird : (((a * 64 + b) * 64 + c) * 64 + d) / 64 % 64 = c := by omega
  have hfourth : (((a * 64 + b) * 64 + c) * 64 + d) % 64 = d := by omega
  rw [encode, toNat_ofNat (by omega), toNat_ofNat (by omega), toNat_ofNat (by omega), hn, hfirst,
    hsecond, hthird, hfourth]

end Group

theorem eq_encode_of_decode? {cs : List Char} {bytes : List UInt8} (h : decode? cs = some bytes) :
    cs = encode bytes := by
  induction cs using decode?.induct generalizing bytes with
  | case1 => cases h; rfl
  | case2 p q r s rest ih =>
    rw [decode?] at h
    simp only [Option.bind_eq_bind, Option.bind_eq_some_iff, value?_eq_some_iff] at h
    obtain ⟨a, ⟨ha, rfl⟩, b, ⟨hb, rfl⟩, h⟩ := h
    split at h
    · rename_i hr
      split at h
      · rename_i hend
        obtain rfl := Option.some.inj h
        rw [encode_two ha hb hend.2.2, hr, hend.1, hend.2.1]
      · cases h
    · simp only [Option.bind_eq_some_iff, value?_eq_some_iff] at h
      obtain ⟨c, ⟨hc, rfl⟩, h⟩ := h
      split at h
      · rename_i hs
        split at h
        · rename_i hend
          obtain rfl := Option.some.inj h
          rw [encode_three ha hb hc hend.2, hs, hend.1]
        · cases h
      · simp only [Option.bind_eq_some_iff, value?_eq_some_iff] at h
        obtain ⟨d, ⟨hd, rfl⟩, more, hmore, h⟩ := h
        obtain rfl := Option.some.inj h
        rw [encode_four ha hb hc hd, ih hmore]
  | case3 t hnil hfour =>
    rw [decode?] at h
    · cases h
    · exact hnil
    · exact hfour

theorem decode?_eq_some_iff {cs : List Char} {bytes : List UInt8} :
    decode? cs = some bytes ↔ cs = encode bytes :=
  ⟨eq_encode_of_decode?, fun h => h ▸ decode?_encode bytes⟩

theorem not_blank_of_mem_encode {bytes : List UInt8} :
    ∀ c ∈ encode bytes, isBlank c = false := by
  have hpad : isBlank '=' = false := by decide
  induction bytes using encode.induct with
  | case1 => nofun
  | case2 a =>
    have ha := a.toNat_lt
    simp only [encode, List.forall_mem_cons]
    exact ⟨letter_not_blank _ (by omega), letter_not_blank _ (by omega), hpad, hpad, nofun⟩
  | case3 a b =>
    have ha := a.toNat_lt
    have hb := b.toNat_lt
    simp only [encode, List.forall_mem_cons]
    exact ⟨letter_not_blank _ (by omega), letter_not_blank _ (by omega),
      letter_not_blank _ (by omega), hpad, nofun⟩
  | case4 a b c bytes ih =>
    have ha := a.toNat_lt
    have hb := b.toNat_lt
    have hc := c.toNat_lt
    simp only [encode, List.forall_mem_cons]
    exact ⟨letter_not_blank _ (by omega), letter_not_blank _ (by omega),
      letter_not_blank _ (by omega), letter_not_blank _ (by omega), ih⟩

end Manifest.Text.Base64
