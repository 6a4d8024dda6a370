import Manifest.ContentName
import Manifest.Reference.Token

namespace Manifest.ContentName

open Reference

theorem suffixed_nil (d : Document) :
    suffixed [] d = .ok (d.name ++ "-" ++ hashTree (input d.kind d.name d.tree)) := rfl

theorem suffixed_congr {d e : Document} (h : d.tree = e.tree) : suffixed [] d = suffixed [] e := by
  obtain ⟨t, _⟩ := d
  obtain ⟨_, _⟩ := e
  obtain rfl : t = _ := h
  rfl

theorem ne_empty_of_suffixed {d : Document} {name : String} (h : suffixed [] d = .ok name) :
    name ≠ "" := by
  rw [suffixed_nil] at h
  obtain rfl := Except.ok.inj h
  intro hempty
  have hchars := congrArg String.toList hempty
  rw [String.toList_append, String.toList_append] at hchars
  simp at hchars

theorem exists_hexDigit_of_mem {bytes : List UInt8} {c : Char} (h : c ∈ Digest.sha256 bytes) :
    ∃ n < 16, c = Digest.hexDigit n := by
  obtain ⟨word, _, hdigit⟩ := List.mem_flatMap.1 h
  obtain ⟨byte, _, hdigit⟩ := List.mem_flatMap.1 hdigit
  have hbyte := byte.toNat_lt
  simp only [List.mem_cons, List.not_mem_nil, or_false] at hdigit
  rcases hdigit with rfl | rfl
  · exact ⟨_, by omega, rfl⟩
  · exact ⟨_, by omega, rfl⟩

theorem length_sha256 (bytes : List UInt8) : (Digest.sha256 bytes).length = 64 := by
  simp [Digest.sha256, Digest.bigEndian]

theorem length_hashTree (t : Tree) : (hashTree t).toList.length = hashLength := by
  rw [hashTree, String.toList_ofList, List.length_map, List.length_take, length_sha256]
  rfl

theorem exists_safeDigit_of_mem {t : Tree} {c : Char} (h : c ∈ (hashTree t).toList) :
    ∃ n < 16, c = safeDigit (Digest.hexDigit n) := by
  rw [hashTree, String.toList_ofList] at h
  obtain ⟨digit, hdigit, rfl⟩ := List.mem_map.1 h
  obtain ⟨n, hn, rfl⟩ := exists_hexDigit_of_mem (List.mem_of_mem_take hdigit)
  exact ⟨n, hn, rfl⟩

theorem isNameChar_safeDigit : ∀ n < 16, isNameChar (safeDigit (Digest.hexDigit n)) = true := by
  decide

theorem all_hashTree (t : Tree) : (hashTree t).toList.all isNameChar = true := by
  rw [List.all_eq_true]
  intro c hc
  obtain ⟨n, hn, rfl⟩ := exists_safeDigit_of_mem hc
  exact isNameChar_safeDigit n hn

theorem all_suffixed {d : Document} {name : String} (h : suffixed [] d = .ok name)
    (all : d.name.toList.all isNameChar = true) : name.toList.all isNameChar = true := by
  rw [suffixed_nil] at h
  obtain rfl := Except.ok.inj h
  rw [String.toList_append, String.toList_append, List.all_append, List.all_append, all,
    all_hashTree]
  rfl

end Manifest.ContentName
