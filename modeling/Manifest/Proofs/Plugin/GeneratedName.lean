import Manifest.Proofs.Plugin.GeneratedMap
import Manifest.Proofs.Validity

namespace Manifest

open Validity

namespace MapRecipe

variable {kind : MapKind} {config : Tree} {r : MapRecipe} {w : Workspace} {d : Document}

theorem isLabelEnd_safeDigit :
    ∀ n < 16, isLabelEnd (ContentName.safeDigit (Digest.hexDigit n)) = true := by
  decide

theorem isLabelEnd_of_mem_hashTree {t : Tree} {c : Char}
    (h : c ∈ (ContentName.hashTree t).toList) : isLabelEnd c = true := by
  obtain ⟨n, hn, rfl⟩ := ContentName.exists_safeDigit_of_mem h
  exact isLabelEnd_safeDigit n hn

def suffixLength : Nat := 1 + ContentName.hashLength

theorem utf8ByteSize_hashedName (r : MapRecipe) (name : String) (data : Entries Tree) :
    (r.hashedName name data).utf8ByteSize = name.utf8ByteSize + suffixLength := by
  have hdigits : (ContentName.hashTree (r.digested name data)).utf8ByteSize =
      ContentName.hashLength := by
    rw [← String.ofList_toList (s := ContentName.hashTree _),
      utf8ByteSize_ofList fun _ => isLabelEnd_of_mem_hashTree, ContentName.length_hashTree]
  rw [hashedName, String.utf8ByteSize_append, String.utf8ByteSize_append, hdigits, Nat.add_assoc]
  rfl

theorem labels_hashedName (r : MapRecipe) {name : String} (data : Entries Tree)
    (h : Labels name.toList) : Labels (r.hashedName name data).toList := by
  have hne : (ContentName.hashTree (r.digested name data)).toList ≠ [] := by
    rw [← List.length_pos_iff, ContentName.length_hashTree]
    decide
  have hlabels := h.append hne fun _ => isLabelEnd_of_mem_hashTree
  rw [hashedName, String.toList_append, String.toList_append, List.append_assoc]
  exact hlabels

theorem name_of_generate (h : r.generate w = .ok d) :
    ∃ data, d.name = if r.plainName then r.name else r.hashedName r.name data := by
  cases hplain : r.plainName with
  | true =>
    obtain ⟨d₀, hd₀, h⟩ := bind_eq_ok.1 h
    obtain ⟨ps, -, -, rfl⟩ := build_eq_ok.1 hd₀
    rw [hplain] at h
    obtain rfl := pure_eq_ok.1 h
    exact ⟨[], name_of_tree (r.tree_assemble _)⟩
  | false =>
    obtain ⟨data, htree, -⟩ := hashed_of_generate hplain h
    exact ⟨data, name_of_tree htree⟩

/-- A generated name is labels with points between them.  It is valid if it is plain, and with its
digits if the bytes suffice. -/
theorem nameFault?_of_generate (accepted : configure kind config = .ok r)
    (generated : r.generate w = .ok d) : Labels d.name.toList ∧
      d.name.utf8ByteSize = r.name.utf8ByteSize + (if r.plainName then 0 else suffixLength) ∧
      (nameFault? d.name = none ↔
        r.plainName = true ∨ r.name.utf8ByteSize + suffixLength ≤ maxBytes) := by
  obtain ⟨hbytes, hlabels⟩ := nameFault?_eq_none_iff.1 (configure_eq_ok.1 accepted).2.2
  obtain ⟨data, hname⟩ := name_of_generate generated
  rw [hname, nameFault?_eq_none_iff]
  cases r.plainName with
  | true => exact ⟨hlabels, rfl, fun _ => .inl rfl, fun _ => ⟨hbytes, hlabels⟩⟩
  | false =>
    have hhashed := r.labels_hashedName data hlabels
    have hsize := r.utf8ByteSize_hashedName r.name data
    simp only [Bool.false_eq_true, if_false, false_or, hsize, true_and]
    exact ⟨hhashed, and_iff_left hhashed⟩

def repeated (n : Nat) : String := String.ofList (List.replicate n 'a')

def named (n : Nat) : Tree := .map [("name", .text (repeated n))]

theorem utf8ByteSize_repeated (n : Nat) : (repeated n).utf8ByteSize = n := by
  rw [repeated, utf8ByteSize_ofList, List.length_replicate]
  intro c hc
  rw [(List.mem_replicate.1 hc).2]
  decide

theorem nameFault?_repeated {n : Nat} (pos : 0 < n) (fits : n ≤ maxBytes) :
    nameFault? (repeated n) = none := by
  have hend : ∀ c ∈ List.replicate n 'a', isLabelEnd c = true := fun c hc =>
    (List.mem_replicate.1 hc).2 ▸ rfl
  have hlabel : Label (List.replicate n 'a') :=
    ⟨⟨'a', by rw [List.head?_replicate, if_neg pos.ne'], rfl⟩,
      ⟨'a', by rw [List.getLast?_replicate, if_neg pos.ne'], rfl⟩, fun c hc => .inl (hend c hc)⟩
  refine nameFault?_eq_none_iff.2 ⟨(utf8ByteSize_repeated n).trans_le fits, ?_⟩
  rw [repeated, String.toList_ofList]
  exact ⟨[_], List.cons_ne_nil _ _, List.forall_mem_singleton.2 hlabel,
    List.intercalate_singleton.symm⟩

theorem configure_named (kind : MapKind) {n : Nat} (pos : 0 < n) (fits : n ≤ maxBytes) :
    configure kind (named n) = .ok { kind, name := repeated n } := by
  have hread : Config.Decoder.record (ofFields? kind) (named n) =
      some { kind, name := repeated n } := rfl
  have hne : repeated n ≠ "" := by
    intro h
    have hsize := utf8ByteSize_repeated n
    rw [h] at hsize
    exact pos.ne hsize
  exact configure_eq_ok.2 ⟨hread, hne, nameFault?_repeated pos fits⟩

theorem exists_generate_named (kind : MapKind) (n : Nat) (w : Workspace) :
    ∃ d, generate w { kind, name := repeated n } = .ok d :=
  ⟨_, (generate_eq_ok rfl).2 ⟨[], rfl, ⟨nofun, .nil⟩, rfl⟩⟩

theorem nameFault?_of_generate_longest : ∃ r d, configure .secret (named 242) = .ok r ∧
    r.generate ⟨".", {}, []⟩ = .ok d ∧ d.name.utf8ByteSize = maxBytes ∧
      nameFault? d.name = none := by
  obtain ⟨d, generated⟩ := exists_generate_named .secret 242 ⟨".", {}, []⟩
  have accepted := configure_named .secret (by decide : 0 < 242) (by decide)
  have hroom : (repeated 242).utf8ByteSize + suffixLength = maxBytes := by
    rw [utf8ByteSize_repeated]
    decide
  obtain ⟨-, hsize, hvalid⟩ := nameFault?_of_generate accepted generated
  simp only [Bool.false_eq_true, if_false, hroom] at hsize hvalid
  exact ⟨_, d, accepted, generated, hsize, hvalid.2 (.inr (Nat.le_refl _))⟩

theorem not_valid_names_in_general : ¬ ∀ (kind : MapKind) (config : Tree) (r : MapRecipe)
    (w : Workspace) (d : Document), configure kind config = .ok r → r.generate w = .ok d →
      nameFault? d.name = none := by
  intro h
  have accepted := configure_named .configMap (n := 243) (by decide) (by decide)
  obtain ⟨d, generated⟩ := exists_generate_named .configMap 243 ⟨".", {}, []⟩
  have hvalid := h .configMap (named 243) _ ⟨".", {}, []⟩ d accepted generated
  obtain ⟨data, hname⟩ := name_of_generate generated
  have hsize : d.name.utf8ByteSize = 243 + suffixLength := by
    rw [hname, if_neg (by decide), utf8ByteSize_hashedName, utf8ByteSize_repeated]
  have hbytes := (nameFault?_eq_none_iff.1 hvalid).1
  rw [hsize] at hbytes
  exact absurd hbytes (by decide)

end MapRecipe

end Manifest
