import Manifest.Proofs.Tree.Entries
import Manifest.Reference.Repair

namespace Manifest.Reference

theorem mem_addNew {α : Type} [DecidableEq α] {xs : List α} {x y : α} :
    y ∈ addNew xs x ↔ y ∈ xs ∨ y = x := by
  rw [addNew]
  split
  · rename_i h
    exact ⟨.inl, fun hy => hy.elim id fun hxy => hxy ▸ h⟩
  · simp

def pairsAt (path : String) (byPath : Entries NamePairs) : NamePairs :=
  (Entries.find? path byPath).getD []

theorem find?_addPair (path path' : String) (pair : String × String) (byPath : Entries NamePairs) :
    Entries.find? path (addPair path' pair byPath) =
      if path' = path then some (addNew (pairsAt path' byPath) pair)
      else Entries.find? path byPath :=
  Entries.find?_insert path' path _ byPath

theorem mem_pairsAt_addPair {path path' : String} {pair x : String × String}
    {byPath : Entries NamePairs} :
    x ∈ pairsAt path (addPair path' pair byPath) ↔
      x ∈ pairsAt path byPath ∨ (path' = path ∧ x = pair) := by
  rw [pairsAt, find?_addPair]
  split
  · rename_i h
    subst h
    rw [Option.getD_some, mem_addNew]
    simp
  · simp [pairsAt, *]

theorem mem_keys_addPair {path path' : String} {pair : String × String}
    {byPath : Entries NamePairs} :
    path ∈ (addPair path' pair byPath).keys ↔ path ∈ byPath.keys ∨ path' = path := by
  rw [addPair, Entries.mem_keys_insert, eq_comm (a := path)]

theorem distinct_addPair {path : String} {pair : String × String} {byPath : Entries NamePairs}
    (h : Entries.Distinct byPath) : Entries.Distinct (addPair path pair byPath) :=
  Entries.distinct_insert h

/-- A path with the pair of a rename, for every rename in the namespace of the document and every
path that may hold its old name. -/
def referrals (rules : Rules) (renames : List Rename) (d : Document) :
    List (String × (String × String)) :=
  (renames.filter fun r => r.old.inNamespace d.ns).flatMap fun r =>
    (referringPaths rules d.type r).map fun path => (path, (r.old.name, r.new))

theorem pairsByPath_eq_foldl (rules : Rules) (renames : List Rename) (d : Document) :
    pairsByPath rules renames d =
      (referrals rules renames d).foldl (fun acc x => addPair x.1 x.2 acc) [] := by
  simp only [pairsByPath, referrals, List.foldl_flatMap, List.foldl_map]

theorem mem_referrals {rules : Rules} {renames : List Rename} {d : Document} {path : String}
    {pair : String × String} :
    (path, pair) ∈ referrals rules renames d ↔
      ∃ r ∈ renames, r.old.inNamespace d.ns ∧ path ∈ referringPaths rules d.type r ∧
        pair = (r.old.name, r.new) := by
  simp only [referrals, List.mem_flatMap, List.mem_filter, List.mem_map, Prod.mk.injEq]
  constructor
  · rintro ⟨r, ⟨hr, hns⟩, _, hpath, rfl, rfl⟩
    exact ⟨r, hr, hns, hpath, rfl⟩
  · rintro ⟨r, hr, hns, hpath, rfl⟩
    exact ⟨r, ⟨hr, hns⟩, path, hpath, rfl, rfl⟩

section Fold

variable {xs : List (String × (String × String))} {acc : Entries NamePairs}

theorem mem_pairsAt_foldl {path : String} {pair : String × String} :
    pair ∈ pairsAt path (xs.foldl (fun acc x => addPair x.1 x.2 acc) acc) ↔
      pair ∈ pairsAt path acc ∨ (path, pair) ∈ xs := by
  induction xs generalizing acc with
  | nil => simp
  | cons x xs ih =>
    obtain ⟨path', pair'⟩ := x
    have same : (path, pair) = (path', pair') ↔ path' = path ∧ pair = pair' :=
      ⟨fun h => ⟨(congrArg Prod.fst h).symm, congrArg Prod.snd h⟩, fun h => by rw [h.1, h.2]⟩
    rw [List.foldl_cons, ih, mem_pairsAt_addPair, List.mem_cons, same, or_assoc]

theorem mem_keys_foldl {path : String} :
    path ∈ (xs.foldl (fun acc x => addPair x.1 x.2 acc) acc).keys ↔
      path ∈ acc.keys ∨ path ∈ xs.map Prod.fst := by
  induction xs generalizing acc with
  | nil => simp
  | cons x xs ih => rw [List.foldl_cons, ih, mem_keys_addPair, List.map_cons, List.mem_cons,
      eq_comm (a := path), or_assoc]

theorem distinct_foldl (h : Entries.Distinct acc) :
    Entries.Distinct (xs.foldl (fun acc x => addPair x.1 x.2 acc) acc) := by
  induction xs generalizing acc with
  | nil => exact h
  | cons x xs ih => exact ih (distinct_addPair h)

end Fold

theorem mem_pairsAt_pairsByPath {rules : Rules} {renames : List Rename} {d : Document}
    {path : String} {pair : String × String} :
    pair ∈ pairsAt path (pairsByPath rules renames d) ↔
      ∃ r ∈ renames, r.old.inNamespace d.ns ∧ path ∈ referringPaths rules d.type r ∧
        pair = (r.old.name, r.new) := by
  rw [pairsByPath_eq_foldl, mem_pairsAt_foldl, mem_referrals]
  simp [pairsAt]

theorem mem_keys_pairsByPath {rules : Rules} {renames : List Rename} {d : Document}
    {path : String} :
    path ∈ (pairsByPath rules renames d).keys ↔
      ∃ r ∈ renames, r.old.inNamespace d.ns ∧ path ∈ referringPaths rules d.type r := by
  rw [pairsByPath_eq_foldl, mem_keys_foldl, List.mem_map]
  constructor
  · rintro (h | ⟨⟨path, pair⟩, h, rfl⟩)
    · cases h
    · obtain ⟨r, hr, hns, hpath, -⟩ := mem_referrals.1 h
      exact ⟨r, hr, hns, hpath⟩
  · rintro ⟨r, hr, hns, hpath⟩
    exact .inr ⟨_, mem_referrals.2 ⟨r, hr, hns, hpath, rfl⟩, rfl⟩

theorem distinct_pairsByPath (rules : Rules) (renames : List Rename) (d : Document) :
    Entries.Distinct (pairsByPath rules renames d) := by
  rw [pairsByPath_eq_foldl]
  exact distinct_foldl .nil

section

variable {rules : Rules} {renames : List Rename} {d : Document}

theorem mem_pairsByPath {e : String × NamePairs} (he : e ∈ pairsByPath rules renames d)
    {pair : String × String} : pair ∈ e.2 ↔ (e.1, pair) ∈ referrals rules renames d := by
  have hat : pairsAt e.1 (pairsByPath rules renames d) = e.2 := by
    rw [pairsAt, Entries.find?_of_mem (distinct_pairsByPath rules renames d) he, Option.getD_some]
  rw [← hat, mem_pairsAt_pairsByPath, mem_referrals]

theorem exists_referral_of_mem {e : String × NamePairs} (he : e ∈ pairsByPath rules renames d) :
    ∃ pair, (e.1, pair) ∈ referrals rules renames d := by
  obtain ⟨r, hr, hns, hpath⟩ := mem_keys_pairsByPath.1 (List.mem_map_of_mem he)
  exact ⟨_, mem_referrals.2 ⟨r, hr, hns, hpath, rfl⟩⟩

theorem exists_mem_of_referral {path : String} {pair : String × String}
    (h : (path, pair) ∈ referrals rules renames d) :
    ∃ e ∈ pairsByPath rules renames d, e.1 = path := by
  obtain ⟨r, hr, hns, hpath, -⟩ := mem_referrals.1 h
  exact List.mem_map.1 (mem_keys_pairsByPath.2 ⟨r, hr, hns, hpath⟩)

end

theorem mem_referringPaths {rules : Rules} {type : ResourceType} {r : Rename} {path : String} :
    path ∈ referringPaths rules type r ↔
      ∃ rule ∈ rules.names, r.old.type.selectedBy rule.type ∧
        ∃ spec ∈ rule.fields, spec.appliesTo type ∧ spec.path = path := by
  simp only [referringPaths, List.mem_map, List.mem_filter, List.mem_flatMap]
  constructor
  · rintro ⟨spec, ⟨⟨rule, ⟨hrule, hsel⟩, hspec⟩, happ⟩, rfl⟩
    exact ⟨rule, hrule, hsel, spec, hspec, happ, rfl⟩
  · rintro ⟨rule, hrule, hsel, spec, hspec, happ, rfl⟩
    exact ⟨spec, ⟨⟨rule, ⟨hrule, hsel⟩, hspec⟩, happ⟩, rfl⟩

end Manifest.Reference
