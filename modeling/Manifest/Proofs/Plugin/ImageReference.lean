import Mathlib.Data.List.TakeDrop
import Manifest.Plugin.ImageTag
import Manifest.Proofs.Text.Split

namespace Manifest

open Text

namespace ImageTag

def renewed? (i : ImageTag) (name suffix : String) : Option String :=
  if name = i.name then
    some ((if i.newName = "" then name else i.newName) ++
      if i.digest ≠ "" then "@" ++ i.digest
      else if i.newTag ≠ "" then ":" ++ i.newTag
      else suffix)
  else none

theorem spanBefore_append {c : Char} {pre rest : List Char} (h : c ∉ pre)
    (hrest : rest = [] ∨ ∃ cs, rest = c :: cs) : spanBefore c (pre ++ rest) = (pre, rest) := by
  have hpre : ∀ x ∈ pre, decide (x ≠ c) = true := fun x hx =>
    decide_eq_true fun heq => h (heq ▸ hx)
  rw [spanBefore, List.span_eq_takeWhile_dropWhile, List.takeWhile_append_of_pos hpre,
    List.dropWhile_append_of_pos hpre]
  rcases hrest with rfl | ⟨cs, rfl⟩
  · simp
  · rw [List.takeWhile_cons_of_neg (by simp), List.dropWhile_cons_of_neg (by simp),
      List.append_nil]

theorem split_of_not_mem {repository rest : List Char} (hat : '@' ∉ repository ++ rest)
    (hcolon : ':' ∉ lastPart '/' repository) (hslash : '/' ∉ rest)
    (hrest : rest = [] ∨ ∃ tag, rest = ':' :: tag) :
    split (repository ++ rest) = (repository, rest) := by
  rw [split, if_neg (by simpa using hat)]
  rcases eq_append_lastPart '/' repository with h | ⟨directory, h⟩
  · rw [← h] at hcolon
    have hnone : '/' ∉ repository ++ rest := by
      rw [List.mem_append, not_or]
      exact ⟨h ▸ not_mem_lastPart, hslash⟩
    rw [splitLast?_of_not_mem hnone]
    exact spanBefore_append hcolon hrest
  · have hlast : '/' ∉ lastPart '/' repository ++ rest := by
      rw [List.mem_append, not_or]
      exact ⟨not_mem_lastPart, hslash⟩
    have hparts : repository ++ rest =
        directory ++ '/' :: (lastPart '/' repository ++ rest) := by
      conv_lhs => rw [h]
      simp
    rw [hparts, splitLast?_append hlast]
    dsimp only
    rw [spanBefore_append hcolon hrest]
    exact congrArg (·, rest) h.symm

theorem split_append_at {name : List Char} (h : '@' ∉ name) (digest : List Char) :
    split (name ++ '@' :: digest) = (name, '@' :: digest) := by
  rw [split, if_pos (by simp), spanBefore_append h (.inr ⟨digest, rfl⟩)]

theorem update?_of_split {i : ImageTag} {text name suffix : String}
    (h : split text.toList = (name.toList, suffix.toList)) :
    i.update? text = i.renewed? name suffix := by
  rw [update?, h, renewed?]
  simp only [String.ofList_toList]
  split
  · rename_i hname
    rw [render, hname]
  · rfl

end ImageTag

/-- An image reference: a repository, whose last part is a name, and the tag and the digest that it
may have. -/
structure ImageReference where
  repository : String
  tag : Option String := none
  digest : Option String := none
  named : lastPart '/' repository.toList ≠ []
  colonless : ':' ∉ lastPart '/' repository.toList
  atless : '@' ∉ repository.toList
  plain_tag : ∀ text ∈ tag, '/' ∉ text.toList ∧ ':' ∉ text.toList ∧ '@' ∉ text.toList
  plain_digest : ∀ text ∈ digest, '@' ∉ text.toList

namespace ImageReference

variable {r : ImageReference}

def tagText (r : ImageReference) : String := r.tag.elim "" (":" ++ ·)

def digestText (r : ImageReference) : String := r.digest.elim "" ("@" ++ ·)

def suffix (r : ImageReference) : String := r.tagText ++ r.digestText

def text (r : ImageReference) : String := r.repository ++ r.suffix

def nameRead (r : ImageReference) : String :=
  if r.digest = none then r.repository else r.repository ++ r.tagText

def suffixRead (r : ImageReference) : String :=
  if r.digest = none then r.tagText else r.digestText

theorem tagText_of_some {tag : String} (h : r.tag = some tag) : r.tagText = ":" ++ tag := by
  rw [tagText, h, Option.elim_some]

theorem digestText_of_some {digest : String} (h : r.digest = some digest) :
    r.digestText = "@" ++ digest := by
  rw [digestText, h, Option.elim_some]

theorem plain_tagText (r : ImageReference) :
    '/' ∉ r.tagText.toList ∧ '@' ∉ r.tagText.toList ∧
      (r.tagText.toList = [] ∨ ∃ tag, r.tagText.toList = ':' :: tag) := by
  cases h : r.tag with
  | none => simp [tagText, h]
  | some tag =>
    obtain ⟨hslash, -, hat⟩ := r.plain_tag tag h
    simp [tagText_of_some h, hslash, hat]

theorem split_text (r : ImageReference) :
    ImageTag.split r.text.toList = (r.nameRead.toList, r.suffixRead.toList) := by
  obtain ⟨hslash, hat, hcolon⟩ := r.plain_tagText
  have hname : '@' ∉ r.repository.toList ++ r.tagText.toList := by
    rw [List.mem_append, not_or]
    exact ⟨r.atless, hat⟩
  cases h : r.digest with
  | none =>
    have htext : r.text.toList = r.repository.toList ++ r.tagText.toList := by
      simp [text, suffix, digestText, h]
    rw [htext, nameRead, if_pos h, suffixRead, if_pos h]
    exact ImageTag.split_of_not_mem hname r.colonless hslash hcolon
  | some digest =>
    have hne : r.digest ≠ none := by simp [h]
    have htext : r.text.toList =
        (r.repository ++ r.tagText).toList ++ '@' :: digest.toList := by
      simp [text, suffix, digestText_of_some h]
    rw [htext, nameRead, if_neg hne, suffixRead, if_neg hne, digestText_of_some h,
      ImageTag.split_append_at (by simpa using hname)]
    simp

theorem nameRead_eq_repository_iff :
    r.nameRead = r.repository ↔ r.tag = none ∨ r.digest = none := by
  cases hdigest : r.digest with
  | none => simp [nameRead, hdigest]
  | some digest =>
    cases htag : r.tag with
    | none => simp [nameRead, tagText, htag]
    | some tag =>
      rw [nameRead, if_neg (by simp [hdigest]), tagText_of_some htag]
      simp only [reduceCtorEq, or_self, iff_false]
      intro heq
      have hlength := congrArg String.length heq
      simp at hlength

theorem suffixRead_eq_suffix (h : r.tag = none ∨ r.digest = none) : r.suffixRead = r.suffix := by
  rw [suffixRead, suffix]
  rcases h with h | h
  · split
    · rename_i hdigest
      simp [digestText, hdigest]
    · simp [tagText, h]
  · simp [digestText, h]

/-- A reference is updated when what counts as its name is the name that is looked for.  That is
the repository, unless there are both a tag and a digest. -/
theorem update?_text (r : ImageReference) :
    (∀ i : ImageTag, i.update? r.text = i.renewed? r.nameRead r.suffixRead) ∧
      ((∀ i : ImageTag, i.update? r.text = i.renewed? r.repository r.suffix) ↔
        r.tag = none ∨ r.digest = none) := by
  have hread : ∀ i : ImageTag, i.update? r.text = i.renewed? r.nameRead r.suffixRead :=
    fun i => ImageTag.update?_of_split r.split_text
  refine ⟨hread, fun h => ?_, fun h i => ?_⟩
  · have hupdate := (hread { name := r.repository }).symm.trans (h { name := r.repository })
    rw [← nameRead_eq_repository_iff]
    by_contra hne
    rw [ImageTag.renewed?, ImageTag.renewed?, if_neg hne, if_pos rfl] at hupdate
    cases hupdate
  · rw [hread, nameRead_eq_repository_iff.2 h, suffixRead_eq_suffix h]

def pinned : ImageReference where
  repository := "nginx"
  tag := some "1.25"
  digest := some "sha256:abc"
  named := by decide
  colonless := by decide
  atless := by decide
  plain_tag := by simp
  plain_digest := by simp

/-- In front of a digest the name is not found without the tag. -/
theorem not_updated_by_repository : ¬ ∀ (r : ImageReference) (i : ImageTag),
    i.update? r.text = i.renewed? r.repository r.suffix := by
  intro h
  exact absurd (h pinned { name := "nginx", newTag := "1.27" }) (by decide)

end ImageReference

end Manifest
