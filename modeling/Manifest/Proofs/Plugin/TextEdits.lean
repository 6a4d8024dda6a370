import Manifest.Plugin.FullPath
import Manifest.Plugin.ImageTag
import Manifest.Proofs.FilePath
import Manifest.Proofs.Tree.KeepsTexts

namespace Manifest

open Tree (KeepsTexts)

theorem FullPath.keepsTexts_resolveNode (w : Workspace) (t : Tree) :
    t.KeepsTexts (resolveNode w t) := by
  cases t with
  | text path =>
    rw [resolveNode]
    split
    · rfl
    · exact .of_text fun _ => mt String.ofList_eq_empty_iff.1 (FilePath.clean_ne_nil _)
  | _ => rfl

namespace ImageTag

variable {t : ImageTag}

section Named

variable (named : t.name ≠ "")

include named

theorem render_ne_empty (rest : String) : t.render t.name rest ≠ "" := by
  have hname : (if t.newName = "" then t.name else t.newName) ≠ "" := by
    split
    · exact named
    · assumption
  rw [render, ne_eq, String.append_eq_empty_iff]
  exact fun h => hname h.1

theorem update?_ne_empty {image new : String} (h : t.update? image = some new) : new ≠ "" := by
  unfold update? at h
  dsimp only at h
  split at h
  · exact Option.some.inj h ▸ render_ne_empty named _
  · cases h

theorem keepsTexts_updateNode (node : Tree) : node.KeepsTexts (t.updateNode node) := by
  cases node with
  | text image =>
    refine .of_text fun hne => ?_
    cases h : t.update? image with
    | none => exact hne
    | some new => exact update?_ne_empty named h
  | null => exact .null _
  | _ => rfl

theorem keepsTexts_updateContainer (node : Tree) :
    node.KeepsTexts (t.updateContainer node).1 := by
  unfold updateContainer
  split
  · rename_i es
    split
    · rename_i image himage
      split
      · rename_i new hnew
        refine .map fun key => ?_
        rw [Entries.find?_modify]
        split
        · subst key
          rw [himage]
          exact .some (.of_text fun _ => update?_ne_empty named hnew)
        · cases Entries.find? key es with
          | none => exact .none
          | some u => exact .some (.refl u)
      · rfl
    · rfl
  · rfl

end Named

mutual

theorem keepsTexts_updateContainers (named : t.name ≠ "") :
    (node : Tree) → node.KeepsTexts (t.updateContainers node).1
  | .list items => .list (keepsTexts_updateItems named false items)
  | .map es => .map (keepsTexts_updateEntries named es)
  | .null | .boolean _ | .integer _ | .decimal _ | .text _ => .refl _

theorem keepsTexts_updateItems (named : t.name ≠ "") (containers : Bool) :
    (nodes : List Tree) → (i : Nat) →
    Option.Rel KeepsTexts nodes[i]? (updateItems t containers nodes).1[i]?
  | [], _ => .none
  | node :: nodes, 0 => by
    have keeps := keepsTexts_updateContainers named node
    refine .some ?_
    cases containers with
    | false => exact keeps
    | true => exact keeps.trans (keepsTexts_updateContainer named _)
  | _ :: nodes, i + 1 => keepsTexts_updateItems named containers nodes i

theorem keepsTexts_updateEntries (named : t.name ≠ "") : (es : List (String × Tree)) →
    (key : String) →
    Option.Rel KeepsTexts (Entries.find? key es) (Entries.find? key (updateEntries t es).1)
  | [], _ => .none
  | (k, .list items) :: es, key =>
    KeepsTexts.find?_cons k (.list (keepsTexts_updateItems named _ items))
      (keepsTexts_updateEntries named es key)
  | (k, .map inner) :: es, key =>
    KeepsTexts.find?_cons k (.map (keepsTexts_updateEntries named inner))
      (keepsTexts_updateEntries named es key)
  | (k, .null) :: es, key | (k, .boolean _) :: es, key | (k, .integer _) :: es, key
  | (k, .decimal _) :: es, key | (k, .text _) :: es, key =>
    KeepsTexts.find?_cons k (.refl _) (keepsTexts_updateEntries named es key)

end

end ImageTag

end Manifest
