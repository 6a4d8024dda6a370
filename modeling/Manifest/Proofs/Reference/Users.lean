import Mathlib.Data.List.Pairwise
import Manifest.Proofs.Reference.Builtin
import Manifest.Proofs.Store

namespace Manifest

open Reference

namespace Document

def isMap (d : Document) : Bool :=
  d.kind = MapKind.configMap.name || d.kind = MapKind.secret.name

theorem isMap_of_kind {d : Document} {k : MapKind} (h : d.kind = k.name) : d.isMap = true := by
  cases k <;> simp [isMap, h]

/-- Under a current or former identity the document has a name, as a map of the kind that it is now
or was then. -/
def Bears (d : Document) (k : MapKind) (name : String) : Prop :=
  ∃ id ∈ d.id :: d.previous, id.name = name ∧ (d.kind = k.name ∨ id.type.kind = k.name)

theorem bears_name {d : Document} {k : MapKind} (h : d.kind = k.name) : d.Bears k d.name :=
  ⟨d.id, List.mem_cons_self, rfl, .inl h⟩

theorem firstId_mem (d : Document) : d.firstId ∈ d.id :: d.previous := by
  rw [firstId]
  cases d.previous <;> simp

theorem bears_of_firstId {d : Document} {k : MapKind} (h : d.firstId.type.kind = k.name) :
    d.Bears k d.firstId.name :=
  ⟨d.firstId, d.firstId_mem, rfl, .inr h⟩

theorem SameIdentity.isMap_eq {d e : Document} (h : d.SameIdentity e) : d.isMap = e.isMap := by
  rw [isMap, isMap, h.kind_eq]

theorem SameIdentity.bears_eq {d e : Document} (h : d.SameIdentity e) : d.Bears = e.Bears := by
  funext k name
  rw [Bears, Bears, h.id_eq, h.previous, h.kind_eq]

end Document

namespace Store

def withoutMaps (s : Store) : Store where
  documents := s.documents.filter fun d => !d.isMap

def NamesApart (s : Store) : Prop :=
  s.documents.Pairwise fun d e => ∀ k name, ¬ (d.Bears k name ∧ e.Bears k name)

variable {s s' : Store} {renames : List Rename} {n : Nat}

theorem NamesApart.eq_of_bears (apart : s.NamesApart) {d e : Document} (hd : d ∈ s.documents)
    (he : e ∈ s.documents) {k : MapKind} {name : String} (hdk : d.Bears k name)
    (hek : e.Bears k name) : d = e := by
  have symm : Std.Symm fun d e : Document => ∀ k name, ¬ (d.Bears k name ∧ e.Bears k name) :=
    ⟨fun d e h k name hboth => h k name hboth.symm⟩
  by_contra hne
  exact List.Pairwise.forall apart hd he hne k name ⟨hdk, hek⟩

theorem NamesApart.exists_around (apart : s.NamesApart) {d : Document} {k : MapKind}
    (hk : d.kind = k.name) (hd : d ∈ s.documents) :
    ∃ before after, s.Around d.id before d after := by
  obtain ⟨before, e, after, h⟩ := Store.exists_around (List.mem_map_of_mem hd)
  have he : e ∈ s.documents := by simp [h.documents]
  have hek : e.kind = k.name := by
    rw [← hk, ← Document.kind_type, ← Document.kind_type]
    exact congrArg (fun id => id.type.kind) h.id_eq
  have hname : e.name = d.name := congrArg Identity.name h.id_eq
  obtain rfl := apart.eq_of_bears hd he (Document.bears_name hk) (hname ▸ Document.bears_name hek)
  exact ⟨before, after, h⟩

theorem namesApart_pair {d e : Document} (hd : d.isMap = false) (hprevious : d.previous = []) :
    (Store.mk [d, e]).NamesApart := by
  refine List.pairwise_pair.2 fun k name hboth => ?_
  obtain ⟨old, hold, -, hkind⟩ := hboth.1
  rw [hprevious, List.mem_singleton] at hold
  have hk : d.kind = k.name := by
    rcases hkind with hk | hk
    · exact hk
    · rwa [hold, Document.id, Document.kind_type] at hk
  rw [Document.isMap_of_kind hk] at hd
  cases hd

theorem namesApart_iff_of_repair (h : repair .builtin renames s = .ok (s', n)) :
    s'.NamesApart ↔ s.NamesApart := by
  have hbears := map_of_repaired (repair_eq_ok.1 ⟨n, h⟩) fun _ _ => Document.SameIdentity.bears_eq
  have hiff : ∀ s : Store, s.NamesApart ↔ (s.documents.map Document.Bears).Pairwise
      fun b c => ∀ k name, ¬ (b k name ∧ c k name) := fun s => by rw [List.pairwise_map, NamesApart]
  rw [hiff, hbears, ← hiff]

theorem mem_of_repair {d : Document} (h : repair .builtin renames s = .ok (s', n)) {k : MapKind}
    (hk : d.kind = k.name) (hd : d ∈ s.documents) : d ∈ s'.documents := by
  obtain ⟨i, hi⟩ := List.getElem?_of_mem hd
  obtain ⟨d', hd', hrepaired⟩ := repaired_getElem? h hi
  rw [repaired_map k hk] at hrepaired
  exact Except.ok.inj hrepaired ▸ List.mem_of_getElem? hd'

theorem repair_withoutMaps (h : repair .builtin renames s = .ok (s', n)) :
    ∃ n', repair .builtin renames s.withoutMaps = .ok (s'.withoutMaps, n') :=
  repair_eq_ok.2 (filter_of_repaired (repair_eq_ok.1 ⟨n, h⟩) fun _ _ hsame => by
    rw [hsame.isMap_eq])

theorem withoutMaps_of_moved {d e : Document} {before after : List Document} (hd : d.isMap = true)
    (he : e.isMap = true) (hs : s.documents = before ++ d :: after) :
    (Store.mk (before ++ after ++ [e])).withoutMaps = s.withoutMaps := by
  simp [withoutMaps, hs, hd, he]

end Store

namespace Reference

theorem NameRule.Reaches.kind_eq {rule : NameRule} (hrule : rule ∈ Rules.builtin.names)
    {d : Document} {id : Identity} (h : rule.Reaches d id) : id.type.kind = rule.type.kind := by
  have hkind : ∀ rule ∈ Rules.builtin.names, rule.type.kind ≠ "" := by decide
  have hsel := h.1
  simp only [ResourceType.selectedBy, Bool.and_eq_true, Bool.or_eq_true, decide_eq_true_eq] at hsel
  exact (hsel.2.resolve_left (hkind rule hrule)).symm

/-- The builtin references that could reach the identity and held its name at the start hold the
given name now. -/
def UsersHold (id : Identity) (start s : Store) (name : String) : Prop :=
  ∀ rule ∈ Rules.builtin.names, ∀ (i : Nat) (d : Document) (q : Position),
    start.withoutMaps.documents[i]? = some d → rule.Reaches d id → rule.FieldHolds d q id.name →
      ∃ d', s.withoutMaps.documents[i]? = some d' ∧ d'.SameIdentity d ∧ rule.FieldHolds d' q name

theorem usersHold_append {id : Identity} {start s : Store} {ds : List Document}
    (h : s.documents = start.documents ++ ds) : UsersHold id start s id.name := by
  intro rule _ i d q hd _ hold
  refine ⟨d, ?_, .refl d, hold⟩
  have hdocs : s.withoutMaps.documents =
      start.withoutMaps.documents ++ ds.filter fun d => !d.isMap := by
    rw [Store.withoutMaps, h, List.filter_append]
    rfl
  obtain ⟨hi, -⟩ := List.getElem?_eq_some_iff.1 hd
  rw [hdocs, List.getElem?_append_left hi, hd]

namespace UsersHold

variable {id : Identity} {start s s' : Store} {name new : String} {renames : List Rename} {n : Nat}
  (users : UsersHold id start s name) (h : repair .builtin renames s = .ok (s', n))

include users h

theorem repair_of_each (each : ∀ rule ∈ Rules.builtin.names, ∀ (d d' : Document) (q : Position),
    rule.Reaches d id → rule.FieldHolds d q name → repaired .builtin renames d = .ok d' →
      rule.FieldHolds d' q new) : UsersHold id start s' new := by
  intro rule hrule i d q hd hreach hold
  obtain ⟨d₁, hd₁, hsame, hold₁⟩ := users rule hrule i d q hd hreach hold
  obtain ⟨n', hrepair⟩ := Store.repair_withoutMaps h
  obtain ⟨d₂, hd₂, hrepaired⟩ := repaired_getElem? hrepair hd₁
  have hsame₂ := sameIdentity_repaired hrepaired
  have hreach₁ : rule.Reaches d₁ id := ⟨hreach.1, hsame.ns_eq ▸ hreach.2⟩
  exact ⟨d₂, hd₂, hsame₂.trans hsame, each rule hrule d₁ d₂ q hreach₁ hold₁ hrepaired⟩

theorem repair_of_renamed (hne : name ≠ "") (renamed : ⟨id.withName name, new⟩ ∈ renames)
    (only : ∀ r ∈ renames, r.old.type.kind = id.type.kind → r.old.name = name → r.new = new) :
    UsersHold id start s' new := by
  refine users.repair_of_each h fun rule hrule d d' q hreach hold hrepaired => ?_
  refine hold.repaired_of_renamed hrule hrepaired hne ⟨_, renamed, hreach, rfl⟩ fun r hr hr' => ?_
  exact only r hr ((hr'.kind_eq hrule).trans (hreach.kind_eq hrule).symm)

theorem repair_of_other (all : name.toList.all isNameChar = true)
    (other : ∀ r ∈ renames, r.old.type.kind = id.type.kind → r.old.name ≠ name) :
    UsersHold id start s' name := by
  refine users.repair_of_each h fun rule hrule d d' q hreach hold hrepaired => ?_
  refine hold.repaired_of_not_stands hrule hrepaired fun r hr hr' hstands => ?_
  exact other r hr ((hr'.kind_eq hrule).trans (hreach.kind_eq hrule).symm)
    (String.toList_inj.1 (hstands.eq_of_all all))

end UsersHold

end Reference

end Manifest
