import Manifest.EncodedField
import Manifest.Proofs.FieldPath.Creating
import Manifest.Proofs.Text.Base64

namespace Manifest

namespace EncodedField

theorem get!_eq_getElem {bytes : ByteArray} {i : Nat} (h : i < bytes.data.toList.length) :
    bytes.get! i = bytes.data.toList[i] := by
  obtain ⟨data⟩ := bytes
  exact getElem!_pos data i (by simpa using h)

theorem toList_loop (bytes : ByteArray) (i : Nat) (r : List UInt8) :
    ByteArray.toList.loop bytes i r = r.reverse ++ bytes.data.toList.drop i := by
  fun_induction ByteArray.toList.loop bytes i r with
  | case1 i r h ih =>
    have hi : i < bytes.data.toList.length := by simpa using h
    rw [ih, List.drop_eq_getElem_cons hi, get!_eq_getElem hi, List.reverse_cons, List.append_assoc]
    rfl
  | case2 i r h =>
    have hle : bytes.data.toList.length ≤ i := by simpa using h
    rw [List.drop_eq_nil_of_le hle, List.append_nil]

theorem toList_eq (bytes : ByteArray) : bytes.toList = bytes.data.toList := by
  rw [ByteArray.toList, toList_loop]
  rfl

theorem fromUTF8?_eq_some_iff {bytes : List UInt8} {s : String} :
    String.fromUTF8? ⟨bytes.toArray⟩ = some s ↔ bytes = s.toUTF8.toList := by
  rw [toList_eq]
  constructor
  · intro h
    rw [String.fromUTF8?] at h
    split at h
    · obtain rfl := Option.some.inj h
      rfl
    · cases h
  · rintro rfl
    have hvalid : s.toUTF8.IsValidUTF8 := s.isValidUTF8
    exact dif_pos hvalid

theorem decode?_eq_some_iff {encoded plain : String} :
    decode? encoded = some plain ↔ (encoded.toList.filter fun c => !Text.isBlank c) =
      Text.Base64.encode plain.toUTF8.toList := by
  rw [decode?, Option.bind_eq_bind, Option.bind_eq_some_iff]
  constructor
  · rintro ⟨bytes, hbytes, hplain⟩
    rw [Text.Base64.decode?_eq_some_iff.1 hbytes, fromUTF8?_eq_some_iff.1 hplain]
  · intro h
    exact ⟨_, Text.Base64.decode?_eq_some_iff.2 h, fromUTF8?_eq_some_iff.2 rfl⟩

theorem filter_encode (plain : String) :
    ((encode plain).toList.filter fun c => !Text.isBlank c) = (encode plain).toList := by
  rw [encode, String.toList_ofList, List.filter_eq_self]
  intro c hc
  rw [Text.Base64.not_blank_of_mem_encode c hc]
  rfl

theorem decode?_encode (plain : String) : decode? (encode plain) = some plain := by
  rw [decode?_eq_some_iff, filter_encode, encode, String.toList_ofList]

theorem encode_eq_iff {encoded plain : String} (h : decode? encoded = some plain) :
    encode plain = encoded ↔ ∀ c ∈ encoded.toList, Text.isBlank c = false := by
  rw [decode?_eq_some_iff] at h
  have hfilter : (encode plain).toList = encoded.toList.filter fun c => !Text.isBlank c := by
    rw [h, encode, String.toList_ofList]
  rw [← String.toList_inj, hfilter, List.filter_eq_self]
  simp

def decoded? : Tree → Option Tree
  | .text encoded => (decode? encoded).map .text
  | t => some t

/-- A node holds what an edit returned: a scalar as base 64 of its text form, any other node as it
is. -/
inductive Holds : Tree → Tree → Prop
  | encoded {v plain e} : v.text? = some plain → decode? e = some plain → Holds v (.text e)
  | plain {v} : v.text? = none → Holds v v

/-- What becomes of a node when an edit of its content returned `v`: texts and null are encoded
again, and other nodes, which were not decoded, are replaced. -/
def Restored : Tree → Tree → Tree → Prop
  | .text _, v, w | .null, v, w => Holds v w
  | _, v, w => w = v

theorem holds_restore (v : Tree) : Holds v (restore v) := by
  rw [restore]
  split
  · exact .encoded ‹_› (decode?_encode _)
  · exact .plain ‹_›

theorem decoded?_of_restored {u v w : Tree} (hu : decoded? u = some v) (h : Restored u v w) :
    decoded? w = some v := by
  cases u with
  | text e =>
    obtain ⟨x, -, rfl⟩ := Option.map_eq_some_iff.1 hu
    cases h with
    | encoded hx he =>
      obtain rfl := Option.some.inj hx
      exact congrArg (Option.map Tree.text) he
    | plain hx => cases hx
  | null =>
    obtain rfl := Option.some.inj hu
    cases h with
    | encoded hx => cases hx
    | plain => rfl
  | _ =>
    obtain rfl := Option.some.inj hu
    obtain rfl := h
    rfl

variable {σ : Type} {p : FieldPath} {edit : Edit σ} {u : Tree} {us : List Tree} {s s' : σ}

theorem exists_text_of_decoded? (h : decoded? u = none) : ∃ e, u = .text e ∧ decode? e = none := by
  cases u with
  | text e => exact ⟨e, rfl, Option.map_eq_none_iff.1 h⟩
  | _ => cases h

theorem run_decoding_of_none (h : decoded? u = none) :
    (decoding p edit u).run s = (.error (.encoding p.source), s) := by
  obtain ⟨e, rfl, he⟩ := exists_text_of_decoded? h
  rw [decoding, he]
  rfl

def restored : Tree → Tree → Tree
  | .text _, v | .null, v => restore v
  | _, v => v

theorem restored_spec (u v : Tree) : Restored u v (restored u v) := by
  cases u with
  | text _ | null => exact holds_restore v
  | _ => rfl

theorem run_bind_restore (x : ExceptT Error (StateM σ) Tree) (s : σ) :
    (do return restore (← x) : ExceptT Error (StateM σ) Tree).run s =
      ((x.run s).1.map restore, (x.run s).2) := by
  rw [run_bind]
  cases x.run s with
  | mk r s' => cases r <;> rfl

theorem run_decoding_of_some {v : Tree} (h : decoded? u = some v) :
    (decoding p edit u).run s =
      (((edit v).run s).1.map (restored u), ((edit v).run s).2) := by
  cases u with
  | text e =>
    obtain ⟨plain, hplain, rfl⟩ := Option.map_eq_some_iff.1 h
    rw [decoding, hplain]
    exact run_bind_restore _ s
  | null =>
    obtain rfl := Option.some.inj h
    exact run_bind_restore _ s
  | _ =>
    obtain rfl := Option.some.inj h
    rw [decoding]
    · cases (edit _).run s with
      | mk r s' => cases r <;> rfl
    all_goals simp

inductive DecodedCalls (p : FieldPath) (edit : Edit σ) (us : List Tree) (s : σ) :
    Except Error (List Tree) → σ → Prop
  | undecodable {before e after plains vs s'} : us = before ++ .text e :: after →
      before.map decoded? = plains.map some → decode? e = none →
      Calls edit plains s (.ok vs) s' → DecodedCalls p edit us s (.error (.encoding p.source)) s'
  | failed {before after plains e s'} : us = before ++ after →
      before.map decoded? = plains.map some → Calls edit plains s (.error e) s' →
      DecodedCalls p edit us s (.error e) s'
  | done {plains vs ws s'} : us.map decoded? = plains.map some → Calls edit plains s (.ok vs) s' →
      List.Forall₂ (fun x w => Restored x.1 x.2 w) (us.zip vs) ws →
      DecodedCalls p edit us s (.ok ws) s'

theorem DecodedCalls.cons {v x w : Tree} {s₁ : σ} {r : Except Error (List Tree)}
    (hu : decoded? u = some v) (hrun : (edit v).run s = (.ok x, s₁)) (hw : Restored u x w)
    (h : DecodedCalls p edit us s₁ r s') : DecodedCalls p edit (u :: us) s (r.map (w :: ·)) s' := by
  have hmap : ∀ {before plains : List Tree}, before.map decoded? = plains.map some →
      (u :: before).map decoded? = (v :: plains).map some := fun h => by
    rw [List.map_cons, List.map_cons, hu, h]
  cases h with
  | undecodable hus hplains he hcalls =>
    exact .undecodable (congrArg (u :: ·) hus) (hmap hplains) he (.ok hrun hcalls)
  | failed hus hplains hcalls =>
    exact .failed (congrArg (u :: ·) hus) (hmap hplains) (.ok hrun hcalls)
  | done hplains hcalls hrestored =>
    exact .done (hmap hplains) (.ok hrun hcalls) (.cons hw hrestored)

theorem decodedCalls {r : Except Error (List Tree)} (h : Calls (decoding p edit) us s r s') :
    DecodedCalls p edit us s r s' := by
  induction h with
  | nil =>
    have hnone : [].map decoded? = ([] : List Tree).map some := rfl
    exact .done hnone .nil .nil
  | @error u us s e s' hrun =>
    cases hu : decoded? u with
    | none =>
      obtain ⟨x, rfl, hx⟩ := exists_text_of_decoded? hu
      rw [run_decoding_of_none hu] at hrun
      cases hrun
      have hnone : [].map decoded? = ([] : List Tree).map some := rfl
      exact .undecodable rfl hnone hx .nil
    | some v =>
      rw [run_decoding_of_some hu] at hrun
      cases hv : (edit v).run s with
      | mk r s₁ =>
        rw [hv] at hrun
        cases r with
        | ok x => cases hrun
        | error e' =>
          cases hrun
          have hplains : [u].map decoded? = [v].map some := congrArg (· :: []) hu
          exact .failed (List.singleton_append.symm) hplains (.error hv)
  | @ok u us w s s₁ r s' hrun _ ih =>
    cases hu : decoded? u with
    | none =>
      rw [run_decoding_of_none hu] at hrun
      cases hrun
    | some v =>
      rw [run_decoding_of_some hu] at hrun
      cases hv : (edit v).run s with
      | mk r' s₂ =>
        rw [hv] at hrun
        cases r' with
        | error e => cases hrun
        | ok x =>
          cases hrun
          exact ih.cons hu hv (restored_spec u x)

/-- How an edit along a path into an encoded field ends: at the first node that blocks the walk, at
the first node that does not decode or for which the call fails, or with each result in its
place. -/
inductive Outcome (p : FieldPath) (create : Bool) (edit : Edit σ) (d : Document) (s : σ) :
    (Except Error Nat × Document) × σ → Prop
  | blocked {q m} : d.tree.FirstBlock p.segments q m →
      Outcome p create edit d s ((.error (m.toError p.source), d), s)
  | failed {ps us e s'} : (p.walked create d.tree).AddressedAt p.segments ps →
      ps.map (p.walked create d.tree).get? = us.map some →
      DecodedCalls p edit us s (.error e) s' → Outcome p create edit d s ((.error e, d), s')
  | edited {ps us ws t' s'} : (p.walked create d.tree).AddressedAt p.segments ps →
      ps.map (p.walked create d.tree).get? = us.map some →
      DecodedCalls p edit us s (.ok ws) s' → (ps = [] → t' = d.tree) →
      (ps ≠ [] → (p.walked create d.tree).Written ps ws t') →
      Outcome p create edit d s ((.ok us.length, { d with tree := t' }), s')

theorem run_apply (d : Document) (fields : List EncodedField) (p : FieldPath) (create : Bool)
    (edit : Edit σ) (s : σ) : ((Document.apply fields p create edit).call d).run s =
      let edit := if covers fields d.kind p then decoding p edit else edit
      let r := ((p.apply create edit).call d.tree).run s
      ((r.1.1, { d with tree := r.1.2 }), r.2) := by
  rw [Document.apply, InPlace.call_bind, InPlace.call_get, pure_bind]
  rfl

theorem run_applied (d : Document) (fields : List EncodedField) (p : FieldPath) (create : Bool)
    (edit : Edit σ) (s : σ) : (d.applied fields p create edit).run s =
      let edit := if covers fields d.kind p then decoding p edit else edit
      let r := (p.applied create edit d.tree).run s
      (r.1.map fun x => ({ d with tree := x.1 }, x.2), r.2) := by
  rw [Document.applied, InPlace.run_on, run_apply]
  dsimp only
  rw [FieldPath.run_applied]
  obtain ⟨⟨_ | _, _⟩, _⟩ := ((p.apply create _).call d.tree).run s <;> rfl

theorem run_apply_covered {fields : List EncodedField} {d : Document}
    (h : covers fields d.kind p = true) (create : Bool) (edit : Edit σ) (s : σ) :
    ((Document.apply fields p create edit).call d).run s =
      let r := ((p.apply create (decoding p edit)).call d.tree).run s
      ((r.1.1, { d with tree := r.1.2 }), r.2) := by
  rw [run_apply, if_pos h]

theorem applied_eq_ok {fields : List EncodedField} {d d' : Document} {create : Bool} {n : Nat}
    (h : ((d.applied fields p create edit).run s).1 = .ok (d', n)) :
    ∃ t, ((p.applied create (if covers fields d.kind p then decoding p edit else edit)
      d.tree).run s).1 = .ok (t, n) ∧ d' = { d with tree := t } := by
  rw [run_applied] at h
  obtain ⟨⟨t, k⟩, ht, hd⟩ := map_eq_ok.1 h
  obtain ⟨rfl, rfl⟩ := Prod.mk.inj hd
  exact ⟨t, ht, rfl⟩

theorem outcome_of_covers {fields : List EncodedField} {d : Document}
    (h : covers fields d.kind p = true) (create : Bool) (edit : Edit σ) (s : σ) :
    Outcome p create edit d s (((Document.apply fields p create edit).call d).run s) := by
  have hending := FieldPath.ending_apply p create (decoding p edit) d.tree s
  rw [run_apply_covered h]
  cases hrun : ((p.apply create (decoding p edit)).call d.tree).run s with
  | mk r s' =>
    rw [hrun] at hending
    cases hending with
    | blocked hblock => exact .blocked hblock
    | failed haddressed hnodes hcalls => exact .failed haddressed hnodes (decodedCalls hcalls)
    | edited haddressed hnodes hcalls hnone hwritten =>
      exact .edited haddressed hnodes (decodedCalls hcalls) hnone hwritten

theorem eq_of_calls_pure {vs : List Tree} {r : Except Error (List Tree)}
    (h : Calls (fun u => pure u : Edit σ) us s r s') (hr : r = .ok vs) : vs = us := by
  induction h generalizing vs with
  | nil => exact (Except.ok.inj hr).symm
  | error hrun => cases hr
  | ok hrun _ ih =>
    obtain ⟨ws, rfl, rfl⟩ := map_eq_ok.1 hr
    cases hrun
    rw [ih rfl]

theorem map_decoded?_of_restored {us vs ws : List Tree} (hus : us.map decoded? = vs.map some)
    (h : List.Forall₂ (fun x w => Restored x.1 x.2 w) (us.zip vs) ws) :
    ws.map decoded? = vs.map some := by
  induction us generalizing vs ws with
  | nil =>
    obtain rfl : vs = [] := by simpa using hus.symm
    cases h
    rfl
  | cons u us ih =>
    cases vs with
    | nil => cases hus
    | cons v vs =>
      obtain ⟨hu, hus⟩ := List.cons.inj hus
      cases h with
      | cons hw hws => rw [List.map_cons, decoded?_of_restored hu hw, ih hus hws, List.map_cons]

theorem decoded?_of_identity {fields : List EncodedField} {d d' : Document} {n : Nat} {s' : σ}
    (h : covers fields d.kind p = true) {create : Bool}
    (hrun : ((Document.apply fields p create (fun u => pure u : Edit σ)).call d).run s =
      ((.ok n, d'), s'))
    {q : Position} (hq : (p.walked create d.tree).Addresses true p.segments q) :
    ∃ v, ((p.walked create d.tree).get? q).bind decoded? = some v ∧
      (d'.tree.get? q).bind decoded? = some v := by
  have houtcome := outcome_of_covers h create (fun u => pure u : Edit σ) s
  rw [hrun] at houtcome
  cases houtcome with
  | @edited ps us ws t' _ haddressed hnodes hcalls _ hwritten =>
    have hmem := (haddressed.mem_iff q).2 hq
    cases hcalls with
    | @done plains vs _ _ hplains hcalls hrestored =>
      obtain rfl := eq_of_calls_pure hcalls rfl
      have hnew := (hwritten (List.ne_nil_of_mem hmem)).map_get?
      have hcontent := map_decoded?_of_restored hplains hrestored
      have hbind : ∀ {t : Tree} {us : List Tree}, ps.map t.get? = us.map some →
          us.map decoded? = vs.map some →
          ps.map (fun q => (t.get? q).bind decoded?) = vs.map some := by
        intro t us hnodes hcontent
        have := congrArg (List.map (Option.bind · decoded?)) hnodes
        rw [List.map_map, List.map_map] at this
        exact this.trans hcontent
      have hsome : ((p.walked create d.tree).get? q).bind decoded? ∈ vs.map some := by
        rw [← hbind hnodes hplains]
        exact List.mem_map_of_mem hmem
      obtain ⟨v, -, hv⟩ := List.mem_map.1 hsome
      have hsame :=
        List.map_inj_left.1 ((hbind hnodes hplains).trans (hbind hnew hcontent).symm) q hmem
      exact ⟨v, hv.symm, hsame.symm.trans hv.symm⟩

theorem edits_decoded_contents {fields : List EncodedField} {d : Document}
    (covered : covers fields d.kind p = true) (create : Bool) (edit : Edit σ) (s : σ) :
    Outcome p create edit d s (((Document.apply fields p create edit).call d).run s) ∧
      (∀ d' n s', ((Document.apply fields p create (fun u => pure u : Edit σ)).call d).run s =
          ((.ok n, d'), s') →
        ∀ q, (p.walked create d.tree).Addresses true p.segments q →
          ∃ v, ((p.walked create d.tree).get? q).bind decoded? = some v ∧
            (d'.tree.get? q).bind decoded? = some v) ∧
      (∀ encoded plain, decode? encoded = some plain ↔
        (encoded.toList.filter fun c => !Text.isBlank c) =
          Text.Base64.encode plain.toUTF8.toList) ∧
      (List.range 64).map Text.Base64.letter =
        "ABCDEFGHIJKLMNOPQRSTUVWXYZabcdefghijklmnopqrstuvwxyz0123456789+/".toList :=
  ⟨outcome_of_covers covered create edit s,
    fun _ _ _ hrun _ hq => decoded?_of_identity covered hrun hq,
    fun _ _ => decode?_eq_some_iff, by decide⟩

def exclaim : Edit Nat
  | .text s => do
    modify (· + 1)
    return .text (s ++ "!")
  | t => return t

def secretWithList (values : List Tree) : Document where
  tree := .map [("kind", .text "Secret"), ("data", .map [("values", .list values)])]

def listedValues : FieldPath := ⟨"data/values", [.field "data", .field "values"]⟩

def listedSecret : Document :=
  secretWithList [.text "YQ ==", .text "w6k=", .null, .text "YWJj\n"]

theorem edits_decoded_contents_listed :
    let run := ((Document.apply standard listedValues false exclaim).call listedSecret).run 0
    covers standard listedSecret.kind listedValues = true ∧ run.1.1.toOption = some 4 ∧
      run.1.2 = secretWithList [.text "YSE=", .text "w6kh", .null, .text "YWJjIQ=="] ∧
      Outcome listedValues false exclaim listedSecret 0 run := by
  have covered : covers standard listedSecret.kind listedValues = true := by decide
  exact ⟨covered, by decide +kernel, by decide +kernel,
    (edits_decoded_contents covered false exclaim 0).1⟩

end EncodedField

end Manifest
