import Manifest.Proofs.Json.NumberText
import Manifest.Proofs.Tree.Texts

namespace Manifest

namespace Decimal

def reread? (d : Decimal) : Option Tree :=
  if d.isFinite then (Json.readNumber? (d.write Json.decimalStyle)).map Prod.fst else some .null

end Decimal

namespace Tree

mutual

def depth : Tree → Nat
  | .list items => depthItems items + 1
  | .map es => depthEntries es + 1
  | _ => 0

def depthItems : List Tree → Nat
  | [] => 0
  | t :: ts => max (depth t) (depthItems ts)

def depthEntries : List (String × Tree) → Nat
  | [] => 0
  | (_, t) :: es => max (depth t) (depthEntries es)

end

mutual

/-- What reading makes of a written tree: only its decimals can differ. -/
def reread? : Tree → Option Tree
  | .decimal d => d.reread?
  | .list items => (rereadItems? items).map .list
  | .map es => (rereadEntries? es).map .map
  | t => some t

def rereadItems? : List Tree → Option (List Tree)
  | [] => some []
  | t :: ts => (reread? t).bind fun t => (rereadItems? ts).map (t :: ·)

def rereadEntries? : List (String × Tree) → Option (List (String × Tree))
  | [] => some []
  | (k, t) :: es => (reread? t).bind fun t => (rereadEntries? es).map ((k, t) :: ·)

end

mutual

def decimals : Tree → List Decimal
  | .decimal d => [d]
  | .list items => decimalsItems items
  | .map es => decimalsEntries es
  | _ => []

def decimalsItems : List Tree → List Decimal
  | [] => []
  | t :: ts => decimals t ++ decimalsItems ts

def decimalsEntries : List (String × Tree) → List Decimal
  | [] => []
  | (_, t) :: es => decimals t ++ decimalsEntries es

end

mutual

theorem decimals_eq_nil : (t : Tree) → t.DecimalFree → t.decimals = []
  | .list items, h => decimalsItems_eq_nil items h
  | .map es, h => decimalsEntries_eq_nil es h
  | .decimal _, h => h.elim
  | .null, _ | .boolean _, _ | .integer _, _ | .text _, _ => rfl

theorem decimalsItems_eq_nil : (ts : List Tree) → DecimalFreeItems ts → decimalsItems ts = []
  | [], _ => rfl
  | t :: ts, h => List.append_eq_nil_iff.2 ⟨decimals_eq_nil t h.1, decimalsItems_eq_nil ts h.2⟩

theorem decimalsEntries_eq_nil :
    (es : List (String × Tree)) → DecimalFreeEntries es → decimalsEntries es = []
  | [], _ => rfl
  | (_, t) :: es, h =>
    List.append_eq_nil_iff.2 ⟨decimals_eq_nil t h.1, decimalsEntries_eq_nil es h.2⟩

end

mutual

theorem reread?_eq_self_iff :
    (t : Tree) → (t.reread? = some t ↔ ∀ d ∈ t.decimals, d.reread? = some (.decimal d))
  | .list items => by
    rw [reread?, decimals, ← rereadItems?_eq_self_iff items]
    cases rereadItems? items <;> simp
  | .map es => by
    rw [reread?, decimals, ← rereadEntries?_eq_self_iff es]
    cases rereadEntries? es <;> simp
  | .decimal d => by simp [reread?, decimals]
  | .null | .boolean _ | .integer _ | .text _ => by simp [reread?, decimals]

theorem rereadItems?_eq_self_iff : (ts : List Tree) →
    (rereadItems? ts = some ts ↔ ∀ d ∈ decimalsItems ts, d.reread? = some (.decimal d))
  | [] => by simp [rereadItems?, decimalsItems]
  | t :: ts => by
    rw [rereadItems?, decimalsItems, List.forall_mem_append, ← reread?_eq_self_iff t,
      ← rereadItems?_eq_self_iff ts]
    cases reread? t <;> cases rereadItems? ts <;> simp

theorem rereadEntries?_eq_self_iff : (es : List (String × Tree)) →
    (rereadEntries? es = some es ↔ ∀ d ∈ decimalsEntries es, d.reread? = some (.decimal d))
  | [] => by simp [rereadEntries?, decimalsEntries]
  | (k, t) :: es => by
    rw [rereadEntries?, decimalsEntries, List.forall_mem_append, ← reread?_eq_self_iff t,
      ← rereadEntries?_eq_self_iff es]
    cases reread? t <;> cases rereadEntries? es <;> simp

end

theorem reread?_of_decimalFree {t : Tree} (h : t.DecimalFree) : t.reread? = some t := by
  rw [reread?_eq_self_iff, decimals_eq_nil t h]
  exact fun _ hd => absurd hd List.not_mem_nil

theorem keys_of_rereadEntries? {es es' : Entries Tree} (h : rereadEntries? es = some es') :
    Entries.keys es' = Entries.keys es := by
  induction es generalizing es' with
  | nil => cases h; rfl
  | cons e es ih =>
    obtain ⟨k, t⟩ := e
    rw [rereadEntries?, Option.bind_eq_some_iff] at h
    obtain ⟨u, -, h⟩ := h
    obtain ⟨fs, hfs, rfl⟩ := Option.map_eq_some_iff.1 h
    exact congrArg (k :: ·) (ih hfs)

end Tree

namespace Json

open Tree

theorem opens?_of_numberText {cs : List Char} (h : NumberText cs) :
    ∃ c ds, cs = c :: ds ∧ opens? c = some "integer" := by
  obtain @⟨sign, whole, part, exponent, hsign, hwhole, -, -⟩ := h
  obtain ⟨c, ds, rfl⟩ := List.exists_cons_of_ne_nil hwhole.1
  cases hsign with
  | absent => exact ⟨c, _, rfl, opens?_of_isDigit (hwhole.2 c List.mem_cons_self)⟩
  | minus => exact ⟨'-', _, rfl, rfl⟩

theorem exists_write_eq_opens (t : Tree) :
    ∃ c cs, write t = c :: cs ∧ (opens? c).isSome := by
  cases t with
  | decimal d =>
    have hwrite : write (.decimal d) = writeDecimal d := by simp [write, writeScalar]
    rw [hwrite, writeDecimal]
    split
    · rename_i hfinite
      obtain ⟨c, cs, h, hc⟩ := opens?_of_numberText (numberText_write hfinite)
      exact ⟨c, cs, h, by rw [hc]; rfl⟩
    · exact ⟨_, _, rfl, rfl⟩
  | integer n =>
    obtain ⟨c, cs, h, hc⟩ := exists_write_eq_cons (t := .integer n) trivial
    exact ⟨c, cs, h, by rw [hc]; rfl⟩
  | boolean b => cases b <;> exact ⟨_, _, rfl, rfl⟩
  | _ => exact ⟨_, _, rfl, rfl⟩

theorem isSpace_eq_false {c : Char} (h : (opens? c).isSome) : isSpace c = false := by
  rw [isSpace]
  simp only [Bool.or_eq_false_iff, decide_eq_false_iff_not]
  refine ⟨⟨⟨?_, ?_⟩, ?_⟩, ?_⟩ <;> (rintro rfl; revert h; decide)

theorem skipSpace_cons {c : Char} (h : isSpace c = false) (cs : List Char) :
    skipSpace (c :: cs) = c :: cs := List.dropWhile_cons_of_neg (by simp [h])

theorem skipSpace_write (t : Tree) (rest : List Char) :
    skipSpace (write t ++ rest) = write t ++ rest := by
  obtain ⟨c, cs, h, hc⟩ := exists_write_eq_opens t
  rw [h, List.cons_append, skipSpace_cons (isSpace_eq_false hc)]

theorem skipSpace_writeString (s : String) (rest : List Char) :
    skipSpace (writeString s ++ rest) = writeString s ++ rest := skipSpace_cons rfl _

theorem delimited_writeMoreItems (ts : List Tree) (rest : List Char) :
    Delimited (writeMoreItems ts ++ ']' :: rest) := by
  cases ts <;> (rintro _ ⟨⟩; decide)

theorem delimited_writeMoreEntries (es : Entries Tree) (rest : List Char) :
    Delimited (writeMoreEntries es ++ '}' :: rest) := by
  cases es <;> (rintro _ ⟨⟩; decide)

theorem readScalar?_number {cs : List Char} (h : NumberText cs) (rest : List Char) :
    readScalar? (cs ++ rest) = readNumber? (cs ++ rest) := by
  obtain ⟨c, ds, rfl, hc⟩ := opens?_of_numberText h
  have hne : ∀ c', opens? c' ≠ some "integer" → c ≠ c' := by
    rintro _ hc' rfl
    exact hc' hc
  rw [List.cons_append, readScalar?, if_neg (hne _ (by decide)), if_neg (hne _ (by decide)),
    if_neg (hne _ (by decide)), if_neg (hne _ (by decide))]

theorem exists_write_eq_scalar {t : Tree} (h : t.isScalar = true) :
    ∃ c cs, write t = c :: cs ∧ c ≠ '[' ∧ c ≠ '{' := by
  have hnumber : ∀ {cs}, NumberText cs → ∃ c ds, cs = c :: ds ∧ c ≠ '[' ∧ c ≠ '\x7b' := by
    intro cs hcs
    obtain ⟨c, ds, rfl, hc⟩ := opens?_of_numberText hcs
    refine ⟨c, ds, rfl, ?_, ?_⟩ <;> (rintro rfl; revert hc; decide)
  cases t with
  | list _ | map _ => cases h
  | null | text _ => exact ⟨_, _, rfl, by decide, by decide⟩
  | boolean b => cases b <;> exact ⟨_, _, rfl, by decide, by decide⟩
  | integer n =>
    have hwrite : write (.integer n) = Text.writeInt n.toInt := by simp [write, writeScalar]
    rw [hwrite]
    exact hnumber (numberText_writeInt _)
  | decimal d =>
    have hwrite : write (.decimal d) = writeDecimal d := by simp [write, writeScalar]
    rw [hwrite, writeDecimal]
    split
    · exact hnumber (numberText_write ‹_›)
    · exact ⟨_, _, rfl, by decide, by decide⟩

theorem readValue_of_isScalar {t : Tree} (h : t.isScalar = true) (n : Nat) (rest : List Char) :
    readValue n (write t ++ rest) = readScalar? (write t ++ rest) := by
  obtain ⟨c, cs, hwrite, hlist, hmap⟩ := exists_write_eq_scalar h
  rw [hwrite, List.cons_append]
  cases n with
  | zero => rw [readValue, if_neg (by simp [hlist, hmap])]
  | succ n =>
    rw [readValue]
    · rintro ds ⟨⟩
      exact hlist rfl
    · rintro ds ⟨⟩
      exact hmap rfl

theorem readScalar?_write {t : Tree} (h : t.isScalar = true) {rest : List Char}
    (hrest : Delimited rest) :
    readScalar? (write t ++ rest) = t.reread?.map fun u => (u, rest) := by
  cases t with
  | list _ | map _ => cases h
  | null => rfl
  | boolean b => cases b <;> rfl
  | text s =>
    have hread : readScalar? (write (.text s) ++ rest) =
        (readString? (writeString s ++ rest)).map fun p => (.text p.1, p.2) := rfl
    rw [hread, readString?_writeString]
    rfl
  | integer n =>
    have hwrite : write (.integer n) = Text.writeInt n.toInt := by simp [write, writeScalar]
    rw [hwrite, readScalar?_number (numberText_writeInt _),
      readNumber?_append (numberText_writeInt _) hrest, readNumber?_writeInt]
    rfl
  | decimal d =>
    have hwrite : write (.decimal d) = writeDecimal d := by simp [write, writeScalar]
    rw [hwrite, writeDecimal, reread?, Decimal.reread?]
    split
    · rename_i hfinite
      have hnumber := numberText_write hfinite
      rw [readScalar?_number hnumber, readNumber?_append hnumber hrest, Option.map_map]
      rfl
    · rfl

theorem length_le_writeMoreItems (ts : List Tree) : ts.length ≤ (writeMoreItems ts).length := by
  induction ts with
  | nil => exact Nat.zero_le _
  | cons t ts ih =>
    rw [writeMoreItems, List.length_cons, List.length_cons, List.length_append]
    omega

theorem length_le_writeItems (ts : List Tree) : ts.length ≤ (writeItems ts).length + 1 :=
  match ts with
  | [] => Nat.zero_le _
  | t :: ts => length_le_writeMoreItems (t :: ts)

theorem length_le_writeMoreEntries (es : Entries Tree) :
    es.length ≤ (writeMoreEntries es).length := by
  induction es with
  | nil => exact Nat.zero_le _
  | cons e es ih =>
    rw [writeMoreEntries, List.length_cons, List.length_cons, List.length_append, List.length_cons,
      List.length_append]
    omega

theorem length_le_writeEntries (es : Entries Tree) : es.length ≤ (writeEntries es).length + 1 :=
  match es with
  | [] => Nat.zero_le _
  | e :: es => length_le_writeMoreEntries (e :: es)

section Round

variable {item : List Char → Option (Tree × List Char)} {t : Tree} {rest : List Char}

theorem readItems_last {r : Option Tree}
    (h : item (write t ++ ']' :: rest) = r.map fun u => (u, ']' :: rest)) (fuel : Nat) :
    readItems item (fuel + 1) (write t ++ ']' :: rest) = r.map fun u => ([u], rest) := by
  rw [readItems, skipSpace_write, h]
  cases r with
  | none => rfl
  | some u => rfl

theorem readItems_more {r : Option Tree} {cs : List Char}
    (h : item (write t ++ ',' :: cs) = r.map fun u => (u, ',' :: cs)) (fuel : Nat) :
    readItems item (fuel + 1) (write t ++ ',' :: cs) =
      r.bind fun u => (readItems item fuel cs).map fun p => (u :: p.1, p.2) := by
  rw [readItems, skipSpace_write, h]
  cases r with
  | none => rfl
  | some u => exact Option.map_eq_bind.symm

theorem readEntries_last {k : String} {r : Option Tree}
    (h : item (write t ++ '}' :: rest) = r.map fun u => (u, '}' :: rest)) (fuel : Nat) :
    readEntries item (fuel + 1) (writeString k ++ ':' :: (write t ++ '}' :: rest)) =
      r.map fun u => ([(k, u)], rest) := by
  have hcolon : skipSpace (':' :: (write t ++ '}' :: rest)) = ':' :: (write t ++ '}' :: rest) :=
    skipSpace_cons rfl _
  rw [readEntries, skipSpace_writeString, readString?_writeString]
  simp only [Option.bind_eq_bind, Option.bind_some, hcolon, skipSpace_write, h]
  cases r with
  | none => rfl
  | some u => rfl

theorem readEntries_more {k : String} {r : Option Tree} {cs : List Char}
    (h : item (write t ++ ',' :: cs) = r.map fun u => (u, ',' :: cs)) (fuel : Nat) :
    readEntries item (fuel + 1) (writeString k ++ ':' :: (write t ++ ',' :: cs)) =
      r.bind fun u => (readEntries item fuel cs).map fun p => ((k, u) :: p.1, p.2) := by
  have hcolon : skipSpace (':' :: (write t ++ ',' :: cs)) = ':' :: (write t ++ ',' :: cs) :=
    skipSpace_cons rfl _
  rw [readEntries, skipSpace_writeString, readString?_writeString]
  simp only [Option.bind_eq_bind, Option.bind_some, hcolon, skipSpace_write, h]
  cases r with
  | none => rfl
  | some u => exact Option.map_eq_bind.symm

end Round

def readBack? (n : Nat) (t : Tree) : Option Tree := if t.depth ≤ n then t.reread? else none

def readBackItems? (n : Nat) (ts : List Tree) : Option (List Tree) :=
  if depthItems ts ≤ n then rereadItems? ts else none

def readBackEntries? (n : Nat) (es : Entries Tree) : Option (Entries Tree) :=
  if depthEntries es ≤ n then rereadEntries? es else none

theorem readBackItems?_cons (n : Nat) (t : Tree) (ts : List Tree) :
    readBackItems? n (t :: ts) =
      (readBack? n t).bind fun t => (readBackItems? n ts).map (t :: ·) := by
  simp only [readBackItems?, readBack?, depthItems, rereadItems?, Nat.max_le, ite_and]
  split
  · split
    · rfl
    · cases t.reread? <;> rfl
  · rfl

theorem readBackEntries?_cons (n : Nat) (k : String) (t : Tree) (es : Entries Tree) :
    readBackEntries? n ((k, t) :: es) =
      (readBack? n t).bind fun t => (readBackEntries? n es).map ((k, t) :: ·) := by
  simp only [readBackEntries?, readBack?, depthEntries, rereadEntries?, Nat.max_le, ite_and]
  split
  · split
    · rfl
    · cases t.reread? <;> rfl
  · rfl

theorem keys_of_readBackEntries? {n : Nat} {es fs : Entries Tree}
    (h : readBackEntries? n es = some fs) : Entries.keys fs = Entries.keys es := by
  rw [readBackEntries?] at h
  split at h
  · exact keys_of_rereadEntries? h
  · cases h

theorem readBack?_of_isScalar {t : Tree} (h : t.isScalar = true) (n : Nat) :
    readBack? n t = t.reread? := by
  cases t with
  | list _ | map _ => cases h
  | _ => exact if_pos (Nat.zero_le n)

theorem readBack?_list (n : Nat) (ts : List Tree) :
    readBack? (n + 1) (.list ts) = (readBackItems? n ts).map .list := by
  simp only [readBack?, readBackItems?, depth, reread?, Nat.add_le_add_iff_right]
  split <;> rfl

theorem readBack?_map (n : Nat) (es : Entries Tree) :
    readBack? (n + 1) (.map es) = (readBackEntries? n es).map .map := by
  simp only [readBack?, readBackEntries?, depth, reread?, Nat.add_le_add_iff_right]
  split <;> rfl

theorem readValue_list {items : List Tree} (hne : items ≠ []) (cs : List Char) (n : Nat) :
    readValue (n + 1) ('[' :: (writeItems items ++ cs)) =
      (readItems (readValue n) ((writeItems items ++ cs).length + 1) (writeItems items ++ cs)).map
        fun p => (.list p.1, p.2) := by
  obtain ⟨t, ts, rfl⟩ := List.exists_cons_of_ne_nil hne
  have hclose : ∀ ds, write t ++ (writeMoreItems ts ++ cs) ≠ ']' :: ds := by
    intro ds heq
    obtain ⟨c, ws, hwrite, hc⟩ := exists_write_eq_opens t
    rw [hwrite, List.cons_append] at heq
    obtain ⟨rfl, -⟩ := List.cons.inj heq
    revert hc
    decide
  rw [writeItems, List.append_assoc, readValue, skipSpace_write]
  split
  · exact absurd ‹_› (hclose _)
  · rfl

theorem readValue_map {es : Entries Tree} (hne : es ≠ []) (cs : List Char) (n : Nat) :
    readValue (n + 1) ('\x7b' :: (writeEntries es ++ cs)) =
      (readEntries (readValue n) ((writeEntries es ++ cs).length + 1) (writeEntries es ++ cs)).map
        fun p => (.map (Entries.insertAll [] p.1), p.2) := by
  obtain ⟨⟨k, t⟩, es, rfl⟩ := List.exists_cons_of_ne_nil hne
  rfl

mutual

theorem readValue_write : (t : Tree) → t.WellFormed → (n : Nat) → {rest : List Char} →
    Delimited rest → readValue n (write t ++ rest) = (readBack? n t).map fun u => (u, rest)
  | .list items, wf, 0, rest, _ => rfl
  | .map es, wf, 0, rest, _ => rfl
  | .list [], wf, n + 1, rest, _ => by
    rw [readBack?_list]
    rfl
  | .list (t :: ts), wf, n + 1, rest, _ => by
    have hne : t :: ts ≠ [] := List.cons_ne_nil t ts
    have hlength := length_le_writeItems (t :: ts)
    rw [write, List.cons_append, List.append_assoc, List.singleton_append, readValue_list hne,
      readItems_write (t :: ts) hne wf n _ (by rw [List.length_append]; omega), readBack?_list,
      Option.map_map, Option.map_map]
    rfl
  | .map [], wf, n + 1, rest, _ => by
    rw [readBack?_map]
    rfl
  | .map (e :: es), wf, n + 1, rest, _ => by
    have hne : e :: es ≠ [] := List.cons_ne_nil e es
    have hlength := length_le_writeEntries (e :: es)
    rw [write, List.cons_append, List.append_assoc, List.singleton_append, readValue_map hne,
      readEntries_write (e :: es) hne wf.2 n _ (by rw [List.length_append]; omega), readBack?_map,
      Option.map_map, Option.map_map]
    -- the entries are inserted one by one, so that equal keys would be merged
    refine Option.map_congr fun fs hfs => ?_
    have hdistinct : Entries.Distinct ([] ++ fs) := by
      rw [List.nil_append, Entries.Distinct, keys_of_readBackEntries? hfs]
      exact wf.1
    exact congrArg (fun fs => (Tree.map fs, rest)) (Entries.insertAll_of_distinct hdistinct)
  | .null, _, n, rest, hrest
  | .boolean b, _, n, rest, hrest
  | .integer i, _, n, rest, hrest
  | .decimal d, _, n, rest, hrest
  | .text s, _, n, rest, hrest => by
    rw [readValue_of_isScalar rfl, readBack?_of_isScalar rfl, readScalar?_write rfl hrest]

theorem readItems_write : (ts : List Tree) → ts ≠ [] → WellFormedItems ts → (n fuel : Nat) →
    ts.length ≤ fuel → (rest : List Char) →
    readItems (readValue n) fuel (writeItems ts ++ ']' :: rest) =
      (readBackItems? n ts).map fun us => (us, rest)
  | [], hne, _, _, _, _, _ => absurd rfl hne
  | [t], _, wf, n, fuel + 1, _, rest => by
    have ht := readValue_write t wf.1 n (delimited_writeMoreItems [] rest)
    rw [readBackItems?_cons, writeItems, writeMoreItems, List.append_nil]
    exact (readItems_last ht fuel).trans (by cases readBack? n t <;> rfl)
  | t :: u :: us, _, wf, n, fuel + 1, hfuel, rest => by
    have ht := readValue_write t wf.1 n (delimited_writeMoreItems (u :: us) rest)
    have hus := readItems_write (u :: us) (List.cons_ne_nil _ _) wf.2 n fuel
      (Nat.le_of_succ_le_succ hfuel) rest
    have hmore : writeMoreItems (u :: us) = ',' :: writeItems (u :: us) := rfl
    rw [hmore, List.cons_append] at ht
    rw [readBackItems?_cons, writeItems, hmore, List.append_assoc, List.cons_append,
      readItems_more ht, hus]
    cases readBack? n t with
    | none => rfl
    | some v => cases readBackItems? n (u :: us) <;> rfl

theorem readEntries_write : (es : List (String × Tree)) → es ≠ [] → WellFormedEntries es →
    (n fuel : Nat) → es.length ≤ fuel → (rest : List Char) →
    readEntries (readValue n) fuel (writeEntries es ++ '\x7d' :: rest) =
      (readBackEntries? n es).map fun fs => (fs, rest)
  | [], hne, _, _, _, _, _ => absurd rfl hne
  | [(k, t)], _, wf, n, fuel + 1, _, rest => by
    have ht := readValue_write t wf.1 n (delimited_writeMoreEntries [] rest)
    rw [readBackEntries?_cons, writeEntries, writeMoreEntries, List.append_nil, List.append_assoc,
      List.cons_append]
    exact (readEntries_last ht fuel).trans (by cases readBack? n t <;> rfl)
  | (k, t) :: (l, u) :: es, _, wf, n, fuel + 1, hfuel, rest => by
    have ht := readValue_write t wf.1 n (delimited_writeMoreEntries ((l, u) :: es) rest)
    have hes := readEntries_write ((l, u) :: es) (List.cons_ne_nil _ _) wf.2 n fuel
      (Nat.le_of_succ_le_succ hfuel) rest
    have hmore : writeMoreEntries ((l, u) :: es) = ',' :: writeEntries ((l, u) :: es) := rfl
    rw [hmore, List.cons_append] at ht
    rw [readBackEntries?_cons, writeEntries, hmore, List.append_assoc, List.cons_append,
      List.append_assoc, List.cons_append, readEntries_more ht, hes]
    cases readBack? n t with
    | none => rfl
    | some v => cases readBackEntries? n ((l, u) :: es) <;> rfl

end

theorem parse?_render {t : Tree} (wf : t.WellFormed) :
    parse? (render t) = readBack? maxDepth t := by
  have hread := readValue_write t wf maxDepth delimited_nil
  rw [List.append_nil] at hread
  have hspace : skipSpace (write t) = write t := by
    simpa using skipSpace_write t []
  rw [parse?, render, String.toList_ofList, read?, hspace, hread]
  cases readBack? maxDepth t <;> rfl

theorem parse?_render_of_decimalFree {t : Tree} (wf : t.WellFormed) (free : t.DecimalFree) :
    parse? (render t) = if t.depth ≤ maxDepth then some t else none := by
  rw [parse?_render wf, readBack?, reread?_of_decimalFree free]

def awkward : Tree := .map
  [("z", .list [.integer Int64.minValue, .integer Int64.maxValue, .integer 0]),
    ("a\"\\\n\x01", .text "-0"),
    ("", .list [.text "1e5", .text "null", .list [], .map [], .null, .boolean false]),
    ("é€😀", .map [("\x7f", .text "\t")])]

theorem parse?_render_awkward :
    awkward.WellFormed ∧ awkward.DecimalFree ∧ awkward.depth = 3 ∧
      parse? (render awkward) = some awkward := by
  have wf : awkward.WellFormed := by decide
  have free : awkward.DecimalFree := by
    simp [awkward, DecimalFree, DecimalFreeItems, DecimalFreeEntries]
  exact ⟨wf, free, by decide, parse?_render_of_decimalFree wf free⟩

end Json

end Manifest
