import Manifest.Pattern.Replacement
import Manifest.Proofs.Success

/-! The program of a pattern notes where a match starts before anything else, and where it ends
right before it accepts.  A match that is found therefore lies in the text behind the place where
the search began, and all matches of a text are in order and do not overlap. -/

namespace Manifest.Pattern

def Instruction.Inner : Instruction → Prop
  | .chars _ next | .anchor _ next | .save _ next => next ≠ 0
  | .split first second => first ≠ 0 ∧ second ≠ 0
  | .accept => False

namespace Program

variable {code code' code'' : Program} {i : Instruction} {n : Nat}

structure Extends (code code' : Program) : Prop where
  size_le : code.size ≤ code'.size
  kept : ∀ n < code.size, code'[n]? = code[n]?
  inner : ∀ n i, code.size ≤ n → code'[n]? = some i → i.Inner

namespace Extends

theorem refl (code : Program) : Extends code code where
  size_le := Nat.le_refl _
  kept _ _ := rfl
  inner n i hn h := by
    rw [Array.getElem?_eq_none hn] at h
    cases h

theorem trans (h : Extends code code') (h' : Extends code' code'') : Extends code code'' where
  size_le := Nat.le_trans h.size_le h'.size_le
  kept n hn := (h'.kept n (Nat.lt_of_lt_of_le hn h.size_le)).trans (h.kept n hn)
  inner n i hn hi := by
    by_cases hlt : n < code'.size
    · exact h.inner n i hn ((h'.kept n hlt).symm.trans hi)
    · exact h'.inner n i (Nat.le_of_not_lt hlt) hi

theorem push (code : Program) (hi : i.Inner) : Extends code (code.push i) where
  size_le := by simp
  kept n hn := by rw [Array.getElem?_push_lt hn, Array.getElem?_eq_getElem hn]
  inner n j hn hj := by
    rw [Array.getElem?_push] at hj
    split at hj
    · cases hj
      exact hi
    · rw [Array.getElem?_eq_none hn] at hj
      cases hj

theorem set {j : Instruction} (hi : i.Inner) (h : Extends (code.push j) code') :
    Extends code (code'.setIfInBounds code.size i) where
  size_le := by
    have hsize := h.size_le
    simp at hsize ⊢
    omega
  kept n hn := by
    rw [Array.getElem?_setIfInBounds_ne (Nat.ne_of_gt hn), h.kept n (by simp; omega),
      Array.getElem?_push_lt hn, Array.getElem?_eq_getElem hn]
  inner n k hn hk := by
    rw [Array.getElem?_setIfInBounds] at hk
    split at hk
    · split at hk
      · cases hk
        exact hi
      · cases hk
    · exact h.inner n k (by simp; omega) hk

end Extends

structure Built (code : Program) (r : Program × Nat) : Prop where
  grows : Extends code r.1
  entry : r.2 ≠ 0

variable {r r' : Program × Nat} {body : Nat → Program → Program × Nat} {next : Nat}

theorem Built.size_ne_zero (h : Built code r) (hsize : code.size ≠ 0) : r.1.size ≠ 0 := by
  have hle := h.grows.size_le
  omega

theorem Built.trans (h : Built code r) (h' : Built r.1 r') : Built code r' :=
  ⟨h.grows.trans h'.grows, h'.entry⟩

theorem built_add (hi : i.Inner) (hsize : code.size ≠ 0) : Built code (code.add i) :=
  ⟨.push code hi, hsize⟩

def Adds (body : Nat → Program → Program × Nat) : Prop :=
  ∀ ⦃next code⦄, next ≠ 0 → code.size ≠ 0 → Built code (body next code)

theorem inner_choice {greedy : Bool} {inside outside : Nat} (hinside : inside ≠ 0)
    (houtside : outside ≠ 0) : (choice greedy inside outside).Inner := by
  cases greedy
  · exact ⟨houtside, hinside⟩
  · exact ⟨hinside, houtside⟩

theorem built_addLoop (adds : Adds body) (greedy : Bool) (hnext : next ≠ 0)
    (hsize : code.size ≠ 0) : Built code ((code.addLoop body greedy next).1,
      (code.addLoop body greedy next).2.1) := by
  have hbody : Built (code.push .accept) _ := adds hsize (by simp)
  exact ⟨hbody.grows.set (inner_choice hbody.entry hnext), hbody.entry⟩

theorem built_addCopies (adds : Adds body) (count : Nat) (hnext : next ≠ 0)
    (hsize : code.size ≠ 0) : Built code (code.addCopies body count next) := by
  induction count with
  | zero => exact ⟨.refl code, hnext⟩
  | succ count ih => exact ih.trans (adds ih.entry (ih.size_ne_zero hsize))

theorem built_addOptional (adds : Adds body) (greedy : Bool) (count : Nat) (hnext : next ≠ 0)
    (hsize : code.size ≠ 0) : Built code (code.addOptional body greedy next count) := by
  induction count with
  | zero => exact ⟨.refl code, hnext⟩
  | succ count ih =>
    have hbody := ih.trans (adds ih.entry (ih.size_ne_zero hsize))
    exact hbody.trans (built_add (inner_choice hbody.entry hnext) (hbody.size_ne_zero hsize))

theorem adds_compile (p : Pattern) : Adds (compile p) := by
  induction p with
  | empty => exact fun next code hnext _ => ⟨.refl code, hnext⟩
  | chars _ | anchor _ => exact fun next code hnext hsize => built_add hnext hsize
  | group number p ih =>
    intro next code hnext hsize
    have hlast : Built code (code.add (.save (2 * number + 1) next)) := built_add hnext hsize
    have hbody := hlast.trans (ih hlast.entry (hlast.size_ne_zero hsize))
    exact hbody.trans (built_add hbody.entry (hbody.size_ne_zero hsize))
  | sequence p q ihp ihq =>
    intro next code hnext hsize
    have hsecond := ihq hnext hsize
    exact hsecond.trans (ihp hsecond.entry (hsecond.size_ne_zero hsize))
  | either p q ihp ihq =>
    intro next code hnext hsize
    have hsecond := ihq hnext hsize
    have hfirst := hsecond.trans (ihp hnext (hsecond.size_ne_zero hsize))
    exact hfirst.trans (built_add ⟨hfirst.entry, hsecond.entry⟩ (hfirst.size_ne_zero hsize))
  | repeated p least most greedy ih =>
    intro next code hnext hsize
    cases most with
    | some most =>
      have hoptional := built_addOptional ih greedy (most - least) hnext hsize
      exact hoptional.trans
        (built_addCopies ih least hoptional.entry (hoptional.size_ne_zero hsize))
    | none =>
      have hloop := built_addLoop ih greedy hnext hsize
      cases least with
      | zero =>
        rw [compile]
        dsimp only
        split
        · exact ⟨hloop.grows, hsize⟩
        · exact hloop.trans
            (built_add (inner_choice hloop.entry hnext) (hloop.size_ne_zero hsize))
      | succ n =>
        exact hloop.trans (built_addCopies ih n hloop.entry (hloop.size_ne_zero hsize))

structure Bracketed (code : Program) (entry : Nat) : Prop where
  entry_ne_zero : entry ≠ 0
  opens : ∃ next, code[entry]? = some (.save 0 next)
  closes : ∃ next, code[1]? = some (.save 1 next)
  ends : code[0]? = some .accept
  inner : ∀ n i, 2 ≤ n → code[n]? = some i → i.Inner

namespace Bracketed

variable {entry slot : Nat}

theorem address_eq_zero (h : Bracketed code entry) (hn : code[n]? = some .accept) : n = 0 := by
  obtain ⟨next, hcloses⟩ := h.closes
  by_contra hne
  by_cases hone : n = 1
  · subst hone
    rw [hcloses] at hn
    cases hn
  · exact h.inner n .accept (by omega) hn

theorem inner_of_ne (h : Bracketed code entry) (hn : code[n]? = some i) (haccept : i ≠ .accept)
    (hsave : ∀ next, i ≠ .save 1 next) : i.Inner := by
  obtain ⟨next, hcloses⟩ := h.closes
  refine h.inner n i ?_ hn
  by_contra hlt
  obtain rfl | rfl : n = 0 ∨ n = 1 := by omega
  · exact haccept (Option.some.inj (hn.symm.trans h.ends))
  · exact hsave next (Option.some.inj (hn.symm.trans hcloses))

theorem address_ne_entry (h : Bracketed code entry) (hn : code[n]? = some i)
    (hsave : ∀ next, i ≠ .save 0 next) : n ≠ entry := by
  rintro rfl
  obtain ⟨next, hopens⟩ := h.opens
  exact hsave next (Option.some.inj (hn.symm.trans hopens))

end Bracketed

theorem bracketed_ofPattern (p : Pattern) :
    Bracketed (ofPattern p).1 (ofPattern p).2 := by
  have hbody : Built #[.accept, .save 1 0] (compile p 1 #[.accept, .save 1 0]) :=
    adds_compile p Nat.one_ne_zero (by simp)
  have hentry : Built (compile p 1 #[.accept, .save 1 0]).1 (ofPattern p) :=
    built_add hbody.entry (hbody.size_ne_zero (by simp))
  have hgrows := hbody.trans hentry
  exact ⟨hgrows.entry, ⟨_, Array.getElem?_push_size⟩, ⟨0, hgrows.grows.kept 1 (by simp)⟩,
    hgrows.grows.kept 0 (by simp), hgrows.grows.inner⟩

end Program

namespace Place

variable {place place' : Place}

theorem index_of_step? (h : place.step? = some place') :
    place'.index = place.index + 1 ∧
      place'.index + place'.rest.length = place.index + place.rest.length := by
  rw [step?] at h
  split at h
  · cases h
  · rename_i hrest
    obtain rfl := Option.some.inj h
    rw [hrest, List.length_cons]
    exact ⟨rfl, by dsimp only; omega⟩

theorem index_advance (place : Place) (n : Nat) (h : n ≤ place.rest.length) :
    (place.advance n).index = place.index + n ∧
      (place.advance n).index + (place.advance n).rest.length =
        place.index + place.rest.length := by
  induction n generalizing place with
  | zero => exact ⟨rfl, rfl⟩
  | succ n ih =>
    rw [advance]
    cases hstep : place.step? with
    | none =>
      rw [step?] at hstep
      split at hstep
      · rename_i hrest
        rw [hrest] at h
        cases h
      · cases hstep
    | some place' =>
      obtain ⟨hindex, hend⟩ := index_of_step? hstep
      obtain ⟨hindex', hend'⟩ := ih place' (by omega)
      dsimp only
      omega

end Place

variable {code : Program} {entry first stop : Nat} {slots : Slots}

/-- What holds of every thread of a search from the place `first` on, in a text that ends at the
place `stop`: the start is noted, and at the end of the program so is the end of the match. -/
structure Thread.Sound (entry first stop : Nat) (t : Thread) : Prop where
  first_le : first ≤ t.place.index
  end_eq : t.place.index + t.place.rest.length = stop
  slots : 2 ≤ t.slots.length
  opened : t.address = entry ∨
    ∃ start, t.slots[0]? = some (some start) ∧ first ≤ start ∧ start ≤ t.place.index
  closed : t.address = 0 → t.slots[1]? = some (some t.place.index)

def Between (first stop : Nat) (slots : Slots) : Prop :=
  first ≤ matchStart slots ∧ matchStart slots ≤ matchEnd slots ∧ matchEnd slots ≤ stop

theorem Thread.Sound.between {t : Thread} (h : t.Sound entry first stop) (hentry : entry ≠ 0)
    (haddress : t.address = 0) : Between first stop t.slots := by
  obtain hopened | ⟨start, hstart, hfirst, hle⟩ := h.opened
  · exact absurd (hopened.symm.trans haddress) hentry
  · have hend := h.end_eq
    have hstart' : matchStart t.slots = start := by rw [matchStart, hstart]; rfl
    have hend' : matchEnd t.slots = t.place.index := by rw [matchEnd, h.closed haddress]; rfl
    rw [Between, hstart', hend']
    omega

theorem Thread.Sound.started {t : Thread} {i : Instruction} (h : t.Sound entry first stop)
    (bracketed : code.Bracketed entry) (hi : code[t.address]? = some i)
    (hsave : ∀ next, i ≠ .save 0 next) :
    ∃ start, t.slots[0]? = some (some start) ∧ first ≤ start ∧ start ≤ t.place.index :=
  h.opened.resolve_left (bracketed.address_ne_entry hi hsave)

theorem Thread.Sound.successors {t : Thread} {i : Instruction} (h : t.Sound entry first stop)
    (bracketed : code.Bracketed entry) (hi : code[t.address]? = some i) (haccept : i ≠ .accept) :
    ∀ u ∈ t.successors i, u.Sound entry first stop := by
  have hfirst := h.first_le
  have hend := h.end_eq
  cases i with
  | accept => exact absurd rfl haccept
  | chars c next =>
    have hinner := bracketed.inner_of_ne hi haccept nofun
    obtain ⟨start, hstart, hle, hle'⟩ := h.started bracketed hi nofun
    rw [Thread.successors]
    cases hrest : t.place.rest with
    | nil => nofun
    | cons x rest =>
      rw [Place.step?, hrest]
      rw [hrest, List.length_cons] at hend
      dsimp only
      split
      · refine List.forall_mem_singleton.2 ⟨?_, ?_, h.slots, .inr ⟨start, hstart, hle, ?_⟩,
          fun hnext => absurd hnext hinner⟩
        all_goals dsimp only; omega
      · nofun
  | anchor a next =>
    have hinner := bracketed.inner_of_ne hi haccept nofun
    have hstarted := h.started bracketed hi nofun
    rw [Thread.successors]
    split
    · exact List.forall_mem_singleton.2
        ⟨hfirst, hend, h.slots, .inr hstarted, fun hnext => absurd hnext hinner⟩
    · nofun
  | split a b =>
    have hinner := bracketed.inner_of_ne hi haccept nofun
    have hstarted := h.started bracketed hi nofun
    rw [Thread.successors, List.forall_mem_cons, List.forall_mem_singleton]
    exact ⟨⟨hfirst, hend, h.slots, .inr hstarted, fun hnext => absurd hnext hinner.1⟩,
      ⟨hfirst, hend, h.slots, .inr hstarted, fun hnext => absurd hnext hinner.2⟩⟩
  | save slot next =>
    have hslots := h.slots
    refine List.forall_mem_singleton.2
      ⟨hfirst, hend, by simpa using hslots, .inr ?_, fun hnext => ?_⟩
    · by_cases hslot : slot = 0
      · subst hslot
        exact ⟨t.place.index, List.getElem?_set_self (by omega), hfirst, Nat.le_refl _⟩
      · obtain ⟨start, hstart, hle⟩ := h.started bracketed hi
          fun _ heq => hslot (Instruction.save.inj heq).1
        exact ⟨start, by rwa [List.getElem?_set_ne hslot], hle⟩
    · by_cases hslot : slot = 1
      · subst hslot
        exact List.getElem?_set_self (by omega)
      · exact absurd hnext (bracketed.inner_of_ne hi haccept
          fun _ heq => hslot (Instruction.save.inj heq).1)

theorem between_of_explore (bracketed : code.Bracketed entry) {fuel : Nat} {threads : List Thread}
    {tried tried' : Tried} (sound : ∀ t ∈ threads, t.Sound entry first stop)
    (h : explore code fuel threads tried = (some slots, tried')) : Between first stop slots := by
  induction fuel generalizing threads tried with
  | zero => cases h
  | succ fuel ih =>
    cases threads with
    | nil => cases h
    | cons t threads =>
      obtain ⟨ht, hthreads⟩ := List.forall_mem_cons.1 sound
      rw [explore] at h
      split at h
      · exact ih hthreads h
      · split at h
        · exact ih hthreads h
        · rename_i haccept
          obtain ⟨hslots, -⟩ := Prod.mk.inj h
          rw [← Option.some.inj hslots]
          exact ht.between bracketed.entry_ne_zero (bracketed.address_eq_zero haccept)
        · rename_i i haccept hi
          refine ih (fun u hu => ?_) h
          obtain hu | hu := List.mem_append.1 hu
          · exact ht.successors bracketed hi (fun heq => haccept heq) u hu
          · exact hthreads u hu

theorem between_of_search (bracketed : code.Bracketed entry) {fuel n : Nat} {place : Place}
    {tried : Tried} {none? : Slots} (hfirst : first ≤ place.index)
    (hend : place.index + place.rest.length = stop) (hslots : 2 ≤ none?.length)
    (h : search code entry fuel none? n place tried = some slots) : Between first stop slots := by
  induction n generalizing place tried with
  | zero => cases h
  | succ n ih =>
    rw [search] at h
    split at h
    · rename_i found tried' hexplore
      obtain rfl := Option.some.inj h
      have sound : Thread.Sound entry first stop ⟨entry, place, none?⟩ :=
        ⟨hfirst, hend, hslots, .inl rfl, fun hentry => absurd hentry bracketed.entry_ne_zero⟩
      exact between_of_explore bracketed (List.forall_mem_singleton.2 sound) hexplore
    · split at h
      · cases h
      · rename_i place' hstep
        obtain ⟨hindex, hend'⟩ := Place.index_of_step? hstep
        exact ih (by omega) (hend'.trans hend) h

theorem between_of_find? {p : Pattern} {place : Place} (h : p.find? place = some slots) :
    Between place.index (place.index + place.rest.length) slots := by
  rw [find?] at h
  exact between_of_search (Program.bracketed_ofPattern p) (Nat.le_refl _) rfl (by simp) h

/-- How many rounds the search for all matches takes at most: two for every place, one to find the
empty match there and one to see that it was found. -/
def rounds (last : Option Nat) (place : Place) : Nat :=
  2 * place.rest.length + if last = some place.index then 1 else 2

theorem matchesFrom_succ (p : Pattern) {fuel : Nat} {last : Option Nat} {place : Place}
    (h : rounds last place ≤ fuel) :
    matchesFrom p (fuel + 1) last place = matchesFrom p fuel last place := by
  induction fuel generalizing last place with
  | zero =>
    rw [rounds] at h
    split at h <;> omega
  | succ fuel ih =>
    rw [matchesFrom, matchesFrom]
    cases hfind : p.find? place with
    | none => rfl
    | some m =>
      obtain ⟨hstart, hstop, hlength⟩ := between_of_find? hfind
      rw [rounds] at h
      dsimp only
      split
      · rename_i hagain
        cases hstep : place.step? with
        | none => rfl
        | some place' =>
          obtain ⟨hindex, hend⟩ := Place.index_of_step? hstep
          refine ih ?_
          rw [rounds]
          split <;> split at h <;> omega
      · rename_i hnew
        obtain ⟨hindex, hend⟩ :=
          place.index_advance (matchEnd m - place.index) (by omega)
        refine congrArg (m :: ·) (ih ?_)
        have hplace : (place.advance (matchEnd m - place.index)).index = matchEnd m := by omega
        rw [rounds, hplace, if_pos rfl]
        split at h
        · rename_i hlast
          -- The match goes on behind the place, for it is no repetition of the one before.
          have hne : matchEnd m ≠ place.index := fun heq => hnew ⟨by omega, heq ▸ hlast⟩
          omega
        · omega

theorem matchesFrom_eq_allMatches (p : Pattern) {text : List Char} {fuel : Nat}
    (h : 2 * text.length + 3 ≤ fuel) :
    matchesFrom p fuel none (.start text) = p.allMatches text := by
  induction h with
  | refl => rfl
  | step hle ih =>
    rw [← ih]
    refine matchesFrom_succ p (Nat.le_trans ?_ hle)
    rw [rounds, if_neg nofun]
    exact Nat.le_succ _

def InOrder (length : Nat) : Nat → List Slots → Prop
  | first, [] => first ≤ length
  | first, m :: ms => first ≤ matchStart m ∧ matchStart m ≤ matchEnd m ∧
      InOrder length (matchEnd m) ms

theorem inOrder_matchesFrom (p : Pattern) {fuel length : Nat} {last : Option Nat} {place : Place}
    (hfirst : first ≤ place.index) (hend : place.index + place.rest.length = length) :
    InOrder length first (matchesFrom p fuel last place) := by
  have hle : first ≤ length := by omega
  induction fuel generalizing first last place with
  | zero => exact hle
  | succ fuel ih =>
    rw [matchesFrom]
    cases hfind : p.find? place with
    | none => exact hle
    | some m =>
      obtain ⟨hstart, hstop, hlength⟩ := between_of_find? hfind
      dsimp only
      split
      · cases hstep : place.step? with
        | none => exact hle
        | some place' =>
          obtain ⟨hindex, hend'⟩ := Place.index_of_step? hstep
          exact ih (by omega) (hend'.trans hend) hle
      · obtain ⟨hindex, hend'⟩ :=
          place.index_advance (matchEnd m - place.index) (by omega)
        exact ⟨by omega, hstop, ih (by omega) (hend'.trans hend) (by omega)⟩

theorem inOrder_allMatches (p : Pattern) (text : List Char) :
    InOrder text.length 0 (p.allMatches text) :=
  inOrder_matchesFrom p (Nat.le_refl 0) (Nat.zero_add _)

end Manifest.Pattern
