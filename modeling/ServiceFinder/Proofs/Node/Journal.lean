/-
  ServiceFinder/Proofs/Node/Journal.lean
  ======================================
  **What a journal says about a view.**

  A journal is read from its first line on, and its latest line stands in front.  It
  tells which lookup for a view is still unanswered (`openFetch`) and what the list of
  the view must be by now (`listingAfter`), without looking at the view itself.  A
  journal is `Serial` for a view if its refreshes and changes took place one after the
  other, and `Truthful` if every refresh ended with the status that its answer deserves
  for the list that the view had then.
-/
import ServiceFinder.Proofs.Node.Views

namespace ServiceFinder

/-! ### Reading a journal -/

/-- The lookup for a view that has not ended yet: who made it and for what. -/
def openFetch (e : EntryId) : List JournalLine → Option (CallId × AfterRefresh)
  | [] => none
  | line :: before =>
    match line.what with
    | .fetchBegan c v next => if v = e then some (c, next) else openFetch e before
    | .refreshed _ v _ _ _ _ => if v = e then none else openFetch e before
    | _ => openFetch e before

/-- What a happening makes of the list `l` of the view `e`: an answer that counts as new
    replaces it, any other answer only leaves its revision there, and a change edits the
    list that it finds. -/
def Happening.relist (key : ServiceKey) (e : EntryId) (l : Listing) : Happening → Listing
  | .refreshed _ v _ (.answered (.found new)) status _ =>
    if v = e then
      if status = .refreshed then new else { l with revision := new.revision }
    else l
  | .changed _ v change verdict =>
    if v = e then
      match ({ key, listing := l } : Entry).edit change, verdict with
      | .undecided, _ => { l with revision := none }
      | .list instances, some .refreshed => { l with instances }
      | _, _ => l
    else l
  | .forgot v => if v = e then { l with revision := none } else l
  | _ => l

/-- The list of the view `e` after all that a journal tells. -/
def listingAfter (key : ServiceKey) (e : EntryId) : List JournalLine → Listing
  | [] => {}
  | line :: before => line.what.relist key e (listingAfter key e before)

/-- Lookups for the view `e` begin when none is open and end as they began, and changes
    are applied when none is open. -/
def Serial (e : EntryId) : List JournalLine → Prop
  | [] => True
  | line :: before =>
    Serial e before ∧
      match line.what with
      | .fetchBegan _ v _ | .changed _ v _ _ => v = e → openFetch e before = none
      | .refreshed c v next _ _ _ => v = e → openFetch e before = some (c, next)
      | _ => True

/-- The status of a refresh that ended with `o` on a view that had this list. -/
def verdictOn (policy : EmptyListPolicy) (key : ServiceKey) (l : Listing) (guarded : Bool)
    (o : Outcome) : CacheStatus :=
  (({ key, listing := l, protection := guarded } : Entry).afterRefresh policy o).2

/-- Every refresh of the view `e` ended with the status that it deserved. -/
def Truthful (policy : EmptyListPolicy) (key : ServiceKey) (e : EntryId) :
    List JournalLine → Prop
  | [] => True
  | line :: before =>
    Truthful policy key e before ∧
      match line.what with
      | .refreshed _ v _ o status guarded =>
        v = e → status = verdictOn policy key (listingAfter key e before) guarded o
      | _ => True

/-! ### Lines about other views -/

section Others

variable {e : EntryId} {lines before : List JournalLine}

theorem Happening.relist_of_ne (key : ServiceKey) {e : EntryId} (l : Listing) {h : Happening}
    (hv : h.view? ≠ some e) : h.relist key e l = l := by
  cases h with
  | refreshed c v next o status guarded =>
    have hne : v ≠ e := fun heq => hv (congrArg some heq)
    rcases o with (new | _ | _) | _
    all_goals simp [relist, hne]
  | changed c v change verdict => exact if_neg fun heq => hv (congrArg some heq)
  | forgot v => exact if_neg fun heq => hv (congrArg some heq)
  | _ => rfl

theorem openFetch_cons_of_ne {line : JournalLine} (hv : line.what.view? ≠ some e) :
    openFetch e (line :: before) = openFetch e before := by
  rcases line with ⟨time, what⟩
  cases what with
  | fetchBegan c v next => exact if_neg fun heq => hv (congrArg some heq)
  | refreshed c v next o status guarded => exact if_neg fun heq => hv (congrArg some heq)
  | _ => rfl

theorem openFetch_append (h : ∀ l ∈ lines, l.what.view? ≠ some e) :
    openFetch e (lines ++ before) = openFetch e before := by
  induction lines with
  | nil => rfl
  | cons line lines ih =>
    rw [List.cons_append, openFetch_cons_of_ne (h line List.mem_cons_self)]
    exact ih fun l hl => h l (List.mem_cons_of_mem _ hl)

theorem listingAfter_append (key : ServiceKey) (h : ∀ l ∈ lines, l.what.view? ≠ some e) :
    listingAfter key e (lines ++ before) = listingAfter key e before := by
  induction lines with
  | nil => rfl
  | cons line lines ih =>
    rw [List.cons_append, listingAfter,
      Happening.relist_of_ne key _ (h line List.mem_cons_self)]
    exact ih fun l hl => h l (List.mem_cons_of_mem _ hl)

theorem Serial.append (hs : Serial e before) (h : ∀ l ∈ lines, l.what.view? ≠ some e) :
    Serial e (lines ++ before) := by
  induction lines with
  | nil => exact hs
  | cons line lines ih =>
    refine ⟨ih fun l hl => h l (List.mem_cons_of_mem _ hl), ?_⟩
    have hv := h line List.mem_cons_self
    rcases line with ⟨time, what⟩
    cases what with
    | fetchBegan c v next => exact fun heq => absurd (congrArg some heq) hv
    | changed c v change verdict => exact fun heq => absurd (congrArg some heq) hv
    | refreshed c v next o status guarded => exact fun heq => absurd (congrArg some heq) hv
    | _ => trivial

theorem Truthful.append {policy : EmptyListPolicy} {key : ServiceKey}
    (ht : Truthful policy key e before) (h : ∀ l ∈ lines, l.what.view? ≠ some e) :
    Truthful policy key e (lines ++ before) := by
  induction lines with
  | nil => exact ht
  | cons line lines ih =>
    refine ⟨ih fun l hl => h l (List.mem_cons_of_mem _ hl), ?_⟩
    have hv := h line List.mem_cons_self
    rcases line with ⟨time, what⟩
    cases what with
    | refreshed c v next o status guarded => exact fun heq => absurd (congrArg some heq) hv
    | _ => trivial

/-- A view that was never made has no list, whatever its key will be. -/
theorem listingAfter_of_forgot (key : ServiceKey)
    (h : ∀ l ∈ before, l.what.view? = some e → l.what = .forgot e) :
    listingAfter key e before = {} := by
  induction before with
  | nil => rfl
  | cons line before ih =>
    rw [listingAfter, ih fun l hl => h l (List.mem_cons_of_mem _ hl)]
    by_cases hv : line.what.view? = some e
    · rw [h line List.mem_cons_self hv, Happening.relist, if_pos rfl]
    · exact Happening.relist_of_ne key _ hv

theorem truthful_of_forgot (policy : EmptyListPolicy) (key : ServiceKey)
    (h : ∀ l ∈ before, l.what.view? = some e → l.what = .forgot e) :
    Truthful policy key e before := by
  induction before with
  | nil => trivial
  | cons line before ih =>
    refine ⟨ih fun l hl => h l (List.mem_cons_of_mem _ hl), ?_⟩
    have hv := h line List.mem_cons_self
    rcases line with ⟨time, what⟩
    cases what with
    | refreshed c v next o status guarded => exact fun heq => nomatch hv (congrArg some heq)
    | _ => trivial

end Others

/-! ### Lines about the view -/

/-- What a refresh makes of the list of a view. -/
theorem Entry.listing_afterRefresh (policy : EmptyListPolicy) (x : Entry) (c : CallId)
    (e : EntryId) (next : AfterRefresh) (o : Outcome) (guarded : Bool) :
    (x.afterRefresh policy o).1.listing =
      (Happening.refreshed c e next o (x.afterRefresh policy o).2 guarded).relist x.key e
        x.listing := by
  rcases o with (l | _ | (_ | _)) | _
  all_goals try rfl
  simp only [afterRefresh, adopt, adoptListing, Happening.relist, if_true]
  split
  · rename_i hsame
    simp only [Bool.and_eq_true, beq_iff_eq] at hsame
    rw [if_neg (by simp), hsame.2]
  · split <;> rfl

theorem Entry.verdict_afterRefresh (policy : EmptyListPolicy) (x : Entry) (o : Outcome) :
    (x.afterRefresh policy o).2 = verdictOn policy x.key x.listing x.protection o := by
  rcases o with (l | _ | (_ | _)) | _
  all_goals try rfl
  let y : Entry := { key := x.key, listing := x.listing, protection := x.protection }
  have hrefuses : y.refusesEmpty policy = x.refusesEmpty policy := rfl
  simp only [verdictOn, afterRefresh, adopt, adoptListing, y] at hrefuses ⊢
  rw [hrefuses]
  split
  · rfl
  · split <;> rfl

/-- What a change makes of the list of a view. -/
theorem Entry.listing_afterChange (policy : EmptyListPolicy) (x : Entry) (c : CallId)
    (e : EntryId) (change : InstanceChange) :
    (x.afterChange policy change).1.listing =
      (Happening.changed c e change (x.afterChange policy change).2).relist x.key e
        x.listing := by
  have hedit : ({ key := x.key, listing := x.listing } : Entry).edit change = x.edit change := rfl
  simp only [Happening.relist, if_true, hedit, afterChange]
  cases x.edit change with
  | nothing => rfl
  | undecided => rfl
  | list instances =>
    dsimp only
    split <;> rfl

/-! ### What serial journals look like -/

/-- The view whose write lock a happening takes: its lookups and changes are told. -/
def Happening.locks? : Happening → Option EntryId
  | .fetchBegan _ e _ | .refreshed _ e _ _ _ _ | .changed _ e _ _ => some e
  | _ => none

section Serial

variable {e : EntryId} {journal after before : List JournalLine}

theorem Serial.of_append (h : Serial e (after ++ before)) : Serial e before := by
  induction after with
  | nil => exact h
  | cons line after ih => exact ih h.1

theorem Truthful.of_append {policy : EmptyListPolicy} {key : ServiceKey}
    (h : Truthful policy key e (after ++ before)) : Truthful policy key e before := by
  induction after with
  | nil => exact h
  | cons line after ih => exact ih h.1

theorem openFetch_cons_of_not_locks {line : JournalLine} (h : line.what.locks? ≠ some e) :
    openFetch e (line :: before) = openFetch e before := by
  rcases line with ⟨time, what⟩
  cases what with
  | fetchBegan c v next => exact if_neg fun heq => h (congrArg some heq)
  | refreshed c v next o status guarded => exact if_neg fun heq => h (congrArg some heq)
  | _ => rfl

/-- The open lookup began when no other was open, and nothing has had the lock since. -/
theorem Serial.began_of_openFetch (h : Serial e journal) {c : CallId} {next : AfterRefresh}
    (hopen : openFetch e journal = some (c, next)) :
    ∃ between time earlier, journal = between ++ ⟨time, .fetchBegan c e next⟩ :: earlier ∧
      (∀ l ∈ between, l.what.locks? ≠ some e) ∧ openFetch e earlier = none := by
  induction journal with
  | nil => cases hopen
  | cons line before ih =>
    by_cases hlocks : line.what.locks? = some e
    · rcases line with ⟨time, what⟩
      cases what with
      | fetchBegan c' v next' =>
        obtain rfl : v = e := Option.some.inj hlocks
        have heq : some (c', next') = some (c, next) := (if_pos rfl).symm.trans hopen
        cases heq
        exact ⟨[], time, before, rfl, by simp, h.2 rfl⟩
      | refreshed c' v next' o status guarded =>
        obtain rfl : v = e := Option.some.inj hlocks
        have heq : none = some (c, next) := (if_pos rfl).symm.trans hopen
        cases heq
      | changed c' v change verdict =>
        -- a change is applied when no lookup is open, so none is open after it
        obtain rfl : v = e := Option.some.inj hlocks
        have heq : openFetch v before = none := h.2 rfl
        rw [openFetch, heq] at hopen
        cases hopen
      | _ => cases hlocks
    · rw [openFetch_cons_of_not_locks hlocks] at hopen
      obtain ⟨between, time, earlier, rfl, hbetween, hearlier⟩ := ih h.1 hopen
      refine ⟨line :: between, time, earlier, rfl, ?_, hearlier⟩
      intro l hl
      rcases List.mem_cons.mp hl with rfl | hl
      · exact hlocks
      · exact hbetween l hl

/-- A lookup that has begun is open or has ended. -/
theorem Serial.ended_or_open {time : Nat} {c : CallId} {next : AfterRefresh}
    (h : Serial e (after ++ ⟨time, .fetchBegan c e next⟩ :: before)) :
    (∃ l ∈ after, ∃ o status guarded, l.what = .refreshed c e next o status guarded) ∨
      openFetch e (after ++ ⟨time, .fetchBegan c e next⟩ :: before) = some (c, next) := by
  induction after with
  | nil => exact .inr (if_pos rfl)
  | cons line after ih =>
    rcases ih h.1 with ⟨l, hl, hended⟩ | hopen
    · exact .inl ⟨l, List.mem_cons_of_mem _ hl, hended⟩
    · by_cases hlocks : line.what.locks? = some e
      · rcases line with ⟨time', what⟩
        cases what with
        | fetchBegan c' v next' =>
          cases hopen.symm.trans (h.2 (Option.some.inj hlocks))
        | refreshed c' v next' o status guarded =>
          obtain rfl : v = e := Option.some.inj hlocks
          cases hopen.symm.trans (h.2 rfl)
          exact .inl ⟨_, List.mem_cons_self, o, status, guarded, rfl⟩
        | changed c' v change verdict =>
          cases hopen.symm.trans (h.2 (Option.some.inj hlocks))
        | _ => cases hlocks
      · exact .inr ((openFetch_cons_of_not_locks hlocks).trans hopen)

end Serial

end ServiceFinder
