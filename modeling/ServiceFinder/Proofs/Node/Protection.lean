/-
  ServiceFinder/Proofs/Node/Protection.lean
  =========================================
  **What protection leaves behind.**

  An empty list that protection withholds leaves its revision in the view all the same,
  beside the instances of an older one.  Equal revisions count as no change, so a later
  answer with that very revision is not taken in, even when protection is long off.
  This is the only way in which list and revision drift apart: where the registry gives
  equal lists for equal revisions, a refresh without protection leaves the view with the
  list that was answered unless the answer repeats the revision of a `Withheld` one.
-/
import ServiceFinder.Proofs.Node.Updates

namespace ServiceFinder

variable {σ : Type}

/-- The list that a happening answered to a lookup for the view `e`. -/
def Happening.answer? (e : EntryId) : Happening → Option Listing
  | .refreshed _ v _ (.answered (.found new)) _ _ => if v = e then some new else none
  | _ => none

/-- The lists that were answered to the lookups for the view `e`. -/
def answersOf (e : EntryId) (journal : List JournalLine) : List Listing :=
  journal.filterMap (·.what.answer? e)

/-- Equal revisions stood for equal lists. -/
def Agreeing (answers : List Listing) : Prop :=
  ∀ a ∈ answers, ∀ b ∈ answers, a.revision.isSome → a.revision = b.revision →
    a.instances = b.instances

instance (answers : List Listing) : Decidable (Agreeing answers) := by
  unfold Agreeing
  infer_instance

/-- The view that a pushed change was applied to. -/
def Happening.changes? : Happening → Option EntryId
  | .changed _ e _ _ => some e
  | _ => none

/-- No pushed change was applied to the view `e`. -/
def Unchanged (e : EntryId) (journal : List JournalLine) : Prop :=
  ∀ l ∈ journal, l.what.changes? ≠ some e

instance (e : EntryId) (journal : List JournalLine) : Decidable (Unchanged e journal) := by
  unfold Unchanged
  infer_instance

/-- `r` is the revision of an empty list that protection kept from replacing instances;
    every answer since has carried it, and nobody has forgotten it. -/
def Withheld (policy : EmptyListPolicy) (key : ServiceKey) (e : EntryId) (r : String)
    (journal : List JournalLine) : Prop :=
  ∃ since time c next earlier,
    journal = since ++
      ⟨time, .refreshed c e next (.answered (.found ⟨[], some r⟩)) .noChange true⟩ :: earlier ∧
    (listingAfter key e earlier).instances ≠ [] ∧
    policy key (listingAfter key e earlier).instances = true ∧
    ∀ l ∈ since, l.what ≠ .forgot e ∧ ∀ a, l.what.answer? e = some a → a.revision = some r

/-! ### Answers -/

section Answers

variable {policy : EmptyListPolicy} {key : ServiceKey} {e : EntryId} {l new : Listing}
  {guarded : Bool}

/-- When an answer counts as new. -/
theorem verdictOn_found :
    verdictOn policy key l guarded (.answered (.found new)) =
      if new.revision.isSome ∧ new.revision = l.revision then .noChange
      else if new.instances = [] ∧ guarded = true ∧ policy key l.instances = true then .noChange
      else .refreshed := by
  simp only [verdictOn, Entry.afterRefresh, Entry.adopt, Entry.adoptListing, Entry.refusesEmpty,
    Bool.and_eq_true, beq_iff_eq, List.isEmpty_iff]
  split
  · rfl
  · split <;> rfl

theorem verdictOn_found_of_same (hsome : new.revision.isSome) (hsame : new.revision = l.revision) :
    verdictOn policy key l guarded (.answered (.found new)) = .noChange := by
  rw [verdictOn_found, if_pos ⟨hsome, hsame⟩]

end Answers

/-! ### Where a recorded revision comes from -/

section Recorded

variable {policy : EmptyListPolicy} {key : ServiceKey} {e : EntryId} {r : String}
  {journal : List JournalLine}

theorem Unchanged.tail {line : JournalLine} (h : Unchanged e (line :: journal)) :
    Unchanged e journal :=
  fun l hl => h l (List.mem_cons_of_mem _ hl)

theorem mem_answersOf_cons {line : JournalLine} {a : Listing} (h : a ∈ answersOf e journal) :
    a ∈ answersOf e (line :: journal) := by
  obtain ⟨l, hl, ha⟩ := List.mem_filterMap.mp h
  exact List.mem_filterMap.mpr ⟨l, List.mem_cons_of_mem _ hl, ha⟩

theorem answersOf_cons_refreshed {time : Nat} {c : CallId} {next : AfterRefresh} {new : Listing}
    {status : CacheStatus} {guarded : Bool} :
    answersOf e (⟨time, .refreshed c e next (.answered (.found new)) status guarded⟩ :: journal) =
      new :: answersOf e journal :=
  List.filterMap_cons_some (if_pos rfl)

theorem Withheld.cons {line : JournalLine} (h : Withheld policy key e r journal)
    (hforgot : line.what ≠ .forgot e)
    (hanswer : ∀ a, line.what.answer? e = some a → a.revision = some r) :
    Withheld policy key e r (line :: journal) := by
  obtain ⟨since, time, c, next, earlier, rfl, hne, hpolicy, hsince⟩ := h
  refine ⟨line :: since, time, c, next, earlier, rfl, hne, hpolicy, ?_⟩
  intro l hl
  rcases List.mem_cons.mp hl with rfl | hl
  · exact ⟨hforgot, hanswer⟩
  · exact hsince l hl

theorem Withheld.mem_answersOf (h : Withheld policy key e r journal) :
    (⟨[], some r⟩ : Listing) ∈ answersOf e journal := by
  obtain ⟨since, time, c, next, earlier, rfl, -, -, -⟩ := h
  refine List.mem_filterMap.mpr ⟨_, List.mem_append_right _ List.mem_cons_self, ?_⟩
  exact if_pos rfl

/-- A happening that brings no answer and forgets nothing leaves the list alone. -/
theorem Happening.relist_of_answer?_none (l : Listing) {h : Happening}
    (hchanged : h.changes? ≠ some e) (hforgot : h ≠ .forgot e)
    (hanswer : h.answer? e = none) : h.relist key e l = l := by
  cases h with
  | refreshed c v next o status guarded =>
    rcases o with (new | _ | _) | _
    all_goals try rfl
    by_cases hv : v = e
    · simp [answer?, hv] at hanswer
    · exact if_neg hv
  | changed c v change verdict => exact if_neg fun hv => hchanged (congrArg some hv)
  | forgot v =>
    have hv : v ≠ e := by
      rintro rfl
      exact hforgot rfl
    exact if_neg hv
  | _ => rfl

/-- A happening with an answer is the end of a refresh. -/
theorem Happening.eq_refreshed_of_answer? {h : Happening} {a : Listing}
    (hanswer : h.answer? e = some a) :
    ∃ c next status guarded, h = .refreshed c e next (.answered (.found a)) status guarded := by
  cases h with
  | refreshed c v next o status guarded =>
    rcases o with (new | _ | _) | _
    · simp only [answer?] at hanswer
      split at hanswer
      · rename_i hv
        cases hanswer
        exact ⟨c, next, status, guarded, hv ▸ rfl⟩
      · cases hanswer
    all_goals cases hanswer
  | _ => cases hanswer

/-- The revision `r` came with the instances that stand beside it, or with an empty list that
    was withheld. -/
def Accounted (policy : EmptyListPolicy) (key : ServiceKey) (e : EntryId) (r : String)
    (journal : List JournalLine) : Prop :=
  (∃ a ∈ answersOf e journal,
    a.revision = some r ∧ a.instances = (listingAfter key e journal).instances) ∨
    Withheld policy key e r journal

/-- The answer that ends a refresh accounts for the revision that it leaves there. -/
theorem Accounted.of_answer {time : Nat} {c : CallId} {next : AfterRefresh} {new : Listing}
    {status : CacheStatus} {guarded : Bool}
    (ih : (listingAfter key e journal).revision = some r → Accounted policy key e r journal)
    (hverdict : status =
      verdictOn policy key (listingAfter key e journal) guarded (.answered (.found new)))
    (hr : new.revision = some r) :
    Accounted policy key e r
      (⟨time, .refreshed c e next (.answered (.found new)) status guarded⟩ :: journal) := by
  have hnew : new ∈ answersOf e
      (⟨time, .refreshed c e next (.answered (.found new)) status guarded⟩ :: journal) := by
    rw [answersOf_cons_refreshed]
    exact List.mem_cons_self
  rw [verdictOn_found] at hverdict
  unfold Accounted
  rw [listingAfter, Happening.relist, if_pos rfl]
  by_cases hsame : new.revision.isSome ∧ new.revision = (listingAfter key e journal).revision
  · -- the revision was there already, and so were the instances
    rw [if_pos hsame] at hverdict
    rw [hverdict, if_neg (by simp)]
    rcases ih (hsame.2.symm.trans hr) with ⟨a, ha, hboth⟩ | hwithheld
    · exact .inl ⟨a, mem_answersOf_cons ha, hboth⟩
    · refine .inr (hwithheld.cons (by simp) ?_)
      intro a ha
      have heq : new = a := Option.some.inj ((if_pos rfl).symm.trans ha)
      exact heq ▸ hr
  · rw [if_neg hsame] at hverdict
    by_cases hempty : new.instances = [] ∧ guarded = true ∧
        policy key (listingAfter key e journal).instances = true
    · rw [if_pos hempty] at hverdict
      rw [hverdict, if_neg (by simp)]
      obtain ⟨hnil, rfl, hpolicy⟩ := hempty
      by_cases hbefore : (listingAfter key e journal).instances = []
      · exact .inl ⟨new, hverdict ▸ hnew, hr, hnil.trans hbefore.symm⟩
      · have heq : new = ⟨[], some r⟩ := by
          rcases new with ⟨instances, revision⟩
          simp only at hnil hr
          rw [hnil, hr]
        rw [heq]
        exact .inr ⟨[], time, c, next, journal, rfl, hbefore, hpolicy, by simp⟩
    · rw [if_neg hempty] at hverdict
      rw [hverdict, if_pos rfl]
      exact .inl ⟨new, hverdict ▸ hnew, hr, rfl⟩

/-- Every revision that is recorded is accounted for. -/
theorem accounted_of_revision (ht : Truthful policy key e journal) (hu : Unchanged e journal)
    (hr : (listingAfter key e journal).revision = some r) : Accounted policy key e r journal := by
  induction journal with
  | nil => cases hr
  | cons line before ih =>
    have hchanged := hu line List.mem_cons_self
    by_cases hforgot : line.what = .forgot e
    · rw [listingAfter, hforgot, Happening.relist, if_pos rfl] at hr
      cases hr
    · cases hanswer : line.what.answer? e with
      | none =>
        have hsame : listingAfter key e (line :: before) = listingAfter key e before :=
          Happening.relist_of_answer?_none _ hchanged hforgot hanswer
        unfold Accounted
        rw [hsame] at hr ⊢
        rcases ih ht.1 hu.tail hr with ⟨a, ha, hboth⟩ | hwithheld
        · exact .inl ⟨a, mem_answersOf_cons ha, hboth⟩
        · exact .inr (hwithheld.cons hforgot (by simp [hanswer]))
      | some new =>
        rcases line with ⟨time, what⟩
        obtain ⟨c, next, status, guarded, rfl⟩ := Happening.eq_refreshed_of_answer? hanswer
        refine Accounted.of_answer (ih ht.1 hu.tail) (ht.2 rfl) ?_
        rw [listingAfter, Happening.relist, if_pos rfl] at hr
        split at hr
        · exact hr
        · exact hr

/-- As long as an empty list is withheld, the instances before it stay. -/
theorem Withheld.listing (h : Withheld policy key e r journal)
    (ht : Truthful policy key e journal) (hu : Unchanged e journal) :
    (listingAfter key e journal).revision = some r ∧
      (listingAfter key e journal).instances ≠ [] := by
  obtain ⟨since, time, c, next, earlier, rfl, hne, hpolicy, hsince⟩ := h
  induction since with
  | nil =>
    simp only [List.nil_append, listingAfter, Happening.relist, if_true]
    rw [if_neg (by simp)]
    exact ⟨rfl, hne⟩
  | cons line since ih =>
    rw [List.cons_append] at ht hu ⊢
    obtain ⟨hforgot, hanswer⟩ := hsince line List.mem_cons_self
    have hkept := ih ht.1 hu.tail fun l hl => hsince l (List.mem_cons_of_mem _ hl)
    cases hline : line.what.answer? e with
    | none =>
      rw [listingAfter, Happening.relist_of_answer?_none _
        (hu line List.mem_cons_self) hforgot hline]
      exact hkept
    | some new =>
      obtain ⟨c', next', status, guarded, heq⟩ := Happening.eq_refreshed_of_answer? hline
      have hright := ht.2
      rw [heq] at hright
      have hrevision := hanswer new hline
      have hverdict := hright rfl
      have hsame : new.revision = (listingAfter key e (since ++
          ⟨time, .refreshed c e next (.answered (.found ⟨[], some r⟩)) .noChange true⟩ ::
            earlier)).revision := hrevision.trans hkept.1.symm
      rw [verdictOn_found_of_same (by simp [hrevision]) hsame] at hverdict
      rw [listingAfter, heq, hverdict, Happening.relist, if_pos rfl,
        if_neg (by simp)]
      exact ⟨hrevision, hkept.2⟩

/-- An answer that repeats the revision of a withheld list counts as no change. -/
theorem Withheld.verdict {new : Listing} {guarded : Bool} (h : Withheld policy key e r journal)
    (ht : Truthful policy key e journal) (hu : Unchanged e journal)
    (hr : new.revision = some r) :
    verdictOn policy key (listingAfter key e journal) guarded (.answered (.found new)) =
      .noChange :=
  verdictOn_found_of_same (by simp [hr]) (hr.trans (h.listing ht hu).1.symm)

/-- An answer that agrees with a withheld list is empty. -/
theorem Withheld.answer_eq_nil {new : Listing} (h : Withheld policy key e r journal)
    (agreeing : Agreeing (new :: answersOf e journal)) (hr : new.revision = some r) :
    new.instances = [] :=
  (agreeing _ (List.mem_cons_of_mem _ h.mem_answersOf) new List.mem_cons_self rfl hr.symm).symm

/-- An answer with the revision on record is the list on record, unless that revision came with a
    withheld one. -/
theorem instances_of_recorded {new : Listing} (ht : Truthful policy key e journal)
    (hu : Unchanged e journal) (agreeing : Agreeing (new :: answersOf e journal))
    (hr : new.revision = some r) (hrecorded : (listingAfter key e journal).revision = some r)
    (hnot : ¬ Withheld policy key e r journal) :
    (listingAfter key e journal).instances = new.instances := by
  obtain ⟨a, ha, har, hlisted⟩ := (accounted_of_revision ht hu hrecorded).resolve_right hnot
  have hsome : a.revision.isSome := by simp [har]
  exact hlisted.symm.trans
    (agreeing a (List.mem_cons_of_mem _ ha) new List.mem_cons_self hsome (har.trans hr.symm))

end Recorded

/-! ### Refreshes without protection -/

/-- **A refresh without protection leaves the view with the list that was answered, unless
    the answer repeats the revision of a withheld one.**  Then it counts as no change, and the
    view keeps the instances that it had, of which there are some. -/
theorem unguarded_refresh_adopts_iff [Registry σ] {start n : Node σ} {e : EntryId}
    {after before : List JournalLine} {time : Nat} {c : CallId} {next : AfterRefresh}
    {new : Listing} {status : CacheStatus} (untouched : start.Untouched)
    (course : start.Course n) (unchanged : Unchanged e n.journal)
    (agreeing : Agreeing (answersOf e n.journal))
    (ended : n.journal = after ++
      ⟨time, .refreshed c e next (.answered (.found new)) status false⟩ :: before)
    (latest : ∀ l ∈ after, l.what.view? ≠ some e) :
    let old := listingAfter (n.entry e).key e before
    let repeats := ∃ r, new.revision = some r ∧
      Withheld n.directory.options.policy (n.entry e).key e r before
    ((n.entry e).listing.instances = new.instances ↔ ¬ repeats) ∧
      (repeats → status = .noChange ∧ (n.entry e).listing.instances = old.instances ∧
        old.instances ≠ []) := by
  intro old repeats
  have told := (course.sound untouched).told e
  have htruthful : Truthful n.directory.options.policy (n.entry e).key e before := by
    have h : Truthful _ _ e n.journal := told.truthful
    rw [ended] at h
    exact h.of_append.1
  have hunchanged : Unchanged e before := fun l hl =>
    unchanged l (ended ▸ List.mem_append_right _ (List.mem_cons_of_mem _ hl))
  have hagreeing : Agreeing (new :: answersOf e before) := by
    have hanswers : new :: answersOf e before ⊆ answersOf e n.journal := by
      rw [ended, ← answersOf_cons_refreshed]
      exact ((List.suffix_append ..).filterMap _).subset
    exact fun a ha b hb => agreeing a (hanswers ha) b (hanswers hb)
  have hverdict := told.verdict ended
  have hlist := told.listing_of_latest ended latest
  rw [listingAfter, Happening.relist, if_pos rfl] at hlist
  have hkept (h : repeats) : status = .noChange ∧
      (n.entry e).listing.instances = old.instances ∧ old.instances ≠ [] := by
    obtain ⟨r, hr, hwithheld⟩ := h
    have hstatus := hverdict.trans (hwithheld.verdict htruthful hunchanged hr)
    refine ⟨hstatus, ?_, (hwithheld.listing htruthful hunchanged).2⟩
    rw [hlist, hstatus, if_neg (by simp)]
  refine ⟨⟨?_, ?_⟩, hkept⟩
  · -- the answer is empty, and the list that stays is not
    intro hadopted h
    obtain ⟨-, hstays, hne⟩ := hkept h
    obtain ⟨r, hr, hwithheld⟩ := h
    rw [← hstays, hadopted] at hne
    exact hne (hwithheld.answer_eq_nil hagreeing hr)
  · intro hnot
    rw [verdictOn_found] at hverdict
    by_cases hsame : new.revision.isSome ∧ new.revision = old.revision
    · obtain ⟨r, hr⟩ := Option.isSome_iff_exists.mp hsame.1
      rw [if_pos hsame] at hverdict
      rw [hlist, hverdict, if_neg (by simp)]
      exact instances_of_recorded htruthful hunchanged hagreeing hr (hsame.2.symm.trans hr)
        fun hwithheld => hnot ⟨r, hr, hwithheld⟩
    · rw [if_neg hsame, if_neg (by simp)] at hverdict
      rw [hlist, hverdict, if_pos rfl]

/-! ### A registry that loses its instances under protection -/

namespace Drift

def key : ServiceKey := ⟨"shop", "store", "orders", everyVersion⟩

def server : Instance := { instanceId := "a", serviceId := "v1", endpoints := [] }

/-- What the registry answers: first an instance, then none, each with its own revision. -/
def answers : List Listing := [⟨[server], some "1"⟩, ⟨[], some "2"⟩]

def start : Node Script :=
  .holding ⟨[(key, answers.map fun l => ⟨.found l, 0⟩)]⟩ {} false key

/-- Protection is on for the second refresh only. -/
def drifted : Node Script :=
  start.follow
    [.call (.refresh 0), .call (.protectView 0 true), .call (.refresh 0),
     .call (.protectView 0 false), .call (.refresh 0)]

/-- The journal but for its latest line. -/
def before : List JournalLine := drifted.journal.tail

theorem journal_drifted :
    drifted.journal =
      [] ++ ⟨0, .refreshed 4 0 .status (.answered (.found ⟨[], some "2"⟩)) .noChange false⟩ ::
        before := by
  decide

end Drift

/-- **Protection may be off, the registry may give equal lists for equal revisions, and a
    refresh still leaves the view with another list than the one answered.** -/
theorem withheld_list_never_adopted :
    Drift.start.Untouched ∧ Drift.start.Course Drift.drifted ∧
      Agreeing Drift.answers ∧ Unchanged 0 Drift.drifted.journal ∧
      Drift.drifted.journal.head? = some
        ⟨0, .refreshed 4 0 .status (.answered (.found ⟨[], some "2"⟩)) .noChange false⟩ ∧
      (Drift.drifted.entry 0).protection = false ∧
      (Drift.drifted.entry 0).listing.instances = [Drift.server] := by
  refine ⟨Node.untouched_holding .., Node.course_follow .., by decide, by decide, by decide,
    by decide, by decide⟩

/-- The list that the last refresh leaves is not the one answered, since that one repeats
    the revision of a withheld one: it is the list that was there before. -/
theorem drifted_refresh_not_adopted :
    (Drift.start.Untouched ∧ Drift.start.Course Drift.drifted ∧
      Unchanged 0 Drift.drifted.journal ∧ Agreeing (answersOf 0 Drift.drifted.journal)) ∧
      (∃ r, (some "2" : Option String) = some r ∧
        Withheld Drift.drifted.directory.options.policy (Drift.drifted.entry 0).key 0 r
          Drift.before) ∧
      (Drift.drifted.entry 0).listing.instances =
        (listingAfter (Drift.drifted.entry 0).key 0 Drift.before).instances ∧
      (listingAfter (Drift.drifted.entry 0).key 0 Drift.before).instances ≠ [] := by
  have untouched : Drift.start.Untouched := Node.untouched_holding ..
  have course : Drift.start.Course Drift.drifted := Node.course_follow ..
  have unchanged : Unchanged 0 Drift.drifted.journal := by decide
  have agreeing : Agreeing (answersOf 0 Drift.drifted.journal) := by decide
  obtain ⟨adopts, keeps⟩ := unguarded_refresh_adopts_iff untouched course unchanged agreeing
    Drift.journal_drifted (by simp)
  have repeats := not_not.mp (mt adopts.mpr (by decide))
  obtain ⟨-, kept, nonempty⟩ := keeps repeats
  exact ⟨⟨untouched, course, unchanged, agreeing⟩, repeats, kept, nonempty⟩

end ServiceFinder
