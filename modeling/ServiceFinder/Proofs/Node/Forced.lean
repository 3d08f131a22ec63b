/-
  ServiceFinder/Proofs/Node/Forced.lean
  =====================================
  **When a forced refresh counts as a change.**

  A forced refresh forgets the revision of its view so that whatever the registry answers
  counts as new.  It does so before it gets in line for the write lock.  A refresh that is
  under way by then still has the lock; when it takes in its answer, it leaves a revision
  there again, and the forced refresh may then find the very revision that it is answered
  itself.  This is the only way in which its answer fails to count.
-/
import ServiceFinder.Proofs.Node.Asking
import ServiceFinder.Proofs.Node.Protection

namespace ServiceFinder

variable {σ : Type} [Registry σ]

/-- The call `c` begins with `op`, as it is made or when it was to start. -/
inductive Begins (op : Operation σ) (c : CallId) : Node σ → Node σ → Prop where
  | now (n : Node σ) (h : c = n.nextCall) : Begins op c n (n.call op).2
  | later {n : Node σ} {due : Nat} (rests : n.stage? c = some (.scheduled due op))
      (h : due ≤ n.time) : Begins op c n (n.resume c)

namespace Begins

variable {op : Operation σ} {c : CallId} {n n' : Node σ}

theorem turn (h : Begins op c n n') : Node.Turn n n' := by
  cases h with
  | now h => exact .call n op
  | later rests h => exact .resume n c (Node.isAwake_of_scheduled rests h)

theorem course (h : Begins op c n n') : n.Course n' := by
  cases h with
  | now h => exact .single (.call n op)
  | later rests h => exact .single (.resume n c (Node.isAwake_of_scheduled rests h))

/-- A call that begins has not asked yet. -/
theorem may (h : Begins op c n n') : Midturn.May (⟨n, none, none⟩ : Midturn σ) c := by
  cases h with
  | now h => exact .inr (.inr (Nat.le_of_eq h.symm))
  | later rests h => exact .inl ⟨_, Node.mem_of_stage? rests, rfl⟩

/-- The first thing that a call does is to start, at a node without it. -/
theorem starts_at (h : Begins op c n n') : ∃ calls nextCall, calls ⊆ n.calls ∧
    n.nextCall ≤ nextCall ∧
    Move ⟨n, none, none⟩ ⟨{ n with calls, nextCall }, some (c, .starting op), none⟩ ∧
      n' = Node.start { n with calls, nextCall } c op := by
  cases h with
  | now h =>
    subst h
    exact ⟨n.calls, n.nextCall + 1, List.Subset.refl _, Nat.le_succ _, .call n op, rfl⟩
  | later rests h =>
    refine ⟨(n.unrest c).calls, n.nextCall, ?_, Nat.le_refl _, .wake rests (decide_eq_true h), ?_⟩
    · exact fun x hx => (Node.mem_unrest.mp hx).1
    · rw [Node.resume, rests]
      rfl

theorem starts (h : Begins op c n n') : ∃ calls nextCall, calls ⊆ n.calls ∧
    Move ⟨n, none, none⟩ ⟨{ n with calls, nextCall }, some (c, .starting op), none⟩ ∧
      n' = Node.start { n with calls, nextCall } c op := by
  obtain ⟨calls, nextCall, hcalls, -, hmove, heq⟩ := h.starts_at
  exact ⟨calls, nextCall, hcalls, hmove, heq⟩

theorem moves (h : Begins op c n n') :
    ∃ m : Node σ, m.directory = n.directory ∧ m.registry = n.registry ∧ m.journal = n.journal ∧
      m.replies = n.replies ∧ m.time = n.time ∧
      Move ⟨n, none, none⟩ ⟨m, some (c, .starting op), none⟩ ∧ n' = m.start c op := by
  obtain ⟨calls, nextCall, -, hmove, hstart⟩ := h.starts
  exact ⟨{ n with calls, nextCall }, rfl, rfl, rfl, rfl, rfl, hmove, hstart⟩

end Begins

theorem forgot_of_begins {n n' : Node σ} {c : CallId} {e : EntryId}
    (h : Begins (.forceRefresh e) c n n') (ho : Orderly (⟨n, none, none⟩ : Midturn σ)) :
    ⟨n.time, .forgot e⟩ :: n.journal <:+ n'.journal := by
  obtain ⟨m, -, -, hjournal, -, htime, hstart, rfl⟩ := h.moves
  have hturn : Move ⟨m, some (c, .starting (.forceRefresh e)), none⟩
      ⟨m, some (c, .forgetting [e] (.refresh e none)), none⟩ := .quiet (.turn rfl)
  have hforget : Move ⟨m, some (c, .forgetting [e] (.refresh e none)), none⟩
      ⟨m.forget e, some (c, .forgetting [] (.refresh e none)), none⟩ := .forget ..
  have hrest := moves_forgetting_refresh (m.forget e) c none [] e none
  have horderly := ((ho.move hstart).move hturn).move hforget
  have hfinal := hrest.moves.keeps
    (I := fun s => Orderly s ∧ (m.forget e).journal <:+ s.node.journal)
    (fun hs mv => ⟨hs.1.move mv, hs.2.trans (mv.journal_suffix hs.1)⟩)
    ⟨horderly, List.suffix_refl _⟩
  rw [← hjournal, ← htime]
  exact hfinal.2

/-! ### Who left a revision there -/

section Revisions

variable {key : ServiceKey} {e : EntryId}

omit [Registry σ] in
theorem Happening.revision_relist (l : Listing) (h : Happening) :
    (∃ a, h.answer? e = some a ∧ (h.relist key e l).revision = a.revision) ∨
      (h.relist key e l).revision = l.revision ∨ (h.relist key e l).revision = none := by
  cases h with
  | refreshed c v next o status guarded =>
    rcases o with (new | _ | _) | _
    · by_cases hv : v = e
      · refine .inl ⟨new, if_pos hv, ?_⟩
        simp only [relist, if_pos hv]
        split <;> rfl
      · exact .inr (.inl (by simp [relist, hv]))
    all_goals exact .inr (.inl rfl)
  | changed c v change verdict =>
    refine .inr ?_
    simp only [relist]
    split
    · split
      · exact .inr rfl
      · exact .inl rfl
      · exact .inl rfl
    · exact .inl rfl
  | forgot v =>
    refine .inr ?_
    simp only [relist]
    split
    · exact .inr rfl
    · exact .inl rfl
  | _ => exact .inr (.inl rfl)

omit [Registry σ] in
/-- A revision that is there after it was forgotten came with an answer since. -/
theorem answered_since {since before : List JournalLine} {r : String}
    (hforgot : (listingAfter key e before).revision = none)
    (hr : (listingAfter key e (since ++ before)).revision = some r) :
    ∃ l ∈ since, ∃ a, l.what.answer? e = some a ∧ a.revision = some r := by
  induction since with
  | nil =>
    rw [List.nil_append, hforgot] at hr
    cases hr
  | cons line since ih =>
    rw [List.cons_append, listingAfter] at hr
    rcases @Happening.revision_relist key e (listingAfter key e (since ++ before)) line.what
      with ⟨a, ha, hrevision⟩ | hsame | hnone
    · exact ⟨line, List.mem_cons_self, a, ha, hrevision.symm.trans hr⟩
    · obtain ⟨l, hl, hanswer⟩ := ih (hsame.symm.trans hr)
      exact ⟨l, List.mem_cons_of_mem _ hl, hanswer⟩
    · rw [hnone] at hr
      cases hr

end Revisions

/-! ### The one refresh of a call -/

omit [Registry σ] in
/-- Whoever ended a refresh had asked. -/
theorem Serial.asker_of_refreshed {e : EntryId} {journal : List JournalLine}
    (h : Serial e journal) {l : JournalLine} (hl : l ∈ journal) {c : CallId}
    {next : AfterRefresh} {o : Outcome} {status : CacheStatus} {guarded : Bool}
    (hwhat : l.what = .refreshed c e next o status guarded) : c ∈ askers journal := by
  obtain ⟨after, before, rfl⟩ := List.append_of_mem hl
  rcases l with ⟨time, what⟩
  cases hwhat
  have hserial : Serial e (⟨time, .refreshed c e next o status guarded⟩ :: before) := h.of_append
  obtain ⟨between, began, earlier, rfl, -, -⟩ := hserial.1.began_of_openFetch (hserial.2 rfl)
  refine List.mem_filterMap.mpr ⟨⟨began, .fetchBegan c e next⟩, ?_, rfl⟩
  simp

omit [Registry σ] in
/-- The refresh of a call has only ended once. -/
theorem Asked.refreshed_once {n : Node σ} {e : EntryId} {after before : List JournalLine}
    {time : Nat} {c : CallId} {next : AfterRefresh} {o : Outcome} {status : CacheStatus}
    {guarded : Bool} (h : Asked (⟨n, none, none⟩ : Midturn σ)) (hs : Serial e n.journal)
    (hj : n.journal = after ++ ⟨time, .refreshed c e next o status guarded⟩ :: before)
    {l : JournalLine} (hl : l ∈ before) {next' : AfterRefresh} {o' : Outcome}
    {status' : CacheStatus} {guarded' : Bool} :
    l.what ≠ .refreshed c e next' o' status' guarded' := by
  intro hwhat
  have hserial : Serial e (⟨time, .refreshed c e next o status guarded⟩ :: before) :=
    Serial.of_append (hj ▸ hs)
  obtain ⟨between, began, earlier, rfl, hbetween, -⟩ :=
    hserial.1.began_of_openFetch (hserial.2 rfl)
  have hearlier : l ∈ earlier := by
    rcases List.mem_append.mp hl with hl | hl
    · exact absurd (by rw [hwhat]; rfl) (hbetween l hl)
    · rcases List.mem_cons.mp hl with rfl | hl
      · cases hwhat
      · exact hl
  have hserial' : Serial e (⟨began, .fetchBegan c e next⟩ :: earlier) := hserial.1.of_append
  have hasked := hserial'.1.asker_of_refreshed hearlier hwhat
  have hnodup : (askers n.journal).Nodup := h.nodup
  -- the call has asked before this lookup and for it
  rw [hj, askers, List.filterMap_append, List.filterMap_cons, List.filterMap_append,
    List.filterMap_cons] at hnodup
  have htail := (List.nodup_append.mp (List.nodup_append.mp hnodup).2.1).2.1
  exact (List.nodup_cons.mp htail).1 hasked

/-! ### Forced refreshes -/

/-- The forced refresh `c` that began on the node `n` was overtaken: a refresh of another
    call has left the revision of `new` in the view since then. -/
def Overtaken (n : Node σ) (c : CallId) (key : ServiceKey) (e : EntryId) (new : Listing)
    (before : List JournalLine) : Prop :=
  new.revision.isSome ∧ (listingAfter key e before).revision = new.revision ∧
    ∃ since, before = since ++ ⟨n.time, .forgot e⟩ :: n.journal ∧
      ∃ l ∈ since, ∃ c' next' new' status' guarded', c' ≠ c ∧
        l.what = .refreshed c' e next' (.answered (.found new')) status' guarded' ∧
        new'.revision = new.revision

omit [Registry σ] in
/-- What is not among the oldest lines has them before it. -/
theorem suffix_of_append_eq {after before old : List JournalLine} {l : JournalLine}
    (h : old <:+ after ++ l :: before) (hl : l ∉ old) : ∃ since, before = since ++ old := by
  obtain ⟨pre, hpre⟩ := h
  rcases List.append_eq_append_iff.mp hpre with ⟨mid, -, hold⟩ | ⟨mid, -, hmid⟩
  · exact absurd (hold ▸ List.mem_append_right _ List.mem_cons_self) hl
  · cases mid with
    | nil =>
      rw [List.nil_append] at hmid
      exact absurd (hmid ▸ List.mem_cons_self) hl
    | cons x since =>
      rw [List.cons_append, List.cons.injEq] at hmid
      exact ⟨since, hmid.2⟩

/-- The end of a forced refresh comes after the call has forgotten the revision. -/
theorem forgot_before_refreshed {start n n₁ m : Node σ} {c : CallId} {e : EntryId}
    {after before : List JournalLine} {time : Nat} {next : AfterRefresh} {o : Outcome}
    {status : CacheStatus} {guarded : Bool} (untouched : start.Untouched)
    (course : start.Course n) (begins : Begins (.forceRefresh e) c n n₁) (course' : n₁.Course m)
    (ended : m.journal = after ++ ⟨time, .refreshed c e next o status guarded⟩ :: before) :
    ∃ since, before = since ++ ⟨n.time, .forgot e⟩ :: n.journal := by
  have sound := course.sound untouched
  have hforgot : ⟨n.time, .forgot e⟩ :: n.journal <:+ m.journal :=
    (forgot_of_begins begins sound.orderly).trans
      (course'.journal_suffix ((course.trans begins.course).sound untouched))
  have hnew : (⟨time, .refreshed c e next o status guarded⟩ : JournalLine) ∉
      ⟨n.time, .forgot e⟩ :: n.journal := by
    intro hmem
    rcases List.mem_cons.mp hmem with heq | hmem
    · cases heq
    · exact (course.asked untouched).1.silent c
        ((sound.told e).serial.asker_of_refreshed hmem rfl) begins.may
  exact suffix_of_append_eq (ended ▸ hforgot) hnew

/-- **A forced refresh that is answered with a list, and a list that protection does not
    withhold, counts as a change and leaves the view with that list, unless it was
    overtaken; and it answers with the status that it ended with.** -/
theorem forced_refresh_adopts_iff {start n n₁ m : Node σ} {c : CallId} {e : EntryId}
    {after before : List JournalLine} {time : Nat} {new : Listing} {status : CacheStatus}
    {guarded : Bool} (untouched : start.Untouched) (course : start.Course n)
    (begins : Begins (.forceRefresh e) c n n₁) (course' : n₁.Course m)
    (ended : m.journal = after ++
      ⟨time, .refreshed c e .status (.answered (.found new)) status guarded⟩ :: before)
    (latest : ∀ l ∈ after, l.what.view? ≠ some e)
    (believed : ¬ (new.instances = [] ∧ guarded = true ∧ m.directory.options.policy
      (m.entry e).key (listingAfter (m.entry e).key e before).instances = true)) :
    ⟨c, time, .status status⟩ ∈ m.replies ∧
      (status = .refreshed ∧ (m.entry e).listing = new ↔
        ¬ Overtaken n c (m.entry e).key e new before) := by
  have reached : start.Course m := (course.trans begins.course).trans course'
  have told := (reached.sound untouched).told e
  obtain ⟨asked, answered⟩ := reached.asked untouched
  have hline : (⟨time, .refreshed c e .status (.answered (.found new)) status guarded⟩ :
      JournalLine) ∈ m.journal := ended ▸ List.mem_append_right _ List.mem_cons_self
  have hreply : ⟨c, time, .status status⟩ ∈ m.replies := by
    rcases answered _ hline c e _ status guarded rfl with hreply | ⟨-, hrun | hrun⟩
    · exact hreply
    · cases hrun
    · cases hrun
  obtain ⟨since, hsince⟩ := forgot_before_refreshed untouched course begins course' ended
  have hverdict := told.verdict ended
  rw [verdictOn_found] at hverdict
  have hlist := told.listing_of_latest ended latest
  rw [listingAfter, Happening.relist, if_pos rfl] at hlist
  refine ⟨hreply, ?_⟩
  by_cases hsame : new.revision.isSome ∧
      new.revision = (listingAfter (m.entry e).key e before).revision
  · rw [if_pos hsame] at hverdict
    refine iff_of_false ?_ (not_not_intro ?_)
    · intro h
      rw [h.1] at hverdict
      cases hverdict
    · obtain ⟨r, hr⟩ := Option.isSome_iff_exists.mp hsame.1
      have hafter : (listingAfter (m.entry e).key e
          (⟨n.time, .forgot e⟩ :: n.journal)).revision = none := by
        rw [listingAfter, Happening.relist, if_pos rfl]
      have hrecorded := hsame.2.symm.trans hr
      rw [hsince] at hrecorded
      obtain ⟨l, hl, a, ha, har⟩ := answered_since hafter hrecorded
      obtain ⟨c', next', status', guarded', hwhat⟩ := Happening.eq_refreshed_of_answer? ha
      refine ⟨hsame.1, hsame.2.symm, since, hsince, l, hl, c', next', a, status', guarded', ?_,
        hwhat, har.trans hr.symm⟩
      rintro rfl
      exact asked.refreshed_once told.serial ended
        (hsince ▸ List.mem_append_left _ hl) hwhat
  · rw [if_neg hsame, if_neg believed] at hverdict
    rw [hverdict, if_pos rfl] at hlist
    exact iff_of_true ⟨hverdict, hlist⟩ fun h => hsame ⟨h.1, h.2.1.symm⟩

/-! ### A forced refresh that is overtaken -/

namespace Overtaking

/-- Every answer is the same and takes 50 milliseconds. -/
def start : Node Script :=
  .holding ⟨[(Drift.key, [⟨.found ⟨[Drift.server], some "1"⟩, 50⟩])]⟩ {} false Drift.key

/-- A refresh is under way. -/
def busy : Node Script := start.follow [.call (.refresh 0), .pass 10]

/-- The forced refresh gets in line behind it. -/
def queued : Node Script := (busy.call (.forceRefresh 0)).2

/-- Both have taken in their answers. -/
def settled : Node Script := queued.follow [.pass 40, .resume 0, .resume 1, .pass 50, .resume 1]

/-- The journal but for its latest line. -/
def before : List JournalLine := settled.journal.tail

theorem begins : Begins (.forceRefresh 0) 1 busy queued := .now busy (by decide)

theorem journal_settled :
    settled.journal =
      [] ++ ⟨100, .refreshed 1 0 .status (.answered (.found ⟨[Drift.server], some "1"⟩))
        .noChange false⟩ :: before := by
  decide

end Overtaking

/-- **A forced refresh can be answered with a list in time and without protection and
    still count as no change.** -/
theorem forced_refresh_without_change :
    (Overtaking.start.Untouched ∧ Overtaking.start.Course Overtaking.busy ∧
      Begins (.forceRefresh 0) 1 Overtaking.busy Overtaking.queued ∧
      Overtaking.queued.Course Overtaking.settled) ∧
      Overtaking.settled.journal.head? = some
        ⟨100, .refreshed 1 0 .status (.answered (.found ⟨[Drift.server], some "1"⟩))
          .noChange false⟩ ∧
      ⟨1, 100, .status .noChange⟩ ∈ Overtaking.settled.replies ∧
      (Overtaking.settled.entry 0).status = .noChange := by
  refine ⟨⟨Node.untouched_holding .., Node.course_follow .., Overtaking.begins,
    Node.course_follow ..⟩, by decide, by decide, by decide⟩

/-- It was overtaken by the refresh that it waited for. -/
theorem forced_refresh_overtaken :
    (Overtaking.start.Untouched ∧ Overtaking.start.Course Overtaking.busy ∧
      Begins (.forceRefresh 0) 1 Overtaking.busy Overtaking.queued ∧
      Overtaking.queued.Course Overtaking.settled) ∧
      ⟨1, 100, .status .noChange⟩ ∈ Overtaking.settled.replies ∧
      Overtaken Overtaking.busy 1 (Overtaking.settled.entry 0).key 0
        ⟨[Drift.server], some "1"⟩ Overtaking.before := by
  have untouched : Overtaking.start.Untouched := Node.untouched_holding ..
  have course : Overtaking.start.Course Overtaking.busy := Node.course_follow ..
  have course' : Overtaking.queued.Course Overtaking.settled := Node.course_follow ..
  refine ⟨⟨untouched, course, Overtaking.begins, course'⟩, ?_⟩
  have adopts := forced_refresh_adopts_iff untouched course Overtaking.begins course'
    Overtaking.journal_settled (by simp) (by simp)
  exact ⟨adopts.1, not_not.mp (mt adopts.2.mpr (by simp))⟩

end ServiceFinder
