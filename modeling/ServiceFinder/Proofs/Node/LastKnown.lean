/-
  ServiceFinder/Proofs/Node/LastKnown.lean
  ========================================
  **A view keeps the last list that it believed.**

  As long as no changes are pushed, only refreshes touch the list of a view, and most of them
  leave it alone: the registry fails, answers too late, denies that there is such a service,
  repeats the revision, or answers an empty list that protection withholds.  So the list is the
  one that the latest refresh was answered that took its answer in, as a whole, and empty before
  there was one.  This is so at every moment of a course, also within turns, and whatever is
  forgotten or protected meanwhile.
-/
import ServiceFinder.Proofs.Node.Asking
import ServiceFinder.Proofs.Node.Evicting
import ServiceFinder.Proofs.Node.Protection

namespace ServiceFinder

variable {σ : Type}

/-! ### Moments of a course -/

/-- What moves and the passing of time make of a node: where a course is between two turns or
    within one. -/
inductive Node.Moment [Registry σ] (start : Node σ) : Midturn σ → Prop where
  | first : Moment start ⟨start, none, none⟩
  | move {s s' : Midturn σ} : Moment start s → Move s s' → Moment start s'
  | pass {n : Node σ} (time : Nat) : Moment start ⟨n, none, none⟩ → n.time ≤ time →
      Moment start ⟨{ n with time }, none, none⟩

namespace Node

variable [Registry σ] {start n : Node σ} {s : Midturn σ}

theorem Course.moment (course : start.Course n) : start.Moment ⟨n, none, none⟩ :=
  course.keeps (I := start.Moment) .move (fun hle h => h.pass _ hle) .first

/-- What moves keep on sound nodes, and time does not spoil, holds at every moment. -/
theorem Moment.keeps {I : Midturn σ → Prop} (moment : start.Moment s)
    (sound : Sound (⟨start, none, none⟩ : Midturn σ))
    (move : ∀ {s s'}, start.Moment s → Sound s → I s → Move s s' → I s')
    (pass : ∀ {n : Node σ} {time}, n.time ≤ time → I ⟨n, none, none⟩ →
      I ⟨{ n with time }, none, none⟩)
    (h : I ⟨start, none, none⟩) : Sound s ∧ I s := by
  induction moment with
  | first => exact ⟨sound, h⟩
  | move before m ih => exact ⟨ih.1.move m, move before ih.1 ih.2 m⟩
  | pass time _ hle ih => exact ⟨ih.1.pass time, pass hle ih.2⟩

end Node

/-! ### How refreshes end -/

/-- The registry answers that there is no such service, plainly or as a failure. -/
def Answer.Denies : Answer → Prop
  | .notFound | .failed (.serviceNotFound _ _) => True
  | _ => False

/-- The registry fails. -/
def Answer.Fails : Answer → Prop
  | .failed cause => ∀ app service, cause ≠ .serviceNotFound app service
  | _ => False

namespace Entry

variable {policy : EmptyListPolicy} {x : Entry} {o : Outcome}

/-- A list that counts as new is there as it was answered. -/
theorem afterRefresh_refreshed (h : (x.afterRefresh policy o).2 = .refreshed) :
    ∃ new, o = .answered (.found new) ∧ (x.afterRefresh policy o).1.listing = new := by
  rcases o with (new | _ | (_ | _)) | _
  all_goals simp only [afterRefresh, adopt, adoptListing] at h ⊢
  all_goals try cases h
  refine ⟨new, rfl, ?_⟩
  split at h
  · cases h
  · rename_i hnew
    split at h
    · cases h
    · rename_i hbelieved
      simp only [if_neg hnew, if_neg hbelieved]

theorem afterRefresh_instances (h : (x.afterRefresh policy o).2 ≠ .refreshed) :
    (x.afterRefresh policy o).1.listing.instances = x.listing.instances := by
  rcases o with (new | _ | (_ | _)) | _
  all_goals simp only [afterRefresh, adopt, adoptListing] at h ⊢
  split
  · rfl
  · split
    · rfl
    · rename_i hnew hbelieved
      simp [hnew, hbelieved] at h

/-- Only an answer with a list leaves its revision in the view. -/
theorem afterRefresh_listing (h : (x.afterRefresh policy o).2 = .refreshFailed ∨
    (x.afterRefresh policy o).2 = .serviceNotFound) :
    (x.afterRefresh policy o).1.listing = x.listing := by
  rcases o with (new | _ | (_ | _)) | _
  all_goals try rfl
  simp only [afterRefresh, adopt, adoptListing] at h
  split at h
  · simp at h
  · split at h <;> simp at h

section Deliveries

variable (policy x) (timeout : Nat) (d : Delivery)

/-- A refresh fails if the registry does or comes too late. -/
theorem afterRefresh_failed_iff :
    (x.afterRefresh policy (Node.outcomeWithin timeout d)).2 = .refreshFailed ↔
      timeout < d.delay ∨ d.answer.Fails := by
  rcases d with ⟨answer, delay⟩
  by_cases hle : delay ≤ timeout
  · have hlt : ¬ timeout < delay := Nat.not_lt.mpr hle
    simp only [Node.outcomeWithin, if_pos hle, hlt, false_or]
    rcases answer with new | _ | (_ | _ | _ | _)
    all_goals simp only [afterRefresh, adopt, adoptListing, Answer.Fails]
    all_goals try simp
    split
    · simp
    · split <;> simp
  · have hlt : timeout < delay := Nat.lt_of_not_le hle
    simp [Node.outcomeWithin, hle, hlt, afterRefresh, adopt]

theorem afterRefresh_gone_iff :
    (x.afterRefresh policy (Node.outcomeWithin timeout d)).2 = .serviceNotFound ↔
      d.delay ≤ timeout ∧ d.answer.Denies := by
  rcases d with ⟨answer, delay⟩
  by_cases hle : delay ≤ timeout
  · simp only [Node.outcomeWithin, hle, if_true, true_and]
    rcases answer with new | _ | (_ | _ | _ | _)
    all_goals simp only [afterRefresh, adopt, adoptListing, Answer.Denies]
    all_goals try simp
    split
    · simp
    · split <;> simp
  · simp [Node.outcomeWithin, hle, afterRefresh, adopt]

end Deliveries

end Entry

/-- The outcome and the status of the refresh of the view `e` that a happening ends. -/
def Happening.ending? (e : EntryId) : Happening → Option (Outcome × CacheStatus)
  | .refreshed _ v _ o status _ => if v = e then some (o, status) else none
  | _ => none

/-- How the refreshes of the view `e` ended, the latest first. -/
def endings (e : EntryId) (journal : List JournalLine) : List (Outcome × CacheStatus) :=
  journal.filterMap (·.what.ending? e)

/-- The list is that of the latest refresh that took its answer in, and empty if there is
    none. -/
def LastKnown (endings : List (Outcome × CacheStatus)) (instances : List Instance) : Prop :=
  ((∀ r ∈ endings, r.2 ≠ .refreshed) ∧ instances = []) ∨
    ∃ new, endings.find? (·.2 == .refreshed) = some (.answered (.found new), .refreshed) ∧
      instances = new.instances

section Endings

variable {e : EntryId} {line : JournalLine} {lines before journal : List JournalLine}

theorem Happening.ending?_of_ne {h : Happening} (hv : h.view? ≠ some e) : h.ending? e = none := by
  cases h with
  | refreshed c v next o status guarded => exact if_neg fun heq => hv (congrArg some heq)
  | _ => rfl

theorem endings_cons (line : JournalLine) (journal : List JournalLine) :
    endings e (line :: journal) = (line.what.ending? e).toList ++ endings e journal := by
  unfold endings
  rw [List.filterMap_cons]
  cases line.what.ending? e <;> rfl

theorem endings_append (h : ∀ l ∈ lines, l.what.ending? e = none) :
    endings e (lines ++ before) = endings e before := by
  rw [endings, List.filterMap_append, List.filterMap_eq_nil_iff.mpr h]
  rfl

theorem LastKnown.cons_refreshed {new : Listing} {rest : List (Outcome × CacheStatus)} :
    LastKnown ((.answered (.found new), .refreshed) :: rest) new.instances :=
  .inr ⟨new, by simp, rfl⟩

theorem LastKnown.cons {r : Outcome × CacheStatus} {rest : List (Outcome × CacheStatus)}
    {instances : List Instance} (h : LastKnown rest instances) (hr : r.2 ≠ .refreshed) :
    LastKnown (r :: rest) instances := by
  rcases h with ⟨hnone, hnil⟩ | ⟨new, hfind, hnew⟩
  · exact .inl ⟨List.forall_mem_cons.mpr ⟨hr, hnone⟩, hnil⟩
  · refine .inr ⟨new, ?_, hnew⟩
    rw [List.find?_cons_of_neg (by simpa using hr)]
    exact hfind

/-- A refresh that is told of and the only thing that touches the list does it once it is over. -/
theorem lastKnown_of_truthful {policy : EmptyListPolicy} {key : ServiceKey}
    (ht : Truthful policy key e journal) (hu : Unchanged e journal) :
    LastKnown (endings e journal) (listingAfter key e journal).instances := by
  induction journal with
  | nil => exact .inl ⟨by simp [endings], rfl⟩
  | cons line before ih =>
    have hbefore := ih ht.1 hu.tail
    rw [endings_cons]
    rcases line with ⟨time, what⟩
    by_cases hv : what.view? = some e
    · cases what with
      | refreshed c v next o status guarded =>
        obtain rfl : v = e := Option.some.inj hv
        have hverdict := ht.2 rfl
        -- the view as the refresh found it
        let x : Entry := { key, listing := listingAfter key v before, protection := guarded }
        have hlist : listingAfter key v (⟨time, .refreshed c v next o status guarded⟩ :: before) =
            (x.afterRefresh policy o).1.listing := by
          rw [x.listing_afterRefresh policy c v next o guarded]
          exact congrArg
            (fun s => (Happening.refreshed c v next o s guarded).relist key v _) hverdict
        have hending : (Happening.refreshed c v next o status guarded).ending? v =
            some (o, status) := if_pos rfl
        rw [hlist, hending]
        by_cases hnew : status = .refreshed
        · obtain ⟨new, rfl, hlisting⟩ := x.afterRefresh_refreshed (hverdict.symm.trans hnew)
          rw [hlisting, hnew]
          exact .cons_refreshed
        · rw [x.afterRefresh_instances fun h => hnew (hverdict.trans h)]
          exact hbefore.cons hnew
      | changed c v change verdict => exact absurd hv (hu _ List.mem_cons_self)
      | forgot v =>
        obtain rfl : v = e := Option.some.inj hv
        rw [listingAfter, Happening.relist, if_pos rfl]
        exact hbefore
      | _ => exact hbefore
    · rw [Happening.ending?_of_ne hv, listingAfter, Happening.relist_of_ne key _ hv]
      exact hbefore

/-- Without pushed changes the status of a view is that of its latest refresh. -/
theorem statusAfter_eq_endings (hu : Unchanged e journal) :
    statusAfter e journal = ((endings e journal).head?.map (·.2)).getD .initial := by
  induction journal with
  | nil => rfl
  | cons line before ih =>
    rw [endings_cons, statusAfter, ih hu.tail]
    rcases line with ⟨time, what⟩
    cases what with
    | refreshed c v next o status guarded =>
      by_cases hv : v = e
      · simp [Happening.verdict?, Happening.ending?, hv]
      · simp [Happening.verdict?, Happening.ending?, hv]
    | changed c v change verdict =>
      have hv : v ≠ e := fun heq => hu _ List.mem_cons_self (congrArg some heq)
      simp [Happening.verdict?, Happening.ending?, hv]
    | _ => rfl

end Endings

/-! ### Moves that end a refresh -/

/-- A move ends one refresh of the view `e` or none, and without changes it touches the list only
    then. -/
theorem Move.ends_refresh [Registry σ] {s s' : Midturn σ} (m : Move s s') (hs : Sound s)
    {e : EntryId} (unchanged : Unchanged e s'.node.journal) :
    (endings e s'.node.journal = endings e s.node.journal ∧
      (s'.node.entry e).listing.instances = (s.node.entry e).listing.instances) ∨
    ∃ o, endings e s'.node.journal =
        (o, (s.node.outcomeOn e o).2) :: endings e s.node.journal ∧
      (s'.node.entry e).listing = (s.node.outcomeOn e o).1.listing := by
  rcases m.apart_or_touch hs.orderly with ha | ht
  · obtain ⟨lines, hj, hl⟩ := ha.journal
    refine .inl ⟨?_, congrArg Listing.instances (ha.listing e)⟩
    rw [hj, endings_append fun l hmem => Happening.ending?_of_ne (by simp [hl l hmem])]
  · cases ht with
    | wake | askNow | ask => exact .inl ⟨rfl, rfl⟩
    | forget n c k v es next =>
      refine .inl ⟨rfl, ?_⟩
      rw [n.listing_forget v e]
      split <;> rfl
    | create =>
      exact .inl ⟨rfl, congrArg Listing.instances (Node.listing_created ..)⟩
    | beginFirst | endFirst | lock | wait =>
      exact .inl ⟨rfl, Node.entry_modifyEntry_congr (fun x => x.listing.instances) _ _ _ rfl⟩
    | hear n c k v o next =>
      by_cases hv : v = e
      · subst hv
        have hlt : v < n.directory.entries.length := hs.inLine.lt_length rfl
        have hlisting : ((n.settled c v o next).entry v).listing = (n.outcomeOn v o).1.listing := by
          rw [n.entry_settled c o next hlt]
        refine .inr ⟨o, (endings_cons _ _).trans ?_, hlisting⟩
        rw [Happening.ending?, if_pos rfl]
        rfl
      · refine .inl ⟨?_, ?_⟩
        · refine (endings_cons _ _).trans ?_
          rw [Happening.ending?, if_neg hv]
          rfl
        · exact congrArg (·.listing.instances)
            (n.entry_settled_of_ne c o next fun heq => hv heq.symm)
    | apply n c k v change next =>
      have hv : v ≠ e := fun heq => unchanged _ List.mem_cons_self (congrArg some heq)
      exact .inl ⟨rfl, congrArg (·.listing.instances)
        (n.entry_applyChange_of_ne c change fun heq => hv heq.symm)⟩

/-! ### What the registry delivered -/

/-- The call `c` asked for the view `e` as this journal tells, and the registry delivered `d`. -/
def Delivered [Registry σ] (start : Node σ) (journal : List JournalLine) (c : CallId)
    (e : EntryId) (next : AfterRefresh) (d : Delivery) : Prop :=
  ∃ s s' : Midturn σ, start.Moment s ∧ Move s s' ∧
    s'.node.journal = ⟨s.node.time, .fetchBegan c e next⟩ :: s.node.journal ∧
    s'.node.journal <:+ journal ∧
    Registry.lookup (s.node.entry e).key s.node.registry = (d, s'.node.registry)

/-- A refresh ends with `o`, or has done so. -/
def Midturn.Ends (s : Midturn σ) (c : CallId) (e : EntryId) (next : AfterRefresh)
    (o : Outcome) : Prop :=
  (∃ due, (c, .fetching e due o next) ∈ s.node.calls) ∨ s.running = some (c, .heard e o next) ∨
    ∃ l ∈ s.node.journal, ∃ status guarded, l.what = .refreshed c e next o status guarded

/-- Every refresh ends as the registry delivers, if it does so in time. -/
def Sourced [Registry σ] (start : Node σ) (s : Midturn σ) : Prop :=
  ∀ c e next o, s.Ends c e next o → ∃ d, Delivered start s.node.journal c e next d ∧
    o = Node.outcomeWithin s.node.directory.options.fetchTimeout d

namespace Sourced

variable [Registry σ] {start : Node σ} {s s' : Midturn σ}

theorem of_ends (h : Sourced start s) (m : Move s s') (ho : Orderly s)
    (ends : ∀ {c e next o}, s'.Ends c e next o → s.Ends c e next o ∨
      ∃ d, Delivered start s'.node.journal c e next d ∧
        o = Node.outcomeWithin s.node.directory.options.fetchTimeout d) : Sourced start s' := by
  intro c e next o h'
  rw [m.options ho]
  rcases ends h' with hold | hnew
  · obtain ⟨d, ⟨t, t', moment, m', hj, hsuffix, hlookup⟩, hd⟩ := h c e next o hold
    exact ⟨d, ⟨t, t', moment, m', hj, hsuffix.trans (m.journal_suffix ho), hlookup⟩, hd⟩
  · exact hnew

theorem of_same (h : Sourced start s) (m : Move s s') (ho : Orderly s)
    (calls : ∀ {c e due o next}, (c, .fetching e due o next) ∈ s'.node.calls →
      (c, .fetching e due o next) ∈ s.node.calls)
    (running : ∀ {c e o next}, s'.running = some (c, .heard e o next) → s.Ends c e next o)
    (journal : ∀ l ∈ s'.node.journal, ∀ {c e next o status guarded},
      l.what = .refreshed c e next o status guarded → l ∈ s.node.journal ∨ s.Ends c e next o) :
    Sourced start s' := by
  refine h.of_ends m ho ?_
  rintro c e next o (⟨due, hc⟩ | hrun | ⟨l, hl, status, guarded, hwhat⟩)
  · exact .inl (.inl ⟨due, calls hc⟩)
  · exact .inl (running hrun)
  · rcases journal l hl hwhat with hold | hends
    · exact .inl (.inr (.inr ⟨l, hold, status, guarded, hwhat⟩))
    · exact .inl hends

/-- A lookup begins: how it ends is known. -/
theorem asked (h : Sourced start s) (moment : start.Moment s) (m : Move s s') (ho : Orderly s)
    {c : CallId} {e : EntryId} {next : AfterRefresh}
    (hj : s'.node.journal = ⟨s.node.time, .fetchBegan c e next⟩ :: s.node.journal)
    (hregistry : s'.node.registry =
      (Registry.lookup (s.node.entry e).key s.node.registry).2)
    (ends : ∀ {c' e' next' o}, s'.Ends c' e' next' o → s.Ends c' e' next' o ∨
      c' = c ∧ e' = e ∧ next' = next ∧ o = s.node.outcomeFor e) : Sourced start s' := by
  refine h.of_ends m ho ?_
  intro c' e' next' o h'
  rcases ends h' with hold | ⟨rfl, rfl, rfl, rfl⟩
  · exact .inl hold
  · refine .inr ⟨_, ⟨s, s', moment, m, hj, List.suffix_refl _, ?_⟩, rfl⟩
    rw [hregistry]

theorem move (h : Sourced start s) (moment : start.Moment s) (hs : Sound s) (m : Move s s') :
    Sourced start s' := by
  have ho := hs.orderly
  rcases m.apart_or_touch ho with ha | ht
  · obtain ⟨lines, hj, hl⟩ := ha.journal
    refine h.of_same m ho (fun hc => (ha.calls rfl).mp hc) ?_ ?_
    · intro c e o next hrun
      have hnone := ha.aside'.hold
      simp [Midturn.hold?, hrun, Point.holds?] at hnone
    · intro l hmem c e next o status guarded hwhat
      rw [hj] at hmem
      rcases List.mem_append.mp hmem with hmem | hmem
      · have hv := hl l hmem
        rw [hwhat] at hv
        cases hv
      · exact .inl hmem
  · cases ht with
    | @wake n c st e rests awake hline =>
      refine h.of_same m ho (fun hc => (Node.mem_unrest.mp hc).1) ?_ (fun l hl => fun _ => .inl hl)
      intro c' e' o next hrun
      cases st with
      | fetching v due o' next' =>
        cases hrun
        exact .inl ⟨due, Node.mem_of_stage? rests⟩
      | _ => cases hrun
    | beginFirst | endFirst =>
      refine h.of_same m ho (fun hc => hc) ?_ (fun l hl => fun _ => .inl hl)
      intro _ _ _ _ hrun
      cases hrun
    | @lock n c k v job =>
      refine h.of_same m ho (fun hc => hc) ?_ (fun l hl => fun _ => .inl hl)
      intro c' e' o next hrun
      cases job <;> cases hrun
    | @wait n c k v job =>
      refine h.of_same m ho ?_ ?_ (fun l hl => fun _ => .inl hl)
      · intro c' e' due o next hc
        rcases Node.mem_rest.mp hc with hc | ⟨-, heq⟩
        · exact hc
        · cases job <;> cases heq
      · intro _ _ _ _ hrun
        cases hrun
    | forget | create =>
      refine h.of_same m ho (fun hc => hc) ?_ ?_
      · intro _ _ _ _ hrun
        cases hrun
      · intro l hmem c e next o status guarded hwhat
        rcases List.mem_cons.mp hmem with rfl | hmem
        · cases hwhat
        · exact .inl hmem
    | apply n c k v change next hold first =>
      refine h.of_same m ho (fun hc => hc) ?_ ?_
      · intro c' e' o next' hrun
        cases hrun
        cases hold
      · intro l hmem c e next o status guarded hwhat
        rcases List.mem_cons.mp hmem with rfl | hmem
        · cases hwhat
        · exact .inl hmem
    | @askNow n c k v next =>
      refine h.asked moment m ho rfl rfl ?_
      rintro c' e' next' o (⟨due, hc⟩ | hrun | ⟨l, hl, status, guarded, hwhat⟩)
      · exact .inl (.inl ⟨due, hc⟩)
      · cases hrun
        exact .inr ⟨rfl, rfl, rfl, rfl⟩
      · rcases List.mem_cons.mp hl with rfl | hl
        · cases hwhat
        · exact .inl (.inr (.inr ⟨l, hl, status, guarded, hwhat⟩))
    | @ask n c k v next =>
      refine h.asked moment m ho rfl rfl ?_
      rintro c' e' next' o (⟨due, hc⟩ | hrun | ⟨l, hl, status, guarded, hwhat⟩)
      · rcases Node.mem_rest.mp hc with hc | ⟨rfl, heq⟩
        · exact .inl (.inl ⟨due, hc⟩)
        · cases heq
          exact .inr ⟨rfl, rfl, rfl, rfl⟩
      · cases hrun
      · rcases List.mem_cons.mp hl with rfl | hl
        · cases hwhat
        · exact .inl (.inr (.inr ⟨l, hl, status, guarded, hwhat⟩))
    | hear n c k v o next =>
      refine h.of_same m ho (fun hc => hc) ?_ ?_
      · intro _ _ _ _ hrun
        cases hrun
      · intro l hmem c' e' next' o' status guarded hwhat
        rcases List.mem_cons.mp hmem with rfl | hmem
        · cases hwhat
          exact .inr (.inr (.inl rfl))
        · exact .inl hmem

end Sourced

/-! ### The list of a view without changes -/

/-- The status of a refresh that a truthful journal tells of. -/
theorem Truthful.verdict_of_mem {policy : EmptyListPolicy} {key : ServiceKey} {e : EntryId}
    {journal : List JournalLine} (ht : Truthful policy key e journal) {l : JournalLine}
    (hl : l ∈ journal) {c : CallId} {next : AfterRefresh} {o : Outcome} {status : CacheStatus}
    {guarded : Bool} (hwhat : l.what = .refreshed c e next o status guarded) :
    ∃ x : Entry, status = (x.afterRefresh policy o).2 := by
  obtain ⟨after, before, rfl⟩ := List.append_of_mem hl
  have hline := ht.of_append.2
  rw [hwhat] at hline
  exact ⟨_, hline rfl⟩

/-- At every moment the journal tells the status of every view, how its refreshes came to end, and
    what those who asked for them are answered. -/
theorem Node.Moment.accounts [Registry σ] {start : Node σ} {s : Midturn σ}
    (moment : start.Moment s) (untouched : start.Untouched) :
    Sound s ∧ Rated s.node ∧ Sourced start s ∧ Answered s := by
  refine moment.keeps (I := fun s => Rated s.node ∧ Sourced start s ∧ Answered s)
    (.of_untouched untouched) ?_ ?_ ⟨?_, ?_, ?_⟩
  · intro s s' before hs h m
    exact ⟨h.1.move hs m, h.2.1.move before hs m, h.2.2.move hs.orderly m⟩
  · intro n time _ h
    refine ⟨h.1.of_eq (fun _ => rfl) ⟨[], rfl, by simp⟩, h.2.1, ?_⟩
    -- nobody runs while time passes, so every answer has been given
    intro l hl c e o status guarded hwhat
    rcases h.2.2 l hl c e o status guarded hwhat with hreply | ⟨-, hrun | hrun⟩
    · exact .inl hreply
    · cases hrun
    · cases hrun
  · intro e
    rw [untouched.journal]
    exact (untouched.entry e).2.1
  · rintro c e next o (⟨due, hc⟩ | hrun | ⟨l, hl, -⟩)
    · simp [untouched.calls] at hc
    · cases hrun
    · simp [untouched.journal] at hl
  · intro l hl
    simp [untouched.journal] at hl

/-- **A view keeps the last list that it believed.**

    Take any moment of any course, within a turn or between two, at which no pushed change has
    been applied to the view yet.  Its list is empty and no refresh has counted as new, or it is
    all of the list that the latest refresh was answered that did.  Its status is that of the
    latest refresh, which is what the call that asked for it answers, and the initial one before
    there was any.  A refresh fails just if the registry does or takes longer than a lookup may,
    finds the service gone just if the registry says so in time, and counts as new only if it
    brings a list in time.  The next move ends one refresh of the view or none; it leaves the
    list as it is unless it ends one that counts as new, and also the revision if that one fails
    or finds the service gone. -/
theorem refreshes_keep_last_known [Registry σ] {start : Node σ} {s : Midturn σ} {e : EntryId}
    (untouched : start.Untouched) (moment : start.Moment s)
    (unchanged : Unchanged e s.node.journal) :
    LastKnown (endings e s.node.journal) (s.node.entry e).listing.instances ∧
    (s.node.entry e).status = ((endings e s.node.journal).head?.map (·.2)).getD .initial ∧
    (∀ l ∈ s.node.journal, ∀ c next o status guarded,
      l.what = .refreshed c e next o status guarded →
      (next = .status → s.running = none → ⟨c, l.time, .status status⟩ ∈ s.node.replies) ∧
      ∃ d, Delivered start s.node.journal c e next d ∧
        (status = .refreshFailed ↔
          s.node.directory.options.fetchTimeout < d.delay ∨ d.answer.Fails) ∧
        (status = .serviceNotFound ↔
          d.delay ≤ s.node.directory.options.fetchTimeout ∧ d.answer.Denies) ∧
        (status = .refreshed → d.delay ≤ s.node.directory.options.fetchTimeout ∧
          ∃ new, o = .answered (.found new) ∧ d.answer = .found new)) ∧
    (∀ s', Move s s' → Unchanged e s'.node.journal →
      (endings e s'.node.journal = endings e s.node.journal ∧
        (s'.node.entry e).listing.instances = (s.node.entry e).listing.instances) ∨
      ∃ o status, endings e s'.node.journal = (o, status) :: endings e s.node.journal ∧
        (status ≠ .refreshed →
          (s'.node.entry e).listing.instances = (s.node.entry e).listing.instances) ∧
        (status = .refreshFailed ∨ status = .serviceNotFound →
          (s'.node.entry e).listing = (s.node.entry e).listing)) := by
  obtain ⟨hs, hrated, hsourced, hanswered⟩ := moment.accounts untouched
  have told := hs.told e
  refine ⟨?_, ?_, ?_, ?_⟩
  · rw [told.listing]
    exact lastKnown_of_truthful told.truthful unchanged
  · exact (hrated e).trans (statusAfter_eq_endings unchanged)
  · intro l hl c next o status guarded hwhat
    constructor
    · rintro rfl hidle
      rcases hanswered l hl c e o status guarded hwhat with hreply | ⟨-, hrun | hrun⟩
      · exact hreply
      · rw [hidle] at hrun
        cases hrun
      · rw [hidle] at hrun
        cases hrun
    · obtain ⟨d, delivered, rfl⟩ := hsourced c e next o (.inr (.inr ⟨l, hl, _, _, hwhat⟩))
      obtain ⟨x, hx⟩ := told.truthful.verdict_of_mem hl hwhat
      refine ⟨d, delivered, ?_, ?_, ?_⟩
      · rw [hx]
        exact x.afterRefresh_failed_iff ..
      · rw [hx]
        exact x.afterRefresh_gone_iff ..
      · intro hnew
        obtain ⟨new, ho, -⟩ := x.afterRefresh_refreshed (hx.symm.trans hnew)
        unfold Node.outcomeWithin at ho ⊢
        split at ho
        · rename_i hle
          exact ⟨hle, new, by rw [if_pos hle, ← ho], Outcome.answered.inj ho⟩
        · cases ho
  · intro s' m unchanged'
    rcases m.ends_refresh hs unchanged' with hnone | ⟨o, hending, hlisting⟩
    · exact .inl hnone
    · refine .inr ⟨o, _, hending, ?_, ?_⟩
      · intro hold
        rw [hlisting]
        exact Entry.afterRefresh_instances hold
      · intro hfailed
        rw [hlisting]
        exact Entry.afterRefresh_listing hfailed

/-! ### A view with a registry that has bad days -/

namespace BadDays

def key : ServiceKey := ⟨"shop", "store", "orders", everyVersion⟩

def listed (ids : List String) (revision : Option String) : Answer :=
  .found ⟨ids.map fun id => { instanceId := id, serviceId := "v1", endpoints := [] }, revision⟩

/-- The registry fails, lists two servers, is late, denies the service in both ways, lists nothing,
    and lists another server under the revision of that empty list. -/
def start : Node Script :=
  .holding ⟨[(key, [⟨.failed (.fetchFailed "refused"), 0⟩, ⟨listed ["a", "b"] (some "1"), 0⟩,
    ⟨listed ["c"] none, 6000⟩, ⟨.notFound, 0⟩, ⟨.failed (.serviceNotFound "store" "orders"), 0⟩,
    ⟨listed [] (some "2"), 0⟩, ⟨listed ["c"] (some "2"), 20⟩])]⟩ {} false key

/-- Protection is on for the empty list, and the last refresh has not been answered yet. -/
def asking : Node Script :=
  start.follow
    [.call (.ensureFirst 0), .call (.refresh 0), .call (.refresh 0), .pass 5000, .resume 2,
      .call (.refresh 0), .call (.refresh 0), .call (.protectView 0 true), .call (.refresh 0),
      .call (.protectView 0 false), .call (.refresh 0), .pass 20]

/-- The refresh repeats the revision that the empty list left. -/
def kept : Node Script := asking.follow [.resume 8]

/-- The revision is forgotten while the refresh waits for its answer. -/
def replaced : Node Script := asking.follow [.call (.forgetRevisionOf 0), .resume 8]

end BadDays

/-- Bad days leave the list as it was, and a forgotten revision lets the next one in. -/
theorem bad_days_keep_list :
    (BadDays.start.Untouched ∧ BadDays.start.Moment ⟨BadDays.kept, none, none⟩ ∧
      Unchanged 0 BadDays.kept.journal) ∧
    (endings 0 BadDays.kept.journal).map (·.2) =
      [.noChange, .noChange, .serviceNotFound, .serviceNotFound, .refreshFailed, .refreshed,
        .refreshFailed] ∧
    LastKnown (endings 0 BadDays.kept.journal) (BadDays.kept.entry 0).listing.instances ∧
    (BadDays.kept.entry 0).listing.instances.map (·.instanceId) = ["a", "b"] ∧
    (BadDays.kept.entry 0).status = .noChange ∧
    (BadDays.replaced.entry 0).listing.instances.map (·.instanceId) = ["c"] ∧
    (BadDays.replaced.entry 0).status = .refreshed := by
  have untouched : BadDays.start.Untouched := Node.untouched_holding ..
  have course : BadDays.start.Course BadDays.kept :=
    (Node.course_follow ..).trans (Node.course_follow ..)
  have unchanged : Unchanged 0 BadDays.kept.journal := by decide
  obtain ⟨known, -⟩ := refreshes_keep_last_known untouched course.moment unchanged
  exact ⟨⟨untouched, course.moment, unchanged⟩, by decide, known, by decide, by decide, by decide,
    by decide⟩

end ServiceFinder
