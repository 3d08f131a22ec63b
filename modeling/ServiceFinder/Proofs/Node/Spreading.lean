/-
  ServiceFinder/Proofs/Node/Spreading.lean
  ========================================
  **What an event says about a view, and which views it goes through.**

  What an event answers for a view is told by the list alone: it says that the view was refreshed
  just when the list is another one.  On a node an event takes as many turns as there are write
  locks that it has to wait for.  What one turn does is a matter of the views that it applies the
  event to (`Node.Applies`), and along its turns an event goes through the views that it
  concerns, each once (`Spread`).  It takes them in the order in which the cache holds them when
  it begins, and this may be any order.  Nothing but the line for the write lock changes on any
  other view.
-/
import ServiceFinder.Proofs.Node.Pushing
import ServiceFinder.Proofs.Node.Selecting
import ServiceFinder.Proofs.Node.Shuffling

namespace ServiceFinder

variable {σ : Type}

/-! ### One view -/

namespace Entry

variable {policy : EmptyListPolicy} {c : InstanceChange} {x y z : Entry}

/-- What an event answers for a view. -/
def verdict (policy : EmptyListPolicy) (c : InstanceChange) (x : Entry) : Option CacheStatus :=
  if x.concerns c then (x.afterChange policy c).2 else none

/-- The event adds or updates an instance whose id the view does not list, and the version rule
    does not let the view take it in unasked. -/
def Refuses (c : InstanceChange) (x : Entry) : Prop :=
  x.concerns c = true ∧ (c.kind = .create ∨ c.kind = .update) ∧
    c.instanceId ∉ x.listing.instances.map (·.instanceId) ∧ x.acceptsService c.serviceId = false

instance (c : InstanceChange) (x : Entry) : Decidable (x.Refuses c) := by
  unfold Refuses; infer_instance

/-- The view `y`, and the answer `v`, tell the truth about an event that found the view `x`. -/
structure ToldTruly (c : InstanceChange) (x y : Entry) (v : Option CacheStatus) : Prop where
  answer : v = none ∨ v = some .noChange ∨ v = some .refreshed
  refreshed : v = some .refreshed ↔ y.listing.instances ≠ x.listing.instances
  noChange : v = some .noChange → y.listing = x.listing
  silent : v = none → y.listing.instances = x.listing.instances ∧ y.status = x.status
  /-- The revision is forgotten where the event is refused, and nowhere else. -/
  revision : y.listing.revision = if x.Refuses c then none else x.listing.revision
  refused : x.Refuses c → v = none

/-- No edit asks for the list that there is. -/
theorem edit_ne_self {instances : List Instance} (h : x.edit c = .list instances) :
    instances ≠ x.listing.instances := by
  unfold edit at h
  dsimp only at h
  split at h
  · rename_i k hk
    have hlt := (List.findIdx?_eq_some_iff_getElem.mp hk).1
    split at h
    · cases h
      intro hsame
      have hlength := congrArg List.length hsame
      rw [List.length_eraseIdx_of_lt hlt] at hlength
      omega
    · split at h
      · cases h
      · rename_i hother
        cases h
        intro hsame
        apply hother
        rw [← hsame, List.getElem?_set_self hlt]
        exact beq_self_eq_true _
  · split at h
    · cases h
    · split at h
      · cases h
        exact fun hsame => by simpa using congrArg List.length hsame
      · cases h

/-- What is left to the next refresh is what the version rule refuses. -/
theorem edit_eq_undecided_iff (concerned : x.concerns c = true) :
    x.edit c = .undecided ↔ x.Refuses c := by
  have hkind : c.kind.removes = false ↔ c.kind = .create ∨ c.kind = .update := by
    cases c.kind <;> simp [ChangeKind.removes]
  have hlisted : x.listing.instances.findIdx? (·.instanceId == c.instanceId) = none ↔
      c.instanceId ∉ x.listing.instances.map (·.instanceId) := by
    simp [List.findIdx?_eq_none_iff]
  unfold edit Refuses
  rw [← hkind, ← hlisted]
  dsimp only
  split
  · rename_i hfound
    simp only [hfound, reduceCtorEq, false_and, and_false, iff_false]
    split
    · nofun
    · split <;> nofun
  · rename_i hfound
    split
    · rename_i hremoves
      simp [hremoves]
    · rename_i hremoves
      split
      · rename_i haccepts
        simp [haccepts]
      · rename_i haccepts
        simp [concerned, hremoves, hfound, haccepts]

/-- **What an event answers is true of the list.** -/
theorem toldTruly_push (policy : EmptyListPolicy) (c : InstanceChange) (x : Entry) :
    ToldTruly c x (x.push policy c) (x.verdict policy c) := by
  unfold push verdict
  split
  · rename_i hconcerns
    have hrefuses := edit_eq_undecided_iff hconcerns
    unfold afterChange
    cases hedit : x.edit c with
    | nothing =>
      have hnot : ¬ x.Refuses c := by simp [← hrefuses, hedit]
      constructor <;> simp [hnot]
    | undecided =>
      have hyes : x.Refuses c := hrefuses.mp hedit
      constructor <;> simp [hyes, forgetRevision]
    | list instances =>
      have hnot : ¬ x.Refuses c := by simp [← hrefuses, hedit]
      have hother := edit_ne_self hedit
      dsimp only
      split
      · constructor <;> simp [hnot]
      · constructor <;> simp [hnot, hother]
  · rename_i hother
    have hnot : ¬ x.Refuses c := fun h => hother h.1
    constructor <;> simp [hnot]

/-- The same view, up to the line for its write lock. -/
def Alike (x y : Entry) : Prop := y = { x with writers := y.writers }

@[simp] theorem Alike.refl (x : Entry) : x.Alike x := rfl

theorem Alike.trans (h : x.Alike y) (h' : y.Alike z) : x.Alike z := by
  unfold Alike at *
  rw [h', h]

theorem alike_writers (x : Entry) (writers : List CallId) : x.Alike { x with writers } := rfl

namespace Alike

theorem exists_writers (h : x.Alike y) : ∃ writers, y = { x with writers } := ⟨_, h⟩

theorem concerns (h : x.Alike y) (c : InstanceChange) : y.concerns c = x.concerns c := by
  obtain ⟨writers, rfl⟩ := h.exists_writers
  rfl

theorem verdict (h : x.Alike y) (policy : EmptyListPolicy) (c : InstanceChange) :
    y.verdict policy c = x.verdict policy c := by
  obtain ⟨writers, rfl⟩ := h.exists_writers
  unfold Entry.verdict
  rw [afterChange_writers policy x c writers]
  rfl

theorem push (h : x.Alike y) (policy : EmptyListPolicy) (c : InstanceChange) :
    (x.push policy c).Alike (y.push policy c) := by
  have hconcerns := h.concerns c
  obtain ⟨writers, rfl⟩ := h.exists_writers
  unfold Entry.push
  rw [hconcerns, afterChange_writers policy x c writers]
  split
  · exact alike_writers _ writers
  · exact alike_writers _ writers

end Alike

end Entry

/-! ### What a call applies its event to -/

/-- The view that `c` applied its event to, and the answer for it. -/
def Happening.appliedBy? (c : CallId) : Happening → Option (EntryId × Option CacheStatus)
  | .changed c' e _ verdict => if c' = c then some (e, verdict) else none
  | _ => none

/-- The views that `c` has applied its event to so far and the answers for them, in order. -/
def appliedBy (c : CallId) (journal : List JournalLine) : List (EntryId × Option CacheStatus) :=
  (journal.filterMap (·.what.appliedBy? c)).reverse

theorem Happening.appliedBy?_of_uncharged {c : CallId} {h : Happening} (hc : h.charged? ≠ some c) :
    h.appliedBy? c = none := by
  cases h with
  | changed c' e change verdict => exact if_neg fun heq => hc (congrArg some heq)
  | _ => rfl

theorem Happening.appliedBy?_of_aside (c : CallId) {h : Happening} (hv : h.view? = none) :
    h.appliedBy? c = none := by
  cases h with
  | changed => cases hv
  | _ => rfl

theorem appliedBy_append {c : CallId} {lines before : List JournalLine}
    (h : ∀ l ∈ lines, l.what.appliedBy? c = none) :
    appliedBy c (lines ++ before) = appliedBy c before := by
  rw [appliedBy, List.filterMap_append, List.filterMap_eq_nil_iff.mpr h]
  rfl

theorem appliedBy_cons (c : CallId) (time : Nat) (e : EntryId) (change : InstanceChange)
    (v : Option CacheStatus) (before : List JournalLine) :
    appliedBy c (⟨time, .changed c e change v⟩ :: before) = appliedBy c before ++ [(e, v)] := by
  simp [appliedBy, Happening.appliedBy?]

theorem appliedBy_of_untold {c : CallId} {journal : List JournalLine} (h : Untold c journal) :
    appliedBy c journal = [] := by
  have hnone : journal.filterMap (·.what.appliedBy? c) = [] :=
    List.filterMap_eq_nil_iff.mpr fun l hl => Happening.appliedBy?_of_uncharged (h l hl)
  rw [appliedBy, hnone]
  rfl

namespace Node

/-- On the way from `n` to `n'` the call `c` applies an event to these views, with these answers,
    and nothing happens to any other view. -/
structure Applies (c : CallId) (change : InstanceChange)
    (applied : List (EntryId × Option CacheStatus)) (n n' : Node σ) : Prop where
  journal : appliedBy c n'.journal = appliedBy c n.journal ++ applied
  edited : ∀ {e v}, (e, v) ∈ applied → (n.entry e).concerns change = true ∧
    v = (n.entry e).verdict n.directory.options.policy change ∧
    ((n.entry e).push n.directory.options.policy change).Alike (n'.entry e)
  others : ∀ {e}, e ∉ applied.map (·.1) → (n.entry e).Alike (n'.entry e)
  options : n'.directory.options = n.directory.options

namespace Applies

variable {c : CallId} {change : InstanceChange} {n n' m : Node σ}
  {applied applied' : List (EntryId × Option CacheStatus)} {e : EntryId}

theorem of_alike (hentry : ∀ e, (n.entry e).Alike (n'.entry e)) (hjournal : n'.journal = n.journal)
    (hoptions : n'.directory.options = n.directory.options) : Applies c change [] n n' where
  journal := by rw [hjournal, List.append_nil]
  edited h := by cases h
  others _ := hentry _
  options := hoptions

theorem of_still (h : n.Still n') : Applies c change [] n n' where
  journal := by
    obtain ⟨lines, hj, hlines⟩ := h.journal
    rw [hj, List.append_nil,
      appliedBy_append fun l hl => Happening.appliedBy?_of_aside c (hlines l hl).2]
  edited h := by cases h
  others {e} _ := by
    rw [h.entry e]
    exact .refl _
  options := h.options

/-- A call gets in line. -/
theorem of_queue (n : Node σ) (c : CallId) (change : InstanceChange) (e : EntryId) :
    Applies c change [] n (n.queueWriter c e) := by
  refine of_alike ?_ rfl rfl
  intro e'
  rw [queueWriter, entry_modifyEntry]
  split
  · rename_i h
    rw [h.1]
    exact Entry.alike_writers _ _
  · exact .refl _

/-- The call with the write lock of a view applies the event to it. -/
theorem of_applyChange (concerned : (n.entry e).concerns change = true)
    (writes : n.writes c e = true) :
    Applies c change [(e, (n.applyChange c e change).1)] n (n.applyChange c e change).2 := by
  have he := lt_length_of_writes (beq_iff_eq.mp writes)
  constructor
  · exact appliedBy_cons ..
  · intro e' v hv
    cases List.mem_singleton.mp hv
    refine ⟨concerned, ?_, ?_⟩
    · rw [Entry.verdict, if_pos concerned]
      rfl
    · rw [Entry.push, if_pos concerned, entry_applyChange n c change he]
      exact Entry.alike_writers _ _
  · intro e' he'
    rw [entry_applyChange_of_ne n c change (by simpa using he')]
    exact .refl _
  · rfl

/-- Whether a view is concerned stays as it is. -/
theorem concerns (h : Applies c change applied n n') (e : EntryId) :
    (n'.entry e).concerns change = (n.entry e).concerns change := by
  by_cases he : e ∈ applied.map (·.1)
  · obtain ⟨⟨e, v⟩, hv, rfl⟩ := List.mem_map.mp he
    rw [(h.edited hv).2.2.concerns, Entry.concerns, Entry.key_push]
    rfl
  · exact (h.others he).concerns change

theorem trans (h : Applies c change applied n n') (h' : Applies c change applied' n' m)
    (apart : (applied.map (·.1)).Disjoint (applied'.map (·.1))) :
    Applies c change (applied ++ applied') n m where
  journal := by rw [h'.journal, h.journal, List.append_assoc]
  edited {e v} hv := by
    rcases List.mem_append.mp hv with hv | hv
    · obtain ⟨hconcerns, hverdict, halike⟩ := h.edited hv
      exact ⟨hconcerns, hverdict,
        halike.trans (h'.others (apart (List.mem_map_of_mem hv)))⟩
    · have hbefore := h.others (apart.symm (List.mem_map_of_mem hv))
      obtain ⟨hconcerns, hverdict, halike⟩ := h'.edited hv
      rw [h.options] at hverdict halike
      exact ⟨(h.concerns e).symm.trans hconcerns, hverdict.trans (hbefore.verdict _ _),
        (hbefore.push _ _).trans halike⟩
  others {e} he := by
    rw [List.map_append, List.mem_append, not_or] at he
    exact (h.others he.1).trans (h'.others he.2)
  options := h'.options.trans h.options

theorem after (h : Applies c change [] n n') (h' : Applies c change applied n' m) :
    Applies c change applied n m :=
  h.trans h' (List.disjoint_nil_left _)

end Applies

end Node

/-! ### From view to view -/

/-- Where the call `c` is that applies an event to those of the `views` that it concerns: it waits
    for the write lock of one of them, with others left, or it has answered. -/
inductive Spread (c : CallId) (change : InstanceChange) (views : List EntryId)
    (concerned : EntryId → Bool) (n : Node σ) : Prop
  | waits {e rest changed} (rests : (c, .changing e change (.others rest changed)) ∈ n.calls)
      (left : e :: rest <:+ views) (next : concerned e = true)
      (account : (appliedBy c n.journal).map (·.1) ++ (e :: rest).filter concerned =
        views.filter concerned)
  | spread (answered : ∃ r ∈ n.replies, r.call = c)
      (account : (appliedBy c n.journal).map (·.1) = views.filter concerned)

namespace Spread

variable {c : CallId} {change : InstanceChange} {views rest : List EntryId}
  {concerned : EntryId → Bool} {n n' : Node σ} {e : EntryId} {changed : List EntryId}

theorem account_prefix (h : Spread c change views concerned n) :
    (appliedBy c n.journal).map (·.1) <+: views.filter concerned := by
  cases h with
  | waits _ _ _ account => exact ⟨_, account⟩
  | spread _ account => exact ⟨[], by rw [account, List.append_nil]⟩

theorem account_of_answered (h : Spread c change views concerned n)
    (ho : Orderly (⟨n, none, none⟩ : Midturn σ)) (answered : ∃ r ∈ n.replies, r.call = c) :
    (appliedBy c n.journal).map (·.1) = views.filter concerned := by
  cases h with
  | waits rests =>
    obtain ⟨r, hr, hcall⟩ := answered
    exact absurd hcall (ho.not_answered rests hr)
  | spread _ account => exact account

/-- The event has been applied to one view and goes on with others. -/
theorem head {v : Option CacheStatus} (nodup : views.Nodup)
    (first : n.Applies c change [(e, v)] n') (hn : (e, v) ∈ appliedBy c n'.journal)
    {m : Node σ}
    (h : ∃ applied, n'.Applies c change applied m ∧ Spread c change views concerned m) :
    ∃ applied, n.Applies c change applied m ∧ Spread c change views concerned m := by
  obtain ⟨applied, happlies, hspread⟩ := h
  refine ⟨_, first.trans happlies ?_, hspread⟩
  -- the views on the account are different ones, and `e` is on it already
  have hnodup := hspread.account_prefix.sublist.nodup (nodup.filter _)
  rw [happlies.journal, List.map_append] at hnodup
  have hapart := (List.nodup_append'.mp hnodup).2.2
  simpa using hapart (List.mem_map_of_mem hn)

/-- **A call goes from view to view**, applies the event to each that it concerns, and waits where
    it does not get the write lock at once. -/
theorem changeViews (nodup : views.Nodup)
    (hconcerned : ∀ e ∈ views, (n.entry e).concerns change = concerned e) (left : rest <:+ views)
    (account : (appliedBy c n.journal).map (·.1) ++ rest.filter concerned =
      views.filter concerned) :
    ∃ applied, n.Applies c change applied (n.changeViews c change changed rest) ∧
      Spread c change views concerned (n.changeViews c change changed rest) := by
  induction rest generalizing n changed with
  | nil =>
    have hpublish : n.Applies c change [] (n.publish c changed) :=
      .of_still (n.still_publish c changed)
    refine ⟨[], hpublish.after (.of_alike (fun _ => .refl _) rfl rfl),
      .spread ⟨_, List.mem_cons_self, rfl⟩ ?_⟩
    show (appliedBy c (n.publish c changed).journal).map (·.1) = _
    rw [hpublish.journal, List.append_nil]
    simpa using account
  | cons e rest ih =>
    have he := left.subset List.mem_cons_self
    have hrest : rest <:+ views := (List.suffix_cons e rest).trans left
    unfold Node.changeViews
    split
    · rename_i hconcerns
      have hnext : concerned e = true := (hconcerned e he).symm.trans hconcerns
      have hqueue := Node.Applies.of_queue n c change e
      dsimp only
      split
      · rename_i hwrites
        have hfirst := hqueue.after
          (.of_applyChange ((hqueue.concerns e).trans hconcerns) hwrites)
        refine head nodup hfirst (by simp [hfirst.journal]) (ih ?_ hrest ?_)
        · intro v hv
          exact (hfirst.concerns v).trans (hconcerned v hv)
        · rw [← account, hfirst.journal, List.filter_cons_of_pos hnext]
          simp
      · have hwait : n.Applies c change []
            ((n.queueWriter c e).rest c (.changing e change (.others rest changed))) :=
          hqueue.after (.of_alike (fun _ => .refl _) rfl rfl)
        refine ⟨[], hwait, .waits (Node.mem_rest_self ..) left hnext ?_⟩
        rw [hwait.journal, List.append_nil]
        exact account
    · rename_i hother
      refine ih hconcerned hrest ?_
      rwa [List.filter_cons_of_neg (by rwa [← hconcerned e he])] at account

end Spread

/-! ### The turns of others -/

section Others

variable [Registry σ] {s s' : Midturn σ} {n m : Node σ} {c : CallId} {st : Stage σ} {e : EntryId}

theorem Node.Course.concerns (course : n.Course m) (ho : Orderly (⟨n, none, none⟩ : Midturn σ))
    (he : e < n.directory.entries.length) (change : InstanceChange) :
    (m.entry e).concerns change = (n.entry e).concerns change := by
  unfold Entry.concerns
  rw [(course.madeFor ho ⟨he, rfl⟩).key]

/-- A call that does not run applies its event to nothing. -/
theorem Move.appliedBy_eq (m : Move s s') (ha : Audited s) (idle : ∀ p, s.running ≠ some (c, p)) :
    appliedBy c s'.node.journal = appliedBy c s.node.journal := by
  obtain ⟨lines, hj, hdue⟩ := m.due ha.sweeping
  rw [hj]
  refine appliedBy_append fun l hl => ?_
  have hl := hdue l hl
  cases hwhat : l.what with
  | changed c' e change v =>
    rw [hwhat] at hl
    obtain ⟨a, p, hrun, -⟩ := hl
    refine if_neg ?_
    rintro rfl
    exact idle p hrun
  | _ => rfl

theorem Onward.spares (onward : Onward s s') (ha : Audited s) (rests : (c, st) ∈ s.node.calls)
    (hpull : ∀ due interval, st ≠ .pulling due interval)
    (hpass : ∀ forced members, st ≠ .pass forced members) :
    (c, st) ∈ s'.node.calls ∧ appliedBy c s'.node.journal = appliedBy c s.node.journal := by
  suffices Audited s' ∧ (c, st) ∈ s'.node.calls ∧
      appliedBy c s'.node.journal = appliedBy c s.node.journal from this.2
  refine onward.keeps (I := fun s' => Audited s' ∧ (c, st) ∈ s'.node.calls ∧
    appliedBy c s'.node.journal = appliedBy c s.node.journal) ?_ ⟨ha, rests, rfl⟩
  rintro t t' busy ⟨hat, hrests, hsame⟩ m
  refine ⟨hat.move m, m.rests busy hrests hat.orderly hpull hpass, ?_⟩
  exact (m.appliedBy_eq hat fun p hrun => hat.orderly.notMem_calls hrun st hrests).trans hsame

/-- A call that waits for a write lock is left alone by the turns of others. -/
theorem Node.act_spares (ha : Audited (⟨n, none, none⟩ : Midturn σ)) {change : InstanceChange}
    {next : AfterChange} (rests : (c, .changing e change next) ∈ n.calls) {a : Act σ}
    (other : a ≠ .resume c) :
    (c, .changing e change next) ∈ (n.act a).calls ∧
      appliedBy c (n.act a).journal = appliedBy c n.journal := by
  cases a with
  | call op =>
    exact (moves_starting n.newCall.2 n.nextCall op).spares (ha.move (.call n op)) rests nofun nofun
  | callAfter wait op => exact ⟨mem_rest.mpr (.inl rests), rfl⟩
  | pass ms => exact ⟨rests, rfl⟩
  | resume c' =>
    by_cases hawake : n.isAwake c' = true
    · obtain ⟨st, rests', awake, onward⟩ := moves_resume n c' hawake
      have hne : c ≠ c' := by
        rintro rfl
        exact other rfl
      have hact : n.act (.resume c') = n.resume c' := if_pos hawake
      rw [hact]
      exact onward.spares (ha.move (.wake rests' awake)) (mem_unrest.mpr ⟨rests, hne⟩) nofun nofun
    · have hact : n.act (.resume c') = n := if_neg hawake
      rw [hact]
      exact ⟨rests, rfl⟩

/-- So is a call that has answered. -/
theorem Node.act_spares_answered (ha : Audited (⟨n, none, none⟩ : Midturn σ))
    (answered : ∃ r ∈ n.replies, r.call = c) (a : Act σ) :
    (∃ r ∈ (n.act a).replies, r.call = c) ∧
      appliedBy c (n.act a).journal = appliedBy c n.journal := by
  suffices Audited (⟨n.act a, none, none⟩ : Midturn σ) ∧ (∃ r ∈ (n.act a).replies, r.call = c) ∧
      appliedBy c (n.act a).journal = appliedBy c n.journal from this.2
  refine (course_act n a).keeps (I := fun s => Audited s ∧ (∃ r ∈ s.node.replies, r.call = c) ∧
    appliedBy c s.node.journal = appliedBy c n.journal) ?_ ?_ ⟨ha, answered, rfl⟩
  · rintro s s' ⟨has, ⟨r, hr, hcall⟩, hsame⟩ m
    refine ⟨has.move m, ⟨r, m.replies_subset hr, hcall⟩, ?_⟩
    exact (m.appliedBy_eq has fun p hrun => has.orderly.notMem_replies hrun hr hcall).trans hsame
  · rintro k time hle ⟨hak, hanswered, hsame⟩
    exact ⟨hak.pass hle, hanswered, hsame⟩

/-- A call that has answered has no more turns. -/
theorem Node.act_resume_answered (ha : Audited (⟨n, none, none⟩ : Midturn σ))
    (answered : ∃ r ∈ n.replies, r.call = c) : n.act (.resume c) = n := by
  refine if_neg ?_
  intro hawake
  obtain ⟨st, rests, -⟩ := moves_resume n c hawake
  obtain ⟨r, hr, hcall⟩ := answered
  exact ha.orderly.not_answered (mem_of_stage? rests) hr hcall

end Others

/-! ### All turns of an event -/

namespace Spread

variable [Registry σ] {c : CallId} {change : InstanceChange} {views : List EntryId}
  {concerned : EntryId → Bool} {n : Node σ}

/-- An event begins with all views that are cached. -/
theorem of_begins {n' : Node σ} (begins : Begins (.change change) c n n')
    (nodup : n.directory.views.Nodup) (untold : Untold c n.journal) :
    ∃ applied, n.Applies c change applied n' ∧
      Spread c change n.directory.views (fun e => (n.entry e).concerns change) n' := by
  obtain ⟨calls, nextCall, -, -, rfl⟩ := begins.starts
  have hstart : n.Applies c change [] { n with calls, nextCall } :=
    .of_alike (fun _ => .refl _) rfl rfl
  have account : (appliedBy c n.journal).map (·.1) ++
      n.directory.views.filter (fun e => (n.entry e).concerns change) =
        n.directory.views.filter fun e => (n.entry e).concerns change := by
    rw [appliedBy_of_untold untold]
    rfl
  obtain ⟨applied, happlies, hspread⟩ :=
    changeViews (n := { n with calls, nextCall }) nodup (fun _ _ => rfl) (List.suffix_refl _)
      account
  exact ⟨applied, hstart.after happlies, hspread⟩

/-- **In a turn of its own an event goes on with the views that are left.** -/
theorem resume (h : Spread c change views concerned n)
    (ha : Audited (⟨n, none, none⟩ : Midturn σ)) (nodup : views.Nodup)
    (hconcerned : ∀ e ∈ views, (n.entry e).concerns change = concerned e) :
    ∃ applied, n.Applies c change applied (n.act (.resume c)) ∧
      Spread c change views concerned (n.act (.resume c)) := by
  have hstay (hact : n.act (.resume c) = n) : ∃ applied, n.Applies c change applied
      (n.act (.resume c)) ∧ Spread c change views concerned (n.act (.resume c)) := by
    rw [hact]
    exact ⟨[], .of_alike (fun _ => .refl _) rfl rfl, h⟩
  cases h with
  | spread answered account => exact hstay (Node.act_resume_answered ha answered)
  | @waits e rest changed rests left next account =>
    by_cases hawake : n.isAwake c = true
    · have hstage := ha.orderly.stage?_eq rests
      have hwrites : (n.unrest c).writes c e = true := by
        rwa [Node.isAwake, hstage, Option.any_some] at hawake
      have hact : n.act (.resume c) = ((n.unrest c).applyChange c e change).2.changeViews c change
          (Node.withChanged changed e ((n.unrest c).applyChange c e change).1) rest := by
        refine (if_pos hawake).trans ?_
        rw [Node.resume, hstage]
      rw [hact]
      have he := hconcerned e (left.subset List.mem_cons_self)
      have hwake : n.Applies c change [] (n.unrest c) := .of_alike (fun _ => .refl _) rfl rfl
      have hfirst := hwake.after (.of_applyChange (he.trans next) hwrites)
      refine head nodup hfirst (by simp [hfirst.journal])
        (changeViews nodup ?_ ((List.suffix_cons e rest).trans left) ?_)
      · intro v hv
        exact (hfirst.concerns v).trans (hconcerned v hv)
      · rw [← account, hfirst.journal, List.filter_cons_of_pos next]
        simp
    · exact hstay (if_neg hawake)

/-- The turns of others leave it where it is. -/
theorem spare (h : Spread c change views concerned n) (ha : Audited (⟨n, none, none⟩ : Midturn σ))
    {a : Node.Act σ} (other : a ≠ .resume c) :
    appliedBy c (n.act a).journal = appliedBy c n.journal ∧
      Spread c change views concerned (n.act a) := by
  cases h with
  | waits rests left next account =>
    obtain ⟨hrests, hsame⟩ := Node.act_spares ha rests other
    exact ⟨hsame, .waits hrests left next (hsame ▸ account)⟩
  | spread answered account =>
    obtain ⟨hanswered, hsame⟩ := Node.act_spares_answered ha answered a
    exact ⟨hsame, .spread hanswered (hsame ▸ account)⟩

/-- Along any run an event goes through its views. -/
theorem follow (h : Spread c change views concerned n)
    (ha : Audited (⟨n, none, none⟩ : Midturn σ)) (nodup : views.Nodup)
    (made : ∀ e ∈ views, e < n.directory.entries.length)
    (hconcerned : ∀ e ∈ views, (n.entry e).concerns change = concerned e)
    (acts : List (Node.Act σ)) :
    Spread c change views concerned (n.follow acts) := by
  induction acts using List.reverseRecOn with
  | nil => exact h
  | append_singleton acts a ih =>
    have course := Node.course_follow n acts
    rw [Node.follow_concat]
    by_cases hown : a = .resume c
    · subst hown
      obtain ⟨-, -, hspread⟩ := ih.resume (ha.course course) nodup fun e he =>
        (course.concerns ha.orderly (made e he) change).trans (hconcerned e he)
      exact hspread
    · exact (ih.spare (ha.course course) hown).2

end Spread

/-! ### A view alone -/

/-- What a turn does of a call that pushes an event to the view `e` alone: it waits, or it answers
    for the view. -/
inductive Responds (c : CallId) (e : EntryId) (change : InstanceChange) (n n' : Node σ) : Prop
  | waits (silent : ∀ r ∈ n'.replies, r.call ≠ c) (views : ∀ v, (n.entry v).Alike (n'.entry v))
  | answers (time : Nat)
      (answered : ⟨c, time, .verdict ((n.entry e).verdict n.directory.options.policy change)⟩ ∈
        n'.replies)
      (view : ((n.entry e).push n.directory.options.policy change).Alike (n'.entry e))
      (others : ∀ v, v ≠ e → (n.entry v).Alike (n'.entry v))

namespace Responds

variable {c : CallId} {e : EntryId} {change : InstanceChange} {n m : Node σ}

theorem of_applies {v : Option CacheStatus} (h : n.Applies c change [(e, v)] m) :
    Responds c e change n (m.answer c (.verdict v)) := by
  obtain ⟨-, rfl, hview⟩ := h.edited List.mem_cons_self
  exact .answers m.time List.mem_cons_self hview fun w hw => h.others (by simpa using hw)

theorem changeView (begun : n.Applies c change [] m) (silent : ∀ r ∈ m.replies, r.call ≠ c) :
    Responds c e change n (m.changeView c e change) ∧
      ((c, .changing e change .verdict) ∈ (m.changeView c e change).calls ∧
          (n.entry e).concerns change = true ∨
        ∃ r ∈ (m.changeView c e change).replies, r.call = c) := by
  have hsame := begun.concerns e
  unfold Node.changeView
  split
  · rename_i hconcerns
    have hqueue := begun.after (.of_queue m c change e)
    dsimp only
    split
    · rename_i hwrites
      have happlied := hqueue.after
        (.of_applyChange ((hqueue.concerns e).trans (hsame.symm.trans hconcerns)) hwrites)
      exact ⟨.of_applies happlied, .inr ⟨_, List.mem_cons_self, rfl⟩⟩
    · exact ⟨.waits silent fun v => hqueue.others List.not_mem_nil,
        .inl ⟨Node.mem_rest_self .., hsame.symm.trans hconcerns⟩⟩
  · rename_i hother
    rw [hsame] at hother
    refine ⟨.answers m.time ?_ ?_ fun v _ => begun.others List.not_mem_nil,
      .inr ⟨_, List.mem_cons_self, rfl⟩⟩
    · rw [Entry.verdict, if_neg hother]
      exact List.mem_cons_self
    · rw [Entry.push, if_neg hother]
      exact begun.others List.not_mem_nil

variable [Registry σ]

/-- A call that pushes an event to one view responds in each of its turns. -/
theorem resume (ha : Audited (⟨n, none, none⟩ : Midturn σ))
    (rests : (c, .changing e change .verdict) ∈ n.calls)
    (concerned : (n.entry e).concerns change = true) :
    Responds c e change n (n.act (.resume c)) ∧
      ((c, .changing e change .verdict) ∈ (n.act (.resume c)).calls ∨
        ∃ r ∈ (n.act (.resume c)).replies, r.call = c) := by
  by_cases hawake : n.isAwake c = true
  · have hstage := ha.orderly.stage?_eq rests
    have hwrites : (n.unrest c).writes c e = true := by
      rwa [Node.isAwake, hstage, Option.any_some] at hawake
    have hact : n.act (.resume c) = ((n.unrest c).applyChange c e change).2.answer c
        (.verdict ((n.unrest c).applyChange c e change).1) := by
      refine (if_pos hawake).trans ?_
      rw [Node.resume, hstage]
    have hwake : n.Applies c change [] (n.unrest c) := .of_alike (fun _ => .refl _) rfl rfl
    rw [hact]
    exact ⟨.of_applies (hwake.after (.of_applyChange concerned hwrites)),
      .inr ⟨_, List.mem_cons_self, rfl⟩⟩
  · have hact : n.act (.resume c) = n := if_neg hawake
    rw [hact]
    exact ⟨.waits (fun r hr => ha.orderly.not_answered rests hr) fun _ => .refl _, .inl rests⟩

/-- It waits for the write lock until it has answered. -/
theorem waits_or_answered (ha : Audited (⟨n, none, none⟩ : Midturn σ))
    (he : e < n.directory.entries.length)
    (place : (c, .changing e change .verdict) ∈ n.calls ∧ (n.entry e).concerns change = true ∨
      ∃ r ∈ n.replies, r.call = c) (acts : List (Node.Act σ)) :
    (c, .changing e change .verdict) ∈ (n.follow acts).calls ∧
        ((n.follow acts).entry e).concerns change = true ∨
      ∃ r ∈ (n.follow acts).replies, r.call = c := by
  induction acts using List.reverseRecOn with
  | nil => exact place
  | append_singleton acts a ih =>
    have course := Node.course_follow n acts
    have hact := Node.course_act (n.follow acts) a
    have hlt := (course.madeFor ha.orderly ⟨he, rfl⟩).lt_length
    rw [Node.follow_concat]
    rcases ih with ⟨hrests, hconcerned⟩ | hanswered
    · have hlater := (hact.concerns (ha.course course).orderly hlt change).trans hconcerned
      by_cases hown : a = .resume c
      · subst hown
        exact (resume (ha.course course) hrests hconcerned).2.imp_left fun h => ⟨h, hlater⟩
      · exact .inl ⟨(Node.act_spares (ha.course course) hrests hown).1, hlater⟩
    · exact .inr (Node.act_spares_answered (ha.course course) hanswered a).1

end Responds

/-! ### Events on a node -/

/-- In a turn the event `c` is applied to some views, and views of another service are left
    alone. -/
structure Node.AppliesOnly (c : CallId) (change : InstanceChange) (n n' : Node σ) : Prop where
  applies : ∃ applied, n.Applies c change applied n'
  apart : ∀ e, (n.entry e).concerns change = false → (n.entry e).Alike (n'.entry e)

theorem Node.Applies.only {c : CallId} {change : InstanceChange}
    {applied : List (EntryId × Option CacheStatus)} {n n' : Node σ}
    (h : n.Applies c change applied n') : n.AppliesOnly c change n' where
  applies := ⟨applied, h⟩
  apart e hother := by
    refine h.others fun he => ?_
    obtain ⟨⟨e, v⟩, hv, rfl⟩ := List.mem_map.mp he
    rw [(h.edited hv).1] at hother
    cases hother

/-- What the event `c` that began on `n₀` has come to on `n`, and what the next turn does. -/
structure Node.Spreads [Registry σ] (c : CallId) (change : InstanceChange) (n₀ n : Node σ) :
    Prop where
  once : ((appliedBy c n.journal).map (·.1)).Nodup
  inOrder : (appliedBy c n.journal).map (·.1) <+:
    n₀.directory.views.filter fun e => (n₀.entry e).concerns change
  whole : (∃ r ∈ n.replies, r.call = c) → (appliedBy c n.journal).map (·.1) =
    n₀.directory.views.filter fun e => (n₀.entry e).concerns change
  own : n.AppliesOnly c change (n.act (.resume c))
  others : ∀ a, a ≠ .resume c → appliedBy c (n.act a).journal = appliedBy c n.journal

section Runs

variable [Registry σ] {c : CallId} {e : EntryId} {change : InstanceChange} {n₀ : Node σ}
  {begin : Node.Act σ}

omit [Registry σ] in
theorem Node.lt_length_of_view (ha : Audited (⟨n₀, none, none⟩ : Midturn σ))
    (he : e ∈ n₀.directory.views) : e < n₀.directory.entries.length := by
  obtain ⟨⟨key, e⟩, hcached, rfl⟩ := List.mem_map.mp he
  exact (ha.regular.filed.made hcached).1

/-- An event that is pushed to one view responds in all of its turns. -/
theorem responds_of_beginner? (ha : Audited (⟨n₀, none, none⟩ : Midturn σ))
    (he : e < n₀.directory.entries.length)
    (begins : n₀.beginner? begin = some (c, .changeView e change)) (after : List (Node.Act σ)) :
    let n := (n₀.act begin).follow after
    Responds c e change n₀ (n₀.act begin) ∧
      ((∀ r ∈ n.replies, r.call ≠ c) → Responds c e change n (n.act (.resume c))) := by
  intro n
  have hbegin := Node.course_act n₀ begin
  have hafter := Node.course_follow (n₀.act begin) after
  obtain ⟨calls, nextCall, -, -, hact⟩ := (Node.begins_of_beginner? begins).starts
  have hbegun : n₀.Applies c change [] { n₀ with calls, nextCall } :=
    .of_alike (fun _ => .refl _) rfl rfl
  obtain ⟨hresponds, hplace⟩ :=
    Responds.changeView (e := e) hbegun (Node.pending_of_beginner? ha begins).unanswered
  have hcall : Node.changeView { n₀ with calls, nextCall } c e change = n₀.act begin := hact.symm
  rw [hcall] at hresponds hplace
  refine ⟨hresponds, fun hunanswered => ?_⟩
  have hlt := (hbegin.madeFor ha.orderly ⟨he, rfl⟩).lt_length
  rcases Responds.waits_or_answered (ha.course hbegin) hlt (hplace.imp_left fun ⟨hrests, h⟩ =>
      ⟨hrests, (hbegin.concerns ha.orderly he change).trans h⟩) after with
    ⟨hrests, hconcerned⟩ | ⟨r, hr, hc⟩
  · exact (Responds.resume ((ha.course hbegin).course hafter) hrests hconcerned).1
  · exact absurd hc (hunanswered r hr)

/-- An event that is pushed to the cache goes through the views that it concerns. -/
theorem spreads_of_beginner? (ha : Audited (⟨n₀, none, none⟩ : Midturn σ))
    (begins : n₀.beginner? begin = some (c, .change change)) (after : List (Node.Act σ)) :
    n₀.AppliesOnly c change (n₀.act begin) ∧
      n₀.Spreads c change ((n₀.act begin).follow after) := by
  have hnodup := ha.regular.filed.nodup_views
  have hbegin := Node.course_act n₀ begin
  have hafter := Node.course_follow (n₀.act begin) after
  have hmade : ∀ e ∈ n₀.directory.views, e < n₀.directory.entries.length :=
    fun e => Node.lt_length_of_view ha
  obtain ⟨applied, happlies, hbegun⟩ := Spread.of_begins (Node.begins_of_beginner? begins) hnodup
    (Node.untold_of_beginner? ha begins)
  have hspread := hbegun.follow (ha.course hbegin) hnodup
    (fun e he => (hbegin.madeFor ha.orderly ⟨hmade e he, rfl⟩).lt_length)
    (fun e he => hbegin.concerns ha.orderly (hmade e he) change) after
  have hlater := ha.course (hbegin.trans hafter)
  refine ⟨happlies.only, ?_⟩
  constructor
  · exact hspread.account_prefix.sublist.nodup (hnodup.filter _)
  · exact hspread.account_prefix
  · exact hspread.account_of_answered hlater.orderly
  · obtain ⟨applied, happlies, -⟩ := hspread.resume hlater hnodup fun e he =>
      (hbegin.trans hafter).concerns ha.orderly (hmade e he) change
    exact happlies.only
  · exact fun a other => (hspread.spare hlater other).1

end Runs

/-- **The results of events tell the truth about the list.**

    For every view, whatever its list, version rule, protection and policy: an event answers that
    the view was refreshed just when the list is another one; list and revision stay where it
    answers that there was no change; and where it answers nothing, list and status stay, and the
    revision is forgotten just when the version rule refuses an instance that is not listed.

    On a node, with any other calls in between, an event that is pushed to one view answers so for
    the view that it finds once it has the write lock, and leaves all others alone.  An event that
    is pushed to the cache, in whatever order this holds its views then, leaves every view of
    another service alone, and is applied to each cached view of its service once, in that order,
    and to all of them when it has answered; only the app and the service of a view decide this. -/
theorem events_tell_the_truth [Registry σ] {start : Node σ} (untouched : start.Untouched)
    (empty : start.directory.entries = []) (before : List (Node.Act σ))
    {cached : List (ServiceKey × EntryId)}
    (order : cached.Perm (start.follow before).directory.cached) (begin : Node.Act σ)
    (after : List (Node.Act σ)) (c : CallId) (change : InstanceChange) :
    (∀ (policy : EmptyListPolicy) (x : Entry),
      Entry.ToldTruly change x (x.push policy change) (x.verdict policy change)) ∧
    let n₀ := (start.follow before).shuffled cached
    let n := (n₀.act begin).follow after
    (∀ e < n₀.directory.entries.length,
      n₀.beginner? begin = some (c, .changeView e change) →
        Responds c e change n₀ (n₀.act begin) ∧
        ((∀ r ∈ n.replies, r.call ≠ c) → Responds c e change n (n.act (.resume c)))) ∧
    (n₀.beginner? begin = some (c, .change change) →
      n₀.AppliesOnly c change (n₀.act begin) ∧ n₀.Spreads c change n) := by
  have ha := (Node.audited_follow untouched empty before).shuffle order
  refine ⟨fun policy x => x.toldTruly_push policy change, ?_, ?_⟩
  · intro e he begins
    exact responds_of_beginner? ha he begins after
  · intro begins
    exact spreads_of_beginner? ha begins after

/-! ### An event that waits for a lock -/

namespace Pushed

def orders : ServiceKey := ⟨"shop", "store", "orders", everyVersion⟩

/-- The view of another consumer, under a version rule. -/
def later : ServiceKey := ⟨"till", "store", "orders", "2.0.0+"⟩

def users : ServiceKey := ⟨"shop", "store", "users", everyVersion⟩

def server (id version : String) : Instance :=
  { instanceId := id, serviceId := version, endpoints := [] }

def found (revision : String) (servers : List Instance) : Answer := .found ⟨servers, some revision⟩

def start : Node Script :=
  .caching ⟨[(orders, [⟨found "1" [server "a" "v1"], 0⟩, ⟨found "1" [server "a" "v1"], 50⟩]),
    (later, [⟨found "1" [server "b" "v2"], 0⟩]), (users, [⟨found "1" [server "c" "v1"], 0⟩])]⟩ {}
    .retainNonEmpty

/-- Three views are cached, and one of the orders' is being refreshed. -/
def before : List (Node.Act Script) :=
  [.call (.find orders), .call (.find users), .call (.find later), .call (.refresh 0)]

/-- The views are held in another order than that in which they were made. -/
def cached : List (ServiceKey × EntryId) := [(later, 2), (users, 1), (orders, 0)]

def held : Node Script := (start.follow before).shuffled cached

/-- Another server of version 1 comes up. -/
def up : InstanceChange := .about "store" "orders" .create (server "d" "v1")

def down : InstanceChange := .about "store" "users" .delete (server "c" "v1")

/-- The refresh is over, and the event has its turn. -/
def after : List (Node.Act Script) := [.pass 50, .resume 3, .resume 4]

def told : Node Script := (held.act (.call (.change up))).follow after

def emptied : Node Script := held.act (.call (.changeView 1 down))

end Pushed

/-- The event goes through both views of the orders, and the one under a version rule refuses
    it; a view that loses its last server is refreshed. -/
theorem pushed_events_told :
    (Pushed.start.Untouched ∧ Pushed.start.directory.entries = [] ∧
      Pushed.cached.Perm (Pushed.start.follow Pushed.before).directory.cached) ∧
    Pushed.held.Spreads 4 Pushed.up Pushed.told ∧
    appliedBy 4 Pushed.told.journal = [(2, none), (0, some .refreshed)] ∧
    ((Pushed.told.entry 2).listing = ⟨[Pushed.server "b" "v2"], none⟩ ∧
      (Pushed.told.entry 1).listing = ⟨[Pushed.server "c" "v1"], some "1"⟩) ∧
    Responds 4 1 Pushed.down Pushed.held Pushed.emptied ∧
    (Pushed.emptied.entry 1).listing = ⟨[], some "1"⟩ := by
  have untouched : Pushed.start.Untouched := Node.untouched_caching ..
  have order : Pushed.cached.Perm (Pushed.start.follow Pushed.before).directory.cached := by decide
  obtain ⟨-, -, hspread⟩ :=
    events_tell_the_truth untouched rfl Pushed.before order (.call (.change Pushed.up))
      Pushed.after 4 Pushed.up
  obtain ⟨-, hresponds, -⟩ :=
    events_tell_the_truth untouched rfl Pushed.before order (.call (.changeView 1 Pushed.down)) [] 4
      Pushed.down
  exact ⟨⟨untouched, rfl, order⟩, (hspread rfl).2, by decide, by decide,
    (hresponds 1 (by decide) rfl).1, by decide⟩

end ServiceFinder
