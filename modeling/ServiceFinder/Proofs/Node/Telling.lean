/-
  ServiceFinder/Proofs/Node/Telling.lean
  ======================================
  **Until the watcher is told.**

  A sweep or a pushed change that has begun owes the watcher something.  Every move leaves it
  owing, or is the end of it, where the watcher is told all there was (`Midturn.Owes.move`);
  afterwards nothing more goes on its account (`Reckoned.move`).  A turn is many moves, and in
  the same turn nobody can set another watcher: that takes a turn of its own.  So the call
  goes on from turn to turn until in one of them it is `Announced`, to the watcher of that
  turn.
-/
import Mathlib.Data.List.Induction
import ServiceFinder.Proofs.Node.Forced
import ServiceFinder.Proofs.Node.Moments
import ServiceFinder.Proofs.Node.Reckoning
import ServiceFinder.Proofs.Node.SweepTurns

namespace ServiceFinder

variable {σ : Type}

/-! ### Until the watcher is told -/

theorem AfterRefresh.audience?_ne_watcher (next : AfterRefresh) :
    next.audience? ≠ some .watcher := by
  cases next <;> nofun

theorem Node.owes_of_turnsTo {n : Node σ} {p p' : Point σ} (h : n.turnsTo p = some p')
    (hp : p.audience? = some .watcher) : p'.audience? = some .watcher := by
  unfold turnsTo at h
  split at h
  all_goals first
    | (cases h; rfl)
    | (cases h; exact hp)
    | (split at h <;> cases h <;> rfl)
    | cases hp
    | cases h

theorem Node.audience?_of_aside {n n' : Node σ} {op : Operation σ} {r : Reply}
    (h : n.aside op = some (r, n')) : op.audience? = none := by
  cases op with
  | sweep | forceSweep | change | refresh | forceRefresh | changeView => cases h
  | _ => rfl

theorem Errand.Kept.silent {c : CallId} {journal : List JournalLine} {errand : Errand}
    (h : errand.Kept c journal) (hne : errand ≠ .none) : noticesOf c journal = [] := by
  cases errand with
  | none => exact absurd rfl hne
  | unbegun => exact noticesOf_eq_nil h
  | pass => exact OnlyReports.silent h
  | spread changed todo => exact Tally.silent h

theorem AfterChange.errand_ne_none {next : AfterChange} (e : EntryId)
    (h : next.audience = .watcher) : next.errand e ≠ .none := by
  cases next with
  | verdict => cases h
  | others rest changed => nofun

theorem Stage.errand_ne_none {st : Stage σ} (h : st.audience? = some .watcher) :
    st.errand ≠ .none := by
  cases st with
  | awaitingSweep | pass => nofun
  | changing e change next => exact next.errand_ne_none e (Option.some.inj h)
  | refreshing e next => exact absurd h next.audience?_ne_watcher
  | fetching e due o next => exact absurd h next.audience?_ne_watcher
  | _ => cases h

theorem Point.errand_ne_none {p : Point σ} (h : p.audience? = some .watcher) :
    p.errand ≠ .none := by
  cases p with
  | starting | sweeping | closing | spreading => nofun
  | lining e job =>
    cases job with
    | refresh next => exact absurd h next.audience?_ne_watcher
    | change change next => exact next.errand_ne_none e (Option.some.inj h)
  | applying e change next => exact next.errand_ne_none e (Option.some.inj h)
  | asking e next => exact absurd h next.audience?_ne_watcher
  | heard e o next => exact absurd h next.audience?_ne_watcher
  | refreshed e status next => exact absurd h next.audience?_ne_watcher
  | forgetting es next =>
    cases next with
    | answer => cases h
    | refresh => exact absurd h (AfterRefresh.audience?_ne_watcher _)
  | _ => cases h

section Telling

variable {s s' : Midturn σ} {n n' : Node σ} {c : CallId} {p p' : Point σ}
  {k : Option (CallId × Bool × List EntryId)}

/-- A call that owes the watcher something has told it nothing yet. -/
theorem Midturn.Owes.silent (h : s.Owes c .watcher) (ha : AccountsKept s) :
    noticesOf c s.node.journal = [] := by
  rcases h with ⟨st, hc, hst⟩ | ⟨p, hrun, hp⟩
  · exact (ha.calls hc).silent (Stage.errand_ne_none hst)
  · exact (ha.running hrun).silent (Point.errand_ne_none hp)

/-- A call that owes the watcher something goes on with it, or has told it what there was. -/
theorem Quiet.owes_or_told (q : Quiet c n p n' p') (hp : p.audience? = some .watcher)
    (hk : p.errand.Kept c n.journal) (hs : Sweeping (⟨n, some (c, p), k⟩ : Midturn σ)) :
    p'.audience? = some .watcher ∨
      (∃ r, p' = .replying r) ∧ Reckoned c n.watcher n'.journal := by
  cases q with
  | turn h => exact .inl (Node.owes_of_turnsTo h hp)
  | aside h => cases (Node.audience?_of_aside h).symm.trans hp
  | find | view | choose => cases hp
  | sweepFree | forceFree | sweepNone => exact .inl rfl
  | sweepTaken h =>
    refine .inr ⟨⟨_, rfl⟩, Reckoned.of_nothing ?_⟩
    intro l hl
    rcases List.mem_cons.mp hl with rfl | hl
    · nofun
    · exact hk l hl
  | close forced members =>
    refine .inr ⟨⟨_, rfl⟩, ?_⟩
    obtain ⟨lines, hj, houtcomes, hnotices, -⟩ :=
      n.journal_publish c (Node.changedMembers members)
    let ended : JournalLine := ⟨(n.publish c (Node.changedMembers members)).time,
      .sweepEnded c (Node.changedMembers members)⟩
    have hjournal : (n.closed c members).journal = (ended :: lines) ++ n.journal :=
      congrArg (List.cons ended) hj
    rw [hjournal]
    have hpassing : Passing c members true ⟨n, some (c, .closing forced members), k⟩ :=
      hs.passing (.closing rfl)
    exact hpassing.reckoned hk houtcomes hnotices
  | publish change changed =>
    refine .inr ⟨⟨_, rfl⟩, ?_⟩
    obtain ⟨lines, hj, houtcomes, hnotices, -⟩ := n.journal_publish c changed
    rw [hj]
    exact Tally.reckoned hk houtcomes hnotices

/-- **A call that owes the watcher something goes on with every move until it has told it what
    there was.** -/
theorem Midturn.Owes.move [Registry σ] (h : s.Owes c .watcher) (ha : AccountsKept s)
    (ho : Orderly s) (hs : Sweeping s) (m : Move s s') :
    s'.Owes c .watcher ∨
      (∃ r, s'.running = some (c, .replying r)) ∧ Reckoned c s.node.watcher s'.node.journal := by
  rcases h with ⟨st, hc, hst⟩ | ⟨p, hrun, hp⟩
  · left
    cases st with
    | pass forced members =>
      obtain ⟨members', -, hrests | hrun⟩ := (m.stroke ho).of_pass ho hc
      · exact .inl ⟨_, hrests, rfl⟩
      · exact .inr ⟨_, hrun, rfl⟩
    | awaitingSweep | changing =>
      rcases m.rests_or_wakes hc ho (by simp) (by simp) with hrests | ⟨-, rfl⟩
      · exact .inl ⟨_, hrests, hst⟩
      · exact .inr ⟨_, rfl, hst⟩
    | refreshing e next => exact absurd hst next.audience?_ne_watcher
    | fetching e due o next => exact absurd hst next.audience?_ne_watcher
    | _ => cases hst
  · rcases s with ⟨n, run, k⟩
    cases hrun
    cases m with
    | quiet q =>
      rcases q.owes_or_told hp (ha.running rfl) hs with howes | ⟨⟨r, rfl⟩, htold⟩
      · exact .inl (.inr ⟨_, rfl, howes⟩)
      · exact .inr ⟨⟨r, rfl⟩, htold⟩
    | lock => exact .inl (.inr ⟨_, rfl, (Job.audience?_point ..).trans hp⟩)
    | wait => exact .inl (.inl ⟨_, Node.mem_rest_self .., (Job.audience?_stage ..).trans hp⟩)
    | forceWait | sweepSome => exact .inl (.inl ⟨_, Node.mem_rest_self .., rfl⟩)
    | applyNext => exact .inl (.inr ⟨_, rfl, rfl⟩)
    | askNow | ask | hear => exact absurd hp (AfterRefresh.audience?_ne_watcher _)
    | forget n c k e es next =>
      cases next with
      | answer => cases hp
      | refresh => exact absurd hp (AfterRefresh.audience?_ne_watcher _)
    | _ => cases hp

/-- Who has answered or is about to owes nobody anything. -/
theorem Midturn.Over.not_runsFor (h : s.Over c) (ho : Orderly s) (a : Audience) :
    ¬ s.RunsFor c a := by
  rintro ⟨p, hrun, hp⟩
  rcases h with ⟨r, hr, hcall⟩ | ⟨r, hrun'⟩
  · exact ho.notMem_replies hrun hr hcall
  · rw [hrun] at hrun'
    cases hrun'
    cases hp

theorem Midturn.Over.not_mem_calls (h : s.Over c) (ho : Orderly s) (st : Stage σ) :
    (c, st) ∉ s.node.calls := by
  intro hc
  rcases h with ⟨r, hr, hcall⟩ | ⟨r, hrun⟩
  · exact ho.not_answered hc hr hcall
  · exact ho.notMem_calls hrun st hc

/-- Once a call is over, nothing more is on its account. -/
theorem Midturn.Over.uncharged [Registry σ] (hover : s.Over c) (ho : Orderly s) (hs : Sweeping s)
    (m : Move s s') : ∃ lines, s'.node.journal = lines ++ s.node.journal ∧
      ∀ l ∈ lines, l.what.charged? ≠ some c := by
  obtain ⟨lines, hj, hdue⟩ := m.due hs
  refine ⟨lines, hj, ?_⟩
  intro l hl hcharged
  rcases (hdue l hl).of_charged hcharged with ⟨a, hruns⟩ | ⟨forced, members, rests, -⟩
  · exact hover.not_runsFor ho a hruns
  · exact hover.not_mem_calls ho _ rests

theorem Reckoned.move [Registry σ] {watcher? : Option Watcher}
    (h : Reckoned c watcher? s.node.journal) (hover : s.Over c) (ho : Orderly s)
    (hs : Sweeping s) (m : Move s s') : Reckoned c watcher? s'.node.journal := by
  obtain ⟨lines, hj, hl⟩ := hover.uncharged ho hs m
  rw [hj]
  exact h.append hl

end Telling

/-! ### Within a turn -/

/-- What is known about sweeps, lines and accounts while a node is used. -/
structure Audited (s : Midturn σ) : Prop where
  regular : Regular s
  sweeping : Sweeping s
  accounts : AccountsKept s

namespace Audited

variable {s s' : Midturn σ}

theorem orderly (h : Audited s) : Orderly s := h.regular.sound.orderly

theorem move [Registry σ] (h : Audited s) (m : Move s s') : Audited s' where
  regular := h.regular.move m
  sweeping := h.sweeping.move h.regular m
  accounts := h.accounts.move h.regular h.sweeping m

theorem pass {n : Node σ} {time : Nat} (h : Audited (⟨n, none, none⟩ : Midturn σ))
    (hle : n.time ≤ time) : Audited (⟨{ n with time }, none, none⟩ : Midturn σ) where
  regular := h.regular.pass hle
  sweeping := h.sweeping.pass time
  accounts := ⟨h.accounts.fresh, h.accounts.calls, nofun⟩

theorem of_untouched {n : Node σ} (untouched : n.Untouched) (empty : n.directory.entries = []) :
    Audited (⟨n, none, none⟩ : Midturn σ) where
  regular := .of_untouched untouched empty
  sweeping := .of_untouched untouched
  accounts := by
    constructor
    · intro c _ l hl
      simp [untouched.journal] at hl
    · intro c st hc
      simp [untouched.calls] at hc
    · nofun

theorem course [Registry σ] {n m : Node σ} (h : Audited (⟨n, none, none⟩ : Midturn σ))
    (course : n.Course m) : Audited (⟨m, none, none⟩ : Midturn σ) :=
  course.keeps (fun h m => h.move m) (fun hle h => h.pass hle) h

end Audited

theorem Node.Course.audited [Registry σ] {start n : Node σ} (untouched : start.Untouched)
    (empty : start.directory.entries = []) (course : start.Course n) :
    Audited (⟨n, none, none⟩ : Midturn σ) :=
  (Audited.of_untouched untouched empty).course course

section Turns

variable {s s' : Midturn σ} {n n' : Node σ} {c : CallId}

theorem Node.watcher_of_aside {op : Operation σ} {r : Reply} (h : n.aside op = some (r, n'))
    (hop : ∀ w, op ≠ .watch w) : n'.watcher = n.watcher := by
  cases op with
  | watch w => exact absurd rfl (hop w)
  | sleep ms =>
    simp only [aside] at h
    split at h
    · cases h
      rfl
    · cases h
  | finish i success =>
    simp only [aside] at h
    split at h <;> (cases h; rfl)
  | get | inspect | statsOf | applyForPermit | checkAndReleasePermit | releasePermit | setClock
  | advanceClock | registry =>
    cases h
    rfl
  | _ => cases h

theorem Node.watcher_choice (n : Node σ) (e : EntryId) (i : Invocation) :
    (n.choice e i).2.watcher = n.watcher := by
  unfold choice
  rcases n.balancer.choose (n.entry e).listing.instances i with ⟨_ | s, balancer⟩ <;> rfl

theorem Quiet.watcher {p p' : Point σ} (q : Quiet c n p n' p')
    (hp : ∀ w, p ≠ .starting (.watch w)) : n'.watcher = n.watcher := by
  cases q with
  | aside h => exact Node.watcher_of_aside h fun w heq => hp w (congrArg _ heq)
  | view e => exact n.watcher_evictIfGone e
  | choose e i => exact (Node.watcher_choice ..).trans (n.watcher_evictIfGone e)
  | close forced members => exact n.watcher_publish c _
  | publish change changed => exact n.watcher_publish c changed
  | _ => rfl

/-- Only an operation that sets the watcher sets it. -/
theorem Move.watcher [Registry σ] (m : Move s s')
    (hs : ∀ c w, s.running ≠ some (c, .starting (.watch w))) :
    s'.node.watcher = s.node.watcher := by
  cases m with
  | quiet q => exact q.watcher fun w heq => hs _ w (by rw [heq])
  | startPuller n c k interval => rw [n.startPuller_eq]
  | _ => rfl

/-- Within a turn nobody comes to start an operation. -/
theorem Move.not_starting [Registry σ] (m : Move s s') (busy : s.busy = true) (c : CallId)
    (op : Operation σ) : s'.running ≠ some (c, .starting op) := by
  intro hrun
  cases m with
  | call | callAfter | wake => cases busy
  | quiet q =>
    cases hrun
    cases q.starts?
  | @lock n c' k e job => cases job <;> cases hrun
  | _ => cases hrun

/-- In a turn that does not set the watcher, a call that owes it something goes on with it or
    tells it what there was. -/
theorem Onward.owes_or_told [Registry σ] (onward : Onward s s') (h : Audited s)
    (hs : ∀ c w, s.running ≠ some (c, .starting (.watch w))) (howes : s.Owes c .watcher) :
    s'.Owes c .watcher ∨ s'.Over c ∧ Reckoned c s.node.watcher s'.node.journal := by
  suffices Audited s' ∧ (∀ c w, s'.running ≠ some (c, .starting (.watch w))) ∧
      s'.node.watcher = s.node.watcher ∧ (s'.Owes c .watcher ∨
        s'.Over c ∧ Reckoned c s.node.watcher s'.node.journal) from this.2.2.2
  refine onward.keeps (I := fun s' => Audited s' ∧
    (∀ c w, s'.running ≠ some (c, .starting (.watch w))) ∧ s'.node.watcher = s.node.watcher ∧
      (s'.Owes c .watcher ∨ s'.Over c ∧ Reckoned c s.node.watcher s'.node.journal)) ?_
    ⟨h, hs, rfl, .inl howes⟩
  rintro t t' busy ⟨hat, hst, hwatcher, hc⟩ m
  refine ⟨hat.move m, fun c w => m.not_starting busy c _, (m.watcher hst).trans hwatcher, ?_⟩
  rcases hc with howes | ⟨hover, htold⟩
  · rcases howes.move hat.accounts hat.orderly hat.sweeping m with howes | ⟨hover, htold⟩
    · exact .inl howes
    · exact .inr ⟨.inr hover, hwatcher ▸ htold⟩
  · exact .inr ⟨hover.move m, htold.move hover hat.orderly hat.sweeping m⟩

/-- In a turn of its own or of another call, a call that owes the watcher something goes on with
    it, or answers once it has told it what there was. -/
theorem Onward.owes_or_answers [Registry σ] {r : CallId × Point σ}
    (onward : Onward ⟨n, some r, none⟩ ⟨n', none, none⟩)
    (h : Audited (⟨n, some r, none⟩ : Midturn σ)) (hs : ∀ w, r.2 ≠ .starting (.watch w))
    (howes : Midturn.Owes ⟨n, some r, none⟩ c .watcher) :
    Midturn.Owes ⟨n', none, none⟩ c .watcher ∨
      (∃ r ∈ n'.replies, r.call = c) ∧ Reckoned c n.watcher n'.journal := by
  have hstart (c : CallId) (w : Watcher) :
      (⟨n, some r, none⟩ : Midturn σ).running ≠ some (c, .starting (.watch w)) := by
    intro hrun
    cases hrun
    exact hs w rfl
  rcases onward.owes_or_told h hstart howes with howes | ⟨hover, htold⟩
  · exact .inl howes
  · exact .inr ⟨Queues.over_of_rest hover, htold⟩

end Turns

/-! ### From turn to turn -/

namespace Node

variable [Registry σ] {n n' : Node σ} {c : CallId}

/-- The call that begins in a turn, and what it is to do. -/
def beginner? (n : Node σ) (a : Act σ) : Option (CallId × Operation σ) :=
  (n.begins? a).map fun op => (match a with | .resume c => c | _ => n.nextCall, op)

omit [Registry σ] in
/-- A call begins as it is made or when it was to start. -/
theorem beginner?_cases {a : Act σ} {op : Operation σ} (h : n.beginner? a = some (c, op)) :
    a = .call op ∧ c = n.nextCall ∨
      a = .resume c ∧ ∃ due, n.stage? c = some (.scheduled due op) ∧ due ≤ n.time := by
  obtain ⟨op', hop, heq⟩ := Option.map_eq_some_iff.mp h
  cases heq
  cases a with
  | call op' =>
    cases hop
    exact .inl ⟨rfl, rfl⟩
  | resume c' =>
    simp only [begins?] at hop
    split at hop
    · rename_i hawake
      split at hop
      · rename_i due op' rests
        cases hop
        refine .inr ⟨rfl, due, rests, ?_⟩
        simpa [isAwake, rests, awake] using hawake
      · cases hop
    · cases hop
  | _ => cases hop

omit [Registry σ] in
theorem beginner?_of_scheduled {op : Operation σ} {due : Nat}
    (rests : n.stage? c = some (.scheduled due op)) (hdue : due ≤ n.time) :
    n.beginner? (.resume c) = some (c, op) := by
  simp [beginner?, begins?, isAwake_of_scheduled rests hdue, rests]

theorem begins_of_beginner? {a : Act σ} {op : Operation σ} (h : n.beginner? a = some (c, op)) :
    Begins op c n (n.act a) := by
  rcases beginner?_cases h with ⟨rfl, rfl⟩ | ⟨rfl, due, rests, hdue⟩
  · exact .now n rfl
  · have hact : n.act (.resume c) = n.resume c := if_pos (isAwake_of_scheduled rests hdue)
    rw [hact]
    exact .later rests hdue

/-- Who begins to owe the watcher something goes on with it, or answers once it has told it what
    there was. -/
theorem owes_or_answers_of_begins {op : Operation σ} (h : Begins op c n n')
    (hop : op.audience? = some .watcher) (ha : Audited (⟨n, none, none⟩ : Midturn σ)) :
    Midturn.Owes ⟨n', none, none⟩ c .watcher ∨
      (∃ r ∈ n'.replies, r.call = c) ∧ Reckoned c n.watcher n'.journal := by
  have hwatch : ∀ w, (Point.starting op : Point σ) ≠ .starting (.watch w) := by
    rintro w ⟨⟩
    cases hop
  obtain ⟨calls, nextCall, -, hmove, rfl⟩ := h.starts
  exact (moves_starting ..).owes_or_answers (ha.move hmove) hwatch (.inr ⟨_, rfl, hop⟩)

/-- **From one turn to the next, a call that owes the watcher something goes on with it, or
    answers once it has told it what there was.** -/
theorem owes_or_answers_of_turn (h : LooseTurn n n') (ha : Audited (⟨n, none, none⟩ : Midturn σ))
    (howes : Midturn.Owes ⟨n, none, none⟩ c .watcher) :
    Midturn.Owes ⟨n', none, none⟩ c .watcher ∨
      (∃ r ∈ n'.replies, r.call = c) ∧ Reckoned c n.watcher n'.journal := by
  obtain ⟨st, hc, hst⟩ := howes.resolve_right fun ⟨_, hrun, _⟩ => nomatch hrun
  cases h with
  | call op =>
    by_cases hwatch : ∃ w, op = .watch w
    · obtain ⟨w, rfl⟩ := hwatch
      exact .inl (.inl ⟨st, hc, hst⟩)
    · refine (moves_starting n.newCall.2 n.nextCall op).owes_or_answers (ha.move (.call n op)) ?_
        (.inl ⟨st, hc, hst⟩)
      rintro w ⟨⟩
      exact hwatch ⟨w, rfl⟩
  | callAfter wait op => exact .inl (.inl ⟨st, mem_rest.mpr (.inl hc), hst⟩)
  | resume c' hawake =>
    obtain ⟨st', rests', awake, onward⟩ := moves_resume n c' hawake
    have hwoken := ha.move (.wake rests' awake)
    by_cases heq : c = c'
    · subst heq
      cases ha.orderly.stage_unique hc (mem_of_stage? rests')
      have hstarts : ∀ due op, st ≠ .scheduled due op := by
        rintro due op rfl
        cases hst
      have hpoint := (Stage.audience?_point hstarts).trans hst
      refine onward.owes_or_answers hwoken ?_ (.inr ⟨_, rfl, hpoint⟩)
      intro w hpoint
      cases st with
      | scheduled due op => exact hstarts due op rfl
      | _ => cases hpoint
    · have hrests : (c, st) ∈ (n.unrest c').calls := mem_unrest.mpr ⟨hc, heq⟩
      by_cases hwatch : ∃ w, st'.point = .starting (.watch w)
      · obtain ⟨w, hpoint⟩ := hwatch
        cases st' with
        | scheduled due op =>
          cases hpoint
          left
          rw [Node.resume, rests']
          exact .inl ⟨st, hrests, hst⟩
        | _ => cases hpoint
      · exact onward.owes_or_answers hwoken (fun w hpoint => hwatch ⟨w, hpoint⟩)
          (.inl ⟨st, hrests, hst⟩)
  | pass time hle => exact .inl (.inl ⟨st, hc, hst⟩)

/-! ### Runs -/

/-- In one of these turns the call `c` begins with an operation that tells this audience. -/
def Begun (start : Node σ) (acts : List (Act σ)) (c : CallId) (a : Audience) : Prop :=
  ∃ before act after op, acts = before ++ act :: after ∧
    (start.follow before).beginner? act = some (c, op) ∧ op.audience? = some a

/-- The call `c` has not answered and has told nobody. -/
structure Pending (n : Node σ) (c : CallId) : Prop where
  unanswered : ∀ r ∈ n.replies, r.call ≠ c
  silent : noticesOf c n.journal = []

omit [Registry σ] in
theorem pending_of_owes (ha : Audited (⟨n, none, none⟩ : Midturn σ))
    (howes : Midturn.Owes ⟨n, none, none⟩ c .watcher) : n.Pending c := by
  refine ⟨?_, howes.silent ha.accounts⟩
  obtain ⟨st, hc, hst⟩ := howes.resolve_right fun ⟨_, hrun, _⟩ => nomatch hrun
  exact fun r hr => ha.orderly.not_answered hc hr

omit [Registry σ] in
/-- Nothing is on the account of a call that is about to begin. -/
theorem untold_of_beginner? {op : Operation σ} (ha : Audited (⟨n, none, none⟩ : Midturn σ))
    {a : Act σ} (h : n.beginner? a = some (c, op)) : Untold c n.journal := by
  rcases beginner?_cases h with ⟨-, rfl⟩ | ⟨-, due, rests, -⟩
  · exact ha.accounts.fresh _ (Nat.le_refl _)
  · exact ha.accounts.calls (mem_of_stage? rests)

omit [Registry σ] in
/-- Nor has a call that is about to begin. -/
theorem pending_of_beginner? {op : Operation σ} (ha : Audited (⟨n, none, none⟩ : Midturn σ))
    {a : Act σ} (h : n.beginner? a = some (c, op)) : n.Pending c := by
  refine ⟨?_, noticesOf_eq_nil (untold_of_beginner? ha h)⟩
  rcases beginner?_cases h with ⟨-, rfl⟩ | ⟨-, due, rests, -⟩
  · intro r hr hcall
    have hin : n.nextCall ∈ n.ids :=
      List.mem_append_right _ (List.mem_map.mpr ⟨r, hr, hcall⟩)
    exact Nat.lt_irrefl _ (ha.orderly.below _ hin)
  · exact fun r hr => ha.orderly.not_answered (mem_of_stage? rests) hr

/-- In one of these turns the call `c` has answered, and the watcher of that moment was told what
    it changed. -/
def Announced (start : Node σ) (acts : List (Act σ)) (c : CallId) (watcher? : Option Watcher) :
    Prop :=
  ∃ before act after, acts = before ++ act :: after ∧
    (start.follow before).Pending c ∧ (start.follow before).watcher = watcher? ∧
      (∃ r ∈ ((start.follow before).act act).replies, r.call = c) ∧
        Reckoned c watcher? (start.follow acts).journal

section Runs

variable {start : Node σ} {acts : List (Act σ)} {act : Act σ} {a : Audience}

theorem Begun.concat (h : start.Begun acts c a) (act : Act σ) :
    start.Begun (acts ++ [act]) c a := by
  obtain ⟨before, act', after, op, rfl, hbegins, hop⟩ := h
  exact ⟨before, act', after ++ [act], op, by simp, hbegins, hop⟩

theorem begun_of_begins {op : Operation σ} (h : (start.follow acts).beginner? act = some (c, op))
    (hop : op.audience? = some a) : start.Begun (acts ++ [act]) c a :=
  ⟨acts, act, [], op, rfl, h, hop⟩

theorem Begun.cases_concat (h : start.Begun (acts ++ [act]) c a) :
    start.Begun acts c a ∨
      ∃ op, (start.follow acts).beginner? act = some (c, op) ∧ op.audience? = some a := by
  obtain ⟨before, act', after, op, heq, hbegins, hop⟩ := h
  rcases List.eq_nil_or_concat after with rfl | ⟨after, last, rfl⟩
  · obtain ⟨rfl, hact⟩ := List.append_inj' heq rfl
    cases hact
    exact .inr ⟨op, hbegins, hop⟩
  · rw [List.concat_eq_append, ← List.cons_append, ← List.append_assoc] at heq
    obtain ⟨rfl, -⟩ := List.append_inj' heq rfl
    exact .inl ⟨before, act', after, op, rfl, hbegins, hop⟩

theorem audited_follow (untouched : start.Untouched) (empty : start.directory.entries = [])
    (acts : List (Act σ)) : Audited (⟨start.follow acts, none, none⟩ : Midturn σ) :=
  (course_follow start acts).audited untouched empty

/-- Who has answered has told all it had to tell. -/
theorem reckoned_act {watcher? : Option Watcher} (ha : Audited (⟨n, none, none⟩ : Midturn σ))
    (hover : ∃ r ∈ n.replies, r.call = c) (h : Reckoned c watcher? n.journal) (act : Act σ) :
    (∃ r ∈ (n.act act).replies, r.call = c) ∧ Reckoned c watcher? (n.act act).journal := by
  suffices Audited (⟨n.act act, none, none⟩ : Midturn σ) ∧
      Midturn.Over ⟨n.act act, none, none⟩ c ∧ Reckoned c watcher? (n.act act).journal from
    ⟨Queues.over_of_rest this.2.1, this.2.2⟩
  refine (course_act n act).keeps
    (I := fun s => Audited s ∧ s.Over c ∧ Reckoned c watcher? s.node.journal) ?_ ?_
    ⟨ha, .inl hover, h⟩
  · rintro s s' ⟨ha, hover, h⟩ m
    exact ⟨ha.move m, hover.move m, h.move hover ha.orderly ha.sweeping m⟩
  · rintro n time hle ⟨ha, hover, h⟩
    exact ⟨ha.pass hle, .inl (Queues.over_of_rest hover), h⟩

/-- What a call that has begun to owe the watcher something has come to. -/
theorem owes_or_announced (untouched : start.Untouched) (empty : start.directory.entries = [])
    (h : start.Begun acts c .watcher) :
    Midturn.Owes ⟨start.follow acts, none, none⟩ c .watcher ∨
      (∃ watcher?, start.Announced acts c watcher?) ∧
        ∃ r ∈ (start.follow acts).replies, r.call = c := by
  induction acts using List.reverseRecOn with
  | nil =>
    obtain ⟨before, act, after, op, heq, -⟩ := h
    simp at heq
  | append_singleton acts act ih =>
    have ha := audited_follow untouched empty acts
    rw [follow_concat]
    have announce (pending : (start.follow acts).Pending c)
        (hover : ∃ r ∈ ((start.follow acts).act act).replies, r.call = c)
        (htold : Reckoned c (start.follow acts).watcher ((start.follow acts).act act).journal) :
        ∃ watcher?, start.Announced (acts ++ [act]) c watcher? :=
      ⟨_, acts, act, [], rfl, pending, rfl, hover, by rwa [follow_concat]⟩
    rcases h.cases_concat with hbefore | ⟨op, hbegins, hop⟩
    · rcases ih hbefore with howes |
        ⟨⟨watcher?, before, act', after, rfl, hpending, hwatcher, hanswered, htold⟩, hover⟩
      · rcases act_eq_or_turn (start.follow acts) act with hsame | hturn
        · rw [hsame]
          exact .inl howes
        · rcases owes_or_answers_of_turn hturn ha howes with howes' | ⟨hover, htold⟩
          · exact .inl howes'
          · exact .inr ⟨announce (pending_of_owes ha howes) hover htold, hover⟩
      · obtain ⟨hover, htold⟩ := reckoned_act ha hover htold act
        refine .inr ⟨⟨watcher?, before, act', after ++ [act], by simp, hpending, hwatcher,
          hanswered, ?_⟩, hover⟩
        rwa [follow_concat]
    · rcases owes_or_answers_of_begins (begins_of_beginner? hbegins) hop ha with
        howes | ⟨hover, htold⟩
      · exact .inl howes
      · exact .inr ⟨announce (pending_of_beginner? ha hbegins) hover htold, hover⟩

end Runs

end Node

end ServiceFinder
