/-
  ServiceFinder/Proofs/Node/Touch.lean
  ====================================
  **The moves that touch a view.**

  Most moves leave the list and the status of every view alone, and the lines for the
  write locks too: nobody gets in line, takes up a lock or hands one on.  They are
  `Apart`.  The others are few, and `Touch` lists them.  What is shown about a view and
  its line below goes through `Move.apart_or_touch` and never looks at the rest.
-/
import ServiceFinder.Proofs.Directory.Entry
import ServiceFinder.Proofs.Node.Calls

namespace ServiceFinder

variable {σ : Type}

/-! ### What a running call has to do with a view -/

/-- The call that runs with the write lock of a view, and that view. -/
def Midturn.hold? (s : Midturn σ) : Option (CallId × EntryId) :=
  s.running.bind fun x => x.2.holds?.map (x.1, ·)

@[simp] theorem Midturn.hold?_none (n : Node σ) (k : Option (CallId × Bool × List EntryId)) :
    Midturn.hold? ⟨n, none, k⟩ = none := rfl

@[simp] theorem Midturn.hold?_some (n : Node σ) (c : CallId) (p : Point σ)
    (k : Option (CallId × Bool × List EntryId)) :
    Midturn.hold? ⟨n, some (c, p), k⟩ = p.holds?.map (c, ·) := rfl

theorem Stage.line?_of_holds? {s : Stage σ} {e : EntryId} (h : s.holds? = some e) :
    s.line? = some e := by
  cases s with
  | fetching => exact h
  | _ => cases h

/-- `e` if the refresh of `e` that goes on so is the first one. -/
def AfterRefresh.firstOf? (e : EntryId) : AfterRefresh → Option EntryId
  | .first _ => some e
  | _ => none

/-- The view whose first refresh a running call is to make, or has made without saying
    so yet. -/
def Point.first? : Point σ → Option EntryId
  | .lining e (.refresh next) | .asking e next | .heard e _ next | .refreshed e _ next =>
    next.firstOf? e
  | _ => none

/-- The view whose first refresh a resting call makes. -/
def Stage.first? : Stage σ → Option EntryId
  | .refreshing e next | .fetching e _ _ next => next.firstOf? e
  | _ => none

def Midturn.first? (s : Midturn σ) : Option (CallId × EntryId) :=
  s.running.bind fun x => x.2.first?.map (x.1, ·)

@[simp] theorem Midturn.first?_none (n : Node σ) (k : Option (CallId × Bool × List EntryId)) :
    Midturn.first? ⟨n, none, k⟩ = none := rfl

@[simp] theorem Midturn.first?_some (n : Node σ) (c : CallId) (p : Point σ)
    (k : Option (CallId × Bool × List EntryId)) :
    Midturn.first? ⟨n, some (c, p), k⟩ = p.first?.map (c, ·) := rfl

@[simp] theorem AfterRefresh.firstOf?_of (e : EntryId) (sweep? : Option CallId) :
    (AfterRefresh.of sweep?).firstOf? e = none := by
  cases sweep? <;> rfl

theorem AfterRefresh.eq_of_firstOf? {e e' : EntryId} {next : AfterRefresh}
    (h : next.firstOf? e = some e') : e = e' := by
  cases next with
  | first => exact Option.some.inj h
  | _ => cases h

theorem Stage.line?_of_first? {s : Stage σ} {e : EntryId} (h : s.first? = some e) :
    s.line? = some e := by
  cases s with
  | refreshing e' next => exact congrArg some (AfterRefresh.eq_of_firstOf? h)
  | fetching e' due o next => exact congrArg some (AfterRefresh.eq_of_firstOf? h)
  | _ => cases h

theorem Stage.first?_point (s : Stage σ) : s.point.first? = s.first? := by
  cases s <;> rfl

/-- Who has a first refresh to make does not move quietly. -/
theorem Quiet.first? {c : CallId} {n n' : Node σ} {p p' : Point σ} (h : Quiet c n p n' p') :
    p.first? = none ∧ p'.first? = none := by
  cases h with
  | turn h =>
    unfold Node.turnsTo at h
    split at h
    all_goals first
      | (cases h; exact ⟨rfl, rfl⟩)
      | (cases h; exact ⟨rfl, AfterRefresh.firstOf?_of ..⟩)
      | (split at h <;> cases h <;> exact ⟨rfl, rfl⟩)
      | cases h
  | _ => exact ⟨rfl, rfl⟩

/-- A quiet move does not pass a first refresh by that nobody has made. -/
theorem Quiet.firstRefresh {c : CallId} {n n' : Node σ} {e : EntryId} {next : AfterFirst}
    {p' : Point σ} (h : Quiet c n (.ensuring e next) n' p') :
    (n.entry e).firstRefresh ≠ .pending := by
  cases h with
  | turn h =>
    simp only [Node.turnsTo] at h
    split at h
    · rename_i hover
      simp [hover]
    · cases h

/-- Whoever runs has nothing to do with a write lock or a first refresh. -/
structure Midturn.Aside (s : Midturn σ) : Prop where
  hold : s.hold? = none
  first : s.first? = none

/-! ### Views after a lookup or a change -/
namespace Node

variable (n : Node σ) (c : CallId) {e e' : EntryId}

theorem entry_settled (o : Outcome) (next : AfterRefresh) (h : e < n.directory.entries.length) :
    (n.settled c e o next).entry e =
      { (n.outcomeOn e o).1 with writers := (n.entry e).writers.tail } := by
  have hkept : (n.outcomeOn e o).1.writers = (n.entry e).writers := by
    rw [outcomeOn, Entry.afterRefresh_fst]
  have hlt : e < (n.modifyEntry e fun _ => (n.outcomeOn e o).1).directory.entries.length := by
    rwa [length_modifyEntry]
  refine (entry_modifyEntry_self _ hlt).trans ?_
  rw [← hkept]
  exact congrArg (fun x : Entry => { x with writers := x.writers.tail })
    (entry_modifyEntry_self _ h)

theorem entry_settled_of_ne (o : Outcome) (next : AfterRefresh) (h : e' ≠ e) :
    (n.settled c e o next).entry e' = n.entry e' :=
  (entry_modifyEntry_of_ne _ h).trans (entry_modifyEntry_of_ne _ h)

/-- What a change makes of a view. -/
abbrev changeOn (n : Node σ) (e : EntryId) (change : InstanceChange) : Entry × Option CacheStatus :=
  (n.entry e).afterChange n.directory.options.policy change

theorem entry_applyChange (change : InstanceChange) (h : e < n.directory.entries.length) :
    (n.applyChange c e change).2.entry e =
      { (n.changeOn e change).1 with writers := (n.entry e).writers.tail } := by
  have hkept : (n.changeOn e change).1.writers = (n.entry e).writers := by
    rw [changeOn, Entry.afterChange_fst]
  have hlt : e < (n.modifyEntry e fun _ => (n.changeOn e change).1).directory.entries.length := by
    rwa [length_modifyEntry]
  refine (entry_modifyEntry_self _ hlt).trans ?_
  rw [← hkept]
  exact congrArg (fun x : Entry => { x with writers := x.writers.tail })
    (entry_modifyEntry_self _ h)

theorem entry_applyChange_of_ne (change : InstanceChange) (h : e' ≠ e) :
    (n.applyChange c e change).2.entry e' = n.entry e' :=
  (entry_modifyEntry_of_ne _ h).trans (entry_modifyEntry_of_ne _ h)

end Node

/-- The call with the write lock of `e` has taken something in and handed the lock on. -/
structure Node.Revised (n n' : Node σ) (e : EntryId) : Prop where
  other : ∀ {e'}, e' ≠ e → n'.entry e' = n.entry e'
  key : (n'.entry e).key = (n.entry e).key
  firstRefresh : (n'.entry e).firstRefresh = (n.entry e).firstRefresh
  writers : (n'.entry e).writers = (n.entry e).writers.tail
  status : (n.entry e).status ≠ .initial → (n'.entry e).status ≠ .initial
  length : n'.directory.entries.length = n.directory.entries.length
  options : n'.directory.options = n.directory.options
  calls : n'.calls = n.calls
  time : n'.time = n.time

namespace Node

theorem revised_settled (n : Node σ) (c : CallId) {e : EntryId} (o : Outcome)
    (next : AfterRefresh) (h : e < n.directory.entries.length) :
    n.Revised (n.settled c e o next) e := by
  have hentry := n.entry_settled c o next h
  rw [outcomeOn, Entry.afterRefresh_fst] at hentry
  constructor
  case other => exact n.entry_settled_of_ne c o next
  case key => rw [hentry]
  case firstRefresh => rw [hentry]
  case writers => rw [hentry]
  case status =>
    intro _
    rw [hentry]
    exact Entry.afterRefresh_ne_initial _ _ _
  case length => exact (length_modifyEntry ..).trans (length_modifyEntry ..)
  case options => rfl
  case calls => rfl
  case time => rfl

theorem revised_applyChange (n : Node σ) (c : CallId) {e : EntryId} (change : InstanceChange)
    (h : e < n.directory.entries.length) : n.Revised (n.applyChange c e change).2 e := by
  have hentry := n.entry_applyChange c change h
  rw [changeOn, Entry.afterChange_fst] at hentry
  constructor
  case other => exact n.entry_applyChange_of_ne c change
  case key => rw [hentry]
  case firstRefresh => rw [hentry]
  case writers => rw [hentry]
  case status =>
    intro hne
    rw [hentry]
    exact Entry.afterChange_status_ne_initial _ _ _ hne
  case length => exact (length_modifyEntry ..).trans (length_modifyEntry ..)
  case options => rfl
  case calls => rfl
  case time => rfl

namespace Revised

variable {n n' : Node σ} {e : EntryId}

theorem key_eq (r : n.Revised n' e) (v : EntryId) : (n'.entry v).key = (n.entry v).key := by
  by_cases hv : v = e
  · exact hv ▸ r.key
  · exact congrArg Entry.key (r.other hv)

theorem firstRefresh_eq (r : n.Revised n' e) (v : EntryId) :
    (n'.entry v).firstRefresh = (n.entry v).firstRefresh := by
  by_cases hv : v = e
  · exact hv ▸ r.firstRefresh
  · exact congrArg Entry.firstRefresh (r.other hv)

theorem mem_writers (r : n.Revised n' e) {v : EntryId} {c : CallId}
    (hc : c ∈ (n'.entry v).writers) : c ∈ (n.entry v).writers := by
  by_cases hv : v = e
  · subst hv
    rw [r.writers] at hc
    exact List.mem_of_mem_tail hc
  · rwa [r.other hv] at hc

theorem status_ne (r : n.Revised n' e) {v : EntryId} (h : (n.entry v).status ≠ .initial) :
    (n'.entry v).status ≠ .initial := by
  by_cases hv : v = e
  · subst hv
    exact r.status h
  · rwa [r.other hv]

end Revised

end Node

theorem Node.writers_created (n : Node σ) (key : ServiceKey) (e : EntryId) :
    ((n.created key).entry e).writers = (n.entry e).writers := by
  show ((n.directory.create key).entry e).writers = _
  rw [Directory.entry_create]
  split
  · rename_i h
    rw [Node.entry, Directory.entry_of_length_le (Nat.le_of_eq h.symm)]
    rfl
  · rfl

/-! ### Calls in no line -/

theorem Node.mem_stopPuller_of_line? {n : Node σ} {c : CallId} {s : Stage σ} {e : EntryId}
    (hline : s.line? = some e) : (c, s) ∈ n.stopPuller.calls ↔ (c, s) ∈ n.calls := by
  rw [mem_stopPuller, and_iff_left]
  rintro due interval rfl
  cases hline

theorem Node.mem_startPuller_of_line? {n : Node σ} {interval : Nat} {c : CallId} {s : Stage σ}
    {e : EntryId} (hline : s.line? = some e) :
    (c, s) ∈ (n.startPuller interval).calls ↔ (c, s) ∈ n.calls := by
  rw [mem_startPuller, or_iff_left, mem_stopPuller_of_line? hline]
  rintro ⟨-, rfl, rfl⟩
  cases hline

theorem Node.mem_unrest_pass {n : Node σ} {sweep : CallId} {forced : Bool} {members : List Member}
    (rests : n.stage? sweep = some (.pass forced members)) (hn : (n.calls.map (·.1)).Nodup)
    {c : CallId} {s : Stage σ} {e : EntryId} (hline : s.line? = some e) :
    (c, s) ∈ (n.unrest sweep).calls ↔ (c, s) ∈ n.calls := by
  rw [mem_unrest, and_iff_left_iff_imp]
  rintro hc rfl
  have heq := List.inj_on_of_nodup_map hn hc (mem_of_stage? rests) rfl
  cases heq
  cases hline

/-! ### Moves apart from all views -/

/-- The move leaves every view and every line alone, up to the protection of views. -/
structure Apart (s s' : Midturn σ) : Prop where
  entry : ∀ e, ∃ on, s'.node.entry e = { s.node.entry e with protection := on }
  length : s'.node.directory.entries.length = s.node.directory.entries.length
  options : s'.node.directory.options = s.node.directory.options
  time : s'.node.time = s.node.time
  calls : ∀ {c st e}, Stage.line? st = some e →
    ((c, st) ∈ s'.node.calls ↔ (c, st) ∈ s.node.calls)
  aside : s.Aside
  aside' : s'.Aside
  /-- Nobody passes a first refresh by that is still to be made. -/
  ensuring : ∀ {c e next}, s.running = some (c, .ensuring e next) →
    (s.node.entry e).firstRefresh ≠ .pending
  journal : ∃ lines, s'.node.journal = lines ++ s.node.journal ∧
    ∀ l ∈ lines, l.what.view? = none

namespace Apart

variable {s s' : Midturn σ}

/-- Views and journal stay, and only calls in no line come and go. -/
theorem of_eq (hentry : ∀ e, s'.node.entry e = s.node.entry e)
    (hlen : s'.node.directory.entries.length = s.node.directory.entries.length)
    (hoptions : s'.node.directory.options = s.node.directory.options)
    (htime : s'.node.time = s.node.time)
    (hcalls : ∀ {c st e}, Stage.line? st = some e →
      ((c, st) ∈ s'.node.calls ↔ (c, st) ∈ s.node.calls))
    (haside : s.Aside) (haside' : s'.Aside)
    (hensuring : ∀ {c e next}, s.running = some (c, .ensuring e next) →
      (s.node.entry e).firstRefresh ≠ .pending)
    (hjournal : s'.node.journal = s.node.journal) : Apart s s' :=
  ⟨fun e => ⟨_, hentry e⟩, hlen, hoptions, htime, hcalls, haside, haside', hensuring, [], hjournal,
    by simp⟩

theorem of_still {n n' : Node σ} (h : n.Still n') {r r' : Option (CallId × Point σ)}
    {k k' : Option (CallId × Bool × List EntryId)} (haside : Midturn.Aside ⟨n, r, k⟩)
    (haside' : Midturn.Aside ⟨n', r', k'⟩)
    (hensuring : ∀ {c e next}, r = some (c, .ensuring e next) →
      (n.entry e).firstRefresh ≠ .pending) : Apart ⟨n, r, k⟩ ⟨n', r', k'⟩ where
  entry e := ⟨_, h.entry e⟩
  length := congrArg List.length h.entries
  options := h.options
  time := h.time
  calls _ := by rw [h.calls]
  aside := haside
  aside' := haside'
  ensuring := hensuring
  journal := by
    obtain ⟨lines, hj, hl⟩ := h.journal
    exact ⟨lines, hj, fun l hmem => (hl l hmem).2⟩

theorem key (h : Apart s s') (e : EntryId) : (s'.node.entry e).key = (s.node.entry e).key := by
  obtain ⟨on, heq⟩ := h.entry e
  rw [heq]

theorem listing (h : Apart s s') (e : EntryId) :
    (s'.node.entry e).listing = (s.node.entry e).listing := by
  obtain ⟨on, heq⟩ := h.entry e
  rw [heq]

theorem status (h : Apart s s') (e : EntryId) :
    (s'.node.entry e).status = (s.node.entry e).status := by
  obtain ⟨on, heq⟩ := h.entry e
  rw [heq]

theorem firstRefresh (h : Apart s s') (e : EntryId) :
    (s'.node.entry e).firstRefresh = (s.node.entry e).firstRefresh := by
  obtain ⟨on, heq⟩ := h.entry e
  rw [heq]

theorem writers (h : Apart s s') (e : EntryId) :
    (s'.node.entry e).writers = (s.node.entry e).writers := by
  obtain ⟨on, heq⟩ := h.entry e
  rw [heq]

end Apart

theorem Node.mem_rest_of_line? {n : Node σ} {c c' : CallId} {st st' : Stage σ} {e : EntryId}
    (h : st'.line? = none) (hline : st.line? = some e) :
    (c, st) ∈ (n.rest c' st').calls ↔ (c, st) ∈ n.calls := by
  rw [mem_rest, or_iff_left]
  rintro ⟨rfl, rfl⟩
  rw [h] at hline
  cases hline

/-! ### Moves that touch a view -/

open Node in
/-- The moves that get in line, take up a lock, use it, or edit a view. -/
inductive Touch [Registry σ] : Midturn σ → Midturn σ → Prop where
  | wake {n : Node σ} {c : CallId} {st : Stage σ} {e} (rests : n.stage? c = some st)
      (awake : n.awake c st = true) (line : st.line? = some e) :
      Touch ⟨n, none, none⟩ ⟨n.unrest c, some (c, st.point), none⟩
  | forget (n : Node σ) (c k e es next) :
      Touch ⟨n, some (c, .forgetting (e :: es) next), k⟩
        ⟨n.forget e, some (c, .forgetting es next), k⟩
  | create {n : Node σ} {c k key next} (valid : key.check = .ok ())
      (h : n.directory.find? key = none) :
      Touch ⟨n, some (c, .looking key next), k⟩
        ⟨(n.created key).measure (.cached (n.created key).directory.size),
          some (c, .ensuring n.directory.entries.length next), k⟩
  | beginFirst {n : Node σ} {c k e next} (h : (n.entry e).firstRefresh = .pending) :
      Touch ⟨n, some (c, .ensuring e next), k⟩
        ⟨n.modifyEntry e ({ · with firstRefresh := .running }),
          some (c, .lining e (.refresh (.first next))), k⟩
  | endFirst (n : Node σ) (c k e status next) :
      Touch ⟨n, some (c, .refreshed e status (.first next)), k⟩
        ⟨n.modifyEntry e ({ · with firstRefresh := .over }), some (c, .passed e next), k⟩
  | lock {n : Node σ} {c k e job} (h : (n.queueWriter c e).writes c e = true) :
      Touch ⟨n, some (c, .lining e job), k⟩ ⟨n.queueWriter c e, some (c, job.point e), k⟩
  | wait {n : Node σ} {c k e job} (h : (n.queueWriter c e).writes c e = false) :
      Touch ⟨n, some (c, .lining e job), k⟩
        ⟨(n.queueWriter c e).rest c (job.stage e), none, k⟩
  | askNow {n : Node σ} {c k e next} (h : n.waitFor e = 0) :
      Touch ⟨n, some (c, .asking e next), k⟩
        ⟨n.asked c e next, some (c, .heard e (n.outcomeFor e) next), k⟩
  | ask {n : Node σ} {c k e next} (h : n.waitFor e ≠ 0) :
      Touch ⟨n, some (c, .asking e next), k⟩
        ⟨(n.asked c e next).rest c (.fetching e (n.time + n.waitFor e) (n.outcomeFor e) next),
          none, k⟩
  | hear (n : Node σ) (c k e o next) :
      Touch ⟨n, some (c, .heard e o next), k⟩
        ⟨n.settled c e o next, some (c, .refreshed e (n.outcomeOn e o).2 next), k⟩
  | apply (n : Node σ) (c k e change next) {p} (hold : p.holds? = none) (first : p.first? = none) :
      Touch ⟨n, some (c, .applying e change next), k⟩
        ⟨(n.applyChange c e change).2, some (c, p), k⟩

/-- **A move touches a view or is apart from all.** -/
theorem Move.apart_or_touch [Registry σ] {s s' : Midturn σ} (ho : Orderly s) (m : Move s s') :
    Apart s s' ∨ Touch s s' := by
  cases m with
  | call n op =>
    exact .inl (.of_eq (fun _ => rfl) rfl rfl rfl (fun _ => .rfl) ⟨rfl, rfl⟩ ⟨rfl, rfl⟩
      (by simp) rfl)
  | callAfter n wait op =>
    exact .inl (.of_eq (fun _ => rfl) rfl rfl rfl (Node.mem_rest_of_line? rfl) ⟨rfl, rfl⟩
      ⟨rfl, rfl⟩ (by simp) rfl)
  | @wake n c st rests awake =>
    cases hline : st.line? with
    | some e => exact .inr (.wake rests awake hline)
    | none =>
      have hfirst : st.point.first? = none := by
        rw [Stage.first?_point]
        cases hf : st.first? with
        | none => rfl
        | some e => rw [Stage.line?_of_first? hf] at hline; cases hline
      refine .inl (.of_eq (fun _ => rfl) rfl rfl rfl ?_ ⟨rfl, rfl⟩
        ⟨by simp [hline], by simp [hfirst]⟩ (by simp) rfl)
      intro c' st' e hline'
      rw [Node.mem_unrest, and_iff_left_iff_imp]
      rintro hc rfl
      rw [ho.stage_unique hc (Node.mem_of_stage? rests), hline] at hline'
      cases hline'
  | quiet q =>
    obtain ⟨hp, hp'⟩ := q.holds?
    obtain ⟨hf, hf'⟩ := q.first?
    refine .inl (.of_still q.still ⟨by simp [hp], by simp [hf]⟩ ⟨by simp [hp'], by simp [hf']⟩ ?_)
    intro c e next hrun
    cases hrun
    exact q.firstRefresh
  | answer | enlisted | stray =>
    exact .inl (.of_eq (fun _ => rfl) rfl rfl rfl (fun _ => .rfl) ⟨rfl, rfl⟩ ⟨rfl, rfl⟩
      (by simp) rfl)
  | enlist n sweep forced e rest =>
    exact .inl (.of_eq (fun _ => rfl) rfl rfl rfl (fun _ => .rfl) ⟨rfl, rfl⟩ ⟨rfl, rfl⟩
      (by simp) rfl)
  | protect n c k on =>
    refine .inl ⟨?_, n.directory.length_protect on, n.directory.options_protect on, rfl,
      fun _ => .rfl, ⟨rfl, rfl⟩, ⟨rfl, rfl⟩, (by simp), [], rfl, by simp⟩
    intro e
    show ∃ on', (n.directory.protect on).entry e = { n.entry e with protection := on' }
    rw [Directory.entry_protect]
    split
    · exact ⟨on, rfl⟩
    · exact ⟨_, rfl⟩
  | protectView n c k e on =>
    refine .inl ⟨?_, n.length_modifyEntry e _, rfl, rfl, fun _ => .rfl, ⟨rfl, rfl⟩,
      ⟨rfl, rfl⟩, (by simp), [], rfl, by simp⟩
    intro e'
    show ∃ on', (n.modifyEntry e ({ · with protection := on })).entry e' =
      { n.entry e' with protection := on' }
    rw [Node.entry_modifyEntry]
    split
    · rename_i heq
      exact ⟨on, heq.1 ▸ rfl⟩
    · exact ⟨_, rfl⟩
  | @awaitFirst n c k e next hfirst =>
    refine .inl (.of_eq (fun _ => rfl) rfl rfl rfl (Node.mem_rest_of_line? rfl) ⟨rfl, rfl⟩
      ⟨rfl, rfl⟩ ?_ rfl)
    intro c' e' next' hrun
    cases hrun
    simp [hfirst]
  | sleep | forceWait =>
    exact .inl (.of_eq (fun _ => rfl) rfl rfl rfl (Node.mem_rest_of_line? rfl) ⟨rfl, rfl⟩
      ⟨rfl, rfl⟩ (by simp) rfl)
  | @sweepSome n c forced hsome =>
    exact .inl ⟨fun e => ⟨_, rfl⟩, rfl, rfl, rfl, Node.mem_rest_of_line? rfl, ⟨rfl, rfl⟩,
      ⟨rfl, rfl⟩, (by simp), [⟨n.time, .sweepBegan c n.directory.initialized⟩], rfl,
      by simp [Happening.view?]⟩
  | stopPuller n c k =>
    exact .inl (.of_eq (fun _ => rfl) rfl rfl rfl Node.mem_stopPuller_of_line? ⟨rfl, rfl⟩
      ⟨rfl, rfl⟩ (by simp) rfl)
  | startPuller n c k interval =>
    refine .inl (.of_eq ?_ ?_ ?_ ?_ Node.mem_startPuller_of_line? ⟨rfl, rfl⟩ ⟨rfl, rfl⟩
      (by simp) ?_)
    all_goals simp only [n.startPuller_eq, Node.entry, implies_true]
  | tick n c k due interval =>
    refine .inl ⟨fun e => ⟨_, rfl⟩, rfl, rfl, rfl, ?_, ⟨rfl, rfl⟩,
      ⟨rfl, rfl⟩, (by simp), [⟨n.time, .pulled n.nextCall⟩], rfl, by simp [Happening.view?]⟩
    intro c' st e hline
    exact (Node.mem_rest_of_line? rfl hline).trans (Node.mem_rest_of_line? rfl hline)
  | member rests hmore =>
    exact .inl (.of_eq (fun _ => rfl) rfl rfl rfl (fun hline =>
      (Node.mem_rest_of_line? rfl hline).trans (Node.mem_unrest_pass rests ho.nodup_calls hline))
      ⟨rfl, rfl⟩ ⟨rfl, rfl⟩ (by simp) rfl)
  | lastMember rests hall =>
    exact .inl (.of_eq (fun _ => rfl) rfl rfl rfl (Node.mem_unrest_pass rests ho.nodup_calls)
      ⟨rfl, rfl⟩ ⟨rfl, rfl⟩ (by simp) rfl)
  | forget n c k e es r => exact .inr (.forget n c k e es r)
  | create valid h => exact .inr (.create valid h)
  | beginFirst h => exact .inr (.beginFirst h)
  | endFirst n c k e status next => exact .inr (.endFirst n c k e status next)
  | lock h => exact .inr (.lock h)
  | wait h => exact .inr (.wait h)
  | askNow h => exact .inr (.askNow h)
  | ask h => exact .inr (.ask h)
  | hear n c k e o next => exact .inr (.hear n c k e o next)
  | apply n c k e change => exact .inr (.apply n c k e change .verdict rfl rfl)
  | applyNext n c k e change rest changed =>
    exact .inr (.apply n c k e change (.others rest changed) rfl rfl)

/-! ### What only grows -/

theorem Move.time [Registry σ] {s s' : Midturn σ} (m : Move s s') (ho : Orderly s) :
    s'.node.time = s.node.time := by
  rcases m.apart_or_touch ho with ha | ht
  · exact ha.time
  · cases ht <;> rfl

theorem Move.journal_suffix [Registry σ] {s s' : Midturn σ} (m : Move s s') (ho : Orderly s) :
    s.node.journal <:+ s'.node.journal := by
  rcases m.apart_or_touch ho with ha | ht
  · obtain ⟨lines, hj, -⟩ := ha.journal
    exact ⟨lines, hj.symm⟩
  · cases ht with
    | wake | beginFirst | endFirst | lock | wait => exact List.suffix_refl _
    | forget | create | askNow | ask | hear | apply => exact List.suffix_cons _ _

theorem Move.length_le [Registry σ] {s s' : Midturn σ} (m : Move s s') (ho : Orderly s) :
    s.node.directory.entries.length ≤ s'.node.directory.entries.length := by
  rcases m.apart_or_touch ho with ha | ht
  · exact Nat.le_of_eq ha.length.symm
  · cases ht with
    | wake | askNow | ask => exact Nat.le_refl _
    | @create n c k key next =>
      show _ ≤ (n.directory.create key).entries.length
      rw [Directory.length_create]
      exact Nat.le_succ _
    | forget | beginFirst | endFirst | lock | wait =>
      exact Nat.le_of_eq (Node.length_modifyEntry ..).symm
    | hear | apply =>
      exact Nat.le_of_eq ((Node.length_modifyEntry ..).trans (Node.length_modifyEntry ..)).symm

/-- A view is a view of the same key for ever. -/
theorem Move.key [Registry σ] {s s' : Midturn σ} (m : Move s s') (ho : Orderly s) {e : EntryId}
    (he : e < s.node.directory.entries.length) : (s'.node.entry e).key = (s.node.entry e).key := by
  rcases m.apart_or_touch ho with ha | ht
  · exact ha.key e
  · cases ht with
    | wake | askNow | ask => rfl
    | create =>
      exact congrArg Entry.key ((Directory.entry_create ..).trans (if_neg (Nat.ne_of_lt he)))
    | forget n c k v | beginFirst | endFirst n c k v | lock | wait =>
      exact Node.entry_modifyEntry_congr Entry.key _ _ _ rfl
    | hear n c k v o next =>
      by_cases hv : e = v
      · exact (n.revised_settled c o next (hv ▸ he)).key_eq e
      · exact congrArg Entry.key (n.entry_settled_of_ne c o next hv)
    | apply n c k v change next =>
      by_cases hv : e = v
      · exact (n.revised_applyChange c change (hv ▸ he)).key_eq e
      · exact congrArg Entry.key (n.entry_applyChange_of_ne c change hv)

theorem Move.options [Registry σ] {s s' : Midturn σ} (m : Move s s') (ho : Orderly s) :
    s'.node.directory.options = s.node.directory.options := by
  rcases m.apart_or_touch ho with ha | ht
  · exact ha.options
  · cases ht <;> rfl

theorem Move.replies_subset [Registry σ] {s s' : Midturn σ} (m : Move s s') :
    s.node.replies ⊆ s'.node.replies := by
  cases m with
  | quiet q => exact fun _ h => q.still.replies ▸ h
  | answer n c k r => exact List.subset_cons_self _ _
  | startPuller n c k interval =>
    rw [n.startPuller_eq]
    exact List.Subset.refl _
  | _ => exact List.Subset.refl _

end ServiceFinder
