/-
  ServiceFinder/Proofs/Node/Members.lean
  ======================================
  **The refreshes that a sweep waits for.**

  A sweep starts one refresh for each of its members and then rests until the last of them
  has reported.  Each refresh has three things left to do at first: to ask the registry, to
  take in the answer, and to report to the sweep.  `Midturn.legs` gathers what is left for one
  member of one sweep, wherever the refresh runs, rests or waits to be started.

  Hardly any move has to do with a sweep.  `Stroke` lists those that have; all others are
  `Aloof`, and what is shown about sweeps below never looks at them.
-/
import ServiceFinder.Proofs.Node.Touch

namespace ServiceFinder

variable {σ : Type}

/-! ### What is left to do for a member -/

/-- What a refresh that was made for a sweep does next. -/
inductive Leg where
  | toAsk
  | toEnd
  | toReport (status : CacheStatus)

/-- The leg of a refresh of `v` that goes on with `next`, if it is made for the member `e` of
    the sweep `c`. -/
def AfterRefresh.leg? (c : CallId) (e v : EntryId) (leg : Leg) (next : AfterRefresh) :
    Option Leg :=
  if v = e ∧ next = .member c then some leg else none

def Stage.leg? (c : CallId) (e : EntryId) : Stage σ → Option Leg
  | .refreshing v next => next.leg? c e v .toAsk
  | .fetching v _ _ next => next.leg? c e v .toEnd
  | _ => none

def Point.leg? (c : CallId) (e : EntryId) : Point σ → Option Leg
  | .forgetting _ (.refresh v sweep?) => (AfterRefresh.of sweep?).leg? c e v .toAsk
  | .lining v (.refresh next) | .asking v next => next.leg? c e v .toAsk
  | .heard v _ next => next.leg? c e v .toEnd
  | .refreshed v status next => next.leg? c e v (.toReport status)
  | _ => none

/-- The legs at rest for the member `e` of the sweep `c`. -/
def Node.legs (n : Node σ) (c : CallId) (e : EntryId) : List Leg :=
  n.calls.filterMap fun x => x.2.leg? c e

/-- The legs of the refreshes that are still to be started. -/
def enlistedLegs (c : CallId) (e : EntryId) : Option (CallId × Bool × List EntryId) → List Leg
  | some (sweep, _, views) => views.filterMap fun v => (AfterRefresh.member sweep).leg? c e v .toAsk
  | none => []

/-- All legs for the member `e` of the sweep `c`. -/
def Midturn.legs (s : Midturn σ) (c : CallId) (e : EntryId) : List Leg :=
  (s.running.bind fun x => x.2.leg? c e).toList ++ (s.node.legs c e ++ enlistedLegs c e s.enlisting)

section Legs

variable {c : CallId} {e v : EntryId} {leg : Leg}

@[simp] theorem AfterRefresh.leg?_member_self : (AfterRefresh.member c).leg? c e e leg = some leg :=
  if_pos ⟨rfl, rfl⟩

@[simp] theorem AfterRefresh.leg?_status : AfterRefresh.status.leg? c e v leg = none :=
  if_neg nofun

@[simp] theorem AfterRefresh.leg?_first {next : AfterFirst} :
    (AfterRefresh.first next).leg? c e v leg = none :=
  if_neg nofun

theorem AfterRefresh.leg?_member_of_ne {c' : CallId} {e' : EntryId} (h : ¬ (c' = c ∧ e' = e)) :
    (AfterRefresh.member c).leg? c' e' e leg = none := by
  apply if_neg
  rintro ⟨rfl, heq⟩
  cases heq
  exact h ⟨rfl, rfl⟩

theorem AfterRefresh.leg?_eq_some {next : AfterRefresh} {leg' : Leg}
    (h : next.leg? c e v leg = some leg') : v = e ∧ next = .member c :=
  (Option.ite_none_right_eq_some.mp h).1

@[simp] theorem Stage.leg?_point (st : Stage σ) : st.point.leg? c e = st.leg? c e := by
  cases st <;> rfl

@[simp] theorem Job.leg?_point (job : Job) :
    (job.point v : Point σ).leg? c e = (Point.lining v job : Point σ).leg? c e := by
  cases job <;> rfl

@[simp] theorem Job.leg?_stage (job : Job) :
    (job.stage v : Stage σ).leg? c e = (Point.lining v job : Point σ).leg? c e := by
  cases job <;> rfl

theorem Midturn.legs_of_refreshed {s : Midturn σ} {c' : CallId} {status : CacheStatus}
    (hrun : s.running = some (c', .refreshed e status (.member c))) :
    (s.legs c e).Perm (.toReport status :: (s.node.legs c e ++ enlistedLegs c e s.enlisting)) := by
  simp [legs, hrun, Point.leg?]

theorem Node.leg?_of_turnsTo {n : Node σ} {p p' : Point σ} (h : n.turnsTo p = some p') :
    p'.leg? c e = p.leg? c e := by
  unfold turnsTo at h
  split at h
  all_goals first
    | (cases h; rfl)
    | (cases h; simp only [Point.leg?, AfterRefresh.of, AfterRefresh.leg?_status])
    | (split at h <;> cases h <;> rfl)
    | cases h

end Legs

namespace Node

variable {c : CallId} {e : EntryId}

theorem legs_congr {n n' : Node σ} (h : n'.calls = n.calls) : n'.legs c e = n.legs c e := by
  rw [legs, legs, h]

theorem legs_rest (n : Node σ) (c' : CallId) (st : Stage σ) :
    (n.rest c' st).legs c e = n.legs c e ++ (st.leg? c e).toList := by
  unfold legs rest
  rw [List.filterMap_append]
  cases h : st.leg? c e <;> simp [h]

theorem legs_unrest {n : Node σ} {c' : CallId} {st : Stage σ} (rests : n.stage? c' = some st)
    (hn : (n.calls.map (·.1)).Nodup) :
    (n.legs c e).Perm ((st.leg? c e).toList ++ (n.unrest c').legs c e) := by
  have hcalls := (perm_unrest rests hn).filterMap fun x => x.2.leg? c e
  refine hcalls.trans ?_
  cases h : st.leg? c e <;> simp [h, legs]

theorem legs_stopPuller (n : Node σ) : n.stopPuller.legs c e = n.legs c e := by
  unfold legs stopPuller
  rw [List.filterMap_filter]
  apply List.filterMap_congr
  rintro ⟨c', st⟩ -
  cases st <;> rfl

theorem legs_startPuller (n : Node σ) (interval : Nat) :
    (n.startPuller interval).legs c e = n.legs c e := by
  rw [startPuller_eq]
  show List.filterMap _ (n.stopPuller.calls ++ _) = _
  rw [List.filterMap_append]
  refine (congrArg (· ++ _) n.legs_stopPuller).trans ?_
  split <;> simp [Stage.leg?]

end Node

/-! ### Moves that leave all sweeps alone -/

/-- The sweep that a happening is part of. -/
def Happening.sweep? : Happening → Option CallId
  | .sweepBegan c _ | .sweepEnded c _ => some c
  | .fetchBegan _ _ (.member c) | .refreshed _ _ (.member c) _ _ _ => some c
  | _ => none

/-- Whether a call rests as a sweep: in line for the sweep lock, or with it. -/
def Stage.isSweep : Stage σ → Bool
  | .awaitingSweep | .pass _ _ => true
  | _ => false

/-- Whether a call runs with the sweep lock. -/
def Point.isSweep : Point σ → Bool
  | .sweeping _ | .closing _ _ => true
  | _ => false

/-- The line for the sweep lock and those who sweep stay as they are. -/
structure Clear (s s' : Midturn σ) : Prop where
  sweepers : s'.node.directory.sweepers = s.node.directory.sweepers
  calls : ∀ {c st}, Stage.isSweep st = true →
    ((c, st) ∈ s'.node.calls ↔ (c, st) ∈ s.node.calls)
  running : ∀ {c p}, s.running = some (c, p) → p.isSweep = false
  running' : ∀ {c p}, s'.running = some (c, p) → p.isSweep = false

/-- The move has nothing to do with any sweep. -/
structure Aloof (s s' : Midturn σ) : Prop extends Clear s s' where
  legs : ∀ c e, (s'.legs c e).Perm (s.legs c e)
  journal : ∃ lines, s'.node.journal = lines ++ s.node.journal ∧ ∀ l ∈ lines, l.what.sweep? = none

/-- One refresh for the member `e` of the sweep `c` gets from one leg to the next. -/
structure Paces (c : CallId) (e : EntryId) (leg leg' : Leg) (s s' : Midturn σ) : Prop
    extends Clear s s' where
  legs : ∃ rest, (s.legs c e).Perm (leg :: rest) ∧ (s'.legs c e).Perm (leg' :: rest)
  others : ∀ {c' e'}, ¬ (c' = c ∧ e' = e) → (s'.legs c' e').Perm (s.legs c' e')

namespace Clear

variable {n n' : Node σ} {c : CallId} {p p' : Point σ} {st : Stage σ}
  {k k' : Option (CallId × Bool × List EntryId)}

theorem of_run (hsweepers : n'.directory.sweepers = n.directory.sweepers)
    (hcalls : n'.calls = n.calls) (hp : p.isSweep = false) (hp' : p'.isSweep = false) :
    Clear ⟨n, some (c, p), k⟩ ⟨n', some (c, p'), k'⟩ where
  sweepers := hsweepers
  calls _ := by rw [hcalls]
  running hrun := by cases hrun; exact hp
  running' hrun := by cases hrun; exact hp'

theorem of_rest (hsweepers : n'.directory.sweepers = n.directory.sweepers)
    (hcalls : n'.calls = n.calls) (hp : p.isSweep = false) (hst : st.isSweep = false) :
    Clear ⟨n, some (c, p), k⟩ ⟨n'.rest c st, none, k'⟩ where
  sweepers := hsweepers
  calls {c' st'} h := by
    rw [Node.mem_rest, hcalls, or_iff_left]
    rintro ⟨-, rfl⟩
    cases h.symm.trans hst
  running hrun := by cases hrun; exact hp
  running' hrun := nomatch hrun

end Clear

namespace Aloof

variable {n n' : Node σ} {c : CallId} {p p' : Point σ} {st : Stage σ}
  {k k' : Option (CallId × Bool × List EntryId)}

theorem of_run (hsweepers : n'.directory.sweepers = n.directory.sweepers)
    (hcalls : n'.calls = n.calls) (hp : p.isSweep = false) (hp' : p'.isSweep = false)
    (hleg : ∀ c e, p'.leg? c e = p.leg? c e)
    (hjournal : ∃ lines, n'.journal = lines ++ n.journal ∧ ∀ l ∈ lines, l.what.sweep? = none) :
    Aloof ⟨n, some (c, p), k⟩ ⟨n', some (c, p'), k⟩ where
  toClear := .of_run hsweepers hcalls hp hp'
  legs c' e' := by
    refine List.Perm.of_eq ?_
    simp only [Midturn.legs, Node.legs_congr hcalls, Option.bind_some, hleg]
  journal := hjournal

/-- Nothing but the views, the answers or the time may have changed. -/
theorem of_same (hsweepers : n'.directory.sweepers = n.directory.sweepers)
    (hcalls : n'.calls = n.calls) (hp : p.isSweep = false) (hp' : p'.isSweep = false)
    (hleg : ∀ c e, p'.leg? c e = p.leg? c e) (hjournal : n'.journal = n.journal) :
    Aloof ⟨n, some (c, p), k⟩ ⟨n', some (c, p'), k⟩ :=
  of_run hsweepers hcalls hp hp' hleg ⟨[], hjournal, by simp⟩

theorem of_note (hsweepers : n'.directory.sweepers = n.directory.sweepers)
    (hcalls : n'.calls = n.calls) (hp : p.isSweep = false) (hp' : p'.isSweep = false)
    (hleg : ∀ c e, p'.leg? c e = p.leg? c e) {line : JournalLine}
    (hjournal : n'.journal = line :: n.journal) (hline : line.what.sweep? = none) :
    Aloof ⟨n, some (c, p), k⟩ ⟨n', some (c, p'), k⟩ :=
  of_run hsweepers hcalls hp hp' hleg ⟨[line], hjournal, by simpa using hline⟩

theorem of_rest (hsweepers : n'.directory.sweepers = n.directory.sweepers)
    (hcalls : n'.calls = n.calls) (hp : p.isSweep = false) (hst : st.isSweep = false)
    (hleg : ∀ c e, st.leg? c e = p.leg? c e)
    (hjournal : ∃ lines, n'.journal = lines ++ n.journal ∧ ∀ l ∈ lines, l.what.sweep? = none) :
    Aloof ⟨n, some (c, p), k⟩ ⟨n'.rest c st, none, k⟩ where
  toClear := .of_rest hsweepers hcalls hp hst
  legs c' e' := by
    have hrest : (n'.rest c st).legs c' e' = n.legs c' e' ++ (p.leg? c' e').toList := by
      rw [Node.legs_rest, hleg, Node.legs_congr hcalls]
    simp only [Midturn.legs, Option.bind_none, Option.toList_none, List.nil_append, hrest,
      Option.bind_some]
    exact (List.perm_append_comm.append_right _).trans (List.Perm.of_eq (List.append_assoc ..))
  journal := hjournal

theorem of_end (hsweepers : n'.directory.sweepers = n.directory.sweepers)
    (hcalls : n'.calls = n.calls) (hp : p.isSweep = false) (hleg : ∀ c e, p.leg? c e = none)
    (hjournal : n'.journal = n.journal) : Aloof ⟨n, some (c, p), k⟩ ⟨n', none, k⟩ where
  sweepers := hsweepers
  calls _ := by rw [hcalls]
  running hrun := by cases hrun; exact hp
  running' hrun := nomatch hrun
  legs c' e' := by
    refine List.Perm.of_eq ?_
    simp only [Midturn.legs, Node.legs_congr hcalls, Option.bind_some, hleg, Option.bind_none]
  journal := ⟨[], hjournal, by simp⟩

end Aloof

/-! ### Evicting and telling -/

/-- What happens to a node that is not about a sweep. -/
structure Node.Unswept (n n' : Node σ) : Prop where
  sweepers : n'.directory.sweepers = n.directory.sweepers
  calls : n'.calls = n.calls
  journal : ∃ lines, n'.journal = lines ++ n.journal ∧ ∀ l ∈ lines, l.what.sweep? = none

namespace Node

theorem Unswept.refl (n : Node σ) : n.Unswept n := ⟨rfl, rfl, [], rfl, by simp⟩

theorem Unswept.trans {n m k : Node σ} (h : n.Unswept m) (h' : m.Unswept k) : n.Unswept k where
  sweepers := h'.sweepers.trans h.sweepers
  calls := h'.calls.trans h.calls
  journal := added_trans h.journal h'.journal

theorem unswept_note (n : Node σ) (what : Happening) (h : what.sweep? = none) :
    n.Unswept (n.note what) :=
  ⟨rfl, rfl, [⟨n.time, what⟩], rfl, by simpa using h⟩

theorem unswept_evictIfGone (n : Node σ) (e : EntryId) : n.Unswept (n.evictIfGone e) := by
  unfold evictIfGone evict
  split
  · split
    · exact ⟨rfl, rfl, [⟨n.time, .evicted e⟩], rfl, by simp [Happening.sweep?]⟩
    · exact .refl n
  · exact .refl n

theorem unswept_publish (n : Node σ) (c : CallId) (changed : List EntryId) :
    n.Unswept (n.publish c changed) := by
  have evicted (views : List EntryId) (n : Node σ) : n.Unswept (views.foldl evictIfGone n) := by
    induction views generalizing n with
    | nil => exact .refl n
    | cons v views ih => exact (n.unswept_evictIfGone v).trans (ih _)
  apply (evicted changed n).trans
  show Unswept _ ((changed.foldl evictIfGone n).notify c changed)
  unfold notify
  split
  · exact .refl _
  · exact .refl _
  · dsimp only
    split
    · exact unswept_note _ _ rfl
    · exact (unswept_note _ _ rfl).trans ⟨rfl, rfl, [], rfl, by simp⟩

end Node

/-! ### Moves of a sweep -/

open Node in
/-- A move as a sweep sees it. -/
inductive Stroke [Registry σ] : Midturn σ → Midturn σ → Prop where
  | aloof {s s' : Midturn σ} (h : Aloof s s') : Stroke s s'
  -- The sweep lock
  | take {n : Node σ} {c k op forced} (h : (n.queueSweeper c).sweeps c = true) :
      Stroke ⟨n, some (c, .starting op), k⟩ ⟨n.queueSweeper c, some (c, .sweeping forced), k⟩
  | queue {n : Node σ} {c k op} (h : (n.queueSweeper c).sweeps c = false) :
      Stroke ⟨n, some (c, .starting op), k⟩ ⟨(n.queueSweeper c).rest c .awaitingSweep, none, k⟩
  | wake {n : Node σ} {c} (rests : n.stage? c = some .awaitingSweep) (h : n.sweeps c = true) :
      Stroke ⟨n, none, none⟩ ⟨n.unrest c, some (c, .sweeping true), none⟩
  | close (n : Node σ) (c k forced members) :
      Stroke ⟨n, some (c, .closing forced members), k⟩
        ⟨n.closed c members, some (c, .replying (if forced then .done else .swept true)), k⟩
  -- The members
  | beginNone {n : Node σ} {c k forced} (h : n.directory.initialized = []) :
      Stroke ⟨n, some (c, .sweeping forced), k⟩
        ⟨n.note (.sweepBegan c []), some (c, .closing forced []), k⟩
  | beginSome {n : Node σ} {c forced} (h : n.directory.initialized ≠ []) :
      Stroke ⟨n, some (c, .sweeping forced), none⟩
        ⟨(n.note (.sweepBegan c n.directory.initialized)).rest c
          (.pass forced (n.directory.initialized.map ({ entry := · }))), none,
          some (c, forced, n.directory.initialized)⟩
  | ask {s s' : Midturn σ} {c c' e} (h : Paces c e .toAsk .toEnd s s')
      (hjournal : s'.node.journal = ⟨s.node.time, .fetchBegan c' e (.member c)⟩ :: s.node.journal) :
      Stroke s s'
  | hear {s s' : Midturn σ} {c c' e o status guarded} (h : Paces c e .toEnd (.toReport status) s s')
      (hjournal : s'.node.journal =
        ⟨s.node.time, .refreshed c' e (.member c) o status guarded⟩ :: s.node.journal) :
      Stroke s s'
  | member {n : Node σ} {c k e status sweep forced members}
      (rests : n.stage? sweep = some (.pass forced members))
      (h : (reported members e status).all (·.status.isSome) = false) :
      Stroke ⟨n, some (c, .refreshed e status (.member sweep)), k⟩
        ⟨(n.unrest sweep).rest sweep (.pass forced (reported members e status)), none, k⟩
  | lastMember {n : Node σ} {c k e status sweep forced members}
      (rests : n.stage? sweep = some (.pass forced members))
      (h : (reported members e status).all (·.status.isSome) = true) :
      Stroke ⟨n, some (c, .refreshed e status (.member sweep)), k⟩
        ⟨n.unrest sweep, some (sweep, .closing forced (reported members e status)), k⟩
  | stray {n : Node σ} {c k e status sweep}
      (h : ∀ forced members, n.stage? sweep ≠ some (.pass forced members)) :
      Stroke ⟨n, some (c, .refreshed e status (.member sweep)), k⟩ ⟨n, none, k⟩

section Strokes

variable {n n' : Node σ} {c : CallId} {p p' : Point σ} {k : Option (CallId × Bool × List EntryId)}

theorem Node.Unswept.aloof (h : n.Unswept n') (hp : p.isSweep = false) (hp' : p'.isSweep = false)
    (hleg : ∀ c e, p'.leg? c e = p.leg? c e) :
    Aloof ⟨n, some (c, p), k⟩ ⟨n', some (c, p'), k⟩ :=
  .of_run h.sweepers h.calls hp hp' hleg h.journal

theorem Node.isSweep_of_turnsTo (h : n.turnsTo p = some p') :
    p.isSweep = false ∧ p'.isSweep = false := by
  unfold turnsTo at h
  split at h
  all_goals first
    | (cases h; exact ⟨rfl, rfl⟩)
    | (split at h <;> cases h <;> exact ⟨rfl, rfl⟩)
    | cases h

theorem Quiet.stroke [Registry σ] (q : Quiet c n p n' p') :
    Stroke ⟨n, some (c, p), k⟩ ⟨n', some (c, p'), k⟩ := by
  cases q with
  | turn h =>
    obtain ⟨hp, hp'⟩ := Node.isSweep_of_turnsTo h
    exact .aloof ((Node.Unswept.refl n).aloof hp hp' fun c e => Node.leg?_of_turnsTo h)
  | aside h =>
    obtain ⟨hviews, hcalls, -, -, -, hjournal⟩ := Node.rest_of_aside h
    exact .aloof (.of_same (congrArg Directory.sweepers hviews) hcalls rfl rfl (fun _ _ => rfl)
      hjournal)
  | find valid h => exact .aloof (.of_same rfl rfl rfl rfl (fun _ _ => rfl) rfl)
  | view e => exact .aloof ((n.unswept_evictIfGone e).aloof rfl rfl fun _ _ => rfl)
  | choose e i =>
    obtain ⟨hviews, hcalls, -, -, -, hjournal⟩ := Node.rest_of_choice (n.evictIfGone e) e i
    have hchoice : (n.evictIfGone e).Unswept ((n.evictIfGone e).choice e i).2 :=
      ⟨congrArg Directory.sweepers hviews, hcalls, [], hjournal, by simp⟩
    exact .aloof (((n.unswept_evictIfGone e).trans hchoice).aloof rfl rfl fun _ _ => rfl)
  | sweepFree h => exact .take (by simp [Node.sweeps, Node.queueSweeper, h])
  | sweepTaken h =>
    exact .aloof (.of_note rfl rfl rfl rfl (fun _ _ => rfl) rfl rfl)
  | forceFree h => exact .take h
  | sweepNone h => exact .beginNone h
  | close forced members => exact .close n c k forced members
  | publish change changed =>
    exact .aloof ((n.unswept_publish c changed).aloof rfl rfl fun _ _ => rfl)

end Strokes

namespace Paces

variable {n n' : Node σ} {c x : CallId} {e : EntryId} {leg leg' : Leg} {p p' : Point σ}
  {st : Stage σ} {k : Option (CallId × Bool × List EntryId)}

theorem of_run (hclear : Clear ⟨n, some (x, p), k⟩ ⟨n', some (x, p'), k⟩)
    (hcalls : n'.calls = n.calls)
    (hp : ∀ c' e', p.leg? c' e' = (AfterRefresh.member c).leg? c' e' e leg)
    (hp' : ∀ c' e', p'.leg? c' e' = (AfterRefresh.member c).leg? c' e' e leg') :
    Paces c e leg leg' ⟨n, some (x, p), k⟩ ⟨n', some (x, p'), k⟩ where
  toClear := hclear
  legs := by
    refine ⟨n.legs c e ++ enlistedLegs c e k, List.Perm.of_eq ?_, List.Perm.of_eq ?_⟩
    · simp [Midturn.legs, hp]
    · simp [Midturn.legs, Node.legs_congr hcalls, hp']
  others {c' e'} hne := by
    refine List.Perm.of_eq ?_
    simp [Midturn.legs, Node.legs_congr hcalls, hp, hp', AfterRefresh.leg?_member_of_ne hne]

theorem of_rest (hclear : Clear ⟨n, some (x, p), k⟩ ⟨n'.rest x st, none, k⟩)
    (hcalls : n'.calls = n.calls)
    (hp : ∀ c' e', p.leg? c' e' = (AfterRefresh.member c).leg? c' e' e leg)
    (hst : ∀ c' e', st.leg? c' e' = (AfterRefresh.member c).leg? c' e' e leg') :
    Paces c e leg leg' ⟨n, some (x, p), k⟩ ⟨n'.rest x st, none, k⟩ where
  toClear := hclear
  legs := by
    refine ⟨n.legs c e ++ enlistedLegs c e k, List.Perm.of_eq ?_, ?_⟩
    · simp [Midturn.legs, hp]
    · have hrest : (n'.rest x st).legs c e = n.legs c e ++ [leg'] := by
        simp [Node.legs_rest, Node.legs_congr hcalls, hst]
      simp only [Midturn.legs, hrest, Option.bind_none, Option.toList_none, List.nil_append,
        List.append_assoc, List.singleton_append]
      exact List.perm_middle
  others {c' e'} hne := by
    refine List.Perm.of_eq ?_
    simp [Midturn.legs, Node.legs_rest, Node.legs_congr hcalls, hp, hst,
      AfterRefresh.leg?_member_of_ne hne]

end Paces

/-- A call that rests for anything but a sweep wakes. -/
theorem aloof_wake {n : Node σ} {c : CallId} {st : Stage σ}
    (ho : Orderly (⟨n, none, none⟩ : Midturn σ)) (rests : n.stage? c = some st)
    (hst : st.isSweep = false) :
    Aloof ⟨n, none, none⟩ ⟨n.unrest c, some (c, st.point), none⟩ where
  sweepers := rfl
  calls {c' st'} h := by
    rw [Node.mem_unrest, and_iff_left_iff_imp]
    rintro hc rfl
    cases ho.stage_unique hc (Node.mem_of_stage? rests)
    cases h.symm.trans hst
  running hrun := nomatch hrun
  running' hrun := by
    cases hrun
    cases st with
    | awaitingSweep | pass => cases hst
    | _ => rfl
  legs c' e' := by
    have hlegs := Node.legs_unrest (c := c') (e := e') rests ho.nodup_calls
    simpa [Midturn.legs, enlistedLegs] using hlegs.symm
  journal := ⟨[], rfl, by simp⟩

/-- **A move is a move of a sweep or has nothing to do with any.** -/
theorem Move.stroke [Registry σ] {s s' : Midturn σ} (m : Move s s') (ho : Orderly s) :
    Stroke s s' := by
  cases m with
  | call n op =>
    exact .aloof ⟨⟨rfl, fun _ => .rfl, nofun, fun hrun => by cases hrun; rfl⟩, fun _ _ => .refl _,
      [], rfl, by simp⟩
  | callAfter n wait op =>
    refine .aloof ⟨⟨rfl, ?_, nofun, nofun⟩, ?_, [], rfl, by simp⟩
    · intro c st h
      rw [Node.callAfter, Node.mem_rest, or_iff_left]
      · rfl
      · rintro ⟨-, rfl⟩
        cases h
    · intro c e
      show (Midturn.legs ⟨n.newCall.2.rest _ _, none, none⟩ c e).Perm _
      simp [Midturn.legs, Node.legs_rest, Stage.leg?]
      exact .refl _
  | @wake n c st rests awake =>
    cases st with
    | awaitingSweep => exact .wake rests awake
    | pass forced members => cases awake
    | _ => exact .aloof (aloof_wake ho rests rfl)
  | quiet q => exact q.stroke
  | answer n c k r => exact .aloof (.of_end rfl rfl rfl (fun _ _ => rfl) rfl)
  | protect n c k on =>
    have hsweepers : (n.directory.protect on).sweepers = n.directory.sweepers :=
      (Directory.foldl_protect_rest on n.directory.views _).2.2.2.1
    exact .aloof (.of_same hsweepers rfl rfl rfl (fun _ _ => rfl) rfl)
  | protectView n c k e on => exact .aloof (.of_same rfl rfl rfl rfl (fun _ _ => rfl) rfl)
  | forget n c k e es next =>
    exact .aloof (.of_note rfl rfl rfl rfl (fun _ _ => by cases next <;> rfl) rfl rfl)
  | sleep n c k h => exact .aloof (.of_rest rfl rfl rfl rfl (fun _ _ => rfl) ⟨[], rfl, by simp⟩)
  | startPuller n c k interval =>
    refine .aloof ⟨⟨?_, ?_, fun hrun => by cases hrun; rfl, fun hrun => by cases hrun; rfl⟩, ?_,
      [], ?_, by simp⟩
    · simp only [n.startPuller_eq]
    · intro c' st h
      rw [Node.mem_startPuller, or_iff_left, Node.mem_stopPuller, and_iff_left]
      · rintro due interval rfl
        cases h
      · rintro ⟨-, -, rfl⟩
        cases h
    · intro c' e'
      simp [Midturn.legs, Node.legs_startPuller, Point.leg?]
    · simp only [n.startPuller_eq, List.nil_append]
  | stopPuller n c k =>
    refine .aloof ⟨⟨rfl, ?_, fun hrun => by cases hrun; rfl, fun hrun => by cases hrun; rfl⟩, ?_,
      [], rfl, by simp⟩
    · intro c' st h
      rw [Node.mem_stopPuller, and_iff_left]
      rintro due interval rfl
      cases h
    · intro c' e'
      simp [Midturn.legs, Node.legs_stopPuller, Point.leg?]
  | tick n c k due interval =>
    refine .aloof ⟨⟨rfl, ?_, fun hrun => by cases hrun; rfl, nofun⟩, ?_,
      [⟨n.time, .pulled n.nextCall⟩], rfl, by simp [Happening.sweep?]⟩
    · intro c' st h
      rw [Node.tick, Node.mem_rest, or_iff_left]
      · show (c', st) ∈ (n.rest c _).calls ↔ _
        rw [Node.mem_rest, or_iff_left]
        rintro ⟨-, rfl⟩
        cases h
      · rintro ⟨-, rfl⟩
        cases h
    · intro c' e'
      have hlegs : (n.tick c due interval).legs c' e' = n.legs c' e' := by
        rw [Node.tick, Node.legs_rest]
        show (n.rest c _).legs c' e' ++ [] = _
        rw [Node.legs_rest]
        simp [Stage.leg?]
      simp [Midturn.legs, hlegs, Point.leg?]
  | create valid h => exact .aloof (.of_note rfl rfl rfl rfl (fun _ _ => rfl) rfl rfl)
  | awaitFirst h => exact .aloof (.of_rest rfl rfl rfl rfl (fun _ _ => rfl) ⟨[], rfl, by simp⟩)
  | beginFirst h => exact .aloof (.of_same rfl rfl rfl rfl (by simp [Point.leg?]) rfl)
  | endFirst n c k e status next =>
    exact .aloof (.of_same rfl rfl rfl rfl (by simp [Point.leg?]) rfl)
  | @lock n c k e job h =>
    exact .aloof (.of_same rfl rfl rfl (by cases job <;> rfl) (fun _ _ => by simp) rfl)
  | @wait n c k e job h =>
    exact .aloof (.of_rest rfl rfl rfl (by cases job <;> rfl) (fun _ _ => by simp)
      ⟨[], rfl, by simp⟩)
  | @askNow n c k e next h =>
    cases next with
    | member sweep =>
      exact .ask (.of_run (.of_run rfl rfl rfl rfl) rfl (fun _ _ => rfl) (fun _ _ => rfl)) rfl
    | _ => exact .aloof (.of_note rfl rfl rfl rfl (by simp [Point.leg?]) rfl rfl)
  | @ask n c k e next h =>
    cases next with
    | member sweep =>
      exact .ask (.of_rest (.of_rest rfl rfl rfl rfl) rfl (fun _ _ => rfl) (fun _ _ => rfl)) rfl
    | _ =>
      exact .aloof (.of_rest rfl rfl rfl rfl (by simp [Stage.leg?, Point.leg?])
        ⟨[⟨n.time, .fetchBegan c e _⟩], rfl, by simp [Happening.sweep?]⟩)
  | hear n c k e o next =>
    cases next with
    | member sweep =>
      exact .hear (.of_run (.of_run rfl rfl rfl rfl) rfl (fun _ _ => rfl) (fun _ _ => rfl)) rfl
    | _ => exact .aloof (.of_note rfl rfl rfl rfl (by simp [Point.leg?]) rfl rfl)
  | forceWait h => exact .queue h
  | sweepSome h => exact .beginSome h
  | enlist n sweep forced e rest =>
    refine .aloof ⟨⟨rfl, fun _ => .rfl, nofun, fun hrun => by cases hrun; rfl⟩, ?_, [], rfl,
      by simp⟩
    intro c' e'
    have hpoint : (Point.forgetting (if forced then [e] else []) (.refresh e (some sweep)) :
        Point σ).leg? c' e' = (AfterRefresh.member sweep).leg? c' e' e .toAsk := rfl
    have hlegs : n.newCall.2.legs c' e' = n.legs c' e' := rfl
    simp only [Midturn.legs, enlistedLegs, Option.bind_some, hpoint, Option.bind_none, hlegs,
      List.filterMap_cons, Option.toList_none, List.nil_append]
    cases (AfterRefresh.member sweep).leg? c' e' e .toAsk with
    | none => exact .refl _
    | some leg =>
      show (leg :: (n.legs c' e' ++ _)).Perm (n.legs c' e' ++ leg :: _)
      exact List.perm_middle.symm
  | enlisted n sweep forced =>
    exact .aloof ⟨⟨rfl, fun _ => .rfl, nofun, nofun⟩, fun _ _ => .refl _, [], rfl, by simp⟩
  | member rests h => exact .member rests h
  | lastMember rests h => exact .lastMember rests h
  | stray h => exact .stray h
  | apply n c k e change => exact .aloof (.of_note rfl rfl rfl rfl (fun _ _ => rfl) rfl rfl)
  | applyNext n c k e change rest changed =>
    exact .aloof (.of_note rfl rfl rfl rfl (fun _ _ => rfl) rfl rfl)

/-- A pass rests until its last member has reported, and only reports change what it knows. -/
theorem Stroke.of_pass [Registry σ] {s s' : Midturn σ} (t : Stroke s s') (ho : Orderly s)
    {c : CallId} {forced : Bool} {members : List Member}
    (hc : (c, .pass forced members) ∈ s.node.calls) :
    ∃ members', (members' = members ∨ ∃ c' e status,
        s.running = some (c', .refreshed e status (.member c)) ∧
          members' = Node.reported members e status) ∧
      ((c, .pass forced members') ∈ s'.node.calls ∨
        s'.running = some (c, .closing forced members')) := by
  cases t with
  | aloof ha => exact ⟨members, .inl rfl, .inl ((ha.calls rfl).mpr hc)⟩
  | ask hp => exact ⟨members, .inl rfl, .inl ((hp.calls rfl).mpr hc)⟩
  | hear hp => exact ⟨members, .inl rfl, .inl ((hp.calls rfl).mpr hc)⟩
  | queue | beginSome => exact ⟨members, .inl rfl, .inl (Node.mem_rest.mpr (.inl hc))⟩
  | @wake n c' rests hfirst =>
    refine ⟨members, .inl rfl, .inl (Node.mem_unrest.mpr ⟨hc, ?_⟩)⟩
    rintro rfl
    cases ho.stage_unique hc (Node.mem_of_stage? rests)
  | close n c' k forced' members' =>
    have hpublish := n.unswept_publish c' (Node.changedMembers members')
    exact ⟨members, .inl rfl, .inl (hpublish.calls.symm ▸ hc)⟩
  | @member n c' k e status sweep forced' members' rests hmore =>
    by_cases heq : c = sweep
    · subst heq
      cases ho.stage_unique hc (Node.mem_of_stage? rests)
      exact ⟨_, .inr ⟨c', e, status, rfl, rfl⟩, .inl (Node.mem_rest_self ..)⟩
    · exact ⟨members, .inl rfl, .inl (Node.mem_rest.mpr (.inl (Node.mem_unrest.mpr ⟨hc, heq⟩)))⟩
  | @lastMember n c' k e status sweep forced' members' rests hall =>
    by_cases heq : c = sweep
    · subst heq
      cases ho.stage_unique hc (Node.mem_of_stage? rests)
      exact ⟨_, .inr ⟨c', e, status, rfl, rfl⟩, .inr rfl⟩
    · exact ⟨members, .inl rfl, .inl (Node.mem_unrest.mpr ⟨hc, heq⟩)⟩
  | take | beginNone | stray => exact ⟨members, .inl rfl, .inl hc⟩

end ServiceFinder
