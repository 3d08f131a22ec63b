/-
  ServiceFinder/Proofs/Node/Audience.lean
  =======================================
  **Who is told what a call changes.**

  A sweep and a pushed change tell the watcher; whoever refreshes or changes one view that it
  holds is told alone; a first refresh is told to nobody.  From its beginning until its answer
  a call keeps its `Audience`, and no move gives one to a call that had none (`Move.owes`).
  Whatever a move writes into the journal on some call's account is due to a call that has an
  audience (`Move.due`): the one that runs, or the sweep that waits for it.
-/
import ServiceFinder.Proofs.Node.Notices
import ServiceFinder.Proofs.Node.Passes

namespace ServiceFinder

variable {σ : Type}

/-! ### Calls and their audience -/

/-- Who is told what a call changes. -/
inductive Audience where
  | watcher
  | caller
deriving DecidableEq

def Operation.audience? : Operation σ → Option Audience
  | .sweep | .forceSweep | .change _ => some .watcher
  | .refresh _ | .forceRefresh _ | .changeView _ _ => some .caller
  | _ => none

def AfterRefresh.audience? : AfterRefresh → Option Audience
  | .status => some .caller
  | .first _ | .member _ => none

def AfterChange.audience : AfterChange → Audience
  | .verdict => .caller
  | .others _ _ => .watcher

def AfterForgetting.audience? : AfterForgetting → Option Audience
  | .answer => none
  | .refresh _ sweep? => (AfterRefresh.of sweep?).audience?

def Job.audience? : Job → Option Audience
  | .refresh next => next.audience?
  | .change _ next => some next.audience

/-- A call that is still to start has no audience yet. -/
def Stage.audience? : Stage σ → Option Audience
  | .refreshing _ next | .fetching _ _ _ next => next.audience?
  | .changing _ _ next => some next.audience
  | .awaitingSweep | .pass _ _ => some .watcher
  | _ => none

def Point.audience? : Point σ → Option Audience
  | .starting op => op.audience?
  | .lining _ job => job.audience?
  | .asking _ next | .heard _ _ next | .refreshed _ _ next => next.audience?
  | .sweeping _ | .closing _ _ | .spreading _ _ _ => some .watcher
  | .applying _ _ next => some next.audience
  | .forgetting _ next => next.audience?
  | _ => none

/-- The call `c` runs and is going to tell this audience. -/
def Midturn.RunsFor (s : Midturn σ) (c : CallId) (a : Audience) : Prop :=
  ∃ p, s.running = some (c, p) ∧ p.audience? = some a

/-- The call `c` runs or rests and is going to tell this audience. -/
def Midturn.Owes (s : Midturn σ) (c : CallId) (a : Audience) : Prop :=
  (∃ st, (c, st) ∈ s.node.calls ∧ st.audience? = some a) ∨ s.RunsFor c a

theorem Stage.audience?_point {st : Stage σ} (h : ∀ due op, st ≠ .scheduled due op) :
    st.point.audience? = st.audience? := by
  cases st with
  | scheduled due op => exact absurd rfl (h due op)
  | _ => rfl

@[simp] theorem Job.audience?_point (e : EntryId) (job : Job) :
    (job.point e : Point σ).audience? = job.audience? := by
  cases job <;> rfl

@[simp] theorem Job.audience?_stage (e : EntryId) (job : Job) :
    (job.stage e : Stage σ).audience? = job.audience? := by
  cases job <;> rfl

/-! ### No move finds a call an audience -/

theorem Node.audience?_of_turnsTo {n : Node σ} {p p' : Point σ} {a : Audience}
    (h : n.turnsTo p = some p') (hp' : p'.audience? = some a) : p.audience? = some a := by
  unfold turnsTo at h
  split at h
  all_goals first
    | (cases h; exact hp')
    | (cases h; cases hp')
    | (split at h <;> cases h <;> first | exact hp' | cases hp')
    | cases h

theorem Quiet.audience? {c : CallId} {n n' : Node σ} {p p' : Point σ} {a : Audience}
    (q : Quiet c n p n' p') (hp' : p'.audience? = some a) : p.audience? = some a := by
  cases q with
  | turn h => exact Node.audience?_of_turnsTo h hp'
  | sweepFree | forceFree | sweepNone => exact hp'
  | _ => cases hp'

namespace Midturn.Owes

variable {n n' : Node σ} {c x : CallId} {a : Audience} {p p' : Point σ} {st : Stage σ}
  {r : Option (CallId × Point σ)} {k k' : Option (CallId × Bool × List EntryId)}

theorem of_run (h : Owes ⟨n', some (x, p'), k'⟩ c a) (hcalls : n'.calls ⊆ n.calls)
    (hp : p'.audience? = some a → p.audience? = some a) : Owes ⟨n, some (x, p), k⟩ c a := by
  rcases h with ⟨st, hc, hst⟩ | ⟨p', hrun, hp'⟩
  · exact .inl ⟨st, hcalls hc, hst⟩
  · cases hrun
    exact .inr ⟨p, rfl, hp hp'⟩

theorem of_rest (h : Owes ⟨n'.rest x st, none, k'⟩ c a) (hcalls : n'.calls ⊆ n.calls)
    (hp : st.audience? = some a → p.audience? = some a) : Owes ⟨n, some (x, p), k⟩ c a := by
  rcases h with ⟨st', hc, hst⟩ | ⟨p', hrun, -⟩
  · rcases Node.mem_rest.mp hc with hc | ⟨rfl, rfl⟩
    · exact .inl ⟨st', hcalls hc, hst⟩
    · exact .inr ⟨p, rfl, hp hst⟩
  · cases hrun

theorem of_end (h : Owes ⟨n', none, k'⟩ c a) (hcalls : n'.calls ⊆ n.calls) :
    Owes ⟨n, r, k⟩ c a := by
  rcases h with ⟨st, hc, hst⟩ | ⟨p', hrun, -⟩
  · exact .inl ⟨st, hcalls hc, hst⟩
  · cases hrun

end Midturn.Owes

/-- **Within a turn, who owes something to an audience did so before.** -/
theorem Move.owes [Registry σ] {s s' : Midturn σ} (m : Move s s') (busy : s.busy = true)
    {c : CallId} {a : Audience} (h : s'.Owes c a) : s.Owes c a := by
  cases m with
  | call | callAfter | wake => cases busy
  | quiet q => exact h.of_run (q.still.calls ▸ List.Subset.refl _) q.audience?
  | answer | stray => exact h.of_end (List.Subset.refl _)
  | enlisted => exact h.of_end (List.Subset.refl _)
  | protect | protectView | create | beginFirst | endFirst | apply =>
    exact h.of_run (List.Subset.refl _) nofun
  | forget | askNow | hear | applyNext => exact h.of_run (List.Subset.refl _) fun hp => hp
  | lock => exact h.of_run (List.Subset.refl _) fun hp => (Job.audience?_point ..).symm.trans hp
  | wait => exact h.of_rest (List.Subset.refl _) fun hp => (Job.audience?_stage ..).symm.trans hp
  | sleep | awaitFirst => exact h.of_rest (List.Subset.refl _) nofun
  | ask | forceWait | sweepSome => exact h.of_rest (List.Subset.refl _) fun hp => hp
  | startPuller n c' k interval =>
    rcases h with ⟨st, hc, hst⟩ | ⟨p, hrun, hp⟩
    · rcases Node.mem_startPuller.mp hc with hc | ⟨-, -, rfl⟩
      · exact .inl ⟨st, (Node.mem_stopPuller.mp hc).1, hst⟩
      · cases hst
    · cases hrun
      cases hp
  | stopPuller n c' k => exact h.of_run (fun x hx => (Node.mem_stopPuller.mp hx).1) nofun
  | tick n c' k due interval =>
    rcases h with ⟨st, hc, hst⟩ | ⟨p, hrun, -⟩
    · rcases Node.mem_rest.mp hc with hc | ⟨-, rfl⟩
      · rcases Node.mem_rest.mp hc with hc | ⟨-, rfl⟩
        · exact .inl ⟨st, hc, hst⟩
        · cases hst
      · cases hst
    · cases hrun
  | enlist n sweep forced e rest =>
    rcases h with ⟨st, hc, hst⟩ | ⟨p, hrun, hp⟩
    · exact .inl ⟨st, hc, hst⟩
    · cases hrun
      cases hp
  | @member n c' k e status sweep forced members rests hmore =>
    rcases h with ⟨st, hc, hst⟩ | ⟨p, hrun, -⟩
    · rcases Node.mem_rest.mp hc with hc | ⟨rfl, rfl⟩
      · exact .inl ⟨st, (Node.mem_unrest.mp hc).1, hst⟩
      · exact .inl ⟨_, Node.mem_of_stage? rests, hst⟩
    · cases hrun
  | @lastMember n c' k e status sweep forced members rests hall =>
    rcases h with ⟨st, hc, hst⟩ | ⟨p, hrun, hp⟩
    · exact .inl ⟨st, (Node.mem_unrest.mp hc).1, hst⟩
    · cases hrun
      exact .inl ⟨_, Node.mem_of_stage? rests, hp⟩

/-! ### What is written on a call's account -/

/-- Whether a happening of this moment is due to a call that has an audience. -/
def Happening.Due (s : Midturn σ) : Happening → Prop
  | .refreshed c _ .status _ _ _ => s.RunsFor c .caller
  | .refreshed _ _ (.member sweep) _ _ _ =>
    ∃ forced members, (sweep, .pass forced members) ∈ s.node.calls
  | .changed c _ _ _ => ∃ a, s.RunsFor c a
  | .notified c _ _ => s.RunsFor c .watcher
  | _ => True

theorem Happening.due_of_uncharged {s : Midturn σ} {h : Happening} (hc : h.charged? = none) :
    h.Due s := by
  cases h with
  | refreshed c e next o status guarded =>
    cases next with
    | first next => trivial
    | _ => cases hc
  | changed | notified => cases hc
  | _ => trivial

/-- What is on the account of a call is its own doing, or that of a refresh that it waits for. -/
theorem Happening.Due.of_charged {s : Midturn σ} {h : Happening} (hdue : h.Due s) {c : CallId}
    (hc : h.charged? = some c) :
    (∃ a, s.RunsFor c a) ∨ ∃ forced members, (c, .pass forced members) ∈ s.node.calls ∧
      ∃ c' e o status guarded, h = .refreshed c' e (.member c) o status guarded := by
  cases h with
  | refreshed c' e next o status guarded =>
    cases next with
    | status =>
      cases hc
      exact .inl ⟨_, hdue⟩
    | first next => cases hc
    | member sweep =>
      cases hc
      obtain ⟨forced, members, rests⟩ := hdue
      exact .inr ⟨forced, members, rests, c', e, o, status, guarded, rfl⟩
  | changed =>
    cases hc
    exact .inl hdue
  | notified =>
    cases hc
    exact .inl ⟨_, hdue⟩
  | _ => cases hc

theorem Quiet.due {c : CallId} {n n' : Node σ} {p p' : Point σ} (q : Quiet c n p n' p')
    (k : Option (CallId × Bool × List EntryId)) :
    ∃ lines, n'.journal = lines ++ n.journal ∧ ∀ l ∈ lines, l.what.Due ⟨n, some (c, p), k⟩ := by
  have evicted (e : EntryId) : ∃ lines, (n.evictIfGone e).journal = lines ++ n.journal ∧
      ∀ l ∈ lines, l.what.Due ⟨n, some (c, p), k⟩ := by
    obtain ⟨lines, hj, hl⟩ := n.uncharged_evictIfGone e
    exact ⟨lines, hj, fun l hmem => Happening.due_of_uncharged (hl l hmem)⟩
  have published (changed : List EntryId) (hp : p.audience? = some .watcher) :
      ∃ lines, (n.publish c changed).journal = lines ++ n.journal ∧
        ∀ l ∈ lines, l.what.Due ⟨n, some (c, p), k⟩ := by
    obtain ⟨lines, hj, -, -, hl⟩ := n.journal_publish c changed
    refine ⟨lines, hj, ?_⟩
    intro l hmem
    cases hcharged : l.what.charged? with
    | none => exact Happening.due_of_uncharged hcharged
    | some c' =>
      obtain ⟨-, w, told, hwhat⟩ := hl l hmem c' hcharged
      rw [hwhat]
      exact ⟨p, rfl, hp⟩
  cases q with
  | turn | find | sweepFree | forceFree => exact ⟨[], rfl, by simp⟩
  | aside h =>
    obtain ⟨-, -, -, -, -, hjournal⟩ := Node.rest_of_aside h
    exact ⟨[], hjournal, by simp⟩
  | view e => exact evicted e
  | choose e i =>
    obtain ⟨-, -, -, -, -, hjournal⟩ := Node.rest_of_choice (n.evictIfGone e) e i
    rw [hjournal]
    exact evicted e
  | sweepTaken h => exact ⟨[⟨n.time, .sweepDropped c⟩], rfl, by simp [Happening.Due]⟩
  | sweepNone h => exact ⟨[⟨n.time, .sweepBegan c []⟩], rfl, by simp [Happening.Due]⟩
  | close forced members =>
    obtain ⟨lines, hj, hl⟩ := published (Node.changedMembers members) rfl
    let ended : JournalLine := ⟨(n.publish c (Node.changedMembers members)).time,
      .sweepEnded c (Node.changedMembers members)⟩
    refine ⟨ended :: lines, ?_, ?_⟩
    · exact congrArg (List.cons ended) hj
    · intro l hmem
      rcases List.mem_cons.mp hmem with rfl | hmem
      · trivial
      · exact hl l hmem
  | publish change changed => exact published changed rfl

/-- **A move writes nothing on the account of a call that has no audience.** -/
theorem Move.due [Registry σ] {s s' : Midturn σ} (m : Move s s') (hs : Sweeping s) :
    ∃ lines, s'.node.journal = lines ++ s.node.journal ∧ ∀ l ∈ lines, l.what.Due s := by
  cases m with
  | call | callAfter | wake | answer | protect | protectView | sleep | stopPuller | awaitFirst
  | beginFirst | endFirst | lock | wait | forceWait | enlist | enlisted | member | lastMember
  | stray =>
    exact ⟨[], rfl, by simp⟩
  | startPuller n c k interval => exact ⟨[], by rw [n.startPuller_eq]; rfl, by simp⟩
  | quiet q => exact q.due _
  | forget | tick | create | askNow | ask | sweepSome =>
    exact ⟨[_], rfl, by simp [Happening.Due]⟩
  | hear n c k e o next =>
    refine ⟨[_], rfl, ?_⟩
    rw [List.forall_mem_singleton]
    cases next with
    | status => exact ⟨_, rfl, rfl⟩
    | first next => trivial
    | member sweep =>
      -- the refresh is made for a member of a pass, and the sweep rests while it runs
      have hlegs : (Midturn.legs ⟨n, some (c, .heard e o (.member sweep)), k⟩ sweep e).Perm
          (.toEnd :: (n.legs sweep e ++ enlistedLegs sweep e k)) := by
        simp [Midturn.legs, Point.leg?]
      obtain ⟨members, all, -, hpass, -⟩ := hs.member_of_leg hlegs
      cases hpass with
      | resting rests => exact ⟨_, members, rests⟩
      | closing run => cases run
  | apply | applyNext =>
    refine ⟨[_], rfl, ?_⟩
    rw [List.forall_mem_singleton]
    exact ⟨_, _, rfl, rfl⟩

end ServiceFinder
