/-
  ServiceFinder/Proofs/Node/Answering.lean
  ========================================
  **No call gets lost on its way.**

  A call goes from one place to the next until it has answered (`Midturn.Answering.move`).  Two
  kinds of calls never answer, and for both of them nobody waits: the puller, and the refreshes
  that a sweep makes of its members, which report to the sweep and are gone.  All others are
  told apart by what they are going to do next.
-/
import ServiceFinder.Proofs.Node.Members

namespace ServiceFinder

variable {σ : Type}

/-! ### Calls that answer -/

/-- Whether a call answers once its refresh of a view is over. -/
def AfterRefresh.answers : AfterRefresh → Bool
  | .status | .first _ => true
  | .member _ => false

def Job.answers : Job → Bool
  | .refresh next => next.answers
  | .change _ _ => true

def AfterForgetting.answers : AfterForgetting → Bool
  | .answer => true
  | .refresh _ sweep? => (AfterRefresh.of sweep?).answers

def Stage.answers : Stage σ → Bool
  | .pulling _ _ => false
  | .refreshing _ next | .fetching _ _ _ next => next.answers
  | _ => true

def Point.answers : Point σ → Bool
  | .ticking _ _ => false
  | .lining _ job => job.answers
  | .asking _ next | .heard _ _ next | .refreshed _ _ next => next.answers
  | .forgetting _ next => next.answers
  | _ => true

@[simp] theorem Stage.answers_point (st : Stage σ) : st.point.answers = st.answers := by
  cases st <;> rfl

@[simp] theorem Job.answers_point (e : EntryId) (job : Job) :
    (job.point e : Point σ).answers = job.answers := by
  cases job <;> rfl

@[simp] theorem Job.answers_stage (e : EntryId) (job : Job) :
    (job.stage e : Stage σ).answers = job.answers := by
  cases job <;> rfl

theorem Node.answers_of_turnsTo {n : Node σ} {p p' : Point σ} (h : n.turnsTo p = some p')
    (hp : p.answers = true) : p'.answers = true := by
  unfold turnsTo at h
  split at h
  all_goals first
    | (cases h; rfl)
    | (cases h; exact hp)
    | (split at h <;> cases h <;> rfl)
    | cases h

theorem Quiet.answers {c : CallId} {n n' : Node σ} {p p' : Point σ} (q : Quiet c n p n' p')
    (hp : p.answers = true) : p'.answers = true := by
  cases q with
  | turn h => exact Node.answers_of_turnsTo h hp
  | _ => rfl

/-! ### Every move -/

/-- The call `c` is on its way to its answer, or has answered. -/
inductive Midturn.Answering (s : Midturn σ) (c : CallId) : Prop where
  | resting {st : Stage σ} (rests : (c, st) ∈ s.node.calls) (answers : st.answers = true)
  | running {p : Point σ} (run : s.running = some (c, p)) (answers : p.answers = true)
  | answered (reply : ∃ r ∈ s.node.replies, r.call = c)

namespace Midturn.Answering

variable {s s' : Midturn σ} {c : CallId}

/-- Who rests and is to answer rests on, or runs. -/
theorem of_rests [Registry σ] {st : Stage σ} (rests : (c, st) ∈ s.node.calls)
    (answers : st.answers = true) (ho : Orderly s) (m : Move s s') : s'.Answering c := by
  have onward (hpull : ∀ due interval, st ≠ .pulling due interval)
      (hpass : ∀ forced members, st ≠ .pass forced members) : s'.Answering c := by
    rcases m.rests_or_wakes rests ho hpull hpass with hrests | ⟨-, rfl⟩
    · exact .resting hrests answers
    · exact .running rfl (st.answers_point.trans answers)
  cases st with
  | pass forced members =>
    obtain ⟨members', -, hrests | hrun⟩ := (m.stroke ho).of_pass ho rests
    · exact .resting hrests rfl
    · exact .running hrun rfl
  | pulling => cases answers
  | _ => exact onward nofun nofun

/-- Who runs and is to answer goes on, comes to rest or answers. -/
theorem of_runs [Registry σ] {n : Node σ} {p : Point σ}
    {k : Option (CallId × Bool × List EntryId)} (answers : p.answers = true)
    (m : Move ⟨n, some (c, p), k⟩ s') : s'.Answering c := by
  cases m with
  | quiet q => exact .running rfl (q.answers answers)
  | answer n c k r => exact .answered ⟨_, List.mem_cons_self, rfl⟩
  | protect | protectView | create | startPuller | stopPuller | endFirst | beginFirst | apply
  | applyNext =>
    exact .running rfl rfl
  | forget | askNow | hear => exact .running rfl answers
  | lock => exact .running rfl ((Job.answers_point ..).trans answers)
  | wait => exact .resting (Node.mem_rest_self ..) ((Job.answers_stage ..).trans answers)
  | sleep | awaitFirst | forceWait | sweepSome => exact .resting (Node.mem_rest_self ..) rfl
  | ask => exact .resting (Node.mem_rest_self ..) answers
  | tick | member | lastMember | stray => cases answers

/-- **A call goes on with every move until it has answered.** -/
theorem move [Registry σ] (h : s.Answering c) (ho : Orderly s) (m : Move s s') :
    s'.Answering c := by
  cases h with
  | resting rests answers => exact .of_rests rests answers ho m
  | running run answers =>
    rcases s with ⟨n, r, k⟩
    cases run
    exact .of_runs answers m
  | answered reply =>
    obtain ⟨r, hr, hc⟩ := reply
    exact .answered ⟨r, m.replies_subset hr, hc⟩

theorem pass {n : Node σ} (h : Midturn.Answering ⟨n, none, none⟩ c) (time : Nat) :
    Midturn.Answering ⟨{ n with time }, none, none⟩ c := by
  cases h with
  | resting rests answers => exact .resting rests answers
  | running run => cases run
  | answered reply => exact .answered reply

/-- Where no call is in flight any more, it has answered. -/
theorem reply {n : Node σ} (h : Midturn.Answering ⟨n, none, none⟩ c) (quiescent : n.Quiescent) :
    ∃ r ∈ n.replies, r.call = c := by
  cases h with
  | resting rests =>
    rw [show n.calls = [] from quiescent] at rests
    cases rests
  | running run => cases run
  | answered reply => exact reply

end Midturn.Answering

end ServiceFinder
