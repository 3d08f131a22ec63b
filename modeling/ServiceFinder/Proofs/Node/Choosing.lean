/-
  ServiceFinder/Proofs/Node/Choosing.lean
  =======================================
  **Who may still choose a server, and what a choice does.**

  A call that was asked to choose carries its invocation from wait to wait until its view
  has been refreshed once, and then chooses at most once.  No other move touches the permit,
  the clock or the selections (`Move.grants_cases`), except for the operations that are
  about these themselves, which are answered at once.
-/
import Mathlib.Data.List.Perm.Subperm
import ServiceFinder.Proofs.Balance.Selection
import ServiceFinder.Proofs.Node.Course

namespace ServiceFinder

variable {σ : Type}

/-! ### Calls that are to choose -/

def AfterFirst.chooses? : AfterFirst → Option Invocation
  | choose i => some i
  | _ => none

def AfterRefresh.chooses? : AfterRefresh → Option Invocation
  | first next => next.chooses?
  | _ => none

def Operation.chooses? : Operation σ → Option Invocation
  | choose _ i => some i
  | _ => none

def Job.chooses? : Job → Option Invocation
  | refresh next => next.chooses?
  | change .. => none

/-- The invocation that a resting call is to choose a server for. -/
def Stage.chooses? : Stage σ → Option Invocation
  | scheduled _ op => op.chooses?
  | refreshing _ next | fetching _ _ _ next => next.chooses?
  | awaitingFirst _ next => next.chooses?
  | _ => none

/-- The invocation that a running call is to choose a server for. -/
def Point.chooses? : Point σ → Option Invocation
  | starting op => op.chooses?
  | looking _ next | ensuring _ next | passed _ next => next.chooses?
  | lining _ job => job.chooses?
  | asking _ next | heard _ _ next | refreshed _ _ next => next.chooses?
  | _ => none

@[simp] theorem Stage.chooses?_point (st : Stage σ) : st.point.chooses? = st.chooses? := by
  cases st <;> rfl

@[simp] theorem Job.chooses?_point (e : EntryId) (job : Job) :
    (job.point e : Point σ).chooses? = job.chooses? := by
  cases job <;> rfl

@[simp] theorem Job.chooses?_stage (e : EntryId) (job : Job) :
    (job.stage e : Stage σ).chooses? = job.chooses? := by
  cases job <;> rfl

@[simp] theorem AfterRefresh.chooses?_of (sweep? : Option CallId) :
    (AfterRefresh.of sweep?).chooses? = none := by
  cases sweep? <;> rfl

/-- Whether an operation is about the permit, the clock or the statistics themselves. -/
def Operation.isDirect : Operation σ → Bool
  | finish .. | applyForPermit _ | checkAndReleasePermit _ | releasePermit | setClock _
  | advanceClock _ => true
  | _ => false

def Point.isDirect : Point σ → Bool
  | starting op => op.isDirect
  | _ => false

/-! ### Choices -/

/-- What choices are about. -/
structure Grants where
  permit : Permit
  clock : Clock
  selections : List (Invocation × Selection)

/-- What a choice for the invocation `i` that finds a server makes of it. -/
inductive Grants.Chosen (i : Invocation) (g : Grants) : Grants → Prop where
  | selected {s : Selection} {permit : Permit} (own : s.invocation = i)
      (lent : g.permit.Lent g.clock.now i s.probe permit) :
      Chosen i g
        { g with permit, selections := (i, s) :: g.selections.filter (·.1 != i) }

namespace Node

def grants (n : Node σ) : Grants where
  permit := n.balancer.monitor.permit
  clock := n.balancer.monitor.clock
  selections := n.selections

/-- The invocations of all resting calls that are to choose. -/
def pending (n : Node σ) : List Invocation := n.calls.filterMap (·.2.chooses?)

theorem grants_evictIfGone (n : Node σ) (e : EntryId) : (n.evictIfGone e).grants = n.grants := by
  unfold evictIfGone evict
  split
  · split <;> rfl
  · rfl

theorem grants_publish (n : Node σ) (c : CallId) (changed : List EntryId) :
    (n.publish c changed).grants = n.grants := by
  have hevict (views : List EntryId) (n : Node σ) :
      (views.foldl evictIfGone n).grants = n.grants := by
    induction views generalizing n with
    | nil => rfl
    | cons e views ih => exact (ih _).trans (n.grants_evictIfGone e)
  refine Eq.trans ?_ (hevict changed n)
  unfold publish notify
  split
  · rfl
  · rfl
  · split <;> rfl

theorem choice_cases (n : Node σ) (e : EntryId) (i : Invocation) :
    (n.choice e i).2.grants = n.grants ∨ n.grants.Chosen i (n.choice e i).2.grants := by
  have hclock := n.balancer.clock_choose (n.entry e).listing.instances i
  have hlent := n.balancer.lent_choose (n.entry e).listing.instances i
  have hown {s : Selection}
      (h : (n.balancer.choose (n.entry e).listing.instances i).1 = some s) : s.invocation = i :=
    Balancer.invocation_choose h
  unfold choice
  rcases hchoose : n.balancer.choose (n.entry e).listing.instances i with ⟨_ | s, balancer⟩
  · rw [hchoose] at hclock hlent
    have hpermit := hlent.eq_of_plain
    exact .inl (by rw [grants, grants, ← hclock, ← hpermit])
  · rw [hchoose] at hclock hlent hown
    refine .inr ?_
    show n.grants.Chosen i ⟨balancer.monitor.permit, balancer.monitor.clock, _⟩
    rw [hclock]
    exact .selected (hown rfl) hlent

/-! ### Moves -/

theorem chooses?_of_turnsTo {n : Node σ} {p p' : Point σ} (h : n.turnsTo p = some p') :
    p'.isDirect = false ∧ (p'.chooses? = p.chooses? ∨ p'.chooses? = none) := by
  unfold turnsTo at h
  split at h
  all_goals first
    | (cases h; exact ⟨rfl, .inl rfl⟩)
    | (cases h; exact ⟨rfl, .inr (AfterRefresh.chooses?_of _)⟩)
    | (split at h <;> cases h <;> first | exact ⟨rfl, .inl rfl⟩ | exact ⟨rfl, .inr rfl⟩)
    | cases h

/-- An answer on the side that is not about the permit, the clock or the statistics. -/
theorem grants_of_aside {n n' : Node σ} {op : Operation σ} {r : Reply}
    (h : n.aside op = some (r, n')) (hop : op.isDirect = false) : n'.grants = n.grants := by
  cases op with
  | sleep ms =>
    simp only [aside] at h
    split at h <;> cases h
    rfl
  | get | inspect | watch | statsOf | registry =>
    cases h
    rfl
  | finish | applyForPermit | checkAndReleasePermit | releasePermit | setClock | advanceClock =>
    cases hop
  | _ => cases h

end Node

theorem Quiet.grants_cases {c : CallId} {n n' : Node σ} {p p' : Point σ} (h : Quiet c n p n' p')
    (hp : p.isDirect = false) :
    p'.isDirect = false ∧
      (n'.grants = n.grants ∧ (p'.chooses? = p.chooses? ∨ p'.chooses? = none) ∨
        p'.chooses? = none ∧ ∃ i, p.chooses? = some i ∧ n.grants.Chosen i n'.grants) := by
  cases h with
  | turn h =>
    obtain ⟨hdirect, hchooses⟩ := Node.chooses?_of_turnsTo h
    exact ⟨hdirect, .inl ⟨rfl, hchooses⟩⟩
  | aside h => exact ⟨rfl, .inl ⟨Node.grants_of_aside h hp, .inr rfl⟩⟩
  | find => exact ⟨rfl, .inl ⟨rfl, .inl rfl⟩⟩
  | view e => exact ⟨rfl, .inl ⟨n.grants_evictIfGone e, .inr rfl⟩⟩
  | choose e i =>
    have hevict := n.grants_evictIfGone e
    rcases (n.evictIfGone e).choice_cases e i with hsame | hchosen
    · exact ⟨rfl, .inl ⟨hsame.trans hevict, .inr rfl⟩⟩
    · exact ⟨rfl, .inr ⟨rfl, i, rfl, hevict ▸ hchosen⟩⟩
  | sweepFree | sweepTaken | forceFree | sweepNone => exact ⟨rfl, .inl ⟨rfl, .inl rfl⟩⟩
  | close forced members => exact ⟨rfl, .inl ⟨n.grants_publish c _, .inl rfl⟩⟩
  | publish change changed => exact ⟨rfl, .inl ⟨n.grants_publish c changed, .inl rfl⟩⟩

namespace Node

theorem pending_rest (n : Node σ) (c : CallId) (st : Stage σ) :
    (n.rest c st).pending = n.pending ++ st.chooses?.toList := by
  unfold pending rest
  rw [List.filterMap_append]
  cases h : st.chooses? <;> simp [h]

theorem pending_unrest {n : Node σ} {c : CallId} {st : Stage σ} (rests : n.stage? c = some st) :
    (st.chooses?.toList ++ (n.unrest c).pending).Subperm n.pending := by
  obtain ⟨before, after, hcalls, -⟩ := List.lookup_eq_some_iff.mp rests
  have hsub : (n.unrest c).calls.Sublist (before ++ after) := by
    have hself : ((c, st) :: after).filter (·.1 != c) = after.filter (·.1 != c) := by simp
    rw [unrest, hcalls, List.filter_append, hself]
    exact List.filter_sublist.append List.filter_sublist
  have hrest := (List.Sublist.filterMap (·.2.chooses?) hsub).subperm
  have hall : n.pending.Perm
      (st.chooses?.toList ++ (before ++ after).filterMap (·.2.chooses?)) := by
    unfold pending
    rw [hcalls]
    refine (List.perm_middle.filterMap _).trans ?_
    cases h : st.chooses? <;> simp [h]
  exact ((List.subperm_append_left _).mpr hrest).trans hall.symm.subperm

theorem pending_unrest_subperm {n : Node σ} {c : CallId} {st : Stage σ}
    (rests : n.stage? c = some st) : (n.unrest c).pending.Subperm n.pending :=
  (List.sublist_append_right _ _).subperm.trans (pending_unrest rests)

theorem pending_stopPuller (n : Node σ) : n.stopPuller.pending.Subperm n.pending :=
  (List.Sublist.filterMap _ List.filter_sublist).subperm

theorem pending_startPuller (n : Node σ) (interval : Nat) :
    (n.startPuller interval).pending.Subperm n.pending := by
  unfold startPuller
  dsimp only
  split
  · exact n.pending_stopPuller
  · rw [pending_rest]
    exact (List.append_nil _).symm ▸ n.pending_stopPuller

end Node

namespace Midturn

/-- The invocation that the running call is to choose a server for. -/
def chooser? (s : Midturn σ) : Option Invocation := s.running.bind (·.2.chooses?)

def isDirect (s : Midturn σ) : Bool := s.running.any (·.2.isDirect)

/-- The invocations of all calls that are to choose. -/
def pending (s : Midturn σ) : List Invocation := s.chooser?.toList ++ s.node.pending

/-- What moves do to the choices that are still to be made, and to those that are made. -/
inductive Grants (s s' : Midturn σ) : Prop where
  | same (grants : s'.node.grants = s.node.grants) (pending : s'.pending.Subperm s.pending)
      (chooser : s'.chooser? = s.chooser? ∨ s'.chooser? = none)
  | chosen {i : Invocation} (chosen : s.node.grants.Chosen i s'.node.grants)
      (pending : (i :: s'.pending).Subperm s.pending) (before : s.chooser? = some i)
      (after : s'.chooser? = none)

theorem Grants.trans {s s' s'' : Midturn σ} (h : s.Grants s') (h' : s'.Grants s'') :
    s.Grants s'' := by
  cases h with
  | same hgrants hpending hchooser =>
    cases h' with
    | same hgrants' hpending' hchooser' =>
      refine .same (hgrants'.trans hgrants) (hpending'.trans hpending) ?_
      rcases hchooser' with heq | hnone
      · rw [heq]
        exact hchooser
      · exact .inr hnone
    | chosen hchosen' hpending' hbefore' hafter' =>
      refine .chosen (hgrants ▸ hchosen') (hpending'.trans hpending) ?_ hafter'
      rcases hchooser with heq | hnone
      · exact heq ▸ hbefore'
      · rw [hnone] at hbefore'
        cases hbefore'
  | chosen hchosen hpending hbefore hafter =>
    cases h' with
    | same hgrants' hpending' hchooser' =>
      refine .chosen (hgrants' ▸ hchosen) ?_ hbefore ?_
      · exact ((List.subperm_cons _).mpr hpending').trans hpending
      · exact hchooser'.elim (·.trans hafter) id
    | chosen hchosen' hpending' hbefore' hafter' =>
      rw [hafter] at hbefore'
      cases hbefore'

variable {n n' : Node σ} {c c' : CallId} {p p' : Point σ} {st : Stage σ}
  {k k' : Option (CallId × Bool × List EntryId)}

/-- The running call goes on, and still has the same choice to make, or none. -/
theorem Grants.of_run (hgrants : n'.grants = n.grants) (hcalls : n'.pending.Subperm n.pending)
    (hp : p'.chooses? = p.chooses? ∨ p'.chooses? = none) :
    Grants ⟨n, some (c, p), k⟩ ⟨n', some (c', p'), k'⟩ := by
  refine .same hgrants (List.Subperm.append ?_ hcalls) hp
  show p'.chooses?.toList.Subperm p.chooses?.toList
  rcases hp with hp | hp
  · rw [hp]
  · rw [hp]
    exact List.nil_subperm

theorem Grants.of_rest (hgrants : n'.grants = n.grants) (hcalls : n'.pending = n.pending)
    (hp : st.chooses? = p.chooses?) :
    Grants ⟨n, some (c, p), k⟩ ⟨n'.rest c st, none, k'⟩ := by
  refine .same hgrants ?_ (.inr rfl)
  show ([] ++ (n'.rest c st).pending).Subperm (p.chooses?.toList ++ n.pending)
  rw [Node.pending_rest, hcalls, hp, List.nil_append]
  exact List.perm_append_comm.subperm

theorem Grants.of_end (hgrants : n'.grants = n.grants) (hcalls : n'.pending.Subperm n.pending) :
    Grants ⟨n, some (c, p), k⟩ ⟨n', none, k'⟩ :=
  .same hgrants (hcalls.trans (List.sublist_append_right _ _).subperm) (.inr rfl)

end Midturn

/-- **Nothing but a choice touches the permit, the clock and the selections.** -/
theorem Move.grants [Registry σ] {s s' : Midturn σ} (m : Move s s') (busy : s.busy = true)
    (hs : s.isDirect = false) : s'.isDirect = false ∧ s.Grants s' := by
  cases m with
  | call | callAfter | wake => cases busy
  | quiet q =>
    rename_i n n' c k p p'
    have hcalls : n'.pending = n.pending := by rw [Node.pending, Node.pending, q.still.calls]
    obtain ⟨hdirect, ⟨hgrants, hp⟩ | ⟨hnone, i, hp, hchosen⟩⟩ := q.grants_cases hs
    · exact ⟨hdirect, .of_run hgrants (List.Perm.of_eq hcalls).subperm hp⟩
    · refine ⟨hdirect, .chosen hchosen ?_ hp hnone⟩
      show (i :: (p'.chooses?.toList ++ n'.pending)).Subperm (p.chooses?.toList ++ n.pending)
      rw [hp, hnone, hcalls]
      exact List.Subperm.refl _
  | answer | stray => exact ⟨rfl, .of_end rfl (List.Subperm.refl _)⟩
  | protect | protectView | forget | create | beginFirst | endFirst | askNow | hear
  | apply | applyNext =>
    exact ⟨rfl, .of_run rfl (List.Subperm.refl _) (.inl rfl)⟩
  | @lock n c k e job h =>
    have hdirect : (job.point e : Point σ).isDirect = false := by cases job <;> rfl
    exact ⟨hdirect, .of_run rfl (List.Subperm.refl _) (.inl (job.chooses?_point e))⟩
  | @wait n c k e job h =>
    exact ⟨rfl, .of_rest rfl rfl (job.chooses?_stage e)⟩
  | sleep | awaitFirst | ask | forceWait | sweepSome => exact ⟨rfl, .of_rest rfl rfl rfl⟩
  | startPuller n c k interval =>
    have hgrants : (n.startPuller interval).grants = n.grants := by
      unfold Node.startPuller
      dsimp only
      split <;> rfl
    exact ⟨rfl, .of_run hgrants (n.pending_startPuller interval) (.inl rfl)⟩
  | stopPuller n c k => exact ⟨rfl, .of_run rfl n.pending_stopPuller (.inl rfl)⟩
  | tick n c k due interval =>
    have hcalls : (n.tick c due interval).pending = n.pending := by
      unfold Node.tick
      dsimp only
      rw [Node.pending_rest]
      show (n.rest c _).pending ++ [] = n.pending
      rw [Node.pending_rest]
      simp [Stage.chooses?]
    exact ⟨rfl, .of_end rfl (List.Perm.of_eq hcalls).subperm⟩
  | enlist | enlisted => exact ⟨rfl, .same rfl (List.Subperm.refl _) (.inr rfl)⟩
  | member rests h =>
    refine ⟨rfl, .of_end rfl ?_⟩
    rw [Node.pending_rest]
    exact (List.append_nil _).symm ▸ Node.pending_unrest_subperm rests
  | lastMember rests h =>
    exact ⟨rfl, .of_run rfl (Node.pending_unrest_subperm rests) (.inl rfl)⟩

/-! ### Turns -/

/-- **A call that runs to its next wait makes no choice but its own, and at most once.** -/
theorem Onward.grants [Registry σ] {s s' : Midturn σ} (onward : Onward s s')
    (hs : s.isDirect = false) : s.Grants s' := by
  suffices s'.isDirect = false ∧ s.Grants s' from this.2
  induction onward with
  | refl => exact ⟨hs, .same rfl (List.Subperm.refl _) (.inl rfl)⟩
  | tail _ m ih =>
    obtain ⟨hdirect, hgrants⟩ := m.2.grants m.1 ih.1
    exact ⟨hdirect, ih.2.trans hgrants⟩

/-- What the report of an invocation makes of it. -/
def Grants.finish (i : Invocation) (g : Grants) : Grants :=
  match g.selections.lookup i with
  | none => g
  | some s => { g with permit := (g.permit.checkAndRelease s.invocation).2 }

/-- What an operation about the permit, the clock or the statistics makes of it. -/
def Operation.onGrants (g : Grants) : Operation σ → Grants
  | finish i _ => g.finish i
  | applyForPermit i => { g with permit := (g.permit.apply g.clock.now i).2 }
  | checkAndReleasePermit i => { g with permit := (g.permit.checkAndRelease i).2 }
  | releasePermit => { g with permit := g.permit.release }
  | setClock now => { g with clock := g.clock.set now }
  | advanceClock d => { g with clock := g.clock.advance d }
  | _ => g

namespace Node

theorem finish_rest (n : Node σ) (c : CallId) (i : Invocation) (success : Bool) :
    (n.finish c i success).grants = n.grants.finish i ∧
      (n.finish c i success).calls = n.calls := by
  unfold Node.finish Grants.finish
  dsimp only [grants]
  cases n.selections.lookup i <;> exact ⟨rfl, rfl⟩

variable [Registry σ]

theorem start_of_isDirect (n : Node σ) (c : CallId) {op : Operation σ} (hop : op.isDirect = true) :
    (n.start c op).grants = op.onGrants n.grants ∧ (n.start c op).calls = n.calls := by
  cases op with
  | finish i success => exact n.finish_rest c i success
  | applyForPermit | checkAndReleasePermit | releasePermit | setClock | advanceClock =>
    exact ⟨rfl, rfl⟩
  | _ => cases hop

/-- The invocation that a new call is to choose a server for. -/
def Act.chooses? : Act σ → Option Invocation
  | .call op | .callAfter _ op => op.chooses?
  | _ => none

/-- What a loose turn does to the choices that are still to be made, and to those that are
    made. -/
inductive ActGrants (n : Node σ) (a : Act σ) : Prop where
  | direct {op : Operation σ} (begins : n.begins? a = some op) (isDirect : op.isDirect = true)
      (grants : (n.act a).grants = op.onGrants n.grants)
      (pending : (n.act a).pending.Subperm n.pending)
  | same (begins : ∀ op, n.begins? a = some op → op.isDirect = false)
      (grants : (n.act a).grants = n.grants)
      (pending : (n.act a).pending.Subperm (a.chooses?.toList ++ n.pending))
  | chosen {i : Invocation} (begins : ∀ op, n.begins? a = some op → op.isDirect = false)
      (chosen : n.grants.Chosen i (n.act a).grants)
      (pending : (i :: (n.act a).pending).Subperm (a.chooses?.toList ++ n.pending))

theorem ActGrants.of_grants {n m : Node σ} {a : Act σ} {c : CallId} {p : Point σ}
    (begins : ∀ op, n.begins? a = some op → op.isDirect = false)
    (h : Midturn.Grants ⟨m, some (c, p), none⟩ ⟨n.act a, none, none⟩)
    (hgrants : m.grants = n.grants)
    (hpending : (p.chooses?.toList ++ m.pending).Subperm (a.chooses?.toList ++ n.pending)) :
    n.ActGrants a := by
  cases h with
  | same hsame hrest => exact .same begins (hsame.trans hgrants) (hrest.trans hpending)
  | chosen hchosen hrest => exact .chosen begins (hgrants ▸ hchosen) (hrest.trans hpending)

theorem actGrants_call (n : Node σ) (op : Operation σ) : n.ActGrants (.call op) := by
  cases hop : op.isDirect with
  | true =>
    obtain ⟨hgrants, hcalls⟩ := n.newCall.2.start_of_isDirect n.nextCall hop
    have hpending : (n.act (.call op)).pending = n.pending := by
      show (n.newCall.2.start n.nextCall op).pending = n.newCall.2.pending
      rw [pending, hcalls]
      rfl
    exact .direct rfl hop hgrants (List.Perm.of_eq hpending).subperm
  | false =>
    have begins : ∀ op', n.begins? (.call op) = some op' → op'.isDirect = false := by
      intro op' h
      cases h
      exact hop
    have onward := moves_starting n.newCall.2 n.nextCall op
    exact .of_grants begins (onward.grants hop) rfl (List.Subperm.refl _)

theorem actGrants_resume (n : Node σ) (c : CallId) : n.ActGrants (.resume c) := by
  cases hawake : n.isAwake c with
  | false =>
    have hact : n.act (.resume c) = n := by simp [act, hawake]
    exact .same (by simp [begins?, hawake]) (by rw [hact]) (by rw [hact]; exact List.Subperm.refl _)
  | true =>
    obtain ⟨st, rests, -, onward⟩ := moves_resume n c hawake
    have hact : n.act (.resume c) = n.resume c := by simp [act, hawake]
    have hpending := pending_unrest rests
    rw [← hact] at onward
    cases hdirect : st.point.isDirect with
    | false =>
      refine .of_grants ?_ (onward.grants hdirect) rfl ?_
      · intro op h
        simp only [begins?, hawake, if_true, rests] at h
        cases st <;> cases h
        exact hdirect
      · rw [Stage.chooses?_point]
        exact hpending
    | true =>
      cases st with
      | scheduled due op =>
        obtain ⟨hgrants, hcalls⟩ := (n.unrest c).start_of_isDirect c hdirect
        have hresume : n.act (.resume c) = (n.unrest c).start c op := by
          rw [hact, Node.resume, rests]
        refine .direct ?_ hdirect (hresume ▸ hgrants) ?_
        · simp [begins?, hawake, rests]
        · rw [hresume, pending, hcalls]
          exact pending_unrest_subperm rests
      | _ => cases hdirect

theorem actGrants (n : Node σ) (a : Act σ) : n.ActGrants a := by
  cases a with
  | call op => exact n.actGrants_call op
  | callAfter wait op =>
    have hpending : (n.act (.callAfter wait op)).pending = n.pending ++ op.chooses?.toList :=
      pending_rest ..
    refine .same (by simp [begins?]) rfl ?_
    rw [hpending]
    exact List.perm_append_comm.subperm
  | resume c => exact n.actGrants_resume c
  | pass ms => exact .same (by simp [begins?]) rfl (List.Subperm.refl _)

end Node

end ServiceFinder
