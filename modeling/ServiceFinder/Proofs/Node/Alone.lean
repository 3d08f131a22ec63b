/-
  ServiceFinder/Proofs/Node/Alone.lean
  ====================================
  **An operation with no other in flight.**

  Calls that are to start later, sleepers and the puller are nothing in flight: left to rest
  they do nothing, and woken they only answer or make another call that is to start later.
  If a sweep or a pushed change begins beside no others, then until another operation begins
  there is nobody but these, the operation itself and the refreshes that a sweep makes
  (`Midturn.Alone`): no move of theirs adds anyone (`Move.alone`).  Once the operation is
  over, nothing is left that could change a view (`Midturn.Alone.still_of_over`).
-/
import ServiceFinder.Proofs.Node.Telling

namespace ServiceFinder

variable {σ : Type}

/-! ### Who has a part in it -/

/-- A call that rests here is nothing in flight. -/
def Stage.isDormant : Stage σ → Bool
  | .scheduled _ _ | .sleeping _ | .pulling _ _ => true
  | _ => false

def Point.isDormant : Point σ → Bool
  | .ticking _ _ | .replying _ => true
  | _ => false

/-- The call `x` rests here, and it is nothing in flight, or the operation `c` itself, or a
    refresh that `c` makes. -/
inductive Stage.Serves (c x : CallId) (st : Stage σ) : Prop where
  | dormant (h : st.isDormant = true)
  | own (hx : x = c) (h : st.audience? = some .watcher)
  | member {e leg} (h : st.leg? c e = some leg)

/-- The call `x` runs here, and it is nothing in flight, or the operation `c` itself, or a
    refresh that `c` makes. -/
inductive Point.Serves (c x : CallId) (p : Point σ) : Prop where
  | dormant (h : p.isDormant = true)
  | own (hx : x = c) (h : p.audience? = some .watcher)
  | member {e leg} (h : p.leg? c e = some leg)

/-- Nothing is in flight but the operation `c`. -/
structure Midturn.Alone (c : CallId) (s : Midturn σ) : Prop where
  calls : ∀ {x st}, (x, st) ∈ s.node.calls → st.Serves c x
  running : ∀ {x p}, s.running = some (x, p) → p.Serves c x
  enlisting : ∀ {sweep forced views}, s.enlisting = some (sweep, forced, views) → sweep = c

/-- Nothing is in flight. -/
def Node.Dormant (n : Node σ) : Prop :=
  ∀ x st, (x, st) ∈ n.calls → st.isDormant = true

theorem Node.Dormant.of_calls_nil {n : Node σ} (h : n.calls = []) : n.Dormant := by
  intro x st hmem
  rw [h] at hmem
  cases hmem

section Serves

variable {c x : CallId} {e : EntryId}

theorem Stage.Serves.point {st : Stage σ} (h : st.Serves c x)
    (hst : ∀ due op, st ≠ .scheduled due op) : st.point.Serves c x := by
  cases h with
  | dormant h =>
    cases st with
    | scheduled due op => exact absurd rfl (hst due op)
    | sleeping | pulling => exact .dormant rfl
    | _ => cases h
  | own hx h => exact .own hx ((Stage.audience?_point hst).trans h)
  | member h => exact .member ((Stage.leg?_point st).trans h)

namespace Point.Serves

variable {p : Point σ} {job : Job} {next : AfterRefresh}

theorem point (h : (Point.lining e job : Point σ).Serves c x) :
    (job.point e : Point σ).Serves c x := by
  cases h with
  | dormant h => cases h
  | own hx h => exact .own hx ((Job.audience?_point e job).trans h)
  | member h => exact .member ((Job.leg?_point job).trans h)

theorem stage (h : (Point.lining e job : Point σ).Serves c x) :
    (job.stage e : Stage σ).Serves c x := by
  cases h with
  | dormant h => cases h
  | own hx h => exact .own hx ((Job.audience?_stage e job).trans h)
  | member h => exact .member ((Job.leg?_stage job).trans h)

/-- Beside `c`, views are refreshed for `c` only. -/
theorem eq_member {v : EntryId} {leg : Leg} (h : p.Serves c x) (hdormant : p.isDormant = false)
    (haudience : p.audience? = next.audience?) (hleg : ∀ e, p.leg? c e = next.leg? c e v leg) :
    next = .member c := by
  cases h with
  | dormant h => simp [hdormant] at h
  | own hx h => exact absurd (haudience.symm.trans h) next.audience?_ne_watcher
  | member h => exact (AfterRefresh.leg?_eq_some ((hleg _).symm.trans h)).2

/-- Nothing begins beside `c`, and `c` begins only to tell the watcher. -/
theorem of_starting {op : Operation σ} (h : (Point.starting op : Point σ).Serves c x) :
    x = c ∧ op.audience? = some .watcher := by
  cases h with
  | dormant h => cases h
  | own hx h => exact ⟨hx, h⟩
  | member h => cases h

end Point.Serves

/-- Who looks for a view, for one, has no part in `c`. -/
theorem Point.not_serves {p : Point σ} (hdormant : p.isDormant = false)
    (haudience : p.audience? = none) (hleg : ∀ e, p.leg? c e = none) : ¬ p.Serves c x := by
  intro h
  cases h with
  | dormant h => simp [hdormant] at h
  | own hx h => simp [haudience] at h
  | member h => simp [hleg] at h

end Serves

/-! ### Nobody joins -/

namespace Midturn.Alone

variable {n m : Node σ} {c x : CallId} {p : Point σ} {st : Stage σ}
  {r : Option (CallId × Point σ)} {k : Option (CallId × Bool × List EntryId)}

theorem of_run (h : Alone c ⟨n, r, k⟩) (hcalls : m.calls ⊆ n.calls) (hp : p.Serves c x) :
    Alone c ⟨m, some (x, p), k⟩ where
  calls hmem := h.calls (hcalls hmem)
  running hrun := by
    cases hrun
    exact hp
  enlisting := h.enlisting

theorem of_end (h : Alone c ⟨n, r, k⟩) (hcalls : m.calls ⊆ n.calls) :
    Alone c ⟨m, none, k⟩ where
  calls hmem := h.calls (hcalls hmem)
  running := nofun
  enlisting := h.enlisting

theorem of_rest (h : Alone c ⟨n, r, k⟩) (hcalls : m.calls ⊆ n.calls) (hst : st.Serves c x) :
    Alone c ⟨m.rest x st, none, k⟩ where
  calls hmem := by
    rcases Node.mem_rest.mp hmem with hmem | ⟨rfl, rfl⟩
    · exact h.calls (hcalls hmem)
    · exact hst
  running := nofun
  enlisting := h.enlisting

end Midturn.Alone

section Joining

variable {c x : CallId} {n n' : Node σ} {p p' : Point σ}

theorem Quiet.serves (q : Quiet x n p n' p') (hp : p.Serves c x) : p'.Serves c x := by
  cases q with
  | turn h =>
    cases hp with
    | dormant hp =>
      cases p with
      | ticking | replying => cases h
      | _ => cases hp
    | own hx hp => exact .own hx (Node.owes_of_turnsTo h hp)
    | member hp => exact .member ((Node.leg?_of_turnsTo h).trans hp)
  | find => exact absurd hp (Point.not_serves rfl rfl fun _ => rfl)
  | sweepFree | forceFree => exact .own hp.of_starting.1 rfl
  | sweepNone =>
    rcases hp with hp | ⟨hx, -⟩ | hp
    · cases hp
    · exact .own hx rfl
    · cases hp
  | _ => exact .dormant rfl

/-- **Within a turn nobody joins the operation.** -/
theorem Move.alone [Registry σ] {s s' : Midturn σ} (m : Move s s') (busy : s.busy = true)
    (h : s.Alone c) : s'.Alone c := by
  cases m with
  | call | callAfter | wake => cases busy
  | quiet q => exact h.of_run (q.still.calls ▸ List.Subset.refl _) (q.serves (h.running rfl))
  | answer | stray => exact h.of_end (List.Subset.refl _)
  | enlisted n sweep forced => exact ⟨h.calls, nofun, nofun⟩
  | protect | protectView | apply => exact h.of_run (List.Subset.refl _) (.dormant rfl)
  | forget n c' k e es next =>
    refine h.of_run (List.Subset.refl _) ?_
    rcases h.running rfl with hp | ⟨hx, hp⟩ | hp
    · cases hp
    · exact .own hx hp
    · cases next with
      | answer => cases hp
      | refresh v sweep? => exact .member hp
  | sleep => exact h.of_rest (List.Subset.refl _) (.dormant rfl)
  | startPuller n c' k interval =>
    refine ⟨?_, ?_, h.enlisting⟩
    · intro y st hmem
      rcases Node.mem_startPuller.mp hmem with hmem | ⟨-, -, rfl⟩
      · exact h.calls (Node.mem_stopPuller.mp hmem).1
      · exact .dormant rfl
    · rintro y p ⟨⟩
      exact .dormant rfl
  | stopPuller =>
    exact h.of_run (fun y hmem => (Node.mem_stopPuller.mp hmem).1) (.dormant rfl)
  | tick n c' k due interval =>
    have hpulling : Midturn.Alone c
        ⟨n.rest c' (.pulling (due + Timer.run interval) interval), none, k⟩ :=
      h.of_rest (List.Subset.refl _) (.dormant rfl)
    exact hpulling.of_rest (m := ((n.rest c' (.pulling _ interval)).newCall.2.note (.pulled _)))
      (List.Subset.refl _) (.dormant rfl)
  | create | awaitFirst | beginFirst =>
    exact absurd (h.running rfl) (Point.not_serves rfl rfl fun _ => rfl)
  | endFirst => cases (h.running rfl).eq_member rfl rfl fun _ => rfl
  | lock => exact h.of_run (List.Subset.refl _) (h.running rfl).point
  | @wait n c' k e job =>
    exact h.of_rest (m := n.queueWriter c' e) (List.Subset.refl _) (h.running rfl).stage
  | askNow =>
    refine h.of_run (List.Subset.refl _) ?_
    rw [(h.running rfl).eq_member rfl rfl fun _ => rfl]
    exact .member AfterRefresh.leg?_member_self
  | ask =>
    refine h.of_rest (List.Subset.refl _) ?_
    rw [(h.running rfl).eq_member rfl rfl fun _ => rfl]
    exact .member AfterRefresh.leg?_member_self
  | hear =>
    refine h.of_run (List.Subset.refl _) ?_
    rw [(h.running rfl).eq_member rfl rfl fun _ => rfl]
    exact .member AfterRefresh.leg?_member_self
  | forceWait => exact h.of_rest (List.Subset.refl _) (.own (h.running rfl).of_starting.1 rfl)
  | @sweepSome n c' forced hsome =>
    rcases h.running rfl with hp | ⟨rfl, -⟩ | hp
    · cases hp
    · have hpass := h.of_rest (m := n.note (.sweepBegan c' n.directory.initialized))
        (List.Subset.refl _)
        (.own rfl (rfl : (Stage.pass forced (n.directory.initialized.map ({ entry := · })) :
          Stage σ).audience? = some .watcher))
      refine ⟨hpass.calls, nofun, ?_⟩
      rintro sweep forced' views ⟨⟩
      rfl
    · cases hp
  | enlist n sweep forced e rest =>
    obtain rfl : sweep = c := h.enlisting rfl
    refine ⟨h.calls, ?_, ?_⟩
    · rintro y p ⟨⟩
      exact .member AfterRefresh.leg?_member_self
    · rintro sweep' forced' views ⟨⟩
      rfl
  | @member n c' k e status sweep forced members rests hmore =>
    cases (h.running rfl).eq_member rfl rfl fun _ => rfl
    exact h.of_rest (fun y hmem => (Node.mem_unrest.mp hmem).1) (.own rfl rfl)
  | @lastMember n c' k e status sweep forced members rests hall =>
    cases (h.running rfl).eq_member rfl rfl fun _ => rfl
    exact h.of_run (fun y hmem => (Node.mem_unrest.mp hmem).1) (.own rfl rfl)
  | applyNext =>
    refine h.of_run (List.Subset.refl _) ?_
    rcases h.running rfl with hp | ⟨hx, -⟩ | hp
    · cases hp
    · exact .own hx rfl
    · cases hp

end Joining

/-! ### Turns in which no operation begins -/

/-- What every move keeps that no operation begins with holds after a turn in which none
    begins. -/
theorem Midturn.Alone.act_keeps [Registry σ] {I : Midturn σ → Prop} {n : Node σ} {c : CallId}
    {a : Node.Act σ} (alone : Alone c (⟨n, none, none⟩ : Midturn σ))
    (ha : Audited (⟨n, none, none⟩ : Midturn σ)) (unbegun : n.beginner? a = none)
    (move : ∀ {s s'}, Audited s → s.Alone c → I s → Move s s' → s'.Alone c →
      (∀ x op, s'.running ≠ some (x, .starting op)) → I s')
    (pass : ∀ ms, a = .pass ms → I ⟨{ n with time := n.time + ms }, none, none⟩)
    (h : I ⟨n, none, none⟩) : Alone c ⟨n.act a, none, none⟩ ∧ I ⟨n.act a, none, none⟩ := by
  cases a with
  | call op => cases unbegun
  | callAfter wait op =>
    have alone' : Alone c (⟨(n.callAfter wait op).2, none, none⟩ : Midturn σ) :=
      alone.of_rest (m := n.newCall.2) (List.Subset.refl _) (.dormant rfl)
    exact ⟨alone', move ha alone h (.callAfter n wait op) alone' fun _ _ hrun => nomatch hrun⟩
  | resume x =>
    by_cases hawake : n.isAwake x = true
    · obtain ⟨st, rests, awake, onward⟩ := moves_resume n x hawake
      have hact : n.act (.resume x) = n.resume x := if_pos hawake
      have hstage : ∀ due op, st ≠ .scheduled due op := by
        rintro due op rfl
        rw [Node.beginner?_of_scheduled rests (of_decide_eq_true awake)] at unbegun
        cases unbegun
      have hstarts : ∀ y op, (⟨n.unrest x, some (x, st.point), none⟩ : Midturn σ).running ≠
          some (y, .starting op) := by
        intro y op hrun
        cases st with
        | scheduled due op' => exact hstage due op' rfl
        | _ => cases hrun
      have hserves := (alone.calls (Node.mem_of_stage? rests)).point hstage
      have hwoken := alone.of_run (m := n.unrest x)
        (fun y hmem => (Node.mem_unrest.mp hmem).1) hserves
      have hwake : Move ⟨n, none, none⟩ ⟨n.unrest x, some (x, st.point), none⟩ := .wake rests awake
      rw [hact]
      refine (onward.keeps (I := fun s => Audited s ∧ s.Alone c ∧ I s) ?_
        ⟨ha.move hwake, hwoken, move ha alone h hwake hwoken hstarts⟩).2
      rintro s s' busy ⟨ha, alone, h⟩ m
      have alone' := m.alone busy alone
      exact ⟨ha.move m, alone', move ha alone h m alone' fun y op => m.not_starting busy y op⟩
    · have hact : n.act (.resume x) = n := if_neg hawake
      rw [hact]
      exact ⟨alone, h⟩
  | pass ms =>
    exact ⟨⟨alone.calls, nofun, nofun⟩, pass ms rfl⟩

/-! ### Once the operation is over -/

section Over

variable {s s' : Midturn σ} {c : CallId}

/-- Who is over makes no refreshes any more. -/
theorem Midturn.Over.legs_eq_nil (h : s.Over c) (ho : Orderly s) (hs : Sweeping s) (e : EntryId) :
    s.legs c e = [] := by
  apply hs.idle
  intro members all hpass
  cases hpass with
  | resting rests => exact h.not_mem_calls ho _ rests
  | closing run => exact h.not_runsFor ho .watcher ⟨_, run, rfl⟩

theorem Midturn.Alone.dormant_of_over (h : s.Alone c) (hover : s.Over c) (ho : Orderly s)
    (hs : Sweeping s) {x : CallId} {p : Point σ} (hrun : s.running = some (x, p)) :
    p.isDormant = true := by
  cases h.running hrun with
  | dormant hp => exact hp
  | own hx hp =>
    subst hx
    exact absurd ⟨p, hrun, hp⟩ (hover.not_runsFor ho .watcher)
  | @member e leg hp =>
    have hnil := hover.legs_eq_nil ho hs e
    simp [Midturn.legs, hrun, hp] at hnil

/-- **Once the operation is over, nothing happens to the views and the balancer** until another
    one begins. -/
theorem Midturn.Alone.still_of_over [Registry σ] (h : s.Alone c) (hover : s.Over c)
    (ho : Orderly s) (hs : Sweeping s) (m : Move s s') :
    s'.node.directory = s.node.directory ∧ s'.node.balancer = s.node.balancer := by
  have hdormant {x : CallId} {p : Point σ} (hrun : s.running = some (x, p)) :=
    h.dormant_of_over hover ho hs hrun
  cases m with
  | call | callAfter | wake | answer | tick | enlist | enlisted => exact ⟨rfl, rfl⟩
  | @quiet n n' c' k p p' q =>
    cases q with
    | turn hturn =>
      have hp := hdormant rfl
      cases p with
      | ticking | replying => cases hturn
      | _ => cases hp
    | _ => cases hdormant rfl
  | _ => cases hdormant rfl

end Over

end ServiceFinder
