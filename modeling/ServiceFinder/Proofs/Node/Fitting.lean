/-
  ServiceFinder/Proofs/Node/Fitting.lean
  ======================================
  **Calls about views that are there.**

  Two kinds of calls never come to an end.  Whoever pulls does so until it is stopped, and
  whoever waits for the write lock of a view that was never made stands in no line and waits
  for ever.  A call of neither kind `Fits` its node.  A lookup, a sweep or a pushed change
  comes upon views that were made, so within a turn all calls stay fitting
  (`Midturn.Fitting.move`); only who asks for an operation can bring in a call that does not
  fit.
-/
import ServiceFinder.Proofs.Node.Punctual

namespace ServiceFinder

variable {σ : Type}

/-! ### What a call is about -/

namespace Operation

/-- The view that whoever asks for an operation has to name, if the operation may wait for it. -/
def views : Operation σ → List EntryId
  | .ensureFirst e | .refresh e | .forceRefresh e | .changeView e _ => [e]
  | _ => []

def pulls : Operation σ → Bool
  | .startPuller _ => true
  | _ => false

/-- The operation begins no pulling, and its view is one of the first `made`. -/
structure Fits (made : Nat) (op : Operation σ) : Prop where
  pulls : op.pulls = false
  views : ∀ e ∈ op.views, e < made

end Operation

def AfterChange.views : AfterChange → List EntryId
  | .verdict => []
  | .others rest _ => rest

def Job.views : Job → List EntryId
  | .refresh _ => []
  | .change _ next => next.views

def AfterForgetting.views : AfterForgetting → List EntryId
  | .answer => []
  | .refresh e _ => [e]

namespace Stage

/-- The views that a resting call waits for, now or later. -/
def views : Stage σ → List EntryId
  | .scheduled _ op => op.views
  | .refreshing e _ | .fetching e _ _ _ | .awaitingFirst e _ => [e]
  | .changing e _ next => e :: next.views
  | .sleeping _ | .pulling _ _ | .awaitingSweep | .pass _ _ => []

def pulls : Stage σ → Bool
  | .scheduled _ op => op.pulls
  | .pulling _ _ => true
  | _ => false

structure Fits (made : Nat) (st : Stage σ) : Prop where
  pulls : st.pulls = false
  views : ∀ e ∈ st.views, e < made

end Stage

namespace Point

/-- The views that a running call is about and may have to wait for. -/
def views : Point σ → List EntryId
  | .starting op => op.views
  | .ensuring e _ | .asking e _ | .heard e _ _ | .refreshed e _ _ | .passed e _ => [e]
  | .lining e job => e :: job.views
  | .spreading _ _ rest => rest
  | .applying e _ next => e :: next.views
  | .forgetting _ next => next.views
  | .looking _ _ | .sweeping _ | .closing _ _ | .ticking _ _ | .replying _ => []

def pulls : Point σ → Bool
  | .starting op => op.pulls
  | .ticking _ _ => true
  | _ => false

structure Fits (made : Nat) (p : Point σ) : Prop where
  pulls : p.pulls = false
  views : ∀ e ∈ p.views, e < made

end Point

@[simp] theorem Stage.views_point (st : Stage σ) : st.point.views = st.views := by
  cases st <;> rfl

@[simp] theorem Stage.pulls_point (st : Stage σ) : st.point.pulls = st.pulls := by
  cases st <;> rfl

@[simp] theorem Job.views_point (e : EntryId) (job : Job) :
    (job.point e : Point σ).views = e :: job.views := by
  cases job <;> rfl

@[simp] theorem Job.pulls_point (e : EntryId) (job : Job) :
    (job.point e : Point σ).pulls = false := by
  cases job <;> rfl

@[simp] theorem Job.views_stage (e : EntryId) (job : Job) :
    (job.stage e : Stage σ).views = e :: job.views := by
  cases job <;> rfl

@[simp] theorem Job.pulls_stage (e : EntryId) (job : Job) :
    (job.stage e : Stage σ).pulls = false := by
  cases job <;> rfl

theorem Stage.Fits.mono {made made' : Nat} {st : Stage σ} (h : st.Fits made)
    (hle : made ≤ made') : st.Fits made' :=
  ⟨h.pulls, fun e he => Nat.lt_of_lt_of_le (h.views e he) hle⟩

theorem Stage.Fits.point {made : Nat} {st : Stage σ} (h : st.Fits made) : st.point.Fits made :=
  ⟨st.pulls_point.trans h.pulls, fun e he => h.views e (st.views_point ▸ he)⟩

/-- A call goes on about no other views. -/
theorem Point.Fits.on {made made' : Nat} {p p' : Point σ} (h : p.Fits made) (hle : made ≤ made')
    (hpulls : p'.pulls = false) (hviews : p'.views ⊆ p.views) : p'.Fits made' :=
  ⟨hpulls, fun e he => Nat.lt_of_lt_of_le (h.views e (hviews he)) hle⟩

/-- A call comes to rest about no other views. -/
theorem Point.Fits.rest {made made' : Nat} {p : Point σ} {st : Stage σ} (h : p.Fits made)
    (hle : made ≤ made') (hpulls : st.pulls = false) (hviews : st.views ⊆ p.views) :
    st.Fits made' :=
  ⟨hpulls, fun e he => Nat.lt_of_lt_of_le (h.views e (hviews he)) hle⟩

/-! ### Quiet moves -/

theorem Filed.lt_of_mem_views {n : Node σ} (h : Filed n) {e : EntryId}
    (he : e ∈ n.directory.views) : e < n.directory.entries.length := by
  obtain ⟨⟨key, v⟩, hcached, rfl⟩ := List.mem_map.mp he
  exact (h.made hcached).1

theorem Node.pulls_of_turnsTo {n : Node σ} {p p' : Point σ} (h : n.turnsTo p = some p') :
    p'.pulls = false := by
  unfold turnsTo at h
  split at h
  all_goals first
    | (cases h; rfl)
    | (split at h <;> cases h <;> rfl)
    | cases h

/-- A call turns to the views that it was about, or to those that are cached. -/
theorem Node.views_of_turnsTo {n : Node σ} {p p' : Point σ} (h : n.turnsTo p = some p') :
    p'.views ⊆ p.views ∨ p'.views ⊆ n.directory.views := by
  unfold turnsTo at h
  split at h
  -- only a change that begins to spread turns to what is cached
  all_goals first
    | (cases h; exact .inr (List.Subset.refl _))
    | (left; cases h; simp [Point.views, Operation.views, Job.views, AfterForgetting.views])
    | (left; split at h <;> cases h <;>
        simp [Point.views, Operation.views, Job.views, AfterChange.views])
    | cases h

theorem Quiet.fits {c : CallId} {n n' : Node σ} {p p' : Point σ} (q : Quiet c n p n' p')
    (hf : Filed n) (hp : p.Fits n.directory.entries.length) :
    p'.Fits n.directory.entries.length := by
  cases q with
  | turn h =>
    refine ⟨Node.pulls_of_turnsTo h, ?_⟩
    intro e he
    rcases Node.views_of_turnsTo h with hviews | hviews
    · exact hp.views e (hviews he)
    · exact hf.lt_of_mem_views (hviews he)
  | find valid hfind =>
    refine ⟨rfl, ?_⟩
    intro e he
    obtain rfl := List.mem_singleton.mp he
    exact (hf.find?_eq_some_iff.mp hfind).1
  | _ => exact ⟨rfl, nofun⟩

/-! ### Every move -/

/-- Every call fits the node: nobody pulls, and all views that calls are about were made. -/
structure Midturn.Fitting (s : Midturn σ) : Prop where
  calls : ∀ {c st}, (c, st) ∈ s.node.calls → st.Fits s.node.directory.entries.length
  running : ∀ {c p}, s.running = some (c, p) → p.Fits s.node.directory.entries.length
  enlisting : ∀ {sweep forced views}, s.enlisting = some (sweep, forced, views) →
    ∀ e ∈ views, e < s.node.directory.entries.length

namespace Midturn.Fitting

variable {s s' : Midturn σ}

/-- Views are made, and calls come in that fit. -/
theorem of_le (h : s.Fitting)
    (hlen : s.node.directory.entries.length ≤ s'.node.directory.entries.length)
    (hcalls : ∀ {c st}, (c, st) ∈ s'.node.calls →
      (c, st) ∈ s.node.calls ∨ st.Fits s'.node.directory.entries.length)
    (hrun : ∀ {c p}, s'.running = some (c, p) → p.Fits s'.node.directory.entries.length)
    (henlisting : s'.enlisting = s.enlisting) : s'.Fitting where
  calls hc := by
    rcases hcalls hc with hold | hnew
    · exact (h.calls hold).mono hlen
    · exact hnew
  running := hrun
  enlisting hk e he := Nat.lt_of_lt_of_le (h.enlisting (henlisting ▸ hk) e he) hlen

/-- The running call goes on, or hands over to another one. -/
theorem of_run (h : s.Fitting) {n : Node σ} {c c' : CallId} {p p' : Point σ}
    (hrun : s.running = some (c, p))
    (hlen : s.node.directory.entries.length ≤ n.directory.entries.length)
    (hcalls : ∀ x ∈ n.calls, x ∈ s.node.calls) (hpulls : p'.pulls = false)
    (hviews : p'.views ⊆ p.views) : Midturn.Fitting ⟨n, some (c', p'), s.enlisting⟩ := by
  refine h.of_le hlen (fun hc => .inl (hcalls _ hc)) ?_ rfl
  intro c'' p'' hrun'
  cases hrun'
  exact (h.running hrun).on hlen hpulls hviews

/-- The running call comes to rest. -/
theorem of_rest (h : s.Fitting) {n : Node σ} {c c' : CallId} {p : Point σ} {st : Stage σ}
    (hrun : s.running = some (c, p))
    (hlen : s.node.directory.entries.length ≤ n.directory.entries.length)
    (hcalls : ∀ x ∈ n.calls, x ∈ s.node.calls) (hpulls : st.pulls = false)
    (hviews : st.views ⊆ p.views) : Midturn.Fitting ⟨n.rest c' st, none, s.enlisting⟩ := by
  refine h.of_le hlen ?_ nofun rfl
  intro c'' st'' hc
  rcases Node.mem_rest.mp hc with hc | ⟨-, rfl⟩
  · exact .inl (hcalls _ hc)
  · exact .inr ((h.running hrun).rest hlen hpulls hviews)

/-- The running call is over. -/
theorem of_end (h : s.Fitting) {n : Node σ}
    (hlen : s.node.directory.entries.length ≤ n.directory.entries.length)
    (hcalls : ∀ x ∈ n.calls, x ∈ s.node.calls) : Midturn.Fitting ⟨n, none, s.enlisting⟩ :=
  h.of_le hlen (fun hc => .inl (hcalls _ hc)) nofun rfl

theorem wake {n : Node σ} (h : Midturn.Fitting ⟨n, none, none⟩) {c : CallId} {st : Stage σ}
    (rests : n.stage? c = some st) : Midturn.Fitting ⟨n.unrest c, some (c, st.point), none⟩ := by
  refine h.of_le (Nat.le_refl _) (fun hc => .inl (Node.mem_unrest.mp hc).1) ?_ rfl
  intro c' p hrun
  cases hrun
  exact (h.calls (Node.mem_of_stage? rests)).point

/-- A call that fits may be asked for. -/
theorem call {n : Node σ} (h : Midturn.Fitting ⟨n, none, none⟩) {op : Operation σ}
    (fits : op.Fits n.directory.entries.length) :
    Midturn.Fitting ⟨n.newCall.2, some (n.nextCall, .starting op), none⟩ := by
  refine h.of_le (Nat.le_refl _) .inl ?_ rfl
  intro c p hrun
  cases hrun
  exact ⟨fits.pulls, fits.views⟩

theorem callAfter {n : Node σ} (h : Midturn.Fitting ⟨n, none, none⟩) {op : Operation σ}
    (wait : Nat) (fits : op.Fits n.directory.entries.length) :
    Midturn.Fitting ⟨(n.callAfter wait op).2, none, none⟩ := by
  refine h.of_le (Nat.le_refl _) ?_ nofun rfl
  intro c st hc
  rcases Node.mem_rest.mp hc with hc | ⟨-, rfl⟩
  · exact .inl hc
  · exact .inr ⟨fits.pulls, fits.views⟩

/-- A move takes the running call on, and the views stay as many. -/
theorem of_quiet (h : s.Fitting) {n : Node σ} {c : CallId} {p : Point σ}
    (hlen : n.directory.entries.length = s.node.directory.entries.length)
    (hcalls : n.calls = s.node.calls) (hp : p.Fits s.node.directory.entries.length) :
    Midturn.Fitting ⟨n, some (c, p), s.enlisting⟩ := by
  refine h.of_le (Nat.le_of_eq hlen.symm) (fun hc => .inl (hcalls ▸ hc)) ?_ rfl
  intro c' p' hrun
  cases hrun
  exact hlen ▸ hp

/-- **Within a turn every call stays fitting.** -/
theorem move [Registry σ] (h : s.Fitting) (hf : Filed s.node) (ho : Orderly s) (m : Move s s')
    (busy : s.busy = true) : s'.Fitting := by
  have hlen := m.length_le ho
  cases m with
  | call | callAfter | wake => cases busy
  | quiet q =>
    exact h.of_quiet (congrArg List.length q.still.entries) q.still.calls
      (q.fits hf (h.running rfl))
  | answer | stray => exact h.of_end hlen fun _ hx => hx
  | protect | protectView | apply =>
    exact h.of_run rfl hlen (fun _ hx => hx) rfl (List.nil_subset _)
  | forget | beginFirst | endFirst | askNow | hear =>
    exact h.of_run rfl hlen (fun _ hx => hx) rfl (List.Subset.refl _)
  | applyNext =>
    exact h.of_run rfl hlen (fun _ hx => hx) rfl (List.subset_cons_self _ _)
  | lock =>
    refine h.of_run rfl hlen (fun _ hx => hx) (Job.pulls_point ..) ?_
    rw [Job.views_point]
    exact List.Subset.refl _
  | wait =>
    refine h.of_rest rfl hlen (fun _ hx => hx) (Job.pulls_stage ..) ?_
    rw [Job.views_stage]
    exact List.Subset.refl _
  | sleep | forceWait => exact h.of_rest rfl hlen (fun _ hx => hx) rfl (List.nil_subset _)
  | awaitFirst | ask => exact h.of_rest rfl hlen (fun _ hx => hx) rfl (List.Subset.refl _)
  | stopPuller =>
    exact h.of_run rfl hlen (fun _ hx => List.mem_of_mem_filter hx) rfl (List.nil_subset _)
  | startPuller | tick => cases (h.running rfl).pulls
  | create valid hfind =>
    -- the call is about the view that it has just made
    refine h.of_le hlen .inl ?_ rfl
    intro c p hrun
    cases hrun
    refine ⟨rfl, ?_⟩
    intro e he
    obtain rfl := List.mem_singleton.mp he
    simp [Node.created, Node.measure, Node.note, Directory.create]
  | @sweepSome n c forced hsome =>
    have hrests : Midturn.Fitting ⟨(n.note (.sweepBegan c n.directory.initialized)).rest c
        (.pass forced (n.directory.initialized.map ({ entry := · }))), none, none⟩ :=
      h.of_rest rfl hlen (fun _ hx => hx) rfl (List.nil_subset _)
    refine ⟨hrests.calls, hrests.running, ?_⟩
    intro sweep forced' views hk e he
    cases hk
    exact hf.lt_of_mem_views (List.mem_of_mem_filter he)
  | enlist n sweep forced e rest =>
    have hmade := h.enlisting rfl
    refine ⟨h.calls, ?_, ?_⟩
    · intro c p hrun
      cases hrun
      refine ⟨rfl, ?_⟩
      intro v hv
      obtain rfl := List.mem_singleton.mp hv
      exact hmade v List.mem_cons_self
    · intro sweep' forced' views hk v hv
      cases hk
      exact hmade v (List.mem_cons_of_mem _ hv)
  | enlisted =>
    refine ⟨h.calls, h.running, ?_⟩
    intro sweep forced views hk
    cases hk
  | member rests hmore =>
    exact h.of_rest rfl hlen (fun _ hx => List.mem_of_mem_filter hx) rfl (List.nil_subset _)
  | lastMember rests hall =>
    exact h.of_run rfl hlen (fun _ hx => List.mem_of_mem_filter hx) rfl (List.nil_subset _)

theorem pass {n : Node σ} (h : Midturn.Fitting ⟨n, none, none⟩) (time : Nat) :
    Midturn.Fitting ⟨{ n with time }, none, none⟩ :=
  ⟨h.calls, nofun, nofun⟩

/-- Nobody is late who pulls: nobody pulls. -/
theorem timely (h : s.Fitting) {c : CallId} {p : Point σ} (hrun : s.running = some (c, p)) :
    p.Timely s.node.time := by
  have hpulls := (h.running hrun).pulls
  cases p with
  | ticking => cases hpulls
  | _ => trivial

end Midturn.Fitting

end ServiceFinder
