/-
  ServiceFinder/Proofs/Node/SweepTurns.lean
  =========================================
  **Every sweep in line has its turn.**

  Whoever stands in line for the sweep lock waits for passes, and a pass waits for lookups.
  Each lookup takes no longer than the node allows, and while somebody stands in line only so
  many of them can still begin, for periodic sweeps give up: `demand` bounds their number.  So
  there is a moment by which everybody in the line has had its turn (`Within`), as long as the
  members of a pass do get the write locks of their views.  That they do is `Mustered`: a member
  that waits for a write lock is in the line for it.
-/
import ServiceFinder.Proofs.Node.Passes
import ServiceFinder.Proofs.Node.Settling

namespace ServiceFinder

variable {σ : Type}

/-! ### Lookups that are still to begin -/

/-- How many lookups may begin for an operation, with no more than `b` views cached and the
    sweep lock taken. -/
def Operation.demand (b : Nat) : Operation σ → Nat
  | .find _ | .choose _ _ | .ensureFirst _ | .refresh _ | .forceRefresh _ => 1
  | .forceSweep => b
  | _ => 0

def Stage.demand (b : Nat) : Stage σ → Nat
  | .scheduled _ op => op.demand b
  | .refreshing _ _ => 1
  | .awaitingSweep => b
  | _ => 0

def Point.demand (b : Nat) : Point σ → Nat
  | .starting op => op.demand b
  | .looking _ _ | .ensuring _ _ | .lining _ (.refresh _) | .asking _ _
  | .forgetting _ (.refresh _ _) => 1
  | .sweeping _ => b
  | _ => 0

/-- How many lookups may still begin before a new call starts. -/
def Midturn.demand (b : Nat) (s : Midturn σ) : Nat :=
  s.total (Stage.demand b) (Point.demand b) + (s.enlisting.map fun x => x.2.2.length).getD 0

@[simp] theorem Stage.demand_point (b : Nat) (st : Stage σ) : st.point.demand b = st.demand b := by
  cases st <;> rfl

theorem Midturn.demand_le {b : Nat} {n n' : Node σ} {r r' : Option (CallId × Point σ)}
    {k : Option (CallId × Bool × List EntryId)}
    (h : total (Stage.demand b) (Point.demand b) ⟨n', r', k⟩ ≤
      total (Stage.demand b) (Point.demand b) ⟨n, r, k⟩) :
    demand b ⟨n', r', k⟩ ≤ demand b ⟨n, r, k⟩ :=
  Nat.add_le_add_right h _

theorem Quiet.demand_le {c : CallId} {n n' : Node σ} {p p' : Point σ} (h : Quiet c n p n' p')
    (taken : n.directory.sweepers ≠ []) (b : Nat) : p'.demand b ≤ p.demand b := by
  cases h with
  | turn h =>
    unfold Node.turnsTo at h
    split at h
    all_goals first
      | (cases h; exact Nat.le_refl _)
      | (split at h <;> cases h <;> simp [Point.demand, Operation.demand])
      | cases h
  | sweepFree h => exact absurd h taken
  | forceFree h => exact Nat.le_refl _
  | find valid h => exact Nat.le_refl _
  | _ => exact Nat.zero_le _

section Moves

variable [Registry σ] {s s' : Midturn σ}

/-- **While somebody stands in line for the sweep lock, no move asks for more lookups.** -/
theorem Move.demand_le (m : Move s s') (busy : s.busy = true)
    (taken : s.node.directory.sweepers ≠ []) {b : Nat} (hb : s.node.directory.size ≤ b) :
    s'.demand b ≤ s.demand b := by
  cases m with
  | call | callAfter | wake => cases busy
  | quiet q =>
    refine Midturn.demand_le (Midturn.total_run ?_ (q.demand_le taken b))
    rw [Node.total, q.still.calls]
    exact Nat.le_refl _
  | protect | create | protectView | beginFirst | endFirst | apply | applyNext | hear =>
    exact Midturn.demand_le (Midturn.total_run (Nat.le_refl _) (Nat.le_refl _))
  | forget n c k e es next =>
    refine Midturn.demand_le (Midturn.total_run (Nat.le_refl _) ?_)
    cases next <;> exact Nat.le_refl _
  | askNow => exact Midturn.demand_le (Midturn.total_run (Nat.le_refl _) (Nat.zero_le _))
  | ask => exact Midturn.demand_le (Midturn.total_rest (Nat.le_refl _) (Nat.zero_le _))
  | @lock n c k e job hfree =>
    refine Midturn.demand_le (Midturn.total_run (Nat.le_refl _) ?_)
    cases job <;> exact Nat.le_refl _
  | @wait n c k e job hbusy =>
    refine Midturn.demand_le (Midturn.total_rest (Nat.le_refl _) ?_)
    cases job <;> exact Nat.le_refl _
  | sleep | forceWait =>
    exact Midturn.demand_le (Midturn.total_rest (Nat.le_refl _) (Nat.le_refl _))
  | awaitFirst => exact Midturn.demand_le (Midturn.total_rest (Nat.le_refl _) (Nat.zero_le _))
  | @sweepSome n c forced h =>
    -- each of the members may ask once
    have hviews : n.directory.initialized.length ≤ b :=
      (List.length_filter_le ..).trans (by simpa [Directory.views, Directory.size] using hb)
    show (n.rest c (.pass forced _)).total (Stage.demand b) + 0 + n.directory.initialized.length ≤
      n.total (Stage.demand b) + b + 0
    rw [Node.total_rest]
    simp only [Stage.demand]
    omega
  | answer | stray => exact Midturn.demand_le (Midturn.total_end (Nat.le_refl _))
  | enlist n sweep forced e rest =>
    show n.total (Stage.demand b) + 1 + rest.length ≤
      n.total (Stage.demand b) + 0 + (rest.length + 1)
    omega
  | enlisted => exact Nat.le_refl _
  | stopPuller n c k =>
    exact Midturn.demand_le (Midturn.total_run (n.total_stopPuller_le _) (Nat.le_refl _))
  | startPuller n c k interval =>
    have hcalls := n.total_startPuller_le (Stage.demand b) interval fun _ => rfl
    exact Midturn.demand_le (Midturn.total_run hcalls (Nat.le_refl _))
  | tick n c k due interval =>
    refine Midturn.demand_le (Midturn.total_rest ?_ (Nat.le_refl _))
    exact Nat.le_of_eq (Node.total_rest n ..)
  | member rests hmore =>
    refine Midturn.demand_le (Midturn.total_rest ?_ (Nat.le_refl _))
    exact Nat.le_of_add_right_le (Node.total_unrest _ rests)
  | lastMember rests hall =>
    refine Midturn.demand_le (Midturn.total_run ?_ (Nat.le_refl _))
    exact Nat.le_of_add_right_le (Node.total_unrest _ rests)

/-- Whoever begins to wait for the registry has used up a lookup, and is answered in time. -/
theorem Move.fetching_new (m : Move s s') (ho : Orderly s) {c : CallId} {e : EntryId} {due : Nat}
    {o : Outcome} {next : AfterRefresh} (hc : (c, .fetching e due o next) ∈ s'.node.calls) :
    (c, .fetching e due o next) ∈ s.node.calls ∨
      due ≤ s.node.time + s.node.directory.options.fetchTimeout ∧
        ∀ b, s'.demand b + 1 ≤ s.demand b := by
  rcases m.apart_or_touch ho with ha | ht
  · exact .inl ((ha.calls (e := e) rfl).mp hc)
  · cases ht with
    | wake => exact .inl (Node.mem_unrest.mp hc).1
    | @wait n c' k v job hbusy =>
      rcases Node.mem_rest.mp hc with hc | ⟨-, hst⟩
      · exact .inl hc
      · cases job <;> cases hst
    | @ask n c' k v next' hwait =>
      rcases Node.mem_rest.mp hc with hc | ⟨rfl, hst⟩
      · exact .inl hc
      · cases hst
        refine .inr ⟨Nat.add_le_add_left (Nat.min_le_right ..) _, ?_⟩
        intro b
        have hcalls : ((n.asked c e next).rest c (.fetching e (n.time + n.waitFor e)
            (n.outcomeFor e) next)).total (Stage.demand b) = n.total (Stage.demand b) :=
          Node.total_rest ..
        simp only [Midturn.demand, Midturn.total, hcalls, Option.map_some, Option.map_none,
          Option.getD_some, Option.getD_none, Point.demand]
        omega
    | _ => exact .inl hc

end Moves

/-! ### A moment by which all of them are over -/

/-- With no more than `b` views cached, all lookups that may still begin before a new call starts
    are over by the deadline, one after the other. -/
structure Within (b deadline : Nat) (s : Midturn σ) : Prop where
  room : s.capacity ≤ b
  now : s.node.time + s.node.directory.options.fetchTimeout * s.demand b ≤ deadline
  due : ∀ {c e due o next}, (c, .fetching e due o next) ∈ s.node.calls →
    due + s.node.directory.options.fetchTimeout * s.demand b ≤ deadline

theorem exists_within (n : Node σ) : ∃ b deadline, Within b deadline ⟨n, none, none⟩ := by
  let b := Midturn.capacity (⟨n, none, none⟩ : Midturn σ)
  let left := n.directory.options.fetchTimeout * Midturn.demand b (⟨n, none, none⟩ : Midturn σ)
  refine ⟨b, n.time + n.total (fun st => st.due?.getD 0) + left, Nat.le_refl _, ?_, ?_⟩
  · exact Nat.add_le_add_right (Nat.le_add_right ..) _
  · intro c e due o next hc
    have hsum : due ≤ n.total fun st => st.due?.getD 0 :=
      List.le_sum_of_mem (List.mem_map.mpr ⟨_, hc, rfl⟩)
    exact Nat.add_le_add_right (Nat.le_add_left_of_le hsum) _

theorem Within.move [Registry σ] {b deadline : Nat} {s s' : Midturn σ} (h : Within b deadline s)
    (ho : Orderly s) (m : Move s s') (busy : s.busy = true)
    (taken : s.node.directory.sweepers ≠ []) : Within b deadline s' := by
  have hdemand := m.demand_le busy taken ((Nat.le_add_right ..).trans h.room)
  constructor
  · exact (m.capacity_le busy).trans h.room
  · rw [m.time ho, m.options ho]
    exact (Nat.add_le_add_left (Nat.mul_le_mul_left _ hdemand) _).trans h.now
  · intro c e due o next hc
    rw [m.options ho]
    rcases m.fetching_new ho hc with hold | ⟨hdue, hless⟩
    · exact (Nat.add_le_add_left (Nat.mul_le_mul_left _ hdemand) _).trans (h.due hold)
    · calc due + s.node.directory.options.fetchTimeout * s'.demand b
          ≤ s.node.time + s.node.directory.options.fetchTimeout +
              s.node.directory.options.fetchTimeout * s'.demand b := Nat.add_le_add_right hdue _
        _ = s.node.time + s.node.directory.options.fetchTimeout * (s'.demand b + 1) := by
            rw [Nat.mul_succ, Nat.add_assoc, Nat.add_comm (_ * _)]
        _ ≤ s.node.time + s.node.directory.options.fetchTimeout * s.demand b :=
            Nat.add_le_add_left (Nat.mul_le_mul_left _ (hless b)) _
        _ ≤ deadline := h.now

theorem Within.wake {b deadline : Nat} {n : Node σ} {c : CallId} {st : Stage σ}
    (h : Within b deadline (⟨n, none, none⟩ : Midturn σ)) (rests : n.stage? c = some st) :
    Within b deadline ⟨n.unrest c, some (c, st.point), none⟩ := by
  have htotal (f : Stage σ → Nat) (g : Point σ → Nat) (hst : g st.point = f st) :
      Midturn.total f g ⟨n.unrest c, some (c, st.point), none⟩ ≤
        Midturn.total f g ⟨n, none, none⟩ := by
    show (n.unrest c).total f + g st.point ≤ n.total f + 0
    rw [hst]
    exact Node.total_unrest f rests
  have hdemand : Midturn.demand b ⟨n.unrest c, some (c, st.point), none⟩ ≤
      Midturn.demand b ⟨n, none, none⟩ := Midturn.demand_le (htotal _ _ (st.demand_point b))
  have hleft := Nat.mul_le_mul_left n.directory.options.fetchTimeout hdemand
  constructor
  · exact (Nat.add_le_add_left (htotal _ _ st.capacity_point) _).trans h.room
  · exact (Nat.add_le_add_left hleft _).trans h.now
  · intro c' e due o next hc
    exact (Nat.add_le_add_left hleft _).trans (h.due (Node.mem_unrest.mp hc).1)

theorem Within.wait {b deadline time : Nat} {n : Node σ}
    (h : Within b deadline (⟨n, none, none⟩ : Midturn σ)) {c : CallId} {e : EntryId} {due : Nat}
    {o : Outcome} {next : AfterRefresh} (hc : (c, .fetching e due o next) ∈ n.calls)
    (hle : time ≤ due) : Within b deadline (⟨{ n with time }, none, none⟩ : Midturn σ) :=
  ⟨h.room, (Nat.add_le_add_right hle _).trans (h.due hc), h.due⟩

/-! ### The members of a pass -/

/-- The members of a pass have been made. -/
theorem Sweeping.lt_length_of_leg {s : Midturn σ} (h : Sweeping s) (hs : Sound s) {c : CallId}
    {e : EntryId} {leg : Leg} {rest : List Leg} (hlegs : (s.legs c e).Perm (leg :: rest)) :
    e < s.node.directory.entries.length := by
  obtain ⟨members, all, m, hpass, hm, rfl⟩ := h.member_of_leg hlegs
  obtain ⟨before, hbefore, hlisted⟩ :=
    h.swept.listed_of_openPass (h.passing hpass).begun (List.mem_map_of_mem hm)
  obtain ⟨l, hl, hwhat⟩ := hlisted.created
  apply Nat.lt_of_not_le
  intro hle
  have hforgot := (hs.told m.entry).unmade hle l (hbefore.subset hl) (by rw [hwhat]; rfl)
  cases hwhat.symm.trans hforgot

/-- The members that wait for a write lock stand in line for it. -/
def Mustered (s : Midturn σ) : Prop :=
  ∀ c e sweep, (c, .refreshing e (.member sweep)) ∈ s.node.calls → c ∈ (s.node.entry e).writers

/-- The stage of a member that waits for a write lock. -/
def Stage.IsMember (st : Stage σ) : Prop := ∃ e sweep, st = .refreshing e (.member sweep)

theorem mustered_iff {s : Midturn σ} : Mustered s ↔ Lined Stage.IsMember s := by
  constructor
  · rintro h c st e hc ⟨v, sweep, rfl⟩ hline
    cases hline
    exact h c e sweep hc
  · intro h c e sweep hc
    exact h c _ e hc ⟨e, sweep, rfl⟩ rfl

/-- **Every member that begins to wait gets in line.** -/
theorem Mustered.move [Registry σ] {s s' : Midturn σ} (h : Mustered s) (hs : Sound s)
    (hsw : Sweeping s) (m : Move s s') : Mustered s' := by
  refine mustered_iff.mpr ((mustered_iff.mp h).move hs.inLine hs.orderly ?_ m)
  intro c e job hrun hmember
  obtain ⟨_, sweep, hst⟩ := hmember
  cases job with
  | change => cases hst
  | refresh next =>
    cases hst
    -- a member's view has been made, so there is a line to get into
    have hlegs : (s.legs sweep e).Perm (.toAsk :: (s.node.legs sweep e ++
        enlistedLegs sweep e s.enlisting)) := by
      simp [Midturn.legs, hrun, Point.leg?]
    exact hsw.lt_length_of_leg hs hlegs

/-! ### Whose turn it is -/

theorem Stage.of_leg?_eq_some {c : CallId} {e : EntryId} {st : Stage σ} {leg : Leg}
    (h : st.leg? c e = some leg) :
    st = .refreshing e (.member c) ∨ ∃ due o, st = .fetching e due o (.member c) := by
  cases st with
  | refreshing v next =>
    obtain ⟨rfl, rfl⟩ := AfterRefresh.leg?_eq_some h
    exact .inl rfl
  | fetching v due o next =>
    obtain ⟨rfl, rfl⟩ := AfterRefresh.leg?_eq_some h
    exact .inr ⟨due, o, rfl⟩
  | _ => cases h

/-- While nobody can take a turn, a call in the line for a write lock waits for the registry. -/
theorem InLine.fetching_of_idle {n : Node σ} (h : InLine (⟨n, none, none⟩ : Midturn σ))
    (ho : Orderly (⟨n, none, none⟩ : Midturn σ)) (idle : n.nextAwake = none) {e : EntryId}
    {c : CallId} (hc : c ∈ (n.entry e).writers) :
    ∃ c' due o next, (c', .fetching e due o next) ∈ n.calls := by
  obtain ⟨c', rest, hline⟩ := List.exists_cons_of_ne_nil (List.ne_nil_of_mem hc)
  have hwrites : n.writes c' e = true := by simp [Node.writes, hline]
  have hin : c' ∈ (n.entry e).writers := by simp [hline]
  rcases h.present hin with ⟨st, hst, hline⟩ | hrun
  · have hasleep := Node.not_awake_of_idle idle (ho.stage?_eq hst)
    cases st with
    | fetching v due o next =>
      cases hline
      exact ⟨c', due, o, next, hst⟩
    | refreshing v next | changing v change next =>
      cases hline
      cases hwrites.symm.trans hasleep
    | _ => cases hline
  · cases hrun

/-- While nobody can take a turn and somebody stands in line for the sweep lock, the registry has
    yet to answer a lookup. -/
theorem Sweeping.fetching_of_idle {n : Node σ} (h : Sweeping (⟨n, none, none⟩ : Midturn σ))
    (hs : Sound (⟨n, none, none⟩ : Midturn σ)) (hm : Mustered (⟨n, none, none⟩ : Midturn σ))
    (taken : n.directory.sweepers ≠ []) (idle : n.nextAwake = none) :
    ∃ c e due o next, (c, .fetching e due o next) ∈ n.calls := by
  obtain ⟨sweep, rest, hline⟩ := List.exists_cons_of_ne_nil taken
  have hsweeps : n.sweeps sweep = true := by simp [Node.sweeps, hline]
  have hin : sweep ∈ n.directory.sweepers := by simp [hline]
  rcases h.line.present.mp hin with ⟨st, hst, hsweep⟩ | ⟨p, hrun, -⟩
  · cases st with
    | awaitingSweep =>
      have hasleep := Node.not_awake_of_idle idle (hs.orderly.stage?_eq hst)
      cases hsweeps.symm.trans hasleep
    | pass forced members =>
      have hpassing := h.passing (.resting hst)
      obtain ⟨m, hmem, hwaits⟩ := List.all_eq_false.mp hpassing.all
      cases hpassing.tracked m hmem with
      | reported told => exact absurd (by rw [told]; rfl) hwaits
      | @pending leg waits account =>
        have hleg : leg ∈ n.legs sweep m.entry := by
          have hmem := account.legs.symm.subset List.mem_cons_self
          simpa [Midturn.legs, enlistedLegs] using hmem
        obtain ⟨⟨c, st⟩, hc, hleg⟩ := List.mem_filterMap.mp hleg
        rcases Stage.of_leg?_eq_some hleg with rfl | ⟨due, o, rfl⟩
        · obtain ⟨c', due, o, next, hc'⟩ :=
            hs.inLine.fetching_of_idle hs.orderly idle (hm c _ sweep hc)
          exact ⟨c', m.entry, due, o, next, hc'⟩
        · exact ⟨c, m.entry, due, o, _, hc⟩
    | _ => cases hsweep
  · cases hrun

/-- Who stands in line for the sweep lock leaves when its pass is over. -/
theorem SweepLine.stays [Registry σ] {s s' : Midturn σ} (h : SweepLine s) (t : Stroke s s')
    {c : CallId} (hc : c ∈ s.node.directory.sweepers) :
    c ∈ s'.node.directory.sweepers ∨ ∃ r, s'.running = some (c, .replying r) := by
  cases t with
  | aloof ha => exact .inl (ha.sweepers ▸ hc)
  | ask hp => exact .inl (hp.sweepers ▸ hc)
  | hear hp => exact .inl (hp.sweepers ▸ hc)
  | take | queue => exact .inl (List.mem_append_left _ hc)
  | close n c' k forced members =>
    have hhead : n.directory.sweepers.head? = some c' := h.holder (.inr ⟨_, rfl, rfl⟩)
    obtain ⟨rest, hrest⟩ := List.head?_eq_some_iff.mp hhead
    have hpublish := n.unswept_publish c' (Node.changedMembers members)
    have htail : (n.closed c' members).directory.sweepers = rest := by
      show (n.publish c' _).directory.sweepers.tail = rest
      rw [hpublish.sweepers, hrest, List.tail_cons]
    replace hc : c ∈ c' :: rest := hrest ▸ hc
    rcases List.mem_cons.mp hc with rfl | hc
    · exact .inr ⟨_, rfl⟩
    · exact .inl (htail ▸ hc)
  | _ => exact .inl hc

/-! ### The turns of a sweep -/

/-- What is known about sweeps while time only passes when nobody can take a turn. -/
structure Brisk (s : Midturn σ) : Prop where
  steady : Steady s
  sweeping : Sweeping s
  mustered : Mustered s

namespace Brisk

variable {s s' : Midturn σ}

theorem move [Registry σ] (h : Brisk s) (m : Move s s') : Brisk s' where
  steady := h.steady.move m
  sweeping := h.sweeping.move h.steady.regular m
  mustered := h.mustered.move h.steady.sound h.sweeping m

theorem wait {n : Node σ} {due : Nat} (h : Brisk (⟨n, none, none⟩ : Midturn σ))
    (hdue : n.nextDue = some due) :
    Brisk (⟨{ n with time := due }, none, none⟩ : Midturn σ) where
  steady := h.steady.wait hdue
  sweeping := h.sweeping.pass due
  mustered := h.mustered

theorem of_untouched {n : Node σ} (untouched : n.Untouched) (empty : n.directory.entries = []) :
    Brisk (⟨n, none, none⟩ : Midturn σ) where
  steady := .of_untouched untouched empty
  sweeping := .of_untouched untouched
  mustered c e sweep hc := by simp [untouched.calls] at hc

theorem of_reachable [Registry σ] {start n : Node σ} (untouched : start.Untouched)
    (empty : start.directory.entries = []) (reach : start.Reachable n) :
    Brisk (⟨n, none, none⟩ : Midturn σ) :=
  (reach.keeps (.of_untouched untouched empty) (fun _ h m => h.move m)
    (fun _ _ hdue h => h.wait hdue) (.of_untouched untouched empty)).2

end Brisk

/-- The call `c` stands in line for the sweep lock and has its turn by the deadline, or its turn
    is over. -/
def Queues (c : CallId) (b deadline : Nat) (s : Midturn σ) : Prop :=
  c ∈ s.node.directory.sweepers ∧ Within b deadline s ∨ s.Over c

namespace Queues

variable {c : CallId} {b deadline : Nat}

theorem move [Registry σ] {s s' : Midturn σ} (h : Queues c b deadline s) (hb : Brisk s)
    (m : Move s s') (busy : s.busy = true) : Queues c b deadline s' := by
  rcases h with ⟨hin, hwithin⟩ | hover
  · have ho := hb.steady.sound.orderly
    rcases hb.sweeping.line.stays (m.stroke ho) hin with hstays | ⟨r, hrun⟩
    · exact .inl ⟨hstays, hwithin.move ho m busy (List.ne_nil_of_mem hin)⟩
    · exact .inr (.inr ⟨r, hrun⟩)
  · exact .inr (hover.move m)

theorem over_of_rest {n : Node σ} (h : Midturn.Over (⟨n, none, none⟩ : Midturn σ) c) :
    ∃ r ∈ n.replies, r.call = c := by
  rcases h with hreply | ⟨r, hrun⟩
  · exact hreply
  · cases hrun

/-- **Whatever the calls in flight do, the sweep has its turn by the same deadline.** -/
theorem advance [Registry σ] {n m : Node σ} (h : Queues c b deadline (⟨n, none, none⟩ : Midturn σ))
    (hb : Brisk (⟨n, none, none⟩ : Midturn σ)) (go : n.Advance m) :
    Brisk (⟨m, none, none⟩ : Midturn σ) ∧ Queues c b deadline (⟨m, none, none⟩ : Midturn σ) := by
  cases go with
  | resume x hx =>
    obtain ⟨st, rests, awake, onward⟩ := moves_resume n x hx
    have hwake : Move ⟨n, none, none⟩ ⟨n.unrest x, some (x, st.point), none⟩ := .wake rests awake
    have hqueues : Queues c b deadline ⟨n.unrest x, some (x, st.point), none⟩ := by
      rcases h with ⟨hin, hwithin⟩ | hover
      · exact .inl ⟨hin, hwithin.wake rests⟩
      · exact .inr (hover.move hwake)
    exact onward.keeps (I := fun s => Brisk s ∧ Queues c b deadline s)
      (fun busy hs m => ⟨hs.1.move m, hs.2.move hs.1 m busy⟩) ⟨hb.move hwake, hqueues⟩
  | wait due idle hdue =>
    refine ⟨hb.wait hdue, ?_⟩
    rcases h with ⟨hin, hwithin⟩ | hover
    · have hs := hb.steady.sound
      obtain ⟨x, e, d, o, next, hc⟩ :=
        hb.sweeping.fetching_of_idle hs hb.mustered (List.ne_nil_of_mem hin) idle
      exact .inl ⟨hin, hwithin.wait hc (Node.nextDue_le hdue hc rfl)⟩
    · exact .inr (.inl (over_of_rest hover))

end Queues

/-- **Who stands in line for the sweep lock is bound to have its turn and to answer.** -/
theorem Brisk.inevitable [Registry σ] {n : Node σ} {c : CallId}
    (h : Brisk (⟨n, none, none⟩ : Midturn σ)) (hin : c ∈ n.directory.sweepers) :
    Node.Inevitable (fun m => ∃ r ∈ m.replies, r.call = c) n := by
  obtain ⟨b, deadline, hwithin⟩ := exists_within n
  refine Node.inevitable_of_deadline
    (I := fun m => Brisk (⟨m, none, none⟩ : Midturn σ) ∧
      Queues c b deadline (⟨m, none, none⟩ : Midturn σ))
    deadline (fun hm => hm.1.steady) (fun hm go => hm.2.advance hm.1 go) ?_
    ⟨h, .inl ⟨hin, hwithin⟩⟩
  rintro m ⟨hm, hqueues⟩ hnot idle
  rcases hqueues with ⟨hin, hwithin⟩ | hover
  · obtain ⟨x, e, d, o, next, hc⟩ := hm.sweeping.fetching_of_idle hm.steady.sound hm.mustered
      (List.ne_nil_of_mem hin) idle
    obtain ⟨due, hdue, hle⟩ := Node.exists_nextDue_le hc rfl
    exact ⟨due, hdue, hle.trans ((Nat.le_add_right ..).trans (hwithin.due hc))⟩
  · exact absurd (Queues.over_of_rest hover) hnot

end ServiceFinder
