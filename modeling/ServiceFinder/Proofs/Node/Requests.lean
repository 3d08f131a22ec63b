/-
  ServiceFinder/Proofs/Node/Requests.lean
  =======================================
  **What becomes of a node's monitor.**

  Calls share one monitor, and whatever they do to it they do by requests.  A turn makes any
  number of requests, but the clock is touched only by the calls that are about nothing else
  (`Node.LooseTurn.asks`).  So what every request keeps holds of the monitor on every course, and
  what every request keeps that does not set the clock back holds as long as nobody sets it back.
-/
import ServiceFinder.Proofs.Health.Monitor
import ServiceFinder.Proofs.Node.Calls
import ServiceFinder.Proofs.Node.Choosing

namespace ServiceFinder

variable {σ : Type}

/-! ### Requests in a row -/

namespace Monitor

/-- Whether a request moves the clock. -/
def Request.movesClock : Request → Bool
  | setClock _ | advanceClock _ => true
  | _ => false

theorem clock_perform (m : Monitor) {q : Request} (h : q.movesClock = false) :
    (m.perform q).clock = m.clock := by
  cases q with
  | check server i => exact (m.check_rest server i).1
  | setClock | advanceClock => cases h
  | _ => rfl

/-- `m'` is `m` after some requests that leave the clock alone. -/
def Asked (m m' : Monitor) : Prop :=
  ∃ qs, (∀ q ∈ qs, Request.movesClock q = false) ∧ m' = m.performAll qs

namespace Asked

variable {m m' m'' : Monitor}

theorem refl (m : Monitor) : m.Asked m := ⟨[], fun _ h => absurd h List.not_mem_nil, rfl⟩

theorem one (m : Monitor) {q : Request} (h : q.movesClock = false) : m.Asked (m.perform q) :=
  ⟨[q], List.forall_mem_singleton.mpr h, rfl⟩

theorem trans (h : m.Asked m') (h' : m'.Asked m'') : m.Asked m'' := by
  obtain ⟨qs, hqs, rfl⟩ := h
  obtain ⟨qs', hqs', rfl⟩ := h'
  exact ⟨qs ++ qs', List.forall_mem_append.mpr ⟨hqs, hqs'⟩, (m.performAll_append qs qs').symm⟩

/-- What every such request keeps, any number of them keep. -/
theorem keeps {J : Monitor → Prop} (h : m.Asked m')
    (perform : ∀ {m q}, Request.movesClock q = false → J m → J (m.perform q)) (hm : J m) :
    J m' := by
  obtain ⟨qs, hqs, rfl⟩ := h
  induction qs generalizing m with
  | nil => exact hm
  | cons q qs ih =>
    obtain ⟨hq, hqs⟩ := List.forall_mem_cons.mp hqs
    exact ih (perform hq hm) hqs

end Asked

theorem asked_check (m : Monitor) (server : String) (i : Invocation) :
    m.Asked (m.check server i).2 :=
  .one m (q := .check server i) rfl

theorem asked_screen (m : Monitor) (i : Invocation) (servers : List Instance) :
    m.Asked (m.screen i servers).2 := by
  induction servers generalizing m with
  | nil => exact .refl m
  | cons server rest ih =>
    have hcheck := m.asked_check server.instanceId i
    unfold screen
    split
    · rcases hanswer : m.check server.instanceId i with ⟨_ | _ | _, m'⟩
      all_goals
        rw [hanswer] at hcheck
        dsimp only
      · exact hcheck.trans (ih m')
      · exact hcheck.trans (ih m')
      · exact hcheck
    · exact ih m

end Monitor

theorem Balancer.asked_choose (b : Balancer) (servers : List Instance) (i : Invocation) :
    b.monitor.Asked (b.choose servers i).2.monitor := by
  have hscreen := b.monitor.asked_screen i servers
  unfold choose
  split
  all_goals
    rename_i heq
    rw [heq] at hscreen
    exact hscreen

/-! ### What moves ask -/

namespace Node

theorem balancer_evictIfGone (n : Node σ) (e : EntryId) :
    (n.evictIfGone e).balancer = n.balancer := by
  unfold evictIfGone evict
  split
  · split <;> rfl
  · rfl

theorem balancer_evictAll (n : Node σ) (views : List EntryId) :
    (views.foldl evictIfGone n).balancer = n.balancer := by
  induction views generalizing n with
  | nil => rfl
  | cons e views ih => exact (ih _).trans (n.balancer_evictIfGone e)

theorem asked_publish (n : Node σ) (c : CallId) (changed : List EntryId) :
    n.balancer.monitor.Asked (n.publish c changed).balancer.monitor := by
  have hretain (m : Monitor) (live : List String) : m.Asked (m.retain live) :=
    .one m (q := .retain live) rfl
  rw [← n.balancer_evictAll changed]
  unfold publish notify
  split
  · exact .refl _
  · exact .refl _
  · split
    · exact .refl _
    · exact hretain _ _

theorem asked_choice (n : Node σ) (e : EntryId) (i : Invocation) :
    n.balancer.monitor.Asked (n.choice e i).2.balancer.monitor := by
  have hchoose := n.balancer.asked_choose (n.entry e).listing.instances i
  unfold choice
  rcases heq : n.balancer.choose (n.entry e).listing.instances i with ⟨_ | s, balancer⟩
  all_goals
    rw [heq] at hchoose
    exact hchoose

theorem balancer_of_aside {n n' : Node σ} {op : Operation σ} {r : Reply}
    (h : n.aside op = some (r, n')) (hop : op.isDirect = false) : n'.balancer = n.balancer := by
  cases op with
  | sleep ms =>
    simp only [aside] at h
    split at h <;> cases h
    rfl
  | get | inspect | watch | statsOf | registry =>
    cases h
    rfl
  | finish | applyForPermit | checkAndReleasePermit | releasePermit | setClock | advanceClock =>
    cases hop
  | _ => cases h

end Node

theorem Quiet.asked {c : CallId} {n n' : Node σ} {p p' : Point σ} (q : Quiet c n p n' p')
    (hp : p.isDirect = false) : n.balancer.monitor.Asked n'.balancer.monitor := by
  cases q with
  | aside h =>
    rw [Node.balancer_of_aside h hp]
    exact .refl _
  | view e =>
    rw [n.balancer_evictIfGone e]
    exact .refl _
  | choose e i =>
    have hchoice := (n.evictIfGone e).asked_choice e i
    rwa [n.balancer_evictIfGone e] at hchoice
  | close forced members => exact n.asked_publish c (Node.changedMembers members)
  | publish change changed => exact n.asked_publish c changed
  | _ => exact .refl _

/-- **A move makes requests that leave the clock alone, unless its operation is about the permit,
    the clock or the statistics themselves.** -/
theorem Move.asked [Registry σ] {s s' : Midturn σ} (m : Move s s') (hs : s.isDirect = false) :
    s.node.balancer.monitor.Asked s'.node.balancer.monitor := by
  cases m with
  | quiet q => exact q.asked hs
  | startPuller n c k interval =>
    rw [n.startPuller_eq]
    exact .refl _
  | _ => exact .refl _

theorem Onward.asked [Registry σ] {s s' : Midturn σ} (onward : Onward s s')
    (hs : s.isDirect = false) : s.node.balancer.monitor.Asked s'.node.balancer.monitor := by
  suffices s'.isDirect = false ∧ s.node.balancer.monitor.Asked s'.node.balancer.monitor from
    this.2
  exact onward.keeps
    (I := fun s' => s'.isDirect = false ∧ s.node.balancer.monitor.Asked s'.node.balancer.monitor)
    (fun busy ⟨hdirect, hasked⟩ m => ⟨(m.grants busy hdirect).1, hasked.trans (m.asked hdirect)⟩)
    ⟨hs, .refl _⟩

/-! ### What turns ask -/

/-- One turn of a monitor: requests that leave the clock alone, or a single one of any kind. -/
def Monitor.Asks (m m' : Monitor) : Prop := m.Asked m' ∨ ∃ q, m' = m.perform q

namespace Node

variable [Registry σ]

theorem asks_start (n : Node σ) (c : CallId) (op : Operation σ) :
    n.balancer.monitor.Asks (n.start c op).balancer.monitor := by
  cases hop : op.isDirect with
  | true =>
    cases op with
    | finish i success =>
      unfold Node.start Node.finish
      dsimp only
      split
      · exact .inl (.refl _)
      · exact .inr ⟨.finish _ success _, rfl⟩
    | applyForPermit i => exact .inr ⟨.apply i, rfl⟩
    | checkAndReleasePermit i => exact .inr ⟨.checkAndRelease i, rfl⟩
    | releasePermit => exact .inr ⟨.release, rfl⟩
    | setClock now => exact .inr ⟨.setClock now, rfl⟩
    | advanceClock d => exact .inr ⟨.advanceClock d, rfl⟩
    | _ => cases hop
  | false => exact .inl ((moves_starting n c op).asked hop)

theorem asks_resume (n : Node σ) (c : CallId) (h : n.isAwake c = true) :
    n.balancer.monitor.Asks (n.resume c).balancer.monitor := by
  obtain ⟨st, rests, -, onward⟩ := moves_resume n c h
  cases hdirect : st.point.isDirect with
  | true =>
    cases st with
    | scheduled due op =>
      have hresume : n.resume c = (n.unrest c).start c op := by rw [Node.resume, rests]
      rw [hresume]
      exact (n.unrest c).asks_start c op
    | _ => cases hdirect
  | false => exact .inl (onward.asked hdirect)

/-- **A turn makes requests that leave the clock alone, or a single request.** -/
theorem LooseTurn.asks {n n' : Node σ} (t : LooseTurn n n') :
    n.balancer.monitor.Asks n'.balancer.monitor := by
  cases t with
  | call op => exact n.newCall.2.asks_start n.nextCall op
  | callAfter | pass => exact .inl (.refl _)
  | resume c h => exact n.asks_resume c h

/-- What every request keeps holds of the monitor on every course. -/
theorem Course.keeps_monitor {J : Monitor → Prop} {start n : Node σ} (course : start.Course n)
    (perform : ∀ {m q}, J m → J (m.perform q)) (h : J start.balancer.monitor) :
    J n.balancer.monitor := by
  induction course with
  | refl => exact h
  | tail _ t ih =>
    rcases t.asks with hasked | ⟨q, hq⟩
    · exact hasked.keeps (fun _ => perform) ih
    · rw [hq]
      exact perform ih

end Node

end ServiceFinder
