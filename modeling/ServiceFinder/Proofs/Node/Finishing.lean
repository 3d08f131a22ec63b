/-
  ServiceFinder/Proofs/Node/Finishing.lean
  ========================================
  **Whatever calls are made together, all come to an end.**

  Calls wait for each other in three ways: for the sweep lock, for the first refresh of a view
  and for the write lock of a view.  No wait leads back to where it began.  Who waits for the
  sweep lock waits for a pass and so for the refreshes of its members, who waits for a first
  refresh waits for the call that makes it, and who stands in the line for a write lock waits
  for the call that has it, which waits for nothing but the registry.  So where nobody can take
  a turn, the registry has a lookup to answer (`Tame.moving`).  Since every turn takes from what
  the calls in flight may still do, and time gives nothing back, they come to an end in whatever
  order they go on and however late (`Tame.certain`).
-/
import ServiceFinder.Proofs.Node.Answering
import ServiceFinder.Proofs.Node.Fitting
import ServiceFinder.Proofs.Node.SweepTurns
import ServiceFinder.Registry.Script

namespace ServiceFinder

variable {σ : Type}

/-! ### Turns at any time -/

namespace Node

/-- Somebody can take a turn, or the registry has yet to answer a lookup. -/
def Moving (n : Node σ) : Prop :=
  (∃ c, n.isAwake c = true) ∨ ∃ c e due o next, (c, Stage.fetching e due o next) ∈ n.calls

section Turns

variable [Registry σ]

/-- A call in flight takes a turn, at once or later. -/
inductive Headway : Node σ → Node σ → Prop where
  | resume {n : Node σ} {time : Nat} {c : CallId} (later : n.time ≤ time)
      (awake : isAwake { n with time } c = true) : Headway n (resume { n with time } c)

/-- In whatever order the calls in flight go on, and however late, they come to `P`. -/
inductive Certain (P : Node σ → Prop) : Node σ → Prop where
  | here {n : Node σ} (h : P n) : Certain P n
  | later {n m : Node σ} (go : Headway n m) (all : ∀ m, Headway n m → Certain P m) :
      Certain P n

/-- What can become of a node where the calls `cs` are made, the latest first, while time passes
    and those in flight go on.  None of them begins to pull, and whoever names a view has one that
    was made. -/
inductive Group (n : Node σ) : List CallId → Node σ → Prop where
  | none : Group n [] n
  | call {cs m} (group : Group n cs m) (op : Operation σ)
      (fits : op.Fits m.directory.entries.length) : Group n (m.nextCall :: cs) (m.call op).2
  | callAfter {cs m} (group : Group n cs m) (wait : Nat) (op : Operation σ)
      (fits : op.Fits m.directory.entries.length) :
      Group n (m.nextCall :: cs) (m.callAfter wait op).2
  | resume {cs m} (group : Group n cs m) (c : CallId) (awake : m.isAwake c = true) :
      Group n cs (m.resume c)
  | pass {cs m} (group : Group n cs m) (time : Nat) (later : m.time ≤ time) :
      Group n cs { m with time }

end Turns

/-- Who waits for a moment is awake from that moment on. -/
theorem isAwake_of_due {n : Node σ} (ho : Orderly (⟨n, none, none⟩ : Midturn σ)) {c : CallId}
    {st : Stage σ} {due time : Nat} (rests : (c, st) ∈ n.calls) (hdue : st.due? = some due)
    (hle : due ≤ time) : isAwake { n with time } c = true := by
  have hstage : stage? { n with time } c = some st := ho.stage?_eq rests
  rw [isAwake, hstage, Option.any_some]
  cases st with
  | scheduled | sleeping | pulling | fetching =>
    cases hdue
    exact decide_eq_true hle
  | _ => cases hdue

end Node

/-! ### Nodes on which all calls end -/

/-- What is known while every call fits the node. -/
structure Tame (s : Midturn σ) : Prop where
  regular : Regular s
  sweeping : Sweeping s
  fitting : s.Fitting
  /-- Whoever waits for a write lock stands in line for it. -/
  lined : Lined (fun _ => True) s

namespace Tame

variable {s s' : Midturn σ} {n m : Node σ}

theorem orderly (h : Tame s) : Orderly s := h.regular.sound.orderly

/-- Whoever begins to wait for a write lock finds a line to stand in. -/
theorem lined_move [Registry σ] (h : Tame s) (m : Move s s') : Lined (fun _ => True) s' := by
  refine h.lined.move h.regular.sound.inLine h.orderly ?_ m
  intro c e job hrun _
  exact (h.fitting.running hrun).views e List.mem_cons_self

theorem move [Registry σ] (h : Tame s) (m : Move s s') (fitting : s'.Fitting) : Tame s' where
  regular := h.regular.move m
  sweeping := h.sweeping.move h.regular m
  fitting := fitting
  lined := h.lined_move m

/-- **Within a turn all calls stay such that they end.** -/
theorem move_busy [Registry σ] (h : Tame s) (m : Move s s') (busy : s.busy = true) : Tame s' :=
  h.move m (h.fitting.move h.regular.filed h.orderly m busy)

theorem pass (h : Tame (⟨n, none, none⟩ : Midturn σ)) {time : Nat} (hle : n.time ≤ time) :
    Tame (⟨{ n with time }, none, none⟩ : Midturn σ) where
  regular := h.regular.pass hle
  sweeping := h.sweeping.pass time
  fitting := h.fitting.pass time
  lined := h.lined

/-- On a node without calls there is nobody who does not fit. -/
theorem of_quiescent [Registry σ] {start : Node σ} (untouched : start.Untouched)
    (empty : start.directory.entries = []) (course : start.Course n) (quiescent : n.Quiescent) :
    Tame (⟨n, none, none⟩ : Midturn σ) := by
  have hcalls : n.calls = [] := quiescent
  obtain ⟨hregular, hsweeping⟩ := course.sweeping untouched empty
  refine ⟨hregular, hsweeping, ⟨?_, nofun, nofun⟩, ?_⟩
  · intro c st hc
    simp [hcalls] at hc
  · intro c st e hc
    simp [hcalls] at hc

/-! ### Nobody is stuck -/

/-- **While nobody can take a turn, whoever waits for another call waits for the registry.** -/
theorem fetching_of_idle (h : Tame (⟨n, none, none⟩ : Midturn σ)) (idle : n.nextAwake = none)
    {c : CallId} {st : Stage σ} (rests : (c, st) ∈ n.calls) (untimed : st.due? = none) :
    ∃ c e due o next, (c, .fetching e due o next) ∈ n.calls := by
  have hs := h.regular.sound
  -- the locks from the outermost to the innermost
  have swept (hsweep : st.isSweep = true) :
      ∃ c e due o next, (c, .fetching e due o next) ∈ n.calls := by
    have hin : c ∈ n.directory.sweepers := h.sweeping.line.present.mpr (.inl ⟨st, rests, hsweep⟩)
    have mustered : Mustered (⟨n, none, none⟩ : Midturn σ) :=
      fun c e sweep hc => h.lined c _ e hc trivial rfl
    exact h.sweeping.fetching_of_idle hs mustered (List.ne_nil_of_mem hin) idle
  have lined {e : EntryId} (hline : st.line? = some e) :
      ∃ c e due o next, (c, .fetching e due o next) ∈ n.calls := by
    have hin := h.lined c st e rests trivial hline
    obtain ⟨c', due, o, next, hc'⟩ := hs.inLine.fetching_of_idle hs.orderly idle hin
    exact ⟨c', e, due, o, next, hc'⟩
  cases st with
  | awaitingSweep | pass => exact swept rfl
  | refreshing | changing => exact lined rfl
  | awaitingFirst e next =>
    have he := (h.fitting.calls rests).views e (List.mem_singleton_self e)
    rcases (h.regular.first e he).rest_cases with ⟨c', due, o, next', hc', -⟩ | ⟨hover, -⟩
    · exact ⟨c', e, due, o, _, hc'⟩
    · -- who waits for a first refresh is awake once it is over
      have hasleep := Node.not_awake_of_idle idle (hs.orderly.stage?_eq rests)
      have hawake : (n.entry e).isInitialized = true := beq_iff_eq.mpr hover
      cases hawake.symm.trans hasleep
  | scheduled | sleeping | pulling | fetching => cases untimed

theorem moving (h : Tame (⟨n, none, none⟩ : Midturn σ)) {c : CallId} {st : Stage σ}
    (rests : (c, st) ∈ n.calls) (untimed : st.due? = none) : n.Moving := by
  by_cases idle : n.nextAwake = none
  · exact .inr (h.fetching_of_idle idle rests untimed)
  · exact .inl (Node.exists_awake idle)

/-- Somebody in flight can take a turn, now or later. -/
theorem exists_headway [Registry σ] (h : Tame (⟨n, none, none⟩ : Midturn σ))
    (inFlight : ¬ n.Quiescent) : ∃ m, n.Headway m := by
  have timed {c : CallId} {st : Stage σ} {due : Nat} (rests : (c, st) ∈ n.calls)
      (hdue : st.due? = some due) : ∃ m, n.Headway m :=
    ⟨_, .resume (Nat.le_max_left n.time due)
      (Node.isAwake_of_due h.orderly rests hdue (Nat.le_max_right ..))⟩
  obtain ⟨⟨c, st⟩, rests⟩ := List.exists_mem_of_ne_nil _ inFlight
  cases hdue : st.due? with
  | some due => exact timed rests hdue
  | none =>
    rcases h.moving rests hdue with ⟨c', awake⟩ | ⟨c', e, due, o, next, hc'⟩
    · exact ⟨_, .resume (Nat.le_refl _) awake⟩
    · exact timed hc' rfl

/-! ### From turn to turn -/

section Turns

variable [Registry σ] {cs : List CallId}

theorem onward (h : Tame s) (hcs : ∀ c ∈ cs, s.Answering c) (onward : Onward s s') :
    Tame s' ∧ ∀ c ∈ cs, s'.Answering c :=
  onward.keeps (I := fun s => Tame s ∧ ∀ c ∈ cs, s.Answering c)
    (fun busy ⟨h, hcs⟩ m => ⟨h.move_busy m busy, fun c hc => (hcs c hc).move h.orderly m⟩) ⟨h, hcs⟩

theorem wake (h : Tame (⟨n, none, none⟩ : Midturn σ)) {c : CallId} {st : Stage σ}
    (rests : n.stage? c = some st) (awake : n.awake c st = true) :
    Tame ⟨n.unrest c, some (c, st.point), none⟩ :=
  h.move (.wake rests awake) (h.fitting.wake rests)

theorem resume (h : Tame (⟨n, none, none⟩ : Midturn σ))
    (hcs : ∀ c ∈ cs, Midturn.Answering ⟨n, none, none⟩ c) {c : CallId}
    (awake : n.isAwake c = true) : Tame (⟨n.resume c, none, none⟩ : Midturn σ) ∧
      ∀ c' ∈ cs, Midturn.Answering ⟨n.resume c, none, none⟩ c' := by
  obtain ⟨st, rests, hawake, onward⟩ := moves_resume n c awake
  exact (h.wake rests hawake).onward
    (fun c' hc' => (hcs c' hc').move h.orderly (.wake rests hawake)) onward

/-- A call that is made answers, and those in flight go on. -/
theorem call (h : Tame (⟨n, none, none⟩ : Midturn σ))
    (hcs : ∀ c ∈ cs, Midturn.Answering ⟨n, none, none⟩ c) {op : Operation σ}
    (fits : op.Fits n.directory.entries.length) :
    Tame (⟨(n.call op).2, none, none⟩ : Midturn σ) ∧
      ∀ c ∈ n.nextCall :: cs, Midturn.Answering ⟨(n.call op).2, none, none⟩ c := by
  have hcall : Move ⟨n, none, none⟩ ⟨n.newCall.2, some (n.nextCall, .starting op), none⟩ :=
    .call n op
  refine (h.move hcall (h.fitting.call fits)).onward ?_ (moves_starting ..)
  intro c hc
  rcases List.mem_cons.mp hc with rfl | hc
  · exact .running rfl rfl
  · exact (hcs c hc).move h.orderly hcall

theorem callAfter (h : Tame (⟨n, none, none⟩ : Midturn σ))
    (hcs : ∀ c ∈ cs, Midturn.Answering ⟨n, none, none⟩ c) (wait : Nat) {op : Operation σ}
    (fits : op.Fits n.directory.entries.length) :
    Tame (⟨(n.callAfter wait op).2, none, none⟩ : Midturn σ) ∧
      ∀ c ∈ n.nextCall :: cs, Midturn.Answering ⟨(n.callAfter wait op).2, none, none⟩ c := by
  have hcall : Move ⟨n, none, none⟩ ⟨(n.callAfter wait op).2, none, none⟩ := .callAfter n wait op
  refine ⟨h.move hcall (h.fitting.callAfter wait fits), ?_⟩
  intro c hc
  rcases List.mem_cons.mp hc with rfl | hc
  · exact .resting (Node.mem_rest_self ..) rfl
  · exact (hcs c hc).move h.orderly hcall

theorem group (h : Tame (⟨n, none, none⟩ : Midturn σ)) (group : n.Group cs m) :
    Tame (⟨m, none, none⟩ : Midturn σ) ∧ ∀ c ∈ cs, Midturn.Answering ⟨m, none, none⟩ c := by
  induction group with
  | none => exact ⟨h, nofun⟩
  | call _ op fits ih => exact ih.1.call ih.2 fits
  | callAfter _ wait op fits ih => exact ih.1.callAfter ih.2 wait fits
  | resume _ c awake ih => exact ih.1.resume ih.2 awake
  | pass _ time later ih => exact ⟨ih.1.pass later, fun c hc => (ih.2 c hc).pass time⟩

theorem headway (h : Tame (⟨n, none, none⟩ : Midturn σ))
    (hcs : ∀ c ∈ cs, Midturn.Answering ⟨n, none, none⟩ c) (go : n.Headway m) :
    Tame (⟨m, none, none⟩ : Midturn σ) ∧ ∀ c ∈ cs, Midturn.Answering ⟨m, none, none⟩ c := by
  cases go with
  | resume later awake => exact (h.pass later).resume (fun c hc => (hcs c hc).pass _) awake

/-! ### An end to it -/

omit [Registry σ] in
/-- The passing of time gives a call that does not pull nothing more to do. -/
theorem effort_pass (h : Tame (⟨n, none, none⟩ : Midturn σ)) (time : Nat) :
    Node.effort { n with time } = n.effort := by
  have hcalls (b : Nat) : Node.total { n with time } (Stage.effort b time) =
      n.total (Stage.effort b n.time) := by
    refine congrArg List.sum (List.map_congr_left ?_)
    rintro ⟨c, st⟩ hc
    have hpulls := (h.fitting.calls hc).pulls
    cases st with
    | pulling => cases hpulls
    | _ => rfl
  unfold Node.effort Midturn.effort Midturn.total
  simp only [hcalls]
  rfl

theorem effort_lt (h : Tame (⟨n, none, none⟩ : Midturn σ)) (go : n.Headway m) :
    m.effort < n.effort := by
  cases go with
  | @resume time c later awake =>
    have hpass := h.pass later
    rw [← h.effort_pass time]
    exact Node.effort_resume_lt (I := Tame) (fun h => h.orderly)
      (fun h hrun => h.fitting.timely hrun) (fun busy h m => h.move_busy m busy)
      (fun rests awake => hpass.wake rests awake) awake

/-- **All calls in flight end, and whoever is to answer has answered then.** -/
theorem certain {n : Node σ} (h : Tame (⟨n, none, none⟩ : Midturn σ))
    (hcs : ∀ c ∈ cs, Midturn.Answering ⟨n, none, none⟩ c) :
    n.Certain fun k => k.Quiescent ∧ ∀ c ∈ cs, ∃ r ∈ k.replies, r.call = c := by
  by_cases quiescent : n.Quiescent
  · exact .here ⟨quiescent, fun c hc => (hcs c hc).reply quiescent⟩
  · obtain ⟨m, go⟩ := h.exists_headway quiescent
    refine .later go ?_
    intro m go
    have hless := h.effort_lt go
    obtain ⟨h', hcs'⟩ := h.headway hcs go
    exact h'.certain hcs'
termination_by n.effort
decreasing_by exact hless

end Turns

end Tame

/-! ### Every group -/

/-- **No group of calls comes to a standstill:** whoever waits for another call waits for one that
    can go on or for the registry, and in whatever order and however late the calls go on, they
    all end and those that were made have answered. -/
theorem groups_come_to_an_end [Registry σ] {start n m : Node σ} {cs : List CallId}
    (untouched : start.Untouched) (empty : start.directory.entries = [])
    (course : start.Course n) (quiescent : n.Quiescent) (group : n.Group cs m) :
    (∀ c st, (c, st) ∈ m.calls → st.due? = none → m.Moving) ∧
      m.Certain fun k => k.Quiescent ∧ ∀ c ∈ cs, ∃ r ∈ k.replies, r.call = c := by
  have tame : Tame (⟨n, none, none⟩ : Midturn σ) :=
    .of_quiescent untouched empty course quiescent
  obtain ⟨tame', answering⟩ := tame.group group
  exact ⟨fun c st rests untimed => tame'.moving rests untimed, tame'.certain answering⟩

/-! ### A crowd at two views -/

namespace Crowd

def key (service : String) : ServiceKey := ⟨"shop", "store", service, everyVersion⟩

def server (id : String) : Instance := { instanceId := id, serviceId := "v1", endpoints := [] }

def found (ids : List String) : Answer := .found ⟨ids.map server, none⟩

/-- The first answers come at once, and all later ones take their time; nobody knows the
    stock. -/
def start : Node Script :=
  .caching ⟨[(key "orders", [⟨found ["a"], 0⟩, ⟨found ["b"], 50⟩]),
    (key "users", [⟨found ["c"], 0⟩, ⟨found ["d"], 20⟩]),
    (key "stock", [⟨.notFound, 30⟩])]⟩ {} .retainNonEmpty

def filled : Node Script :=
  start.follow [.call (.find (key "orders")), .call (.find (key "users"))]

def up : InstanceChange := .about "store" "orders" .create (server "e")

/-- The orders are refreshed, a sweep and a change wait for them, another sweep waits for the
    first, and two lookups of the stock share its first refresh. -/
def acts : List (Node.Act Script) :=
  [.call (.forceRefresh 0), .call .forceSweep, .call (.change up), .call .forceSweep, .call .sweep,
    .call (.find (key "stock")), .call (.find (key "stock")), .call (.safeMode true),
    .call .forgetRevisions, .pass 20, .resume 5]

def crowded : Node Script := filled.follow acts

theorem group : filled.Group [12, 11, 10, 9, 8, 7, 6, 3, 2] crowded := by
  have asked := (((((((((Node.Group.none : filled.Group [] filled)
    |>.call (.forceRefresh 0) ⟨rfl, by decide⟩)
    |>.call .forceSweep ⟨rfl, nofun⟩)
    |>.call (.change up) ⟨rfl, nofun⟩)
    |>.call .forceSweep ⟨rfl, nofun⟩)
    |>.call .sweep ⟨rfl, nofun⟩)
    |>.call (.find (key "stock")) ⟨rfl, nofun⟩)
    |>.call (.find (key "stock")) ⟨rfl, nofun⟩)
    |>.call (.safeMode true) ⟨rfl, nofun⟩)
    |>.call .forgetRevisions ⟨rfl, nofun⟩
  exact (asked.pass 20 (by decide)).resume 5 (by decide)

theorem waits : (7, Stage.awaitingSweep) ∈ crowded.calls := Node.mem_of_stage? rfl

end Crowd

/-- The second forced sweep waits for the first one, which waits for a view that is being
    refreshed; the registry has yet to answer, and then one after the other ends. -/
theorem crowd_comes_to_an_end :
    (Crowd.start.Untouched ∧ Crowd.start.directory.entries = [] ∧
      Crowd.start.Course Crowd.filled ∧ Crowd.filled.Quiescent ∧
      Crowd.filled.Group [12, 11, 10, 9, 8, 7, 6, 3, 2] Crowd.crowded) ∧
    Crowd.crowded.Moving ∧
    (Crowd.crowded.Certain fun k =>
      k.Quiescent ∧ ∀ c ∈ [12, 11, 10, 9, 8, 7, 6, 3, 2], ∃ r ∈ k.replies, r.call = c) ∧
    Crowd.crowded.nextAwake = none ∧
    Crowd.crowded.calls.map (·.1) = [2, 4, 6, 7, 9, 10, 3] ∧
    (Crowd.crowded.settle [2, 3, 6, 7, 9, 10] 20).replies.map (fun r => (r.call, r.time)) =
      [(7, 150), (6, 100), (3, 100), (2, 50), (10, 30), (9, 30), (12, 0), (11, 0), (8, 0), (1, 0),
        (0, 0)] := by
  have untouched : Crowd.start.Untouched := Node.untouched_caching ..
  have course : Crowd.start.Course Crowd.filled := Node.course_follow ..
  have quiescent : Crowd.filled.Quiescent := rfl
  obtain ⟨moving, certain⟩ :=
    groups_come_to_an_end untouched rfl course quiescent Crowd.group
  exact ⟨⟨untouched, rfl, course, quiescent, Crowd.group⟩, moving 7 _ Crowd.waits rfl, certain,
    by decide, by decide, by decide⟩

end ServiceFinder
