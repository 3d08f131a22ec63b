/-
  ServiceFinder/Proofs/Node/Pointwise.lean
  ========================================
  **A sweep is a pointwise refresh.**

  A sweep with no other operation in flight leaves of each view what a refresh of this view
  alone would leave, whatever becomes of the other views, in whatever order they are cached and
  their answers come, and it drops those that alone would have found their service gone.  It
  takes as long as the slowest lookup, if time only passes when nobody can take a turn.
-/
import ServiceFinder.Proofs.Node.Phases

namespace ServiceFinder

variable {σ : Type}

/-! ### Runs -/

def Operation.sweepOf (forced : Bool) : Operation σ := if forced then .forceSweep else .sweep

namespace Node

section Dormant

variable {n : Node σ}

/-- Where nothing is in flight, nobody stands in line for a write lock. -/
theorem Dormant.free (h : n.Dormant) (hl : InLine (⟨n, none, none⟩ : Midturn σ)) (e : EntryId) :
    (n.entry e).writers = [] := by
  apply List.eq_nil_iff_forall_not_mem.mpr
  intro w hw
  rcases hl.present hw with ⟨st, hst, hline⟩ | hrun
  · have hdormant := h w st hst
    cases st with
    | scheduled | sleeping | pulling => cases hline
    | _ => cases hdormant
  · cases hrun

/-- Nor for the sweep lock. -/
theorem Dormant.sweepers_eq_nil (h : n.Dormant)
    (hl : SweepLine (⟨n, none, none⟩ : Midturn σ)) : n.directory.sweepers = [] := by
  apply List.eq_nil_iff_forall_not_mem.mpr
  intro x hx
  rcases hl.present.mp hx with ⟨st, hst, hsweep⟩ | ⟨p, hrun, -⟩
  · have hdormant := h x st hst
    cases st with
    | awaitingSweep | pass => cases hdormant
    | _ => cases hsweep
  · cases hrun

end Dormant

variable [Registry σ]

/-- In these turns time only passes when nobody can take one, and no further than to the next
    moment that somebody waits for. -/
def Prompt (n : Node σ) : List (Act σ) → Prop
  | [] => True
  | a :: acts => (∀ ms, a = .pass ms → n.nextAwake = none ∧ n.nextDue = some (n.time + ms)) ∧
      (n.act a).Prompt acts

/-- The sweep `c` begins at `n` with the turn `a`, where nothing is in flight, and in the turns
    that follow no other operation begins. -/
structure SweepsAlone (n : Node σ) (c : CallId) (forced : Bool) (a : Act σ)
    (rest : List (Act σ)) : Prop where
  dormant : n.Dormant
  begins : n.beginner? a = some (c, .sweepOf forced)
  unbegun : (n.act a).NoneBegins rest

variable {n m k : Node σ} {c : CallId} {forced : Bool} {prompt : Prop}

theorem Prompt.reachable {acts : List (Act σ)} (h : n.Prompt acts) :
    n.Reachable (n.follow acts) := by
  induction acts generalizing n with
  | nil => exact .here
  | cons a acts ih =>
    refine Reachable.trans ?_ (ih h.2)
    cases a with
    | call op => exact .turn .here (.call n op)
    | callAfter wait op => exact .turn .here (.callAfter n wait op)
    | resume x =>
      by_cases hawake : n.isAwake x = true
      · rw [act, if_pos hawake]
        exact .turn .here (.resume n x hawake)
      · rw [act, if_neg hawake]
        exact .here
    | pass ms =>
      obtain ⟨idle, hdue⟩ := h.1 ms rfl
      exact .turn .here (.wait n _ idle hdue)

/-- A sweep that begins beside nothing in flight has the sweep lock at once. -/
theorem setsOut_of_begins (h : Begins (.sweepOf forced) c n m) (dormant : n.Dormant)
    (ha : Audited (⟨n, none, none⟩ : Midturn σ)) :
    ∃ k : Node σ, m = k.beginPass c forced ∧
      Audited (⟨k, some (c, .sweeping forced), none⟩ : Midturn σ) ∧
      Midturn.Alone c (⟨k, some (c, .sweeping forced), none⟩ : Midturn σ) ∧
      Midturn.Outset n c forced ⟨k, some (c, .sweeping forced), none⟩ := by
  obtain ⟨calls, nextCall, hcalls, hmove, rfl⟩ := h.starts
  have hfree := dormant.sweepers_eq_nil ha.sweeping.line
  let k : Node σ := Node.queueSweeper { n with calls, nextCall } c
  have hsweeps : k.sweeps c = true := by simp [k, sweeps, queueSweeper, hfree]
  have hstart : Node.start { n with calls, nextCall } c (.sweepOf forced) =
      k.beginPass c forced := by
    cases forced with
    | false => exact if_pos (List.isEmpty_iff.mpr hfree)
    | true => exact if_pos hsweeps
  have hlock : Move ⟨{ n with calls, nextCall }, some (c, .starting (.sweepOf forced)), none⟩
      ⟨k, some (c, .sweeping forced), none⟩ := by
    cases forced with
    | false => exact .quiet (.sweepFree hfree)
    | true => exact .quiet (.forceFree hsweeps)
  refine ⟨k, hstart, (ha.move hmove).move hlock, ⟨?_, ?_, ?_⟩, ?_⟩
  · intro x st hc
    exact .dormant (dormant x st (hcalls hc))
  · rintro x p ⟨⟩
    exact .own rfl rfl
  · intro x f views hmore
    cases hmore
  · exact ⟨rfl, rfl, rfl, rfl, rfl, rfl, rfl, fun {x st} hc => dormant x st (hcalls hc)⟩

/-- The turn in which the sweep begins. -/
theorem phase_of_begins (h : Begins (.sweepOf forced) c n m) (dormant : n.Dormant)
    (ha : Audited (⟨n, none, none⟩ : Midturn σ)) (apart : Registry.AnswersByKey σ) :
    Midturn.Alone c (⟨m, none, none⟩ : Midturn σ) ∧
      Midturn.Phase n c forced prompt ⟨m, none, none⟩ := by
  have hfree := dormant.free ha.regular.sound.inLine
  obtain ⟨k, rfl, hk, alone, hout⟩ := setsOut_of_begins h dormant ha
  refine ((moves_sweeping k c forced).keeps
    (I := fun s => Audited s ∧ s.Alone c ∧ s.Phase n c forced prompt) ?_
    ⟨hk, alone, .outset hout⟩).2
  rintro s s' busy ⟨ha', alone, h⟩ m
  exact ⟨ha'.move m, m.alone busy alone,
    h.move ha.regular.filed apart hfree ha' alone m fun x op => m.not_starting busy x op⟩

/-- **The turns that follow.** -/
theorem phase_follow (hn : Filed n) (free : ∀ e, (n.entry e).writers = [])
    (apart : Registry.AnswersByKey σ) (ha : Audited (⟨k, none, none⟩ : Midturn σ))
    (alone : Midturn.Alone c (⟨k, none, none⟩ : Midturn σ))
    (h : Midturn.Phase n c forced prompt ⟨k, none, none⟩) {acts : List (Act σ)}
    (unbegun : k.NoneBegins acts) (hprompt : prompt → k.Prompt acts) :
    Midturn.Phase n c forced prompt ⟨k.follow acts, none, none⟩ := by
  induction acts generalizing k with
  | nil => exact h
  | cons a acts ih =>
    obtain ⟨alone', h'⟩ := alone.act_keeps (I := Midturn.Phase n c forced prompt) ha unbegun.1
      (fun ha alone h m _ hstarts => h.move hn apart free ha alone m hstarts)
      (fun ms hpass => h.pass ha.sweeping (Nat.le_add_right ..)
        fun hp => ((hprompt hp).1 ms hpass).2) h
    exact ih (ha.course (k.course_act a)) alone' h' unbegun.2 fun hp => (hprompt hp).2

end Node

/-! ### Pointwise -/

namespace Node

variable [Registry σ]

/-- A refresh of `e` that runs alone answers that there is no such service. -/
def vanishes (n : Node σ) (forced : Bool) (e : EntryId) : Bool :=
  ((n.solo forced e).reply? n.nextCall).any (·.reply == .status .serviceNotFound)

/-- From `n`, with its views cached in this order, to `m` each view that a sweep is about has
    become what a refresh alone would have made of it, nothing has happened to the other views,
    and those have been dropped that alone would have found their service gone. -/
structure Pointwise (n : Node σ) (forced : Bool) (cached : List (ServiceKey × EntryId))
    (m : Node σ) : Prop where
  refreshed : ∀ e ∈ n.directory.initialized, m.entry e = (n.solo forced e).entry e
  others : ∀ e ∉ n.directory.initialized, m.entry e = n.entry e
  cached : m.directory.cached = cached.filter fun x =>
    !(n.directory.initialized.contains x.2 && n.vanishes forced x.2)

variable {n m : Node σ} {c : CallId} {forced : Bool} {cached : List (ServiceKey × EntryId)}
  {e : EntryId} {prompt : Prop}

omit [Registry σ] in
theorem mem_initialized_shuffled (order : cached.Perm n.directory.cached) :
    e ∈ (n.shuffled cached).directory.initialized ↔ e ∈ n.directory.initialized :=
  ((order.map (·.2)).filter fun e => (n.entry e).isInitialized).mem_iff

theorem longestWait_shuffled (order : cached.Perm n.directory.cached) :
    (n.shuffled cached).longestWait = n.longestWait := by
  apply Nat.le_antisymm
  · exact longestWait_le fun e he =>
      waitFor_le_longestWait (n := n) ((mem_initialized_shuffled order).mp he)
  · exact longestWait_le fun e he =>
      waitFor_le_longestWait (n := n.shuffled cached) ((mem_initialized_shuffled order).mpr he)

/-- What a refresh that runs alone does where nothing is in flight. -/
theorem Dormant.solo_spec (dormant : n.Dormant) (ha : Audited (⟨n, none, none⟩ : Midturn σ))
    (he : e ∈ n.directory.initialized) (forced : Bool) :
    (n.solo forced e).entry e = (n.renewed forced e).1 ∧
      (n.solo forced e).reply? n.nextCall =
        some ⟨n.nextCall, n.time + n.waitFor e, .status (n.renewed forced e).2⟩ := by
  obtain ⟨⟨key, v⟩, hcached, rfl⟩ := List.mem_map.mp (List.mem_filter.mp he).1
  have fresh : n.stage? n.nextCall = none := by
    cases hstage : n.stage? n.nextCall with
    | none => rfl
    | some st => exact absurd (ha.orderly.lt_nextCall (mem_of_stage? hstage)) (Nat.lt_irrefl _)
  exact Node.solo_spec forced (ha.regular.filed.made hcached).1
    (dormant.free ha.regular.sound.inLine v) fresh

theorem Dormant.vanishes_iff (dormant : n.Dormant)
    (ha : Audited (⟨n, none, none⟩ : Midturn σ)) (he : e ∈ n.directory.initialized) :
    n.vanishes forced e = true ↔ (n.renewed forced e).2 = .serviceNotFound := by
  rw [vanishes, (dormant.solo_spec ha he forced).2, Option.any_some, beq_iff_eq]
  exact ⟨fun h => Reply.status.inj h, fun h => congrArg Reply.status h⟩

/-- What the sweep has left once it is over. -/
theorem Pointwise.of_dismissed (dormant : n.Dormant)
    (ha : Audited (⟨n, none, none⟩ : Midturn σ)) (order : cached.Perm n.directory.cached)
    (h : Midturn.Dismissed (n.shuffled cached) c forced prompt (⟨m, none, none⟩ : Midturn σ)) :
    n.Pointwise forced cached m where
  refreshed e he := by
    rw [(dormant.solo_spec ha he forced).1]
    exact (h.views e).trans (if_pos ((mem_initialized_shuffled order).mpr he))
  others e he := (h.views e).trans (if_neg (mt (mem_initialized_shuffled order).mp he))
  cached := by
    refine h.cached.trans (List.filter_congr ?_)
    intro x _
    by_cases he : x.2 ∈ n.directory.initialized
    · have hgone : n.vanishes forced x.2 = true ↔ _ := dormant.vanishes_iff ha he
      congr 1
      rw [Bool.eq_iff_iff, decide_eq_true_iff, Bool.and_eq_true, List.contains_iff_mem, hgone]
      exact and_congr (mem_initialized_shuffled order) .rfl
    · have hout := mt (mem_initialized_shuffled order).mp he
      simp [he, hout]

end Node

/-- **A sweep is a pointwise refresh.**  Let a sweep begin where nothing is in flight, with the
    views cached in any order, over a registry that answers for each key by itself.  A refresh
    of any of its views alone would end when its lookup does.  When the sweep answers, each of
    its views is what that refresh would have left, those are dropped that it would have found
    gone, and the time is that of the slowest lookup; and it is bound to answer. -/
theorem sweep_is_pointwise [Registry σ] (apart : Registry.AnswersByKey σ) {start n : Node σ}
    (untouched : start.Untouched) (empty : start.directory.entries = [])
    (course : start.Course n) {cached : List (ServiceKey × EntryId)}
    (order : cached.Perm n.directory.cached) {c : CallId} {forced : Bool} {a : Node.Act σ}
    {rest : List (Node.Act σ)} (alone : (n.shuffled cached).SweepsAlone c forced a rest) :
    let m := (n.shuffled cached).follow (a :: rest)
    let prompt := (n.shuffled cached).Prompt (a :: rest)
    (∀ e ∈ n.directory.initialized, ∃ status, (n.solo forced e).reply? n.nextCall =
      some ⟨n.nextCall, n.time + n.waitFor e, .status status⟩) ∧
    (∀ r ∈ m.replies, r.call = c → r.reply = .ofSweep forced ∧ n.Pointwise forced cached m ∧
      n.time + n.longestWait ≤ r.time ∧ (prompt → r.time = n.time + n.longestWait)) ∧
    (start.Reachable n → prompt → m.Inevitable fun k => ∃ r ∈ k.replies, r.call = c) := by
  intro m prompt
  have ha : Audited (⟨n, none, none⟩ : Midturn σ) := course.audited untouched empty
  have dormant : n.Dormant := alone.dormant
  have ha' := ha.shuffle order
  have hbegins := Node.begins_of_beginner? alone.begins
  have hphase : Midturn.Phase (n.shuffled cached) c forced prompt ⟨m, none, none⟩ := by
    obtain ⟨halone, h⟩ := Node.phase_of_begins hbegins alone.dormant ha' apart
    exact Node.phase_follow ha'.regular.filed (alone.dormant.free ha'.regular.sound.inLine) apart
      (ha'.course (Node.course_act _ a)) halone h alone.unbegun fun hp => hp.2
  have hm : Audited (⟨m, none, none⟩ : Midturn σ) := ha'.course (Node.course_follow ..)
  refine ⟨?_, ?_, ?_⟩
  · intro e he
    exact ⟨_, (dormant.solo_spec ha he forced).2⟩
  · intro r hr hcall
    rcases hphase.at_rest with ⟨members, rests⟩ | ⟨hover, r', hr', hcall', hreply, hends⟩
    · exact absurd hcall (hm.orderly.not_answered rests hr)
    · rw [Node.EndsAt, Node.longestWait_shuffled order] at hends
      rw [hm.orderly.reply_unique hr hr' (hcall.trans hcall'.symm)]
      exact ⟨hreply, .of_dismissed dormant ha order hover, hends.1,
        fun hp => Nat.le_antisymm (hends.2 hp) hends.1⟩
  · intro reach hp
    have hbrisk := (Brisk.of_reachable untouched empty reach).shuffle order
    have hbrisk' : Brisk (⟨m, none, none⟩ : Midturn σ) :=
      ((Node.Prompt.reachable hp).keeps hbrisk.steady (fun _ h m => h.move m)
        (fun _ _ hdue h => h.wait hdue) hbrisk).2
    rcases hphase.at_rest with ⟨members, rests⟩ | ⟨-, r, hr, hcall, -⟩
    · exact hbrisk'.inevitable (hbrisk'.sweeping.line.present.mpr (.inl ⟨_, rests, rfl⟩))
    · exact .here ⟨r, hr, hcall⟩

/-! ### A sweep with one trouble for each view -/

namespace Uneven

def key (service : String) : ServiceKey := ⟨"shop", "store", service, everyVersion⟩

def listed (ids : List String) : Answer :=
  .found ⟨ids.map fun id => { instanceId := id, serviceId := "v1", endpoints := [] }, some "1"⟩

/-- After one good answer each, the orders get another list under the same revision, the users
    are gone, the stock fails, and the prices come too late. -/
def start : Node Script :=
  .caching ⟨[(key "orders", [⟨listed ["a"], 0⟩, ⟨listed ["a", "b"], 20⟩]),
    (key "users", [⟨listed ["c"], 0⟩, ⟨.notFound, 50⟩]),
    (key "stock", [⟨listed ["d"], 0⟩, ⟨.failed (.fetchFailed "refused"), 0⟩]),
    (key "prices", [⟨listed ["e"], 0⟩, ⟨listed [], 6000⟩])]⟩ {} .retainNonEmpty

def filled : Node Script :=
  start.follow [.call (.find (key "orders")), .call (.find (key "users")),
    .call (.find (key "stock")), .call (.find (key "prices"))]

/-- The views in the opposite order. -/
def backwards : List (ServiceKey × EntryId) := filled.directory.cached.reverse

/-- Each member goes on when its lookup is over. -/
def turns : List (Node.Act Script) :=
  [.pass 20, .resume 8, .pass 30, .resume 7, .pass 4950, .resume 5]

def swept : Node Script := (filled.shuffled backwards).follow (.call .forceSweep :: turns)

theorem dormant : (filled.shuffled backwards).Dormant := .of_calls_nil (by decide)

theorem reachable : start.Reachable filled :=
  Node.Prompt.reachable ⟨nofun, nofun, nofun, nofun, trivial⟩

theorem sweepsAlone : (filled.shuffled backwards).SweepsAlone 4 true (.call .forceSweep) turns :=
  ⟨dormant, rfl, rfl, rfl, rfl, rfl, rfl, rfl, trivial⟩

theorem prompt : (filled.shuffled backwards).Prompt (.call .forceSweep :: turns) := by
  refine ⟨nofun, ?_, nofun, ?_, nofun, ?_, nofun, trivial⟩
  · rintro ms ⟨⟩
    exact ⟨by decide, by decide⟩
  · rintro ms ⟨⟩
    exact ⟨by decide, by decide⟩
  · rintro ms ⟨⟩
    exact ⟨by decide, by decide⟩

end Uneven

/-- No view's trouble is another's, and the sweep takes as long as a lookup may. -/
theorem uneven_sweep_refreshes_each :
    (Registry.AnswersByKey Script ∧ Uneven.start.Untouched ∧
      Uneven.start.directory.entries = [] ∧ Uneven.start.Course Uneven.filled ∧
      Uneven.backwards.Perm Uneven.filled.directory.cached ∧
      (Uneven.filled.shuffled Uneven.backwards).SweepsAlone 4 true (.call .forceSweep)
        Uneven.turns ∧
      (Uneven.filled.shuffled Uneven.backwards).Prompt (.call .forceSweep :: Uneven.turns) ∧
      Uneven.start.Reachable Uneven.filled) ∧
    Uneven.filled.Pointwise true Uneven.backwards Uneven.swept ∧
    Uneven.filled.time + Uneven.filled.longestWait = 5000 ∧
    ⟨4, 5000, .done⟩ ∈ Uneven.swept.replies ∧
    ((Uneven.filled.shuffled Uneven.backwards).follow [.call .forceSweep]).Inevitable
      (fun k => ∃ r ∈ k.replies, r.call = 4) ∧
    Uneven.swept.directory.cached =
      [(Uneven.key "prices", 3), (Uneven.key "stock", 2), (Uneven.key "orders", 0)] ∧
    (Uneven.swept.entry 0).listing.instances.map (·.instanceId) = ["a", "b"] ∧
    [0, 1, 2, 3].map (fun e => (Uneven.swept.entry e).status) =
      [.refreshed, .serviceNotFound, .refreshFailed, .refreshFailed] := by
  have untouched : Uneven.start.Untouched := Node.untouched_caching ..
  have course : Uneven.start.Course Uneven.filled := Node.course_follow ..
  have order : Uneven.backwards.Perm Uneven.filled.directory.cached := List.reverse_perm _
  have hreply : ⟨4, 5000, .done⟩ ∈ Uneven.swept.replies := by decide
  obtain ⟨-, hanswer, -⟩ :=
    sweep_is_pointwise Script.answersByKey untouched rfl course order Uneven.sweepsAlone
  obtain ⟨-, hpointwise, -, htime⟩ := hanswer _ hreply rfl
  obtain ⟨-, -, hbound⟩ := sweep_is_pointwise Script.answersByKey untouched rfl course order
    (⟨Uneven.dormant, rfl, trivial⟩ : Node.SweepsAlone _ 4 true (.call .forceSweep) [])
  exact ⟨⟨Script.answersByKey, untouched, rfl, course, order, Uneven.sweepsAlone, Uneven.prompt,
      Uneven.reachable⟩,
    hpointwise, (htime Uneven.prompt).symm, hreply, hbound Uneven.reachable ⟨nofun, trivial⟩,
    by decide, by decide, by decide⟩

end ServiceFinder
