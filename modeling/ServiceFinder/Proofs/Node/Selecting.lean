/-
  ServiceFinder/Proofs/Node/Selecting.lean
  ========================================
  **What a call that is to choose a server answers.**

  Such a call looks its key up and may have to wait for the first refresh of the view.  While it
  rests, other calls come and go, and they may change the view and the monitor.  But in the turn
  in which it finds the first refresh over, nothing happens between its lookup and its choice:
  the monitor is still as it was before that turn, and the view stays as it is until the turn
  ends.  So the answer can be read off the monitor before the turn and the view after it.
-/
import ServiceFinder.Proofs.Balance.Choice
import ServiceFinder.Proofs.Health.Times
import ServiceFinder.Proofs.Node.Evicting
import ServiceFinder.Proofs.Node.Lookups
import ServiceFinder.Proofs.Node.Requests
import ServiceFinder.Registry.Script

namespace ServiceFinder

variable {σ : Type}

/-! ### Calls that wait for a first refresh -/

/-- The view whose first refresh a resting call makes or waits for, and what it does then. -/
def Stage.errand? : Stage σ → Option (EntryId × AfterFirst)
  | .refreshing e (.first next) | .fetching e _ _ (.first next) | .awaitingFirst e next =>
    some (e, next)
  | _ => none

namespace Node

/-- The call `c` rests until the first refresh of `e` is over, and then goes on with `next`. -/
def Waits (n : Node σ) (c : CallId) (e : EntryId) (next : AfterFirst) : Prop :=
  ∃ st, (c, st) ∈ n.calls ∧ st.errand? = some (e, next)

/-- In the turn that takes `n` to the other node, the call `c` finds the first refresh of `e`
    over.  Until then the turn has left the balancer alone. -/
inductive Returns (n : Node σ) (c : CallId) (e : EntryId) (next : AfterFirst) : Node σ → Prop where
  | now (m : Node σ) (balancer : m.balancer = n.balancer)
      (ended : (m.entry e).firstRefresh = .over) : Returns n c e next (m.afterFirst c e next)

/-- The turn that takes `n` to `n'` leaves the call `c` waiting, or it waits no longer. -/
def GoesOn (n : Node σ) (c : CallId) (e : EntryId) (next : AfterFirst) (n' : Node σ) : Prop :=
  n'.Waits c e next ∨ n.Returns c e next n'

section Functions

variable {n k : Node σ} {c : CallId} {e : EntryId} {next : AfterFirst}

theorem goesOn_rest {st : Stage σ} (h : st.errand? = some (e, next)) :
    n.GoesOn c e next (k.rest c st) :=
  .inl ⟨st, mem_rest_self k c st, h⟩

theorem goesOn_endFetch (hb : k.balancer = n.balancer) (he : e < k.directory.entries.length)
    (o : Outcome) : n.GoesOn c e next (k.endFetch c e o (.first next)) := by
  let m := (k.settled c e o (.first next)).modifyEntry e ({ · with firstRefresh := .over })
  have hend : k.endFetch c e o (.first next) = m.afterFirst c e next := rfl
  have hlt : e < (k.settled c e o (.first next)).directory.entries.length := by
    rwa [(k.revised_settled c o (.first next) he).length]
  have hover : (m.entry e).firstRefresh = .over :=
    congrArg Entry.firstRefresh (entry_modifyEntry_self _ hlt)
  rw [hend]
  exact .inr (.now m hb hover)

variable [Registry σ]

theorem goesOn_fetch (hb : k.balancer = n.balancer) (he : e < k.directory.entries.length) :
    n.GoesOn c e next (k.fetch c e (.first next)) := by
  have hfetch : k.fetch c e (.first next) =
      if k.waitFor e = 0 then (k.asked c e (.first next)).endFetch c e (k.outcomeFor e) (.first next)
      else (k.asked c e (.first next)).rest c
        (.fetching e (k.time + k.waitFor e) (k.outcomeFor e) (.first next)) := rfl
  rw [hfetch]
  split
  · exact goesOn_endFetch (k := k.asked c e (.first next)) hb he _
  · exact goesOn_rest rfl

theorem goesOn_refresh (hb : k.balancer = n.balancer) (he : e < k.directory.entries.length) :
    n.GoesOn c e next (k.refresh c e (.first next)) := by
  have hlt : e < (k.queueWriter c e).directory.entries.length := by
    rwa [queueWriter, length_modifyEntry]
  unfold Node.refresh
  dsimp only
  split
  · exact goesOn_fetch (k := k.queueWriter c e) hb hlt
  · exact goesOn_rest rfl

theorem goesOn_ensureFirst (hb : k.balancer = n.balancer) (he : e < k.directory.entries.length) :
    n.GoesOn c e next (k.ensureFirst c e next) := by
  unfold ensureFirst
  split
  · rename_i hover
    exact .inr (.now k hb hover)
  · exact goesOn_rest rfl
  · refine goesOn_refresh hb ?_
    rwa [length_modifyEntry]

/-- A lookup of a valid key is for the view of the key. -/
theorem goesOn_lookup {key : ServiceKey} (hb : k.balancer = n.balancer)
    (ho : Orderly (⟨k, some (c, .looking key next), none⟩ : Midturn σ)) (hf : Filed k)
    (valid : key.check = .ok ()) :
    n.GoesOn c (k.viewFor key) next (k.lookup c key next) ∧
      (k.lookup c key next).MadeFor key (k.viewFor key) := by
  suffices ∃ m : Node σ, m.balancer = k.balancer ∧ m.MadeFor key (k.viewFor key) ∧
      Move ⟨k, some (c, .looking key next), none⟩
        ⟨m, some (c, .ensuring (k.viewFor key) next), none⟩ ∧
      k.lookup c key next = m.ensureFirst c (k.viewFor key) next by
    obtain ⟨m, hbalancer, made, hfound, heq⟩ := this
    rw [heq]
    refine ⟨goesOn_ensureFirst (hbalancer.trans hb) made.lt_length, ?_⟩
    exact ((moves_ensuring m c none (k.viewFor key) next).moves.keeps
      (I := fun s => Orderly s ∧ s.node.MadeFor key (k.viewFor key))
      (fun ⟨ho, made⟩ mv => ⟨ho.move mv, made.move ho mv⟩) ⟨ho.move hfound, made⟩).2
  unfold viewFor
  cases hfind : k.directory.find? key with
  | some e =>
    obtain ⟨hlt, hkey, -⟩ := hf.find?_eq_some_iff.mp hfind
    refine ⟨k.measure (.cached k.directory.size), rfl, ⟨hlt, hkey⟩, .quiet (.find valid hfind), ?_⟩
    simp only [Node.lookup, valid, hfind, Option.getD_some]
  | none =>
    have hentry := (k.directory.entry_create key k.directory.entries.length).trans (if_pos rfl)
    refine ⟨(k.created key).measure (.cached (k.created key).directory.size), rfl, ⟨?_, ?_⟩,
      .create valid hfind, ?_⟩
    · show _ < (k.directory.create key).entries.length
      rw [Directory.length_create]
      exact Nat.lt_succ_self _
    · exact congrArg Entry.key hentry
    · simp only [Node.lookup, valid, hfind, Node.created, Option.getD_none]

end Functions

/-! ### Turns and courses -/

section Turns

variable [Registry σ] {n n' m : Node σ} {c : CallId} {e : EntryId} {next : AfterFirst}

/-- **Whoever waits for a first refresh waits on until it finds the refresh over.** -/
theorem Waits.turn (h : n.Waits c e next) (ho : Orderly (⟨n, none, none⟩ : Midturn σ))
    (he : e < n.directory.entries.length) (t : LooseTurn n n') : n.GoesOn c e next n' := by
  obtain ⟨st, rests, hst⟩ := h
  have hpull : ∀ due interval, st ≠ .pulling due interval := by
    rintro due interval rfl
    cases hst
  have hpass : ∀ forced members, st ≠ .pass forced members := by
    rintro forced members rfl
    cases hst
  cases t with
  | call op =>
    have ho' := ho.move (.call n op)
    have onward := moves_starting n.newCall.2 n.nextCall op
    exact .inl ⟨st, onward.rests rests ho' hpull hpass, hst⟩
  | callAfter wait op => exact .inl ⟨st, mem_rest.mpr (.inl rests), hst⟩
  | pass time hle => exact .inl ⟨st, rests, hst⟩
  | resume c' hawake =>
    by_cases hc : c = c'
    · subst hc
      have hstage := ho.stage?_eq rests
      rw [isAwake, hstage, Option.any_some] at hawake
      unfold Node.resume
      rw [hstage]
      cases st with
      | refreshing v after =>
        cases after with
        | first next' =>
          cases hst
          exact goesOn_fetch (k := n.unrest c) rfl he
        | _ => cases hst
      | fetching v due o after =>
        cases after with
        | first next' =>
          cases hst
          exact goesOn_endFetch (n := n) (k := n.unrest c) rfl he o
        | _ => cases hst
      | awaitingFirst v next' =>
        cases hst
        exact .inr (.now (n.unrest c) rfl (beq_iff_eq.mp hawake))
      | _ => cases hst
    · obtain ⟨st', rests', awake, onward⟩ := moves_resume n c' hawake
      have ho' := ho.move (.wake rests' awake)
      exact .inl ⟨st, onward.rests (mem_unrest.mpr ⟨rests, hc⟩) ho' hpull hpass, hst⟩

theorem Course.orderly (course : n.Course m) (ho : Orderly (⟨n, none, none⟩ : Midturn σ)) :
    Orderly (⟨m, none, none⟩ : Midturn σ) :=
  course.keeps (fun h mv => h.move mv) (fun _ h => ⟨h.nodup, h.below⟩) ho

theorem Course.madeFor {key : ServiceKey} (course : n.Course m)
    (ho : Orderly (⟨n, none, none⟩ : Midturn σ)) (h : n.MadeFor key e) : m.MadeFor key e :=
  (course.keeps (I := fun s => Orderly s ∧ s.node.MadeFor key e)
    (fun ⟨ho, h⟩ mv => ⟨ho.move mv, h.move ho mv⟩)
    (fun _ ⟨ho, h⟩ => ⟨⟨ho.nodup, ho.below⟩, ⟨h.lt_length, h.key⟩⟩) ⟨ho, h⟩).2

theorem LooseTurn.replies_subset (t : LooseTurn n n') : n.replies ⊆ n'.replies := by
  rcases moves_of_looseTurn t with moves | ⟨time, -, rfl⟩
  · exact moves.keeps (I := fun s => n.replies ⊆ s.node.replies)
      (fun h mv => List.Subset.trans h mv.replies_subset) (List.Subset.refl _)
  · exact List.Subset.refl _

end Turns

/-! ### Choices -/

/-- A choice selects a server that fits, or refuses as none can be chosen. -/
theorem choice_fits {n : Node σ} (apart : n.balancer.monitor.tracker.Apart) (e : EntryId)
    (i : Invocation) :
    (∃ s, (n.choice e i).1 = .selected s ∧
      s.Fits n.balancer.monitor (n.entry e).listing.instances i ∧
      (s.probe = true → (n.choice e i).2.balancer.monitor.permit =
        { n.balancer.monitor.permit with
          token := some ⟨i, n.balancer.monitor.now, n.balancer.monitor.permit.ttl⟩ })) ∨
    (n.choice e i).1 = .refused (.noAvailableServer (n.entry e).key.display) ∧
      n.balancer.monitor.Excludes (n.entry e).listing.instances := by
  have hcases := Balancer.choose_cases apart (n.entry e).listing.instances i
  have hpermit {s : Selection} (h : (n.balancer.choose (n.entry e).listing.instances i).1 = some s)
      (hprobe : s.probe = true) := Balancer.permit_choose h hprobe
  unfold choice
  rcases heq : n.balancer.choose (n.entry e).listing.instances i with ⟨found, balancer⟩
  rw [heq] at hcases hpermit
  rcases hcases with ⟨s, hfound, hfits⟩ | ⟨hnone, hex⟩
  · cases hfound
    exact .inl ⟨s, rfl, hfits, fun hprobe => hpermit rfl hprobe⟩
  · cases hnone
    exact .inr ⟨rfl, hex⟩

theorem clock_choice (n : Node σ) (e : EntryId) (i : Invocation) :
    (n.choice e i).2.balancer.monitor.now = n.balancer.monitor.now := by
  have hclock := congrArg Clock.now (n.balancer.clock_choose (n.entry e).listing.instances i)
  unfold choice
  rcases heq : n.balancer.choose (n.entry e).listing.instances i with ⟨_ | s, balancer⟩
  all_goals
    rw [heq] at hclock
    exact hclock

/-- A call that finds the first refresh over in a turn has answered when the turn ends. -/
theorem Returns.reply {n n' : Node σ} {c : CallId} {e : EntryId} {i : Invocation}
    (h : n.Returns c e (.choose i) n') : ∃ r ∈ n'.replies, r.call = c := by
  cases h with
  | now m balancer ended =>
    rw [afterFirst, choose_eq]
    exact ⟨_, List.mem_cons_self, rfl⟩

/-- A call that is to choose waits until it has answered. -/
theorem GoesOn.course [Registry σ] {n n' m : Node σ} {c : CallId} {key : ServiceKey}
    {e : EntryId} {i : Invocation} (h : n.GoesOn c e (.choose i) n')
    (ho : Orderly (⟨n', none, none⟩ : Midturn σ)) (made : n'.MadeFor key e)
    (course : n'.Course m) : m.Waits c e (.choose i) ∨ ∃ r ∈ m.replies, r.call = c := by
  induction course with
  | refl => exact h.imp id Returns.reply
  | tail course t ih =>
    rcases ih with hwaits | ⟨r, hr, hc⟩
    · have hlt := (Course.madeFor course ho made).lt_length
      exact (hwaits.turn (Course.orderly course ho) hlt t).imp id Returns.reply
    · exact .inr ⟨r, t.replies_subset hr, hc⟩

/-- What the answer `reply` to a choice for `i` says that found the view `e` of a key in the turn
    from `n` to `n'`.  The monitor is as it was before the turn, and the view as it is after
    it. -/
structure Chooses (conf : Config) (key : ServiceKey) (i : Invocation) (e : EntryId)
    (n n' : Node σ) (reply : Reply) : Prop where
  made : n'.MadeFor key e
  initialized : (n'.entry e).isInitialized = true
  /-- A server is selected, or none is available. -/
  answer : (∃ s, reply = .selected s) ∨ reply = .refused (.noAvailableServer key.display)
  /-- A selected server fits. -/
  selected : ∀ s, reply = .selected s →
    s.Fits n.balancer.monitor (n'.entry e).listing.instances i
  /-- The permit is that of the invocation, if it is to probe. -/
  probe : ∀ s, reply = .selected s → s.probe = true →
    n'.balancer.monitor.permit.token = some ⟨i, n.balancer.monitor.now, conf.permitTtl⟩ ∧
      (0 < conf.permitTtl → n'.balancer.monitor.holder = some i)
  /-- None is available exactly if the monitor excludes all instances of the view. -/
  refused : reply = .refused (.noAvailableServer key.display) ↔
    n.balancer.monitor.Excludes (n'.entry e).listing.instances

theorem Returns.chooses {n n' : Node σ} {conf : Config} {key : ServiceKey} {c : CallId}
    {e : EntryId} {i : Invocation} {r : Replied} (h : n.Returns c e (.choose i) n')
    (obeys : Monitor.Obeys conf n.balancer.monitor) (made : n'.MadeFor key e)
    (ho : Orderly (⟨n', none, none⟩ : Midturn σ)) (hr : r ∈ n'.replies) (hc : r.call = c) :
    Chooses conf key i e n n' r.reply := by
  cases h with
  | now m balancer ended =>
    let k := m.evictIfGone e
    have hk : k.balancer = n.balancer := (m.balancer_evictIfGone e).trans balancer
    have hafter : m.afterFirst c e (.choose i) = (k.choice e i).2.answer c (k.choice e i).1 := by
      rw [afterFirst, choose_eq]
    rw [hafter] at made ho hr ⊢
    -- the answer is the only one of its call, and the view is the one that was looked up
    have hreply : r.reply = (k.choice e i).1 :=
      congrArg Replied.reply (ho.reply_unique hr List.mem_cons_self hc)
    have hentry : ((k.choice e i).2.answer c (k.choice e i).1).entry e = k.entry e := by
      rw [Node.entry, answer, (k.rest_of_choice e i).1]
      rfl
    have hkey : (k.entry e).key = key := hentry ▸ made.key
    have hinit : (k.entry e).isInitialized = true := by
      rw [(m.still_evictIfGone e).entry e]
      exact beq_iff_eq.mpr ended
    have hcases := choice_fits (n := k) (hk ▸ obeys.apart) e i
    have hnow := k.clock_choice e i
    rw [hk, hkey, ← hentry] at hcases
    rw [hk] at hnow
    rcases hcases with ⟨s, hanswer, hfits, hpermit⟩ | ⟨hanswer, hex⟩
    · have hselected := hreply.trans hanswer
      constructor
      case made => exact made
      case initialized => rw [hentry, hinit]
      case answer => exact .inl ⟨s, hselected⟩
      case selected =>
        intro s' hs'
        cases hselected.symm.trans hs'
        exact hfits
      case probe =>
        intro s' hs' hprobe
        cases hselected.symm.trans hs'
        show (k.choice e i).2.balancer.monitor.permit.token = _ ∧
          (_ → (k.choice e i).2.balancer.monitor.permit.holder
            (k.choice e i).2.balancer.monitor.now = _)
        rw [hpermit hprobe, hnow, ← obeys.ttl]
        exact ⟨rfl, Permit.holder_granted⟩
      case refused =>
        rw [hselected]
        exact iff_of_false (by simp) hfits.not_excludes
    · have hrefused := hreply.trans hanswer
      have hnot (s : Selection) : r.reply ≠ .selected s := by
        rw [hrefused]
        simp
      constructor
      case made => exact made
      case initialized => rw [hentry, hinit]
      case answer => exact .inr hrefused
      case selected => exact fun s hs => absurd hs (hnot s)
      case probe => exact fun s hs => absurd hs (hnot s)
      case refused => exact iff_of_true hrefused hex

end Node

/-! ### Every choice -/

section Choices

variable [Registry σ]

theorem Begins.goesOn_choose {n n' : Node σ} {key : ServiceKey} {c : CallId} {i : Invocation}
    (h : Begins (.choose key i) c n n') (ho : Orderly (⟨n, none, none⟩ : Midturn σ))
    (hf : Filed n) (valid : key.check = .ok ()) :
    n.GoesOn c (n.viewFor key) (.choose i) n' ∧ n'.MadeFor key (n.viewFor key) := by
  cases h with
  | now h =>
    subst h
    have hcall : Move ⟨n, none, none⟩ _ := .call n (.choose key i)
    exact Node.goesOn_lookup (k := n.newCall.2) rfl ((ho.move hcall).move (.quiet (.turn rfl)))
      (hf.move hcall) valid
  | later rests hdue =>
    have hwake : Move ⟨n, none, none⟩ _ := .wake rests (decide_eq_true hdue)
    rw [Node.resume, rests]
    exact Node.goesOn_lookup (k := n.unrest c) rfl ((ho.move hwake).move (.quiet (.turn rfl)))
      (hf.move hwake) valid

/-- **A choice is sound and complete: it selects a server that fits, and it selects one unless all
    are excluded.**

    Whatever calls come and go, the answer to a choice for a valid key is about the view that its
    lookup is for.  It comes in one turn, the first one or a later one, and says what the monitor
    knows of the servers that the view lists then. -/
theorem choice_sound_and_complete (registry : σ) (conf : Config) (policy : EmptyListPolicy)
    (now : Millis) (draws : Draws) {n n' before after : Node σ} {key : ServiceKey} {c : CallId}
    {i : Invocation} {r : Replied}
    (course : (Node.balancing registry conf policy now draws).Course n)
    (begins : Begins (.choose key i) c n n') (valid : key.Valid)
    (turn : before = n ∧ after = n' ∨ n'.Course before ∧ Node.LooseTurn before after)
    (reply : r ∈ after.replies) (own : r.call = c) (first : ∀ r ∈ before.replies, r.call ≠ c) :
    Node.Chooses conf key i (n.viewFor key) before after r.reply := by
  have untouched := Node.untouched_balancing registry conf policy now draws
  have ho := course.orderly (Sound.of_untouched untouched).orderly
  have ho' := begins.course.orderly ho
  have obeys {m : Node σ} (h : (Node.balancing registry conf policy now draws).Course m) :
      Monitor.Obeys conf m.balancer.monitor :=
    h.keeps_monitor (fun h => h.perform _) (Monitor.obeys_monitor conf now)
  obtain ⟨hgoes, made⟩ := begins.goesOn_choose ho (course.booked untouched rfl).filed
    (key.check_eq_ok_iff.mpr valid)
  suffices (Node.balancing registry conf policy now draws).Course before ∧
      (Node.balancing registry conf policy now draws).Course after ∧
      before.GoesOn c (n.viewFor key) (.choose i) after ∧ after.MadeFor key (n.viewFor key) by
    obtain ⟨hbefore, hafter, hgoes, made⟩ := this
    have horderly := hafter.orderly (Sound.of_untouched untouched).orderly
    rcases hgoes with ⟨st, rests, -⟩ | hreturns
    · exact absurd own (horderly.not_answered rests reply)
    · exact hreturns.chooses (obeys hbefore) made horderly reply own
  rcases turn with ⟨rfl, rfl⟩ | ⟨later, t⟩
  · exact ⟨course, course.trans begins.course, hgoes, made⟩
  · have hbefore := (course.trans begins.course).trans later
    have hlater : n'.Course after := later.trans (.single t)
    rcases hgoes.course ho' made later with hwaits | ⟨r, hr, hc⟩
    · have hlt := (later.madeFor ho' made).lt_length
      exact ⟨hbefore, hbefore.trans (.single t), hwaits.turn (later.orderly ho') hlt t,
        hlater.madeFor ho' made⟩
    · exact absurd hc (first r hr)

end Choices

namespace Screened

def key : ServiceKey := ⟨"client", "shop", "orders", everyVersion⟩

def a : Instance := { instanceId := "a", serviceId := "v1", endpoints := ["rest://a:1"] }

def b : Instance := { instanceId := "b", serviceId := "v1", endpoints := ["rest://b:1"] }

/-- Two failures in a row are enough. -/
def config : Config := { isolation := { continuousThreshold := 2, minRequests := 2 } }

def start : Node Script :=
  .balancing ⟨[(key, [⟨.found ⟨[a, b], some "1"⟩, 50⟩])]⟩ config .retainNonEmpty 0 default

/-- Two invocations of `a` fail, and much later another one probes it. -/
def probed : Node Script :=
  start.follow [.call (.choose key "1"), .pass 50, .resume 0, .call (.finish "1" false),
    .call (.choose key "2"), .call (.choose key "3"), .call (.finish "3" false),
    .call (.advanceClock 60001), .call (.choose key "p")]

/-- One more invocation comes. -/
def chosen : Node Script := (probed.call (.choose key "q")).2

end Screened

/-- While `a` is probed, the next invocation gets `b`. -/
theorem choice_beside_probe :
    (Screened.start.Course Screened.probed ∧
      Begins (.choose Screened.key "q") 7 Screened.probed Screened.chosen ∧ Screened.key.Valid ∧
      ⟨7, 50, .selected (.of Screened.b "q" false)⟩ ∈ Screened.chosen.replies ∧
      ∀ r ∈ Screened.probed.replies, r.call ≠ 7) ∧
    Screened.probed.balancer.monitor.holder = some "p" ∧
    Screened.probed.balancer.monitor.isolates "a" = true ∧
    Node.Chooses Screened.config Screened.key "q" 0 Screened.probed Screened.chosen
      (.selected (.of Screened.b "q" false)) := by
  have course : Screened.start.Course Screened.probed := Node.course_follow ..
  have begins : Begins (.choose Screened.key "q") 7 Screened.probed Screened.chosen :=
    .now _ (by decide)
  have valid : Screened.key.Valid := by decide
  have reply : ⟨7, 50, .selected (.of Screened.b "q" false)⟩ ∈ Screened.chosen.replies := by decide
  have first : ∀ r ∈ Screened.probed.replies, r.call ≠ 7 := by decide
  exact ⟨⟨course, begins, valid, reply, first⟩, by decide, by decide,
    choice_sound_and_complete _ Screened.config .retainNonEmpty 0 default course begins valid
      (.inl ⟨rfl, rfl⟩) reply rfl first⟩

end ServiceFinder
