/-
  ServiceFinder/Proofs/Node/Recovering.lean
  =========================================
  **No server is locked out.**

  An isolated server gets no outcomes, so nothing but time brings it back: once it has been left
  alone for long enough, the next choice probes it.  The permit for that may have been abandoned
  by an invocation that was never reported, but then it expires.  Both depend on when the server
  was last heard of and when the permit was granted, and while the clock does not go back neither
  lies in the future.  So after the longer of the two times some server is chosen, whatever
  happened before.
-/
import ServiceFinder.Proofs.Node.Probing
import ServiceFinder.Proofs.Node.Selecting

namespace ServiceFinder

variable {σ : Type}

/-! ### A monitor that was left alone -/

namespace Monitor

variable {c : Config} {m : Monitor} {d : Millis}

theorem le_elapsed_of_past {since now : Millis} (past : since ≤ now)
    (nowrap : now.toNat + d.toNat < UInt64.size) : d ≤ elapsed since (now + d) := by
  have hsum : (now + d).toNat = now.toNat + d.toNat := by
    rw [UInt64.toNat_add]
    exact Nat.mod_eq_of_lt nowrap
  rw [UInt64.le_iff_toNat_le] at past ⊢
  rw [elapsed_toNat, hsum]
  omega

/-- Whoever holds the permit has lost it once permits have expired. -/
theorem Past.holder_advance (past : m.Past) (obeys : Obeys c m)
    (nowrap : m.now.toNat + d.toNat < UInt64.size) (expired : c.permitTtl ≤ d) :
    (m.advanceClock d).holder = none := by
  rw [holder, Permit.holder_eq_none_iff]
  show m.permit.token.all (·.isExpired (m.now + d)) = true
  cases ht : m.permit.token with
  | none => rfl
  | some t =>
    have hpast := le_elapsed_of_past (past.granted t ht) nowrap
    simp only [Option.all_some, Token.isExpired, obeys.lasts t ht, decide_eq_true_eq]
    exact UInt64.le_trans expired hpast

/-- Every server that is isolated has been left alone for long enough after that time. -/
theorem Past.quiet_advance (past : m.Past) (obeys : Obeys c m)
    (nowrap : m.now.toNat + d.toNat < UInt64.size) (rested : c.isolation.singleTestTime < d)
    {a : String} (isolated : (m.advanceClock d).isolates a = true) :
    (m.advanceClock d).quiet a = true := by
  change (m.tracker.get? a).any m.isIsolated = true at isolated
  show (m.tracker.get? a).any (m.policy.isQuiet (m.now + d)) = true
  cases hs : m.tracker.get? a with
  | none =>
    rw [hs] at isolated
    cases isolated
  | some s =>
    have hpast := le_elapsed_of_past (past.visited hs) nowrap
    rw [Option.any_some, IsolationPolicy.isQuiet, obeys.policy]
    exact decide_eq_true (UInt64.lt_of_lt_of_le rested hpast)

/-- **After long enough a time not all servers are excluded.** -/
theorem Past.not_excludes_advance (past : m.Past) (obeys : Obeys c m)
    (nowrap : m.now.toNat + d.toNat < UInt64.size) (rested : c.isolation.singleTestTime < d)
    (expired : c.permitTtl ≤ d) {servers : List Instance} {server : Instance}
    (listed : server ∈ servers) (eligible : server.eligible = true) :
    ¬ (m.advanceClock d).Excludes servers := by
  intro hex
  have hisolated := hex.isolated server listed eligible
  rcases hex.unprobed with hnone | hheld
  · have hquiet := past.quiet_advance obeys nowrap rested hisolated
    rw [hnone server listed eligible] at hquiet
    cases hquiet
  · exact hheld (past.holder_advance obeys nowrap expired)

end Monitor

/-! ### Runs on which the clock does not go back -/

namespace Node

variable [Registry σ] {c : Config} {n n' : Node σ}

theorem LooseTurn.past (t : LooseTurn n n') (obeys : Monitor.Obeys c n.balancer.monitor)
    (past : n.balancer.monitor.Past)
    (forward : n.balancer.monitor.now ≤ n'.balancer.monitor.now) :
    n'.balancer.monitor.Past := by
  rcases t.asks with hasked | ⟨q, hq⟩
  · suffices Monitor.Obeys c n'.balancer.monitor ∧ n'.balancer.monitor.Past from this.2
    refine hasked.keeps (J := fun m => Monitor.Obeys c m ∧ m.Past) ?_ ⟨obeys, past⟩
    intro m q hq ⟨obeys, past⟩
    have hnow : (m.perform q).now = m.now := congrArg Clock.now (m.clock_perform hq)
    exact ⟨obeys.perform q, past.perform obeys.apart (hnow ▸ UInt64.le_refl _)⟩
  · rw [hq] at forward ⊢
    exact past.perform obeys.apart forward

/-- **While the clock does not go back, no time on record lies in the future.** -/
theorem past_follow (acts : List (Act σ)) (obeys : Monitor.Obeys c n.balancer.monitor)
    (past : n.balancer.monitor.Past) (forward : n.goesForward acts = true) :
    Monitor.Obeys c (n.follow acts).balancer.monitor ∧ (n.follow acts).balancer.monitor.Past := by
  induction acts generalizing n with
  | nil => exact ⟨obeys, past⟩
  | cons a acts ih =>
    simp only [goesForward, Bool.and_eq_true, decide_eq_true_eq] at forward
    refine ih ?_ ?_ forward.2
    · exact (course_act n a).keeps_monitor (fun h => h.perform _) obeys
    · rcases n.act_eq_or_turn a with heq | t
      · rw [heq]
        exact past
      · exact t.past obeys past forward.1

/-! ### Valid keys -/

omit [Registry σ] in
/-- Every view was made for a valid key. -/
def Keyed (n : Node σ) : Prop :=
  ∀ e < n.directory.entries.length, (n.entry e).key.check = .ok ()

theorem Keyed.move {s s' : Midturn σ} (h : s.node.Keyed) (ho : Orderly s) (m : Move s s') :
    s'.node.Keyed := by
  intro e he
  by_cases hlt : e < s.node.directory.entries.length
  · rw [m.key ho hlt]
    exact h e hlt
  · rcases m.apart_or_touch ho with ha | ht
    · rw [ha.length] at he
      exact absurd he hlt
    · cases ht with
      | @create n c k key next valid hfind =>
        have he' : e = n.directory.entries.length := by
          have hle : e < (n.directory.create key).entries.length := he
          rw [Directory.length_create] at hle
          exact Nat.le_antisymm (Nat.le_of_lt_succ hle) (Nat.not_lt.mp hlt)
        have hentry := (n.directory.entry_create key e).trans (if_pos he')
        exact (congrArg (fun x : Entry => x.key.check) hentry).trans valid
      | wake | askNow | ask => exact absurd he hlt
      | forget | beginFirst | endFirst | lock | wait =>
        exact absurd (Nat.lt_of_lt_of_eq he (length_modifyEntry ..)) hlt
      | hear | apply =>
        refine absurd (Nat.lt_of_lt_of_eq he ?_) hlt
        exact (length_modifyEntry ..).trans (length_modifyEntry ..)

theorem Course.keyed {start : Node σ} (course : start.Course n)
    (ho : Orderly (⟨start, none, none⟩ : Midturn σ)) (empty : start.directory.entries = []) :
    n.Keyed := by
  refine (course.keeps (I := fun s => Orderly s ∧ s.node.Keyed)
    (fun ⟨ho, h⟩ m => ⟨ho.move m, h.move ho m⟩)
    (fun _ ⟨ho, h⟩ => ⟨⟨ho.nodup, ho.below⟩, h⟩) ⟨ho, ?_⟩).2
  intro e he
  rw [empty] at he
  exact absurd he (Nat.not_lt_zero e)

/-! ### Choices from a view that has been refreshed -/

/-- A call that is to choose from a view whose first refresh is over does so at once. -/
theorem call_choose {key : ServiceKey} {e : EntryId} (valid : key.check = .ok ())
    (cached : n.directory.find? key = some e) (initialized : (n.entry e).isInitialized = true)
    (i : Invocation) :
    ∃ k : Node σ, k.balancer = n.balancer ∧ k.entry e = n.entry e ∧ k.time = n.time ∧
      (n.call (.choose key i)).2 = (k.choice e i).2.answer n.nextCall (k.choice e i).1 := by
  let k := n.newCall.2.measure (.cached n.directory.size)
  have hstill := k.still_evictIfGone e
  have hover : (k.entry e).firstRefresh = .over := beq_iff_eq.mp initialized
  have hcached : n.newCall.2.directory.find? key = some e := cached
  refine ⟨k.evictIfGone e, k.balancer_evictIfGone e, hstill.entry e, hstill.time, ?_⟩
  have hlookup : (n.call (.choose key i)).2 = k.afterFirst n.nextCall e (.choose i) := by
    show n.newCall.2.lookup n.nextCall key (.choose i) = _
    simp only [Node.lookup, valid, hcached]
    show k.ensureFirst n.nextCall e (.choose i) = _
    simp only [ensureFirst, hover]
  rw [hlookup, afterFirst, choose_eq]

/-- **Isolated servers are not locked out: long enough after any run, a choice from a view that
    lists an eligible server selects one.** -/
theorem no_lock_out (registry : σ) (c : Config) (policy : EmptyListPolicy) (now : Millis)
    (draws : Draws) (acts : List (Act σ))
    (forward : (balancing registry c policy now draws).goesForward acts = true)
    (run : (balancing registry c policy now draws).follow acts = n) {key : ServiceKey} {e : EntryId}
    (cached : n.directory.find? key = some e) (initialized : (n.entry e).isInitialized = true)
    {server : Instance} (listed : server ∈ (n.entry e).listing.instances)
    (eligible : server.eligible = true) {d : Millis} (rested : c.isolation.singleTestTime < d)
    (expired : c.permitTtl ≤ d) (nowrap : n.balancer.monitor.now.toNat + d.toNat < UInt64.size)
    (i : Invocation) :
    let advanced := (n.call (.advanceClock d)).2
    ∃ s, ⟨advanced.nextCall, n.time, .selected s⟩ ∈ (advanced.call (.choose key i)).2.replies ∧
      s.Fits advanced.balancer.monitor (n.entry e).listing.instances i := by
  intro advanced
  have untouched := untouched_balancing registry c policy now draws
  have course := course_follow (balancing registry c policy now draws) acts
  obtain ⟨obeys, past⟩ := past_follow acts (Monitor.obeys_monitor c now)
    (Monitor.past_monitor c now) forward
  rw [run] at course obeys past
  have hfiled := (course.booked untouched rfl).filed
  obtain ⟨he, hkey, -⟩ := hfiled.find?_eq_some_iff.mp cached
  have valid := course.keyed (Sound.of_untouched untouched).orderly rfl e he
  rw [hkey] at valid
  have hexcludes := past.not_excludes_advance obeys nowrap rested expired listed eligible
  obtain ⟨k, hbalancer, hentry, htime, hcall⟩ := call_choose (n := advanced) valid cached
    initialized i
  have hadvanced := obeys.perform (.advanceClock d)
  rcases choice_fits (n := k) (hbalancer ▸ hadvanced.apart) e i with
    ⟨s, hselected, hfits, -⟩ | ⟨-, hex⟩
  · rw [hbalancer, hentry] at hfits
    refine ⟨s, ?_, hfits⟩
    have hanswered : (k.choice e i).2.time = n.time :=
      (k.rest_of_choice e i).2.2.2.2.1.trans htime
    rw [hcall, hselected, answer, hanswered]
    exact List.mem_cons_self
  · rw [hbalancer, hentry] at hex
    exact absurd hex hexcludes

namespace Abandoned

def start : Node Script :=
  .balancing ⟨[(Screened.key, [⟨.found ⟨[Screened.a], some "1"⟩, 0⟩])]⟩ Screened.config
    .retainNonEmpty 0 default

/-- Two invocations of the only server fail, and the one that probes it is never reported. -/
def acts : List (Act Script) :=
  [.call (.choose Screened.key "1"), .call (.finish "1" false), .call (.choose Screened.key "2"),
    .call (.finish "2" false), .call (.advanceClock 60001), .call (.choose Screened.key "p")]

def probing : Node Script := start.follow acts

def advanced : Node Script := (probing.call (.advanceClock 60001)).2

end Abandoned

/-- The only server is probed again once the permit of the first probe has expired. -/
theorem abandoned_permit_expires :
    (Abandoned.start.goesForward Abandoned.acts = true ∧
      Abandoned.probing.directory.find? Screened.key = some 0 ∧
      (Abandoned.probing.entry 0).isInitialized = true ∧
      Screened.a ∈ (Abandoned.probing.entry 0).listing.instances ∧ Screened.a.eligible = true ∧
      Screened.config.isolation.singleTestTime < 60001 ∧ Screened.config.permitTtl ≤ 60001 ∧
      Abandoned.probing.balancer.monitor.now.toNat + (60001 : Millis).toNat < UInt64.size) ∧
    Abandoned.probing.balancer.monitor.holder = some "p" ∧
    Abandoned.probing.balancer.monitor.isolates "a" = true ∧
    ∃ s, ⟨7, 0, .selected s⟩ ∈ (Abandoned.advanced.call (.choose Screened.key "q")).2.replies ∧
      s.Fits Abandoned.advanced.balancer.monitor
        (Abandoned.probing.entry 0).listing.instances "q" := by
  have forward : Abandoned.start.goesForward Abandoned.acts = true := by decide
  have cached : Abandoned.probing.directory.find? Screened.key = some 0 := by decide
  have initialized : (Abandoned.probing.entry 0).isInitialized = true := by decide
  have listed : Screened.a ∈ (Abandoned.probing.entry 0).listing.instances := by decide
  have rested : Screened.config.isolation.singleTestTime < 60001 := by decide
  have expired : Screened.config.permitTtl ≤ 60001 := by decide
  have nowrap : Abandoned.probing.balancer.monitor.now.toNat + (60001 : Millis).toNat <
      UInt64.size := by decide
  exact ⟨⟨forward, cached, initialized, listed, by decide, rested, expired, nowrap⟩, by decide,
    by decide, no_lock_out _ Screened.config .retainNonEmpty 0 default Abandoned.acts forward
      rfl cached initialized listed (by decide) rested expired nowrap "q"⟩

end Node

end ServiceFinder
