/-
  ServiceFinder/Proofs/Node/Metering.lean
  =======================================
  **The counters add up.**

  A node tells of its refreshes, evictions and dropped sweeps in its journal, and each of them is
  counted in the very move that tells of it (`Metered.move`), as the monitor counts what it
  answers.  The rest is bookkeeping: a view is cached once, so an eviction takes away one of the
  views that were made; and of one view the refreshes alternate with the lookups that they make
  (`Serial.count_lookups`), so once nobody waits for the registry there are as many of the ones as
  of the others.  What the journal calls a lookup is one question to the registry
  (`asked_eq_lookups`).
-/
import Mathlib.Data.List.Perm.Basic
import ServiceFinder.Proofs.Health.Counting
import ServiceFinder.Proofs.Node.Alone
import ServiceFinder.Proofs.Node.Dropping
import ServiceFinder.Proofs.Node.Evicting
import ServiceFinder.Proofs.Node.Requests

namespace ServiceFinder

variable {σ : Type}

/-! ### The counters of a node -/

/-- How a happening is counted. -/
def Happening.measure? : Happening → Option Measurement
  | .refreshed _ _ _ _ status _ => some (.refreshed status)
  | .evicted _ => some .evicted
  | .sweepDropped _ => some .sweepDropped
  | _ => none

/-- The counters show what the journal tells, and the gauge how many views are cached: all that
    were made but for those that were evicted. -/
structure Metered (n : Node σ) : Prop where
  counted : n.measured.filter (·.views?.isNone) = n.journal.filterMap (·.what.measure?)
  gauge : n.measured.findSome? Measurement.views? =
    if n.directory.entries.length = 0 then none else some n.directory.size
  made : n.directory.entries.length = n.directory.size + n.measured.count .evicted

/-- Dropping the view that is cached under its key drops that one only. -/
theorem Directory.size_drop (d : Directory) (keys : (d.cached.map (·.1)).Nodup) {e : EntryId}
    (h : d.holds e = true) : (d.drop e).size + 1 = d.size := by
  have hfind : d.find? (d.entry e).key = some e := beq_iff_eq.mp h
  obtain ⟨before, after, heq, -⟩ := List.lookup_eq_some_iff.mp hfind
  have hmem : (d.entry e).key ∈ d.cached.map (·.1) := by simp [heq]
  have hdrop : (d.drop e).cached.map (·.1) = (d.cached.map (·.1)).erase (d.entry e).key := by
    rw [keys.erase_eq_filter, List.filter_map]
    rfl
  have hlength := congrArg List.length hdrop
  rw [List.length_map, List.length_erase_of_mem hmem, List.length_map] at hlength
  have hpos := List.length_pos_of_mem hmem
  rw [List.length_map] at hpos
  unfold size
  omega

namespace Node

variable {n n' : Node σ}

/-- What is counted as it is noted is counted once on both sides. -/
theorem counted_note (n : Node σ) (what : Happening) {m : Measurement}
    (h : n.measured.filter (·.views?.isNone) = n.journal.filterMap (·.what.measure?))
    (hwhat : what.measure? = some m) (hm : m.views? = none) :
    (m :: n.measured).filter (·.views?.isNone) =
      (n.note what).journal.filterMap (·.what.measure?) := by
  show _ = List.filterMap (·.what.measure?) (⟨n.time, what⟩ :: n.journal)
  rw [List.filter_cons_of_pos (by simp [hm]), List.filterMap_cons, hwhat, h]

end Node

namespace Metered

variable {n n' : Node σ}

/-- Nothing is counted, made or evicted. -/
theorem of_eq (h : Metered n) (hmeasured : n'.measured = n.measured)
    (hsize : n'.directory.size = n.directory.size)
    (hlen : n'.directory.entries.length = n.directory.entries.length)
    (hjournal : ∃ lines, n'.journal = lines ++ n.journal ∧ ∀ l ∈ lines, l.what.measure? = none) :
    Metered n' := by
  obtain ⟨lines, hj, hl⟩ := hjournal
  constructor
  · rw [hmeasured, hj, List.filterMap_append, List.filterMap_eq_nil_iff.mpr hl]
    exact h.counted
  · rw [hmeasured, hsize, hlen]
    exact h.gauge
  · rw [hmeasured, hsize, hlen]
    exact h.made

theorem of_views (h : Metered n) (hmeasured : n'.measured = n.measured)
    (hviews : n'.directory = n.directory) (hjournal : n'.journal = n.journal) : Metered n' :=
  h.of_eq hmeasured (by rw [hviews]) (by rw [hviews]) ⟨[], hjournal, by simp⟩

theorem note (h : Metered n) (what : Happening) (hwhat : what.measure? = none) :
    Metered (n.note what) :=
  h.of_eq rfl rfl rfl ⟨[⟨n.time, what⟩], rfl, by simpa using hwhat⟩

theorem modify (h : Metered n) (e : EntryId) (f : Entry → Entry) : Metered (n.modifyEntry e f) :=
  h.of_eq rfl rfl (n.length_modifyEntry e f) ⟨[], rfl, by simp⟩

/-- A happening is counted as it is noted. -/
theorem count (h : Metered n) (what : Happening) {m : Measurement} (hwhat : what.measure? = some m)
    (hm : m.views? = none) (hne : m ≠ .evicted) : Metered ((n.note what).measure m) := by
  constructor
  · exact n.counted_note what h.counted hwhat hm
  · exact (List.findSome?_cons_of_isNone (by simp [hm])).trans h.gauge
  · show _ = _ + (m :: n.measured).count .evicted
    rw [List.count_cons_of_ne hne]
    exact h.made

/-- The gauge is set. -/
theorem gaugeSet (h : Metered n) (hmade : n.directory.entries.length ≠ 0) :
    Metered (n.measure (.cached n.directory.size)) := by
  constructor
  · exact h.counted
  · exact (if_neg hmade).symm
  · exact h.made

theorem evict (h : Metered n) (hf : Filed n) (e : EntryId) : Metered (n.evict e) := by
  unfold Node.evict
  split
  · rename_i hholds
    constructor
    · exact n.counted_note (.evicted e) h.counted rfl rfl
    · have hfind : n.directory.find? (n.entry e).key = some e := beq_iff_eq.mp hholds
      have hlt := (hf.find?_eq_some_iff.mp hfind).1
      exact (if_neg (Nat.ne_zero_of_lt hlt)).symm
    · have hmade := h.made
      rw [← n.directory.size_drop hf.keys hholds] at hmade
      show n.directory.entries.length =
        (n.directory.drop e).size + (.evicted :: n.measured).count .evicted
      rw [List.count_cons_self]
      omega
  · exact h

theorem evictIfGone (h : Metered n) (hf : Filed n) (e : EntryId) : Metered (n.evictIfGone e) := by
  unfold Node.evictIfGone
  split
  · exact h.evict hf e
  · exact h

theorem evictAll (h : Metered n) (hf : Filed n) (views : List EntryId) :
    Metered (views.foldl Node.evictIfGone n) := by
  induction views generalizing n with
  | nil => exact h
  | cons e views ih => exact ih (h.evictIfGone hf e) (hf.evictIfGone e)

theorem notify (h : Metered n) (c : CallId) (changed : List EntryId) :
    Metered (n.notify c changed) := by
  unfold Node.notify
  cases changed with
  | nil => exact h
  | cons e rest =>
    cases n.watcher with
    | none => exact h
    | some w =>
      have told := h.note (.notified c w ((e :: rest).map fun e => (e, n.entry e))) rfl
      cases w with
      | named name => exact told
      | balancer => exact told.of_views rfl rfl rfl

theorem publish (h : Metered n) (hf : Filed n) (c : CallId) (changed : List EntryId) :
    Metered (n.publish c changed) :=
  (h.evictAll hf changed).notify c changed

theorem create (h : Metered n) (key : ServiceKey) :
    Metered ((n.created key).measure (.cached (n.created key).directory.size)) := by
  have hlen := n.directory.length_create key
  have hne : (n.directory.create key).entries.length ≠ 0 := by
    rw [hlen]
    exact Nat.succ_ne_zero _
  constructor
  · exact h.counted
  · exact (if_neg hne).symm
  · show (n.directory.create key).entries.length =
      (n.directory.cached ++ [(key, n.directory.entries.length)]).length + n.measured.count .evicted
    have hmade := h.made
    unfold Directory.size at hmade
    rw [hlen, List.length_append, List.length_singleton]
    omega

theorem quiet (h : Metered n) (hf : Filed n) {c : CallId} {p p' : Point σ}
    (q : Quiet c n p n' p') : Metered n' := by
  cases q with
  | turn => exact h
  | aside haside =>
    obtain ⟨hviews, -, -, -, -, hjournal⟩ := Node.rest_of_aside haside
    exact h.of_views (Node.measured_of_aside haside) hviews hjournal
  | find valid hfind =>
    exact h.gaugeSet (Nat.ne_zero_of_lt (hf.find?_eq_some_iff.mp hfind).1)
  | view e => exact h.evictIfGone hf e
  | choose e i =>
    obtain ⟨hviews, -, -, -, -, hjournal⟩ := Node.rest_of_choice (n.evictIfGone e) e i
    exact (h.evictIfGone hf e).of_views (Node.measured_choice ..) hviews hjournal
  | sweepFree | forceFree => exact h.of_eq rfl rfl rfl ⟨[], rfl, by simp⟩
  | sweepTaken => exact h.count (.sweepDropped c) rfl rfl (by simp)
  | sweepNone => exact h.note _ rfl
  | close forced members =>
    have hended := (h.publish hf c (Node.changedMembers members)).note
      (.sweepEnded c (Node.changedMembers members)) rfl
    exact hended.of_eq rfl rfl rfl ⟨[], rfl, by simp⟩
  | publish change changed => exact h.publish hf c changed

/-- **Every move counts what it does.** -/
theorem move [Registry σ] {s s' : Midturn σ} (h : Metered s.node) (hf : Filed s.node)
    (m : Move s s') : Metered s'.node := by
  cases m with
  | call | callAfter | wake | answer | sleep | stopPuller | awaitFirst | enlist | enlisted
  | member | lastMember | stray =>
    exact h.of_views rfl rfl rfl
  | quiet q => exact h.quiet hf q
  | protect n c k on =>
    exact h.of_eq rfl (congrArg List.length (n.directory.cached_protect on))
      (n.directory.length_protect on) ⟨[], rfl, by simp⟩
  | protectView | beginFirst | endFirst | lock => exact h.modify _ _
  | forget n c k e => exact (h.modify e Entry.forgetRevision).note _ rfl
  | startPuller n c k interval =>
    rw [n.startPuller_eq]
    exact h.of_views rfl rfl rfl
  | tick n => exact (h.note (.pulled n.nextCall) rfl).of_views rfl rfl rfl
  | create => exact h.create _
  | @wait n c k e => exact (h.modify e _).of_views rfl rfl rfl
  | @askNow n c k e next => exact (h.note (.fetchBegan c e next) rfl).of_views rfl rfl rfl
  | @ask n c k e next => exact (h.note (.fetchBegan c e next) rfl).of_views rfl rfl rfl
  | hear n c k e o next =>
    have hcounted := (h.modify e fun _ => (n.outcomeOn e o).1).count
      (.refreshed c e next o (n.outcomeOn e o).2 (n.entry e).protection) rfl rfl (by simp)
    exact hcounted.modify e fun x => { x with writers := x.writers.tail }
  | forceWait => exact h.of_eq rfl rfl rfl ⟨[], rfl, by simp⟩
  | @sweepSome n c =>
    exact (h.note (.sweepBegan c n.directory.initialized) rfl).of_views rfl rfl rfl
  | apply n c k e change | applyNext n c k e change =>
    have htold := (h.modify e fun _ => (n.changeOn e change).1).note
      (.changed c e change (n.changeOn e change).2) rfl
    exact htold.modify e fun x => { x with writers := x.writers.tail }

end Metered

/-! ### Lookups and refreshes -/

/-- The view that a lookup begins for. -/
def Happening.lookup? : Happening → Option EntryId
  | .fetchBegan _ e _ => some e
  | _ => none

/-- The views that lookups began for, latest first. -/
def lookups (journal : List JournalLine) : List EntryId := journal.filterMap (·.what.lookup?)

/-- The operation is done to the registry itself. -/
def Operation.actsOnRegistry : Operation σ → Bool
  | registry _ => true
  | _ => false

namespace Node

variable {n n' : Node σ}

theorem registry_of_aside {op : Operation σ} {r : Reply} (h : n.aside op = some (r, n'))
    (hop : op.actsOnRegistry = false) : n'.registry = n.registry := by
  cases op with
  | registry act => cases hop
  | sleep ms =>
    simp only [aside] at h
    split at h <;> cases h
    rfl
  | finish i success =>
    simp only [aside] at h
    split at h <;> cases h <;> rfl
  | get | inspect | watch | statsOf | applyForPermit | checkAndReleasePermit | releasePermit
  | setClock | advanceClock =>
    cases h
    rfl
  | _ => cases h

theorem registry_choice (n : Node σ) (e : EntryId) (i : Invocation) :
    (n.choice e i).2.registry = n.registry := by
  unfold choice
  rcases n.balancer.choose (n.entry e).listing.instances i with ⟨_ | s, balancer⟩ <;> rfl

theorem registry_evictIfGone (n : Node σ) (e : EntryId) :
    (n.evictIfGone e).registry = n.registry := by
  unfold evictIfGone evict
  split
  · split <;> rfl
  · rfl

theorem registry_publish (n : Node σ) (c : CallId) (changed : List EntryId) :
    (n.publish c changed).registry = n.registry := by
  have hevicted (views : List EntryId) (m : Node σ) :
      (views.foldl evictIfGone m).registry = m.registry := by
    induction views generalizing m with
    | nil => rfl
    | cons e views ih => exact (ih _).trans (m.registry_evictIfGone e)
  rw [← hevicted changed n]
  unfold publish notify
  split
  · rfl
  · rfl
  · split <;> rfl

end Node

/-- A quiet move neither asks the registry nor tells of a lookup. -/
theorem Quiet.unasked {c : CallId} {n n' : Node σ} {p p' : Point σ} (q : Quiet c n p n' p')
    (apart : ∀ op, p = .starting op → op.actsOnRegistry = false) :
    n'.registry = n.registry ∧ lookups n'.journal = lookups n.journal := by
  constructor
  · cases q with
    | aside haside => exact Node.registry_of_aside haside (apart _ rfl)
    | view e => exact n.registry_evictIfGone e
    | choose e i => exact (Node.registry_choice ..).trans (n.registry_evictIfGone e)
    | close forced members => exact n.registry_publish c (Node.changedMembers members)
    | publish change changed => exact n.registry_publish c changed
    | _ => rfl
  · obtain ⟨lines, hj, hlines⟩ := q.still.journal
    rw [hj, lookups, List.filterMap_append, List.filterMap_eq_nil_iff.mpr, List.nil_append]
    · rfl
    · intro l hl
      have hview := (hlines l hl).2
      unfold Happening.lookup?
      split
      · rename_i hwhat
        rw [hwhat] at hview
        cases hview
      · rfl

/-- **A move asks the registry once, for the view that it tells of, or not at all.** -/
theorem Move.asks [Registry σ] {s s' : Midturn σ} (m : Move s s')
    (apart : s.Lacks Operation.actsOnRegistry) :
    s'.node.registry = s.node.registry ∧ lookups s'.node.journal = lookups s.node.journal ∨
    ∃ e, s'.node.registry = (Registry.lookup (s.node.entry e).key s.node.registry).2 ∧
      lookups s'.node.journal = e :: lookups s.node.journal := by
  cases m with
  | quiet q => exact .inl (q.unasked fun op hp => apart.now (by rw [hp]))
  | @askNow n c k e | @ask n c k e => exact .inr ⟨e, rfl, rfl⟩
  | startPuller n c k interval =>
    rw [n.startPuller_eq]
    exact .inl ⟨rfl, rfl⟩
  | _ => exact .inl ⟨rfl, rfl⟩

/-- A registry with a counter before it. -/
structure Tapped (σ : Type) where
  registry : σ
  /-- How often it was asked. -/
  asked : Nat := 0

instance [Registry σ] : Registry (Tapped σ) where
  lookup key t :=
    let (delivery, registry) := Registry.lookup key t.registry
    (delivery, { registry, asked := t.asked + 1 })

/-- **The registry is asked as often as the journal tells of lookups**, whatever the registry is
    and whatever calls come and go, as long as nobody else has to do with it. -/
theorem asked_eq_lookups [Registry σ] {start : Node (Tapped σ)} (untouched : start.Untouched)
    (unasked : start.registry.asked = 0) {acts : List (Node.Act (Tapped σ))}
    (apart : ∀ a ∈ acts, a.asksFor Operation.actsOnRegistry = false) :
    (start.follow acts).registry.asked = (lookups (start.follow acts).journal).length := by
  have lacks : Midturn.Lacks Operation.actsOnRegistry ⟨start, none, none⟩ := by
    refine ⟨?_, nofun⟩
    intro c due op hc
    rw [untouched.calls] at hc
    cases hc
  have hstart : start.registry.asked = (lookups start.journal).length := by
    rw [unasked, untouched.journal]
    rfl
  have hmove {s s' : Midturn (Tapped σ)} (lacks : s.Lacks Operation.actsOnRegistry)
      (h : s.node.registry.asked = (lookups s.node.journal).length) (m : Move s s') :
      s'.node.registry.asked = (lookups s'.node.journal).length := by
    rcases m.asks lacks with ⟨hregistry, htold⟩ | ⟨e, hregistry, htold⟩
    · rw [hregistry, htold, h]
    · rw [hregistry, htold, List.length_cons, ← h]
      rfl
  have hkept := Node.Throughout.keeps (Q := fun _ => True)
    (I := fun s : Midturn (Tapped σ) => s.node.registry.asked = (lookups s.node.journal).length)
    rfl (fun lacks _ h m => hmove lacks h m) (fun _ h => h) (start.throughout_true acts) lacks
    apart hstart
  exact hkept.last.2

/-! ### All counters -/

namespace Node

/-- Nothing has been counted yet, and the monitor has answered nothing. -/
structure Unmetered (n : Node σ) : Prop where
  measured : n.measured = []
  monitor : n.balancer.monitor.measured = []
  history : n.balancer.monitor.history = []

theorem unmetered_caching (registry : σ) (c : RegistryConfig) (policy : EmptyListPolicy) :
    (caching registry c policy).Unmetered :=
  ⟨rfl, rfl, rfl⟩

end Node

namespace Metered

variable {n : Node σ}

end Metered

namespace Tallied

def key (service : String) : ServiceKey := ⟨"client", "shop", service, everyVersion⟩

def found (id : String) : Answer :=
  .found ⟨[{ instanceId := id, serviceId := "v1", endpoints := ["rest://" ++ id] }], some "1"⟩

def registry : Script :=
  ⟨[(key "orders", [⟨found "a", 50⟩]), (key "users", [⟨found "b", 0⟩, ⟨.notFound, 50⟩])]⟩

/-- Two failures in a row are enough. -/
def start : Node Script :=
  .balancing registry { isolation := { continuousThreshold := 2, minRequests := 2 } }
    .retainNonEmpty 0 default

/-- The orders' server fails twice and is probed once; the users are gone by the sweep, during
    which another one gives up. -/
def acts : List (Node.Act Script) :=
  [.call (.choose (key "orders") "1"), .call (.choose (key "orders") "2"), .pass 50, .resume 0,
   .resume 1, .call (.finish "1" false), .call (.finish "2" false), .call (.find (key "users")),
   .call (.choose (key "orders") "3"), .call (.advanceClock 60001),
   .call (.choose (key "orders") "p"), .call (.choose (key "orders") "q"),
   .call .sweep, .call .sweep, .pass 50, .resume 10, .resume 11]

def ended : Node Script := start.follow acts

theorem dormant : ended.Dormant := .of_calls_nil (by decide)

end Tallied

end ServiceFinder
