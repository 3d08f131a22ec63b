/-
  ServiceFinder/Proofs/Node/Pruning.lean
  ======================================
  **Pruning is exact.**

  The balancer hears of a sweep or a pushed change at its end, after its evictions, and then
  keeps statistics of those servers only that some cached view lists.  An operation that runs
  alone has left the statistics alone until then (`Move.prunedBy`), and what is listed when the
  balancer hears of it is still listed when the operation has answered
  (`Midturn.Alone.still_of_over`).  So the statistics afterwards are those of before, all of
  them or those of the servers that are listed (`Midturn.Prunes.of_answered`).
-/
import ServiceFinder.Proofs.Health.Tracker
import ServiceFinder.Proofs.Node.Alone
import ServiceFinder.Proofs.Node.Requests

namespace ServiceFinder

variable {σ : Type}

/-! ### What is left of the statistics -/

/-- The monitor is the one that was there when `c` began, unless `c` has told the balancer: then
    only the servers that cached views list are left of it. -/
def Node.PrunedBy (n : Node σ) (c : CallId) (monitor : Monitor) : Prop :=
  n.balancer.monitor =
    if noticesOf c n.journal = [] then monitor else monitor.retain n.directory.liveInstances

section Pruning

variable {n n' : Node σ} {c : CallId} {monitor : Monitor}

theorem Node.PrunedBy.of_silent (hmonitor : n.balancer.monitor = monitor)
    (silent : noticesOf c n.journal = []) : n.PrunedBy c monitor := by
  rw [PrunedBy, if_pos silent]
  exact hmonitor

theorem Node.PrunedBy.of_eq (h : n.PrunedBy c monitor)
    (hdirectory : n'.directory = n.directory) (hbalancer : n'.balancer = n.balancer)
    (hnotices : noticesOf c n'.journal = noticesOf c n.journal) : n'.PrunedBy c monitor := by
  rw [PrunedBy, hbalancer, hnotices, hdirectory]
  exact h

/-- The watcher is told when all evictions are over, so what it finds cached is what stays. -/
theorem Node.prunedBy_publish (watched : n.watcher = some .balancer)
    (hmonitor : n.balancer.monitor = monitor) (silent : noticesOf c n.journal = [])
    (changed : List EntryId) : (n.publish c changed).PrunedBy c monitor := by
  cases changed with
  | nil => exact .of_silent hmonitor silent
  | cons e rest =>
    have hwatched : ((e :: rest).foldl evictIfGone n).watcher = some .balancer :=
      (n.watcher_evictAll _).trans watched
    have hsame : ((e :: rest).foldl evictIfGone n).balancer.monitor = monitor := by
      rw [n.balancer_evictAll]
      exact hmonitor
    have hnotices : noticesOf c (n.publish c (e :: rest)).journal ≠ [] := by
      obtain ⟨lines, hj, -, hlines, -⟩ := n.journal_publish c (e :: rest)
      rw [hj, noticesOf_append, hlines, watched]
      simp [noticeFor]
    rw [PrunedBy, if_neg hnotices, ← hsame]
    unfold publish notify
    rw [hwatched]
    rfl

/-- What the operation does to the statistics, it does at its end. -/
theorem Quiet.prunedBy {x : CallId} {p p' : Point σ} (q : Quiet x n p n' p')
    (hp : p.Serves c x) (watched : n.watcher = some .balancer)
    (hmonitor : n.balancer.monitor = monitor) (silent : noticesOf c n.journal = []) :
    n'.PrunedBy c monitor := by
  cases q with
  | aside h => cases (Node.audience?_of_aside h).symm.trans hp.of_starting.2
  | view | choose => exact absurd hp (Point.not_serves rfl rfl fun _ => rfl)
  | close forced members =>
    rcases hp with hp | ⟨rfl, -⟩ | hp
    · cases hp
    · exact Node.prunedBy_publish watched hmonitor silent _
    · cases hp
  | publish change changed =>
    rcases hp with hp | ⟨rfl, -⟩ | hp
    · cases hp
    · exact Node.prunedBy_publish watched hmonitor silent changed
    · cases hp
  | _ => exact .of_silent hmonitor silent

theorem Move.prunedBy [Registry σ] {s s' : Midturn σ} (m : Move s s') (h : s.Alone c)
    (watched : s.node.watcher = some .balancer) (hmonitor : s.node.balancer.monitor = monitor)
    (silent : noticesOf c s.node.journal = []) : s'.node.PrunedBy c monitor := by
  cases m with
  | quiet q => exact q.prunedBy (h.running rfl) watched hmonitor silent
  | startPuller n x k interval =>
    rw [n.startPuller_eq]
    exact .of_silent hmonitor silent
  | _ => exact .of_silent hmonitor silent

end Pruning

/-- The operation `c` runs alone on a node that the balancer watches.  Until it has told the
    balancer what changed, the statistics are as it found them. -/
structure Midturn.Prunes (c : CallId) (monitor : Monitor) (s : Midturn σ) : Prop where
  alone : s.Alone c
  watched : s.node.watcher = some .balancer
  pruned : s.node.PrunedBy c monitor
  course : s.Owes c .watcher ∨ s.Over c ∧ Reckoned c (some .balancer) s.node.journal

namespace Midturn.Prunes

variable [Registry σ] {s s' : Midturn σ} {n : Node σ} {c : CallId} {monitor : Monitor}

theorem move (h : s.Prunes c monitor) (ha : Audited s) (m : Move s s') (alone : s'.Alone c) :
    s'.Prunes c monitor := by
  have hwatcher : s'.node.watcher = s.node.watcher := by
    apply m.watcher
    intro x w hrun
    cases (h.alone.running hrun).of_starting.2
  have watched : s'.node.watcher = some .balancer := hwatcher.trans h.watched
  rcases h.course with howes | ⟨hover, htold⟩
  · have silent := howes.silent ha.accounts
    have hmonitor : s.node.balancer.monitor = monitor := by
      have hpruned := h.pruned
      rwa [Node.PrunedBy, if_pos silent] at hpruned
    refine ⟨alone, watched, m.prunedBy h.alone h.watched hmonitor silent, ?_⟩
    rcases howes.move ha.accounts ha.orderly ha.sweeping m with howes' | ⟨hover, htold⟩
    · exact .inl howes'
    · exact .inr ⟨.inr hover, h.watched ▸ htold⟩
  · obtain ⟨lines, hj, hlines⟩ := hover.uncharged ha.orderly ha.sweeping m
    obtain ⟨hdirectory, hbalancer⟩ := h.alone.still_of_over hover ha.orderly ha.sweeping m
    have hnotices : noticesOf c s'.node.journal = noticesOf c s.node.journal := by
      rw [hj, noticesOf_append, noticesOf_eq_nil hlines, List.nil_append]
    refine ⟨alone, watched, h.pruned.of_eq hdirectory hbalancer hnotices, ?_⟩
    exact .inr ⟨hover.move m, htold.move hover ha.orderly ha.sweeping m⟩

theorem onward (h : s.Prunes c monitor) (ha : Audited s) (onward : Onward s s') :
    s'.Prunes c monitor := by
  suffices Audited s' ∧ s'.Prunes c monitor from this.2
  refine onward.keeps (I := fun s => Audited s ∧ s.Prunes c monitor) ?_ ⟨ha, h⟩
  intro s s' busy hs m
  exact ⟨hs.1.move m, hs.2.move hs.1 m (m.alone busy hs.2.alone)⟩

/-- A turn in which no operation begins does no more to the statistics. -/
theorem act (h : Prunes c monitor ⟨n, none, none⟩) (ha : Audited (⟨n, none, none⟩ : Midturn σ))
    {a : Node.Act σ} (unbegun : n.beginner? a = none) :
    Prunes c monitor ⟨n.act a, none, none⟩ := by
  refine (h.alone.act_keeps (I := Prunes c monitor) ha unbegun ?_ ?_ h).2
  · intro s s' ha _ h m alone _
    exact h.move ha m alone
  · intro ms _
    exact ⟨⟨h.alone.calls, nofun, nofun⟩, h.watched, h.pruned, h.course⟩

omit [Registry σ] in
/-- What the operation has done to the statistics by the time it has answered. -/
theorem of_answered (h : Prunes c monitor ⟨n, none, none⟩)
    (ho : Orderly (⟨n, none, none⟩ : Midturn σ)) (answered : ∃ r ∈ n.replies, r.call = c) :
    ((∃ o ∈ outcomesIn c n.journal, o.2.isChanged = true) →
      n.balancer.monitor = monitor.retain n.directory.liveInstances) ∧
    ((∀ o ∈ outcomesIn c n.journal, o.2.isChanged = false) → n.balancer.monitor = monitor) := by
  have hover : Midturn.Over ⟨n, none, none⟩ c := .inl answered
  have htold : Reckoned c (some .balancer) n.journal := by
    rcases h.course with (⟨st, hc, -⟩ | hruns) | ⟨-, htold⟩
    · exact absurd hc (hover.not_mem_calls ho st)
    · exact absurd hruns (hover.not_runsFor ho .watcher)
    · exact htold
  obtain ⟨views, -, hviews, hnotices⟩ := htold.told
  have hpruned : n.balancer.monitor = if noticeFor (some .balancer) views = [] then monitor
      else monitor.retain n.directory.liveInstances := hnotices ▸ h.pruned
  constructor
  · rintro ⟨⟨e, status⟩, hmem, hchanged⟩
    have he : e ∈ views := (hviews e).mpr ⟨status, hmem, hchanged⟩
    rw [hpruned, if_neg]
    simp [noticeFor, List.ne_nil_of_mem he]
  · intro unchanged
    have hnone : views = [] := by
      apply List.eq_nil_iff_forall_not_mem.mpr
      intro e he
      obtain ⟨status, hmem, hchanged⟩ := (hviews e).mp he
      rw [unchanged _ hmem] at hchanged
      cases hchanged
    rw [hpruned, hnone]
    rfl

end Midturn.Prunes

/-! ### Runs -/

namespace Node

/-- Some cached view lists this server. -/
def Lists (n : Node σ) (server : String) : Prop :=
  ∃ key e, n.directory.find? key = some e ∧
    ∃ i ∈ (n.entry e).listing.instances, i.instanceId = server

theorem mem_liveInstances_iff {n : Node σ} (filed : Filed n) {server : String} :
    server ∈ n.directory.liveInstances ↔ n.Lists server := by
  have hviews (e : EntryId) : e ∈ n.directory.views ↔ ∃ key, n.directory.find? key = some e := by
    constructor
    · intro he
      obtain ⟨⟨key, e⟩, hmem, rfl⟩ := List.mem_map.mp he
      exact ⟨key, filed.find?_eq_some_iff.mpr (filed.made hmem)⟩
    · rintro ⟨key, hfind⟩
      obtain ⟨before, after, hcached, -⟩ := List.lookup_eq_some_iff.mp hfind
      exact List.mem_map.mpr ⟨(key, e), hcached ▸ by simp, rfl⟩
  simp only [Directory.liveInstances, List.mem_flatMap, List.mem_map, hviews, Lists]
  constructor
  · rintro ⟨e, ⟨key, hfind⟩, hlisted⟩
    exact ⟨key, e, hfind, hlisted⟩
  · rintro ⟨key, e, hfind, hlisted⟩
    exact ⟨e, ⟨key, hfind⟩, hlisted⟩

variable [Registry σ]

/-- No operation begins in these turns. -/
def NoneBegins (n : Node σ) : List (Act σ) → Prop
  | [] => True
  | a :: acts => n.beginner? a = none ∧ (n.act a).NoneBegins acts

/-- Between `n` and `m` a sweep or a pushed change, the call `c`, has begun and answered, and no
    other operation was in flight. -/
structure RunsAlone (n m : Node σ) (c : CallId) : Prop where
  dormant : n.Dormant
  run : ∃ a op rest, n.beginner? a = some (c, op) ∧ op.audience? = some .watcher ∧
    (n.act a).NoneBegins rest ∧ m = n.follow (a :: rest)
  answered : ∃ r ∈ m.replies, r.call = c

variable {n m : Node σ} {c : CallId}

theorem prunes_of_begins {op : Operation σ} (h : Begins op c n m)
    (tells : op.audience? = some .watcher) (dormant : n.Dormant)
    (watched : n.watcher = some .balancer) (ha : Audited (⟨n, none, none⟩ : Midturn σ))
    (silent : noticesOf c n.journal = []) :
    Midturn.Prunes c n.balancer.monitor ⟨m, none, none⟩ := by
  obtain ⟨calls, nextCall, hcalls, hmove, rfl⟩ := h.starts
  have hstarts : Midturn.Prunes c n.balancer.monitor
      ⟨{ n with calls, nextCall }, some (c, .starting op), none⟩ := by
    refine ⟨⟨?_, ?_, nofun⟩, watched, .of_silent rfl silent, .inl (.inr ⟨_, rfl, tells⟩)⟩
    · intro x st hmem
      exact .dormant (dormant x st (hcalls hmem))
    · rintro x p ⟨⟩
      exact .own rfl tells
  exact hstarts.onward (ha.move hmove) (moves_starting ..)

theorem prunes_follow {monitor : Monitor} (h : Midturn.Prunes c monitor ⟨n, none, none⟩)
    (ha : Audited (⟨n, none, none⟩ : Midturn σ)) {acts : List (Act σ)}
    (unbegun : n.NoneBegins acts) : Midturn.Prunes c monitor ⟨n.follow acts, none, none⟩ := by
  induction acts generalizing n with
  | nil => exact h
  | cons a acts ih => exact ih (h.act ha unbegun.1) (ha.course (n.course_act a)) unbegun.2

end Node

/-- **Pruning is exact.**  If a sweep or a pushed change that runs alone has changed a view, then
    the servers that have statistics afterwards are listed by a view that is still cached, and
    the statistics of all such servers are those of before.  If it has changed none, all
    statistics are. -/
theorem pruning_is_exact [Registry σ] {start n m : Node σ} {c : CallId}
    (untouched : start.Untouched) (empty : start.directory.entries = [])
    (course : start.Course n) (watched : n.watcher = some .balancer) (alone : n.RunsAlone m c) :
    let before := n.balancer.monitor.tracker
    let after := m.balancer.monitor.tracker
    ((∃ o ∈ outcomesIn c m.journal, o.2.isChanged = true) →
      (∀ server r, after.recordOf? server = some r → m.Lists server) ∧
      ∀ server r, before.recordOf? server = some r → m.Lists server →
        after.recordOf? server = some r ∧ after.record? r = before.record? r) ∧
    ((∀ o ∈ outcomesIn c m.journal, o.2.isChanged = false) → after = before) := by
  intro before after
  obtain ⟨a, op, rest, begins, tells, unbegun, hm⟩ := alone.run
  have hbefore : Audited (⟨n, none, none⟩ : Midturn σ) := course.audited untouched empty
  have hafter : Audited (⟨m, none, none⟩ : Midturn σ) := hbefore.course (hm ▸ n.course_follow _)
  have hbegun : Midturn.Prunes c n.balancer.monitor ⟨n.act a, none, none⟩ :=
    Node.prunes_of_begins (Node.begins_of_beginner? begins) tells alone.dormant watched
      hbefore (Node.pending_of_beginner? hbefore begins).silent
  have hprunes : Midturn.Prunes c n.balancer.monitor ⟨m, none, none⟩ := by
    rw [hm]
    exact Node.prunes_follow hbegun (hbefore.course (n.course_act a)) unbegun
  obtain ⟨hchanged, hunchanged⟩ := hprunes.of_answered hafter.orderly alone.answered
  refine ⟨?_, fun h => congrArg Monitor.tracker (hunchanged h)⟩
  intro h
  have hretain : after = before.retain m.directory.liveInstances :=
    congrArg Monitor.tracker (hchanged h)
  have hlists {server : String} :
      m.directory.liveInstances.contains server = true ↔ m.Lists server :=
    List.contains_iff_mem.trans (Node.mem_liveInstances_iff hafter.regular.filed)
  constructor
  · intro server r hrecord
    rw [hretain, Tracker.recordOf?_retain] at hrecord
    split at hrecord
    · exact hlists.mp ‹_›
    · cases hrecord
  · intro server r hrecord hlisted
    rw [hretain, Tracker.recordOf?_retain, if_pos (hlists.mpr hlisted)]
    exact ⟨hrecord, rfl⟩

/-! ### A server that two services list -/

namespace Pruned

def key (service : String) : ServiceKey := ⟨"client", "shop", service, everyVersion⟩

def server (id : String) : Instance :=
  { instanceId := id, serviceId := "v1", endpoints := ["rest://" ++ id] }

def found (revision : String) (ids : List String) : Answer := .found ⟨ids.map server, some revision⟩

/-- One server leaves the orders but not the stock, and the users go. -/
def registry : Script :=
  ⟨[(key "orders", [⟨found "1" ["a", "b"], 0⟩, ⟨found "2" ["b"], 0⟩]),
    (key "users", [⟨found "1" ["c"], 0⟩, ⟨.notFound, 50⟩]),
    (key "stock", [⟨found "1" ["a"], 0⟩])]⟩

def start : Node Script := .balancing registry {} .retainNonEmpty 0 default

/-- Each server has been used once. -/
def used : Node Script :=
  start.follow
    [.call (.choose (key "orders") "i"), .call (.finish "i" false),
     .call (.choose (key "orders") "j"), .call (.finish "j" true),
     .call (.choose (key "users") "k"), .call (.finish "k" true), .call (.find (key "stock"))]

def swept : Node Script := used.follow [.call .sweep, .pass 50, .resume 9]

theorem runsAlone : used.RunsAlone swept 7 where
  dormant := .of_calls_nil (by decide)
  run := ⟨.call .sweep, .sweep, [.pass 50, .resume 9], rfl, rfl, ⟨rfl, rfl, trivial⟩, rfl⟩
  answered := by decide

end Pruned

/-- The users' server has no statistics any more; the one that left the orders has kept its
    own, because the stock lists it. -/
theorem shared_server_keeps_statistics :
    (Pruned.start.Untouched ∧ Pruned.start.directory.entries = [] ∧
      Pruned.start.Course Pruned.used ∧ Pruned.used.watcher = some .balancer ∧
      Pruned.used.RunsAlone Pruned.swept 7 ∧
      (∃ o ∈ outcomesIn 7 Pruned.swept.journal, o.2.isChanged = true) ∧
      Pruned.used.balancer.monitor.tracker.recordOf? "a" = some 0 ∧ Pruned.swept.Lists "a") ∧
    (∀ server r, Pruned.swept.balancer.monitor.tracker.recordOf? server = some r →
      Pruned.swept.Lists server) ∧
    Pruned.swept.balancer.monitor.tracker.recordOf? "a" = some 0 ∧
    Pruned.swept.balancer.monitor.tracker.record? 0 =
      Pruned.used.balancer.monitor.tracker.record? 0 ∧
    Pruned.used.balancer.monitor.tracker.recordOf? "c" = some 2 ∧
    Pruned.swept.balancer.monitor.tracker.recordOf? "c" = none := by
  have untouched : Pruned.start.Untouched := Node.untouched_balancing ..
  have course : Pruned.start.Course Pruned.used := Node.course_follow ..
  have watched : Pruned.used.watcher = some .balancer := by decide
  have changed : ∃ o ∈ outcomesIn 7 Pruned.swept.journal, o.2.isChanged = true := by decide
  have recorded : Pruned.used.balancer.monitor.tracker.recordOf? "a" = some 0 := by decide
  have listed : Pruned.swept.Lists "a" :=
    ⟨Pruned.key "stock", 2, by decide, Pruned.server "a", by decide, rfl⟩
  obtain ⟨left, kept⟩ := (pruning_is_exact untouched rfl course watched Pruned.runsAlone).1 changed
  obtain ⟨hsame, hcounters⟩ := kept "a" 0 recorded listed
  exact ⟨⟨untouched, rfl, course, watched, Pruned.runsAlone, changed, recorded, listed⟩, left,
    hsame, hcounters, by decide, by decide⟩

end ServiceFinder
