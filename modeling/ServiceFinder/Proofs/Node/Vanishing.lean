/-
  ServiceFinder/Proofs/Node/Vanishing.lean
  ========================================
  **When a service that vanished leaves the cache.**

  A sweep refreshes its members at once, and a member whose service is gone has to wait for the
  slower ones.  Only when all have reported does the sweep look at its views again, and it drops
  those that are gone by then (`Purged`).  In between, a change may have been applied to such a
  view, or whoever holds it may have refreshed it, and either gives it another status.  The view
  is then spared, and nothing else spares it.
-/
import ServiceFinder.Proofs.Node.Evicting
import ServiceFinder.Proofs.Node.Sweeps

namespace ServiceFinder

variable {σ : Type}

/-! ### What a pass drops at its end -/

/-- At the end of a pass every view that it found changed is gone from the cache if its service
    is gone. -/
def Purged : List JournalLine → Prop
  | [] => True
  | line :: before => Purged before ∧ ∀ c changed, line.what = .sweepEnded c changed →
      ∀ e ∈ changed, statusAfter e before = .serviceNotFound → ∃ l ∈ before, l.what = .evicted e

namespace Purged

variable {lines after before : List JournalLine}

theorem cons {line : JournalLine} (h : Purged before)
    (hline : ∀ c changed, line.what ≠ .sweepEnded c changed) : Purged (line :: before) :=
  ⟨h, fun c changed hwhat => absurd hwhat (hline c changed)⟩

theorem append (h : Purged before) (hl : ∀ l ∈ lines, l.what.sweep? = none) :
    Purged (lines ++ before) := by
  induction lines with
  | nil => exact h
  | cons line lines ih =>
    apply (ih fun l hmem => hl l (List.mem_cons_of_mem _ hmem)).cons
    intro c changed hwhat
    cases (hwhat ▸ hl line List.mem_cons_self : (Happening.sweepEnded c changed).sweep? = none)

theorem of_append (h : Purged (after ++ before)) : Purged before := by
  induction after with
  | nil => exact h
  | cons line after ih => exact ih h.1

end Purged

/-- **Every move leaves the passes that have ended purged.** -/
theorem Purged.move [Registry σ] {s s' : Midturn σ} (h : Purged s.node.journal)
    (hb : Booked s.node) (ho : Orderly s) (m : Move s s') : Purged s'.node.journal := by
  cases m.stroke ho with
  | aloof ha =>
    obtain ⟨lines, hj, hl⟩ := ha.journal
    rw [hj]
    exact h.append hl
  | ask hp hjournal | hear hp hjournal =>
    rw [hjournal]
    exact h.cons nofun
  | close n c k forced members =>
    let changed := Node.changedMembers members
    have hpublish := n.unswept_publish c changed
    have hstill := n.still_publish c changed
    obtain ⟨lines, hj, hl⟩ := hpublish.journal
    have hbefore : Purged (n.publish c changed).journal := by
      rw [hj]
      exact h.append hl
    refine ⟨hbefore, ?_⟩
    intro c' changed' hwhat e he hgone
    cases hwhat
    have hstatus : (n.entry e).status = .serviceNotFound := by
      rw [← hstill.entry e, hb.rated.of_still hstill e]
      exact hgone
    obtain ⟨l, hmem, hevicted⟩ := hb.filed.evicted_of_mem hstatus he
    have hnotify := (changed.foldl Node.evictIfGone n).still_notify c changed
    exact ⟨l, hnotify.journal_suffix.subset hmem, hevicted⟩
  | beginNone | beginSome => exact h.cons nofun
  | _ => exact h

theorem Node.Course.purged [Registry σ] {start n : Node σ} (untouched : start.Untouched)
    (empty : start.directory.entries = []) (course : start.Course n) : Purged n.journal := by
  have hkept := course.keeps_of_sound (I := fun s => Booked s.node ∧ Purged s.node.journal)
    (.of_untouched untouched)
    (fun hs h m => ⟨h.1.move hs m, h.2.move h.1 hs.orderly m⟩)
    (fun _ h => ⟨h.1.pass _, h.2⟩)
    ⟨.of_untouched untouched empty, by rw [untouched.journal]; trivial⟩
  exact hkept.2.2

/-! ### What may happen to a member that has reported -/

/-- A change was applied to the view `e`, or whoever holds it has refreshed it, and it has that
    status since then. -/
def Happening.Revises (e : EntryId) (status : CacheStatus) (h : Happening) : Prop :=
  (∃ c change, h = .changed c e change (some status)) ∨
    ∃ c o guarded, h = .refreshed c e .status o status guarded

theorem Happening.Revises.verdict? {e : EntryId} {status : CacheStatus} {h : Happening}
    (hr : h.Revises e status) : h.verdict? e = some status := by
  obtain ⟨c, change, rfl⟩ | ⟨c, o, guarded, rfl⟩ := hr
  · exact if_pos rfl
  · exact if_pos rfl

/-- The first refresh of a view ends only once. -/
theorem First.endsFirst_once {n : Node σ} {e : EntryId} (h : First e (⟨n, none, none⟩ : Midturn σ))
    (hs : Sound (⟨n, none, none⟩ : Midturn σ)) {newer older : List JournalLine}
    (hj : n.journal = newer ++ older) {l l' : JournalLine} (hl : l ∈ newer) (hl' : l' ∈ older)
    (ended : l.what.endsFirst e = true) : l'.what.endsFirst e ≠ true := by
  intro ended'
  have hnewer : 0 < newer.countP (·.what.endsFirst e) := List.countP_pos_iff.mpr ⟨l, hl, ended⟩
  have holder : 0 < older.countP (·.what.endsFirst e) := List.countP_pos_iff.mpr ⟨l', hl', ended'⟩
  have htotal := h.ends_of_rest hs
  rw [hj, firstEnds, List.countP_append] at htotal
  split at htotal
  · omega
  · omega

/-- No member of a pass reports twice, and nobody reports to another pass meanwhile. -/
theorem Swept.reported_once {c sweep : CallId} {e : EntryId} {status status' : CacheStatus}
    {later earlier older : List JournalLine} {line report : JournalLine}
    (h : Swept (later ++ line :: (earlier ++ report :: older))) {views : List EntryId}
    (hopen : openPass (later ++ line :: (earlier ++ report :: older)) = some (c, views))
    (hreport : report.what.verdictFor? c e = some status') :
    line.what.verdictFor? sweep e ≠ some status := by
  intro hline
  have hbefore : Swept (line :: (earlier ++ report :: older)) := h.of_append
  obtain ⟨views', hopen', -⟩ := hbefore.of_report hline
  -- the pass that it reports to is the one that is on its way
  obtain ⟨began, hbegan, -⟩ := hbefore.1.of_append.of_report hreport
  obtain ⟨l, hl, hwhat⟩ := mem_of_openPass hbegan
  have hbegun : ∃ l ∈ earlier ++ report :: older, ∃ views, l.what = .sweepBegan c views :=
    ⟨l, List.mem_append_right _ (List.mem_cons_of_mem _ hl), began, hwhat⟩
  rw [List.append_cons] at h hopen
  obtain ⟨views'', hsame⟩ := h.open_before hopen hbegun
  rw [hopen'] at hsame
  cases hsame
  have htold : status' ∈ verdictsFor c e (earlier ++ report :: older) :=
    List.mem_filterMap.mpr ⟨report, List.mem_append_right _ List.mem_cons_self, hreport⟩
  have hnone : verdictsFor c e (earlier ++ report :: older) = [] := by
    obtain ⟨-, hstep⟩ := hbefore
    rcases line with ⟨time, what⟩
    cases what with
    | refreshed c' v next o status guarded =>
      cases next with
      | member sweep =>
        obtain ⟨⟨rfl, rfl⟩, -⟩ := Option.ite_none_right_eq_some.mp hline
        exact hstep.2.2
      | _ => cases hline
    | _ => cases hline
  rw [hnone] at htold
  cases htold

/-- **While a pass is on its way, a member that has reported is only revised by a change or by
    whoever holds it.** -/
theorem revises_of_verdict? {n : Node σ} {e : EntryId} {c : CallId} {status status' : CacheStatus}
    (hr : Regular (⟨n, none, none⟩ : Midturn σ)) (hs : Swept n.journal)
    {after later earlier older : List JournalLine} {line report : JournalLine}
    (hj : n.journal = after ++ (later ++ line :: (earlier ++ report :: older)))
    {views : List EntryId}
    (hopen : openPass (later ++ line :: (earlier ++ report :: older)) = some (c, views))
    (hreport : report.what.verdictFor? c e = some status')
    (hverdict : line.what.verdict? e = some status) : line.what.Revises e status := by
  have hpass : Swept (later ++ line :: (earlier ++ report :: older)) := (hj ▸ hs).of_append
  have honce (sweep : CallId) : line.what.verdictFor? sweep e ≠ some status :=
    hpass.reported_once hopen hreport
  -- the member was initialized when the pass began
  have holder : Swept (report :: older) := by
    have hbefore : Swept (line :: (earlier ++ report :: older)) := hpass.of_append
    exact hbefore.1.of_append
  obtain ⟨views', hopen', hin⟩ := holder.of_report hreport
  obtain ⟨start, hstart, hlisted⟩ := holder.1.listed_of_openPass hopen' hin
  obtain ⟨first, hfirst, hended⟩ := hlisted.initialized
  rcases line with ⟨time, what⟩
  cases what with
  | changed c' v change verdict =>
    obtain ⟨rfl, rfl⟩ := Option.ite_none_right_eq_some.mp hverdict
    exact .inl ⟨c', change, rfl⟩
  | refreshed c' v next o status'' guarded =>
    obtain ⟨rfl, hstatus⟩ := Option.ite_none_right_eq_some.mp hverdict
    cases hstatus
    cases next with
    | status => exact .inr ⟨c', o, guarded, rfl⟩
    | member sweep => exact absurd (if_pos ⟨rfl, rfl⟩) (honce sweep)
    | first next =>
      let line : JournalLine := ⟨time, .refreshed c' v (.first next) o status guarded⟩
      have hsplit : n.journal = (after ++ (later ++ [line])) ++ (earlier ++ report :: older) := by
        rw [hj]
        simp [line]
      have hline : line ∈ after ++ (later ++ [line]) := by simp
      have he : v < n.directory.entries.length := by
        apply Nat.lt_of_not_le
        intro hle
        have hmem : line ∈ n.journal := hsplit ▸ List.mem_append_left _ hline
        cases (hr.sound.told v).unmade hle line hmem rfl
      have hold : first ∈ earlier ++ report :: older :=
        List.mem_append_right _ (List.mem_cons_of_mem _ (hstart.subset hfirst))
      have hends : line.what.endsFirst v = true := by simp [line, Happening.endsFirst]
      exact absurd hended ((hr.first v he).endsFirst_once hr.sound hsplit hline hold hends)
  | _ => cases hverdict

/-! ### Who is spared -/

/-- The view `e`, which was found gone at the end of `older`, has been spared: since then it was
    revised while it was still cached, and nothing has given it another status after that. -/
def Spared (e : EntryId) (newer older : List JournalLine) : Prop :=
  ∃ later line earlier status, newer = later ++ line :: earlier ∧
    (∀ l ∈ earlier ++ older, l.what ≠ .evicted e) ∧ line.what.Revises e status ∧
      status ≠ .serviceNotFound ∧ ∀ l ∈ later, l.what.verdict? e = none

/-- Who is spared is not evicted later on. -/
theorem Spared.kept {e : EntryId} {newer older : List JournalLine} (h : Spared e newer older)
    (hgone : GoneWhenEvicted (newer ++ older)) :
    ∀ l ∈ newer ++ older, l.what ≠ .evicted e := by
  obtain ⟨later, line, earlier, status, rfl, hkept, hrevises, halive, hlater⟩ := h
  rw [List.append_assoc, List.cons_append] at hgone ⊢
  exact hgone.kept_since hrevises.verdict? halive hlater hkept

/-- What a pass found gone is among the views that it publishes. -/
theorem Swept.mem_changed {before : List JournalLine} {ended : Nat} {c : CallId}
    {changed : List EntryId} (h : Swept (⟨ended, .sweepEnded c changed⟩ :: before))
    {report : JournalLine} (hmem : report ∈ before) {e : EntryId}
    (hreport : report.what.verdictFor? c e = some .serviceNotFound) : e ∈ changed := by
  have htold : CacheStatus.serviceNotFound ∈ verdictsFor c e before :=
    List.mem_filterMap.mpr ⟨report, hmem, hreport⟩
  obtain ⟨views, -, hmembers, hothers⟩ := h.2
  by_cases he : e ∈ views
  · obtain ⟨-, status, hverdicts, hiff⟩ := hmembers e he
    rw [hverdicts] at htold
    exact hiff.mpr (List.mem_singleton.mp htold ▸ rfl)
  · rw [(hothers e he).2.1] at htold
    cases htold

/-- What a pass found gone and nobody has evicted when the pass is over was spared meanwhile. -/
theorem Swept.spared_of_kept {n : Node σ} (h : Swept n.journal)
    (hr : Regular (⟨n, none, none⟩ : Midturn σ)) (hpurged : Purged n.journal)
    {after newer older : List JournalLine} {ended : Nat} {c : CallId} {changed : List EntryId}
    {report : JournalLine} {e : EntryId}
    (hj : n.journal = after ++ ⟨ended, .sweepEnded c changed⟩ :: (newer ++ report :: older))
    (hreport : report.what.verdictFor? c e = some .serviceNotFound)
    (hstatus : statusAfter e (report :: older) = .serviceNotFound)
    (hkept : ∀ l ∈ newer ++ report :: older, l.what ≠ .evicted e) :
    Spared e newer (report :: older) := by
  have hswept : Swept (⟨ended, .sweepEnded c changed⟩ :: (newer ++ report :: older)) :=
    (hj ▸ h).of_append
  have hdropped : Purged (⟨ended, .sweepEnded c changed⟩ :: (newer ++ report :: older)) :=
    (hj ▸ hpurged).of_append
  have hchanged : e ∈ changed := hswept.mem_changed (by simp) hreport
  have hrevived : statusAfter e (newer ++ report :: older) ≠ .serviceNotFound := by
    intro hgone
    obtain ⟨l, hl, hwhat⟩ := hdropped.2 c changed rfl e hchanged hgone
    exact hkept l hl hwhat
  rcases statusAfter_cases (e := e) newer (report :: older) with
    ⟨hsame, -⟩ | ⟨later, line, earlier, status, rfl, hline, hlater, hafter⟩
  · -- nothing has given it a status since it was found gone
    exact absurd (hsame.trans hstatus) hrevived
  · obtain ⟨views, hopen, -, -⟩ := hswept.2
    rw [List.append_assoc, List.cons_append] at hj hopen
    rw [List.append_cons after] at hj
    have hrevises := revises_of_verdict? hr h hj hopen hreport hline
    have hcached : ∀ l ∈ earlier ++ report :: older, l.what ≠ .evicted e := by
      intro l hl
      refine hkept l ?_
      rw [List.append_assoc, List.cons_append]
      exact List.mem_append_right _ (List.mem_cons_of_mem _ hl)
    exact ⟨later, line, earlier, status, rfl, hcached, hrevises, hafter ▸ hrevived, hlater⟩

/-- **A view whose service a pass found gone has left the cache when the pass is over, unless
    a change was applied to it or it was refreshed on its own before the pass was over, and while
    it was still cached.** -/
theorem vanished_view_evicted_iff [Registry σ] {start n : Node σ}
    {after before newer older : List JournalLine} {report : JournalLine} {ended : Nat}
    {c c' : CallId} {e : EntryId} {o : Outcome} {guarded : Bool} {changed : List EntryId}
    (untouched : start.Untouched) (empty : start.directory.entries = [])
    (course : start.Course n)
    (swept : n.journal = after ++ ⟨ended, .sweepEnded c changed⟩ :: before)
    (vanished : before = newer ++ report :: older)
    (gone : report.what = .refreshed c' e (.member c) o .serviceNotFound guarded) :
    ((∃ l ∈ before, l.what = .evicted e) ↔ ¬ Spared e newer (report :: older)) ∧
      (after = [] →
        (n.directory.find? (n.entry e).key = some e ↔ Spared e newer (report :: older))) := by
  subst vanished
  obtain ⟨hr, hsweeping⟩ := course.sweeping untouched empty
  have hpurged := course.purged untouched empty
  have hkept_iff : (∀ l ∈ newer ++ report :: older, l.what ≠ .evicted e) ↔
      Spared e newer (report :: older) := by
    constructor
    · intro hkept
      refine hsweeping.swept.spared_of_kept hr hpurged swept ?_ ?_ hkept
      · rw [gone]
        exact if_pos ⟨rfl, rfl⟩
      · rw [statusAfter, gone, Happening.verdict?, if_pos rfl, Option.getD_some]
    · intro hspared
      have hgone := (course.booked untouched empty).gone
      rw [swept] at hgone
      exact hspared.kept hgone.of_append.1
  refine ⟨?_, ?_⟩
  · rw [← hkept_iff]
    simp
  · rintro rfl
    have he : e < n.directory.entries.length := by
      apply Nat.lt_of_not_le
      intro hle
      have hmem : report ∈ n.journal := by simp [swept]
      have hforgot := (hr.sound.told e).unmade hle report hmem (by rw [gone]; rfl)
      rw [gone] at hforgot
      cases hforgot
    have hfiled : Filed n := hr.filed
    rw [← hkept_iff, hfiled.find?_eq_some_iff, swept]
    simp [he]

/-! ### A service that vanished and is spared -/

namespace Revised

def server (id : String) : Instance := { instanceId := id, serviceId := "v1", endpoints := [] }

def found (ids : List String) : Answer := .found ⟨ids.map server, some "1"⟩

/-- The orders vanish, and the users take 50 milliseconds to answer. -/
def start : Node Script :=
  .caching ⟨[(Return.orders, [⟨found ["a", "b"], 0⟩, ⟨.notFound, 0⟩]),
    (Return.users, [⟨found ["c"], 0⟩, ⟨found ["c"], 50⟩])]⟩ {} .retainNonEmpty

/-- One server of the orders goes down. -/
def down : InstanceChange := .about "store" "orders" .delete (server "a")

/-- The sweep has found that the orders are gone, the change is applied to them, and the sweep
    ends. -/
def swept : Node Script :=
  start.follow [.call (.find Return.orders), .call (.find Return.users), .call .sweep, .pass 10,
    .call (.change down), .pass 40, .resume 4]

/-- What the journal tells since the orders were found gone. -/
def newer : List JournalLine := swept.journal.tail.take 3

/-- What it told before. -/
def older : List JournalLine := swept.journal.drop 5

def report : JournalLine :=
  ⟨0, .refreshed 3 0 (.member 2) (.answered .notFound) .serviceNotFound false⟩

def before : List JournalLine := newer ++ report :: older

theorem journal_swept : swept.journal = [] ++ ⟨50, .sweepEnded 2 [0]⟩ :: before := by
  decide

end Revised

/-- **A view whose service a pass found gone can still be cached when the pass is over, with
    nothing but a server that went down in between.** -/
theorem vanished_view_stays_cached :
    (Revised.start.Untouched ∧ Revised.start.directory.entries = [] ∧
      Revised.start.Course Revised.swept ∧ Revised.down.kind.removes = true) ∧
    Revised.report ∈ Revised.swept.journal ∧ ⟨2, 50, .swept true⟩ ∈ Revised.swept.replies ∧
    Revised.swept.journal.head? = some ⟨50, .sweepEnded 2 [0]⟩ ∧
    Revised.swept.directory.find? Return.orders = some 0 := by
  refine ⟨⟨Node.untouched_caching .., rfl, Node.course_follow .., rfl⟩, by decide, by decide,
    by decide, by decide⟩

/-- It was spared. -/
theorem vanished_view_spared :
    (Revised.start.Untouched ∧ Revised.start.directory.entries = [] ∧
      Revised.start.Course Revised.swept ∧
      Revised.swept.journal = [] ++ ⟨50, .sweepEnded 2 [0]⟩ :: Revised.before ∧
      Revised.before = Revised.newer ++ Revised.report :: Revised.older ∧
      Revised.report.what =
        .refreshed 3 0 (.member 2) (.answered .notFound) .serviceNotFound false) ∧
    Revised.swept.directory.find? (Revised.swept.entry 0).key = some 0 ∧
    Spared 0 Revised.newer (Revised.report :: Revised.older) := by
  have untouched : Revised.start.Untouched := Node.untouched_caching ..
  have course : Revised.start.Course Revised.swept := Node.course_follow ..
  have cached : Revised.swept.directory.find? (Revised.swept.entry 0).key = some 0 := by decide
  have gone : Revised.report.what =
      .refreshed 3 0 (.member 2) (.answered .notFound) .serviceNotFound false := rfl
  obtain ⟨-, still⟩ :=
    vanished_view_evicted_iff untouched rfl course Revised.journal_swept rfl gone
  exact ⟨⟨untouched, rfl, course, Revised.journal_swept, rfl, gone⟩, cached,
    (still rfl).mp cached⟩

end ServiceFinder
