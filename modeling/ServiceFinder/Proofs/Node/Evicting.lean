/-
  ServiceFinder/Proofs/Node/Evicting.lean
  =======================================
  **Who is evicted is gone.**

  A view is dropped from the cache by whoever finds that its service is gone, and several
  calls may hold it by then: a lookup that waited for it, a sweep that refreshed it, a change
  that was applied to it.  Meanwhile a newer view may be cached under the same key.  What is
  dropped is nevertheless the very view that is gone, for the status is looked at in the same
  turn and a view is only dropped while it is the one that is cached.  The journal tells the
  status that a view has (`statusAfter`), and so which status it had when it was evicted.
-/
import ServiceFinder.Proofs.Node.Lookups

namespace ServiceFinder

variable {σ : Type}

/-! ### The status that a journal tells -/

/-- The status that a happening leaves the view `e` with, if it gives it one. -/
def Happening.verdict? (e : EntryId) : Happening → Option CacheStatus
  | .refreshed _ v _ _ status _ => if v = e then some status else none
  | .changed _ v _ verdict => if v = e then verdict else none
  | _ => none

/-- The status of the view `e` after all that a journal tells. -/
def statusAfter (e : EntryId) : List JournalLine → CacheStatus
  | [] => .initial
  | line :: before => (line.what.verdict? e).getD (statusAfter e before)

section Statuses

variable {e : EntryId} {lines before : List JournalLine}

theorem Happening.verdict?_of_ne {h : Happening} (hv : h.view? ≠ some e) :
    h.verdict? e = none := by
  cases h with
  | refreshed c v next o status guarded => exact if_neg fun heq => hv (congrArg some heq)
  | changed c v change verdict => exact if_neg fun heq => hv (congrArg some heq)
  | _ => rfl

theorem statusAfter_append (h : ∀ l ∈ lines, l.what.verdict? e = none) :
    statusAfter e (lines ++ before) = statusAfter e before := by
  induction lines with
  | nil => rfl
  | cons line lines ih =>
    rw [List.cons_append, statusAfter, h line List.mem_cons_self, Option.getD_none]
    exact ih fun l hl => h l (List.mem_cons_of_mem _ hl)

theorem statusAfter_of_forgot (h : ∀ l ∈ before, l.what.view? = some e → l.what = .forgot e) :
    statusAfter e before = .initial := by
  induction before with
  | nil => rfl
  | cons line before ih =>
    have hnone : line.what.verdict? e = none := by
      by_cases hv : line.what.view? = some e
      · rw [h line List.mem_cons_self hv]
        rfl
      · exact Happening.verdict?_of_ne hv
    rw [statusAfter, hnone, Option.getD_none]
    exact ih fun l hl => h l (List.mem_cons_of_mem _ hl)

/-- What has happened since leaves the status as it was, or it is that of the latest verdict. -/
theorem statusAfter_cases (newer older : List JournalLine) :
    (statusAfter e (newer ++ older) = statusAfter e older ∧
      ∀ l ∈ newer, l.what.verdict? e = none) ∨
    ∃ later line earlier status, newer = later ++ line :: earlier ∧
      line.what.verdict? e = some status ∧ (∀ l ∈ later, l.what.verdict? e = none) ∧
        statusAfter e (newer ++ older) = status := by
  induction newer with
  | nil => exact .inl ⟨rfl, by simp⟩
  | cons line newer ih =>
    cases hv : line.what.verdict? e with
    | some status =>
      refine .inr ⟨[], line, newer, status, rfl, hv, by simp, ?_⟩
      rw [List.cons_append, statusAfter, hv, Option.getD_some]
    | none =>
      rw [List.cons_append, statusAfter, hv, Option.getD_none]
      rcases ih with ⟨hsame, hnone⟩ | ⟨later, line', earlier, status, rfl, hline, hlater, hstatus⟩
      · refine .inl ⟨hsame, ?_⟩
        intro l hl
        rcases List.mem_cons.mp hl with rfl | hl
        · exact hv
        · exact hnone l hl
      · refine .inr ⟨line :: later, line', earlier, status, rfl, hline, ?_, hstatus⟩
        intro l hl
        rcases List.mem_cons.mp hl with rfl | hl
        · exact hv
        · exact hlater l hl

end Statuses

/-- The journal tells the status of every view. -/
def Rated (n : Node σ) : Prop := ∀ e, (n.entry e).status = statusAfter e n.journal

namespace Rated

variable {n n' : Node σ}

theorem of_eq (h : Rated n) (hstatus : ∀ e, (n'.entry e).status = (n.entry e).status)
    (hjournal : ∃ lines, n'.journal = lines ++ n.journal ∧
      ∀ e, ∀ l ∈ lines, l.what.verdict? e = none) : Rated n' := by
  intro e
  obtain ⟨lines, hj, hl⟩ := hjournal
  rw [hstatus e, hj, statusAfter_append (hl e)]
  exact h e

theorem of_still (h : Rated n) (hstill : n.Still n') : Rated n' := by
  obtain ⟨lines, hj, hl⟩ := hstill.journal
  refine h.of_eq (fun e => congrArg Entry.status (hstill.entry e)) ⟨lines, hj, ?_⟩
  intro e l hmem
  apply Happening.verdict?_of_ne
  rw [(hl l hmem).2]
  simp

theorem modify (h : Rated n) (v : EntryId) {f : Entry → Entry}
    (hf : (f (n.entry v)).status = (n.entry v).status) : Rated (n.modifyEntry v f) :=
  h.of_eq (fun e => n.entry_modifyEntry_congr Entry.status v e hf) ⟨[], rfl, by simp⟩

/-- A view is revised, and the journal tells its new status. -/
theorem revise (h : Rated n) {v : EntryId} {what : Happening} (r : n.Revised n' v)
    (hjournal : n'.journal = ⟨n.time, what⟩ :: n.journal)
    (hstatus : (n'.entry v).status = (what.verdict? v).getD (n.entry v).status)
    (hother : ∀ e, e ≠ v → what.verdict? e = none) : Rated n' := by
  intro e
  rw [hjournal, statusAfter]
  by_cases he : e = v
  · subst he
    rw [hstatus, h e]
  · rw [r.other he, hother e he, h e]
    rfl

theorem create (h : Rated n) {r : Option (CallId × Point σ)}
    {k : Option (CallId × Bool × List EntryId)} (hs : Sound (⟨n, r, k⟩ : Midturn σ))
    (key : ServiceKey) : Rated (n.created key) := by
  intro e
  have hjournal : statusAfter e (n.created key).journal = statusAfter e n.journal := rfl
  rw [hjournal]
  show ((n.directory.create key).entry e).status = _
  rw [Directory.entry_create]
  split
  · rename_i he
    rw [statusAfter_of_forgot ((hs.told e).unmade (Nat.le_of_eq he.symm))]
  · exact h e

theorem touch [Registry σ] {s s' : Midturn σ} (h : Rated s.node) (hs : Sound s)
    (t : Touch s s') : Rated s'.node := by
  cases t with
  | wake => exact h.of_eq (fun _ => rfl) ⟨[], rfl, by simp⟩
  | forget n c k v es next =>
    exact (h.modify v (f := Entry.forgetRevision) rfl).of_eq (fun _ => rfl)
      ⟨[⟨n.time, .forgot v⟩], rfl, by simp [Happening.verdict?]⟩
  | create => exact h.create hs _
  | beginFirst | endFirst | lock => exact h.modify _ rfl
  | wait => exact h.modify _ rfl
  | @askNow n c k v next =>
    exact h.of_eq (fun _ => rfl)
      ⟨[⟨n.time, .fetchBegan c v next⟩], rfl, by simp [Happening.verdict?]⟩
  | @ask n c k v next =>
    exact h.of_eq (fun _ => rfl)
      ⟨[⟨n.time, .fetchBegan c v next⟩], rfl, by simp [Happening.verdict?]⟩
  | hear n c k v o next =>
    have hv : v < n.directory.entries.length := hs.inLine.lt_length rfl
    refine h.revise (n.revised_settled c o next hv) rfl ?_ ?_
    · rw [n.entry_settled c o next hv]
      simp only [Node.outcomeOn, Happening.verdict?, if_true, Option.getD_some]
      rw [Entry.afterRefresh_fst]
    · intro e he
      exact if_neg fun heq => he heq.symm
  | apply n c k v change next =>
    have hv : v < n.directory.entries.length := hs.inLine.lt_length rfl
    have r := n.revised_applyChange c change hv
    have hjournal : (n.applyChange c v change).2.journal =
        ⟨n.time, .changed c v change (n.changeOn v change).2⟩ :: n.journal := rfl
    refine h.revise r hjournal ?_ ?_
    · rw [n.entry_applyChange c change hv]
      simp only [Node.changeOn, Happening.verdict?, if_true]
      exact Entry.status_afterChange ..
    · intro e he
      exact if_neg fun heq => he heq.symm

/-- **Every move leaves each view with the status that the journal tells.** -/
theorem move [Registry σ] {s s' : Midturn σ} (h : Rated s.node) (hs : Sound s) (m : Move s s') :
    Rated s'.node := by
  rcases m.apart_or_touch hs.orderly with ha | ht
  · obtain ⟨lines, hj, hl⟩ := ha.journal
    refine h.of_eq ha.status ⟨lines, hj, ?_⟩
    intro e l hmem
    apply Happening.verdict?_of_ne
    rw [hl l hmem]
    simp
  · exact h.touch hs ht

end Rated

/-! ### What a call drops -/

/-- The views that a running call is about to look at, to drop those that are gone. -/
def Point.parting : Point σ → List EntryId
  | .passed e .view | .passed e (.choose _) => [e]
  | .closing _ members => Node.changedMembers members
  | .spreading _ changed [] => changed
  | _ => []

def Midturn.parting (s : Midturn σ) : List EntryId :=
  (s.running.map fun x => x.2.parting).getD []

theorem Node.parting_of_turnsTo {n : Node σ} {p p' : Point σ} (h : n.turnsTo p = some p') :
    p.parting = [] := by
  unfold turnsTo at h
  split at h
  all_goals first
    | rfl
    | cases h

/-- All that `n` has cached is still cached, and nothing is evicted. -/
structure Node.Retains (n n' : Node σ) : Prop where
  cached : n.directory.cached <+: n'.directory.cached
  journal : ∃ lines, n'.journal = lines ++ n.journal ∧ ∀ l ∈ lines, ∀ e, l.what ≠ .evicted e

namespace Node

theorem Retains.of_eq {n n' : Node σ} (hcached : n'.directory.cached = n.directory.cached)
    (hjournal : n'.journal = n.journal) : n.Retains n' := by
  constructor
  · simp [hcached]
  · exact ⟨[], hjournal, by simp⟩

theorem Retains.of_note {n n' : Node σ} {what : Happening}
    (hcached : n'.directory.cached = n.directory.cached)
    (hjournal : n'.journal = ⟨n.time, what⟩ :: n.journal) (hwhat : ∀ e, what ≠ .evicted e) :
    n.Retains n' := by
  constructor
  · simp [hcached]
  · exact ⟨[⟨n.time, what⟩], hjournal, by simpa using hwhat⟩

theorem Retains.trans {n m k : Node σ} (h : n.Retains m) (h' : m.Retains k) : n.Retains k where
  cached := h.cached.trans h'.cached
  journal := added_trans h.journal h'.journal

theorem retains_notify (n : Node σ) (c : CallId) (changed : List EntryId) :
    n.Retains (n.notify c changed) := by
  have hcached := congrArg Directory.cached (n.directory_notify c changed)
  unfold notify at hcached ⊢
  cases changed with
  | nil => exact .of_eq rfl rfl
  | cons e rest =>
    cases n.watcher with
    | none => exact .of_eq rfl rfl
    | some w =>
      cases w with
      | named name => exact .of_note rfl rfl nofun
      | balancer => exact .of_note rfl rfl nofun

end Node

theorem Quiet.retains {c : CallId} {n n' : Node σ} {p p' : Point σ} (q : Quiet c n p n' p') :
    (p.parting.foldl Node.evictIfGone n).Retains n' := by
  cases q with
  | turn h =>
    rw [Node.parting_of_turnsTo h]
    exact .of_eq rfl rfl
  | aside h =>
    obtain ⟨hviews, -, -, -, -, hjournal⟩ := Node.rest_of_aside h
    exact .of_eq (congrArg Directory.cached hviews) hjournal
  | find | sweepFree | forceFree | view => exact .of_eq rfl rfl
  | choose e i =>
    obtain ⟨hviews, -, -, -, -, hjournal⟩ := Node.rest_of_choice (n.evictIfGone e) e i
    exact .of_eq (congrArg Directory.cached hviews) hjournal
  | sweepTaken | sweepNone => exact .of_note rfl rfl nofun
  | close forced members =>
    apply (Node.retains_notify _ c (Node.changedMembers members)).trans
    exact .of_note rfl rfl nofun
  | publish change changed => exact Node.retains_notify _ c changed

/-- **Every move drops those views that are gone among the ones it looks at, and no other.** -/
theorem Move.retains [Registry σ] {s s' : Midturn σ} (m : Move s s') :
    (s.parting.foldl Node.evictIfGone s.node).Retains s'.node := by
  cases m with
  | call | wake | answer | sleep | awaitFirst | forceWait | enlist | enlisted | member | lastMember
  | stray | stopPuller | callAfter | protectView | beginFirst | endFirst | lock | wait =>
    exact .of_eq rfl rfl
  | quiet q => exact q.retains
  | protect n c k on => exact .of_eq (n.directory.cached_protect on) rfl
  | startPuller n c k interval =>
    rw [n.startPuller_eq]
    exact .of_eq rfl rfl
  | create => exact ⟨List.prefix_append _ _, [⟨_, .created _⟩], rfl, by simp⟩
  | forget | tick | askNow | ask | hear | sweepSome | apply | applyNext =>
    exact .of_note rfl rfl nofun

theorem Move.still_of_parting [Registry σ] {s s' : Midturn σ} (m : Move s s')
    (h : s.parting ≠ []) : s.node.Still s'.node := by
  cases m with
  | quiet q => exact q.still
  | _ => exact absurd rfl h

/-! ### Evictions in the journal -/

/-- A view is only evicted while it is gone, after it was made and never before. -/
def GoneWhenEvicted : List JournalLine → Prop
  | [] => True
  | line :: before => GoneWhenEvicted before ∧ ∀ e, line.what = .evicted e →
      statusAfter e before = .serviceNotFound ∧ (∃ l ∈ before, l.what = .created e) ∧
        ∀ l ∈ before, l.what ≠ .evicted e

theorem GoneWhenEvicted.append {lines before : List JournalLine} (h : GoneWhenEvicted before)
    (hl : ∀ l ∈ lines, ∀ e, l.what ≠ .evicted e) : GoneWhenEvicted (lines ++ before) := by
  induction lines with
  | nil => exact h
  | cons line lines ih =>
    constructor
    · exact ih fun l hmem => hl l (List.mem_cons_of_mem _ hmem)
    · intro e hwhat
      exact absurd hwhat (hl line List.mem_cons_self e)

theorem GoneWhenEvicted.of_append {after before : List JournalLine}
    (h : GoneWhenEvicted (after ++ before)) : GoneWhenEvicted before := by
  induction after with
  | nil => exact h
  | cons line after ih => exact ih h.1

/-- A view that is not gone since `line` is not evicted since then. -/
theorem GoneWhenEvicted.kept_since {later before : List JournalLine} {line : JournalLine}
    {e : EntryId} {status : CacheStatus} (h : GoneWhenEvicted (later ++ line :: before))
    (hline : line.what.verdict? e = some status) (alive : status ≠ .serviceNotFound)
    (hlater : ∀ l ∈ later, l.what.verdict? e = none)
    (hbefore : ∀ l ∈ before, l.what ≠ .evicted e) :
    ∀ l ∈ later ++ line :: before, l.what ≠ .evicted e := by
  induction later with
  | nil =>
    intro l hl hwhat
    rcases List.mem_cons.mp hl with rfl | hl
    · rw [hwhat] at hline
      cases hline
    · exact hbefore l hl hwhat
  | cons l' later ih =>
    have hrest : ∀ l ∈ later, l.what.verdict? e = none :=
      fun l hl => hlater l (List.mem_cons_of_mem _ hl)
    intro l hl hwhat
    rcases List.mem_cons.mp hl with rfl | hl
    · have hgone : statusAfter e (later ++ line :: before) = .serviceNotFound := (h.2 e hwhat).1
      rw [statusAfter_append hrest, statusAfter, hline, Option.getD_some] at hgone
      exact alive hgone
    · exact ih h.1 hrest l hl hwhat

/-- What is cached and which status each view has can be read off a journal in which no view
    is evicted that is not gone. -/
structure Booked (n : Node σ) : Prop where
  filed : Filed n
  rated : Rated n
  gone : GoneWhenEvicted n.journal

namespace Booked

variable {n : Node σ}

theorem evictIfGone (h : Booked n) (e : EntryId) : Booked (n.evictIfGone e) := by
  have hrated := h.rated.of_still (n.still_evictIfGone e)
  have hfiled := h.filed.evictIfGone e
  refine ⟨hfiled, hrated, ?_⟩
  unfold Node.evictIfGone Node.evict
  split
  · rename_i hgone
    split
    · rename_i hholds
      have hin := h.filed.find?_eq_some_iff.mp (beq_iff_eq.mp hholds)
      refine ⟨h.gone, ?_⟩
      intro v hv
      cases hv
      exact ⟨(h.rated e).symm.trans hgone, h.filed.created hin.1, hin.2.2⟩
    · exact h.gone
  · exact h.gone

theorem evictAll (h : Booked n) (es : List EntryId) : Booked (es.foldl Node.evictIfGone n) := by
  induction es generalizing n with
  | nil => exact h
  | cons e es ih => exact ih (h.evictIfGone e)

/-- **Every move evicts only what is gone.** -/
theorem move [Registry σ] {s s' : Midturn σ} (h : Booked s.node) (hs : Sound s) (m : Move s s') :
    Booked s'.node := by
  refine ⟨h.filed.move m, h.rated.move hs m, ?_⟩
  -- it evicts some of the views that it looks at, and then no other
  obtain ⟨lines, hj, hl⟩ := m.retains.journal
  rw [hj]
  exact (h.evictAll s.parting).gone.append hl

theorem of_untouched {n : Node σ} (untouched : n.Untouched) (empty : n.directory.entries = []) :
    Booked n where
  filed := (Steady.of_untouched untouched empty).filed
  rated e := by
    rw [untouched.journal]
    exact (untouched.entry e).2.1
  gone := by
    rw [untouched.journal]
    trivial

theorem pass {n : Node σ} (time : Nat) (h : Booked n) : Booked { n with time } where
  filed := h.filed.of_views rfl rfl rfl
  rated := h.rated.of_eq (fun _ => rfl) ⟨[], rfl, by simp⟩
  gone := h.gone

end Booked

theorem Node.Course.booked [Registry σ] {start n : Node σ} (untouched : start.Untouched)
    (empty : start.directory.entries = []) (course : start.Course n) : Booked n :=
  (course.keeps_of_sound (I := fun s => Booked s.node) (.of_untouched untouched)
    (fun hs h m => h.move hs m) (fun _ h => h.pass _) (.of_untouched untouched empty)).2

/-! ### What leaves the cache -/

namespace Filed

variable {n : Node σ} {key : ServiceKey} {e : EntryId}

theorem mem_evictIfGone (h : Filed n) (hin : (key, e) ∈ n.directory.cached) (v : EntryId) :
    (key, e) ∈ (n.evictIfGone v).directory.cached ∨
      e = v ∧ (n.entry e).status = .serviceNotFound := by
  obtain ⟨hlt, hkey, hkept⟩ := h.made hin
  have hstill := n.still_evictIfGone v
  have hafter := h.evictIfGone v
  by_cases hsame : e = v ∧ (n.entry e).status = .serviceNotFound
  · exact .inr hsame
  · refine .inl ?_
    have hlt' : e < (n.evictIfGone v).directory.entries.length := by
      rw [hstill.entries]
      exact hlt
    rw [← hkey, ← hstill.entry e]
    apply hafter.kept hlt'
    intro l hl hwhat
    unfold Node.evictIfGone Node.evict at hl
    split at hl
    · rename_i hgone
      split at hl
      · rcases List.mem_cons.mp hl with rfl | hl
        · cases hwhat
          exact hsame ⟨rfl, hgone⟩
        · exact hkept l hl hwhat
      · exact hkept l hl hwhat
    · exact hkept l hl hwhat

theorem mem_evictAll (h : Filed n) (hin : (key, e) ∈ n.directory.cached) (es : List EntryId) :
    (key, e) ∈ (es.foldl Node.evictIfGone n).directory.cached ∨
      e ∈ es ∧ (n.entry e).status = .serviceNotFound := by
  induction es generalizing n with
  | nil => exact .inl hin
  | cons v es ih =>
    rcases h.mem_evictIfGone hin v with hkept | ⟨rfl, hgone⟩
    · rcases ih (h.evictIfGone v) hkept with hkept | ⟨hmem, hgone⟩
      · exact .inl hkept
      · rw [(n.still_evictIfGone v).entry e] at hgone
        exact .inr ⟨List.mem_cons_of_mem _ hmem, hgone⟩
    · exact .inr ⟨List.mem_cons_self, hgone⟩

/-- Who drops a view that is gone leaves it evicted, by this call or by another one before. -/
theorem evicted_of_gone (h : Filed n) (hgone : (n.entry e).status = .serviceNotFound) :
    ∃ l ∈ (n.evictIfGone e).journal, l.what = .evicted e := by
  simp only [Node.evictIfGone, hgone, if_true]
  unfold Node.evict
  by_cases hholds : n.directory.holds e = true
  · rw [if_pos hholds]
    exact ⟨_, List.mem_cons_self, rfl⟩
  · rw [if_neg hholds]
    by_contra hnone
    apply hholds
    have hkept : ∀ l ∈ n.journal, l.what ≠ .evicted e :=
      fun l hl hwhat => hnone ⟨l, hl, hwhat⟩
    exact beq_iff_eq.mpr (h.find?_eq_some_iff.mpr ⟨Node.lt_length_of_gone hgone, rfl, hkept⟩)

theorem evicted_of_mem (h : Filed n) (hgone : (n.entry e).status = .serviceNotFound)
    {views : List EntryId} (hmem : e ∈ views) :
    ∃ l ∈ (views.foldl Node.evictIfGone n).journal, l.what = .evicted e := by
  induction views generalizing n with
  | nil => cases hmem
  | cons v views ih =>
    have hstill := n.still_evictIfGone v
    rcases List.mem_cons.mp hmem with rfl | hmem
    · obtain ⟨l, hl, hwhat⟩ := h.evicted_of_gone hgone
      have hlater := (n.evictIfGone e).still_evictAll views
      exact ⟨l, hlater.journal_suffix.subset hl, hwhat⟩
    · apply ih (h.evictIfGone v)
      · rwa [hstill.entry e]
      · exact hmem

end Filed

/-- A move that drops a view drops it as one of those it looks at, and as one that is gone. -/
theorem Move.mem_cached [Registry σ] {s s' : Midturn σ} (m : Move s s') (h : Filed s.node)
    {key : ServiceKey} {e : EntryId} (hin : (key, e) ∈ s.node.directory.cached) :
    (key, e) ∈ s'.node.directory.cached ∨
      e ∈ s.parting ∧ (s.node.entry e).status = .serviceNotFound := by
  rcases h.mem_evictAll hin s.parting with hkept | hgone
  · exact .inl (m.retains.cached.subset hkept)
  · exact .inr hgone

/-- A view that is gone is evicted once a call that runs has looked at it. -/
theorem Move.evicted_of_parting [Registry σ] {s s' : Midturn σ} (m : Move s s') (h : Filed s.node)
    {e : EntryId} (looks : e ∈ s.parting) (gone : (s.node.entry e).status = .serviceNotFound) :
    ∃ l ∈ s'.node.journal, l.what = .evicted e := by
  obtain ⟨l, hl, hwhat⟩ := h.evicted_of_mem gone looks
  obtain ⟨lines, hj, -⟩ := m.retains.journal
  exact ⟨l, hj ▸ List.mem_append_right _ hl, hwhat⟩

/-- **Only the view itself that is gone is evicted, whoever holds it and whatever is cached
    under its key by then.** -/
theorem evicts_only_the_gone [Registry σ] {start n : Node σ} (untouched : start.Untouched)
    (empty : start.directory.entries = []) (course : start.Course n) :
    (∀ {key e}, n.directory.find? key = some e ↔
      n.MadeFor key e ∧ ∀ l ∈ n.journal, l.what ≠ .evicted e) ∧
    (∀ e, (n.entry e).status = statusAfter e n.journal) ∧ GoneWhenEvicted n.journal ∧
    ∀ {s s' : Midturn σ}, Moves ⟨n, none, none⟩ s → Move s s' → ∀ {key e},
      (key, e) ∈ s.node.directory.cached → (key, e) ∉ s'.node.directory.cached →
        e ∈ s.parting ∧ s.node.MadeFor key e ∧ (s.node.entry e).status = .serviceNotFound ∧
          s'.node.entry e = s.node.entry e := by
  have booked := course.booked untouched empty
  refine ⟨?_, booked.rated, booked.gone, ?_⟩
  · intro key e
    rw [booked.filed.find?_eq_some_iff]
    constructor
    · rintro ⟨hlt, hkey, hkept⟩
      exact ⟨⟨hlt, hkey⟩, hkept⟩
    · rintro ⟨made, hkept⟩
      exact ⟨made.lt_length, made.key, hkept⟩
  · intro s s' moves m key e hin hout
    have hfiled : Filed s.node := moves.keeps (I := fun s => Filed s.node) Filed.move booked.filed
    rcases m.mem_cached hfiled hin with hkept | ⟨hmem, hgone⟩
    · exact absurd hkept hout
    · obtain ⟨hlt, hkey, -⟩ := hfiled.made hin
      have hstill := m.still_of_parting (List.ne_nil_of_mem hmem)
      exact ⟨hmem, ⟨hlt, hkey⟩, hgone, hstill.entry e⟩

/-! ### A service that is gone and comes back during a sweep -/

namespace Return

def orders : ServiceKey := ⟨"shop", "store", "orders", everyVersion⟩

def users : ServiceKey := ⟨"shop", "store", "users", everyVersion⟩

def listed (revision id : String) : Answer :=
  .found ⟨[{ instanceId := id, serviceId := "v1", endpoints := [] }], some revision⟩

def start : Node Script :=
  .caching ⟨[(orders, [⟨listed "1" "a", 0⟩, ⟨.notFound, 0⟩, ⟨listed "1" "b", 0⟩]),
    (users, [⟨listed "1" "c", 0⟩, ⟨listed "2" "c", 50⟩])]⟩ {} .retainNonEmpty

/-- The sweep has found that the orders are gone and waits for the users. -/
def sweeping : Node Script := start.follow [.call (.find orders), .call (.find users), .call .sweep]

/-- A lookup is about to look at the old view of the orders. -/
def passing : Midturn Script :=
  ⟨sweeping.newCall.2.measure (.cached 2), some (5, .passed 0 .view), none⟩

def dropped : Midturn Script :=
  ⟨passing.node.evictIfGone 0, some (5, .replying (.view 0 ((passing.node.evictIfGone 0).entry 0))),
    none⟩

/-- It has dropped it, another lookup has made a new one, and then the sweep ends. -/
def swept : Node Script :=
  sweeping.follow [.call (.find orders), .call (.find orders), .pass 50, .resume 4]

end Return

/-- The old view is dropped while it is gone, and the sweep, which saw it vanish, leaves the new
    one alone. -/
theorem old_view_dropped_alone :
    (Return.start.Untouched ∧ Return.start.directory.entries = [] ∧
      Return.start.Course Return.sweeping ∧ Moves ⟨Return.sweeping, none, none⟩ Return.passing ∧
      Move Return.passing Return.dropped ∧
      (Return.orders, 0) ∈ Return.passing.node.directory.cached ∧
      (Return.orders, 0) ∉ Return.dropped.node.directory.cached) ∧
    (0 ∈ Return.passing.parting ∧ (Return.passing.node.entry 0).status = .serviceNotFound ∧
      GoneWhenEvicted Return.swept.journal) ∧
    (Return.swept.entry 0).status = .serviceNotFound ∧
    Return.swept.directory.find? Return.orders = some 2 ∧
    (∃ l ∈ Return.swept.journal, l.what = .sweepEnded 2 [0, 1]) := by
  have untouched : Return.start.Untouched := Node.untouched_caching ..
  have course : Return.start.Course Return.sweeping := Node.course_follow ..
  have later : Return.start.Course Return.swept := course.trans (Node.course_follow ..)
  have moves : Moves ⟨Return.sweeping, none, none⟩ Return.passing := by
    refine .head (.call _ (.find Return.orders)) (.head (.quiet (.turn rfl)) ?_)
    refine .head (.quiet (.find (e := 0) (by decide) (by decide))) ?_
    exact .single (.quiet (.turn rfl))
  have move : Move Return.passing Return.dropped := .quiet (.view _ 0)
  have hin : (Return.orders, 0) ∈ Return.passing.node.directory.cached := by decide
  have hout : (Return.orders, 0) ∉ Return.dropped.node.directory.cached := by decide
  obtain ⟨-, -, -, hgone⟩ := evicts_only_the_gone untouched rfl course
  obtain ⟨held, -, status, -⟩ := hgone moves move hin hout
  obtain ⟨-, -, journal, -⟩ := evicts_only_the_gone untouched rfl later
  exact ⟨⟨untouched, rfl, course, moves, move, hin, hout⟩, ⟨held, status, journal⟩, by decide,
    by decide, by decide⟩

end ServiceFinder
