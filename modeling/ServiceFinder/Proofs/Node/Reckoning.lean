/-
  ServiceFinder/Proofs/Node/Reckoning.lean
  ========================================
  **Whoever tells the watcher tells it all.**

  A call that goes through several views keeps an account while other calls write the journal.
  Before it begins, nothing is on its account.  During a pass only the reports of its members
  are, and the sweep knows their statuses.  A pushed change carries the views that changed so
  far and those that are left, and every view is in one place only (`Tally`).  All of this is
  `AccountsKept`, which every move keeps, and when the call comes to tell the watcher, what it
  tells is what the journal says (`Tally.reckoned`, `Passing.reckoned`).
-/
import ServiceFinder.Proofs.Node.Audience

namespace ServiceFinder

variable {σ : Type}

/-! ### Accounts of a call -/

/-- Nothing is on the account of `c`. -/
def Untold (c : CallId) (journal : List JournalLine) : Prop :=
  ∀ l ∈ journal, l.what.charged? ≠ some c

/-- The refresh of a view for the sweep `c` is over. -/
def Happening.ReportsTo (c : CallId) (h : Happening) : Prop :=
  ∃ c' e o status guarded, h = .refreshed c' e (.member c) o status guarded

/-- Nothing but the reports of its members is on the account of `c`. -/
def OnlyReports (c : CallId) (journal : List JournalLine) : Prop :=
  ∀ l ∈ journal, l.what.charged? = some c → l.what.ReportsTo c

/-- The change `c` has told nobody so far; it has gone through views that are not among those
    left, each once, and `changed` are the ones that it changed. -/
structure Tally (c : CallId) (changed todo : List EntryId) (journal : List JournalLine) :
    Prop where
  silent : noticesOf c journal = []
  once : (todo ++ (outcomesIn c journal).map (·.1)).Nodup
  nodup : changed.Nodup
  changed : ∀ e, e ∈ changed ↔
    ∃ status, (e, status) ∈ outcomesIn c journal ∧ status.isChanged = true

/-- What a call has still to do before it tells the watcher, if it is going to. -/
inductive Errand where
  | none
  | unbegun
  /-- A pass that waits for its members or is about to be closed. -/
  | pass
  | spread (changed todo : List EntryId)

def AfterChange.errand (e : EntryId) : AfterChange → Errand
  | .verdict => .none
  | .others rest changed => .spread changed (e :: rest)

def Job.errand (e : EntryId) : Job → Errand
  | .refresh _ => .none
  | .change _ next => next.errand e

def Stage.errand : Stage σ → Errand
  | .scheduled _ _ | .awaitingSweep => .unbegun
  | .pass _ _ => .pass
  | .changing e _ next => next.errand e
  | _ => .none

def Point.errand : Point σ → Errand
  | .starting _ | .sweeping _ => .unbegun
  | .closing _ _ => .pass
  | .spreading _ changed rest => .spread changed rest
  | .lining e job => job.errand e
  | .applying e _ next => next.errand e
  | _ => .none

/-- The account of a call that has this left to do. -/
def Errand.Kept (c : CallId) (journal : List JournalLine) : Errand → Prop
  | none => True
  | unbegun => Untold c journal
  | pass => OnlyReports c journal
  | spread changed todo => Tally c changed todo journal

@[simp] theorem Stage.errand_point (st : Stage σ) : st.point.errand = st.errand := by
  cases st <;> rfl

@[simp] theorem Job.errand_point (e : EntryId) (job : Job) :
    (job.point e : Point σ).errand = job.errand e := by
  cases job <;> rfl

@[simp] theorem Job.errand_stage (e : EntryId) (job : Job) :
    (job.stage e : Stage σ).errand = job.errand e := by
  cases job <;> rfl

section Accounts

variable {c : CallId} {changed todo : List EntryId} {e : EntryId} {lines journal : List JournalLine}

theorem Untold.onlyReports (h : Untold c journal) : OnlyReports c journal :=
  fun l hl hcharged => absurd hcharged (h l hl)

theorem OnlyReports.silent (h : OnlyReports c journal) : noticesOf c journal = [] := by
  refine List.filterMap_eq_nil_iff.mpr fun l hl => ?_
  by_cases hcharged : l.what.charged? = some c
  · obtain ⟨c', e, o, status, guarded, hwhat⟩ := h l hl hcharged
    rw [hwhat]
    rfl
  · exact Happening.noticeOf?_of_ne hcharged

namespace Tally

theorem start (h : Untold c journal) (hn : todo.Nodup) : Tally c [] todo journal := by
  have houtcomes := outcomesIn_eq_nil h
  constructor
  · exact noticesOf_eq_nil h
  · simpa [houtcomes] using hn
  · exact List.nodup_nil
  · simp [houtcomes]

theorem skip (h : Tally c changed (e :: todo) journal) : Tally c changed todo journal :=
  ⟨h.silent, (List.nodup_cons.mp h.once).2, h.nodup, h.changed⟩

/-- The change goes through one more view. -/
theorem next (h : Tally c changed (e :: todo) journal) (time : Nat) (change : InstanceChange)
    (verdict : Option CacheStatus) :
    Tally c (Node.withChanged changed e verdict) todo
      (⟨time, .changed c e change verdict⟩ :: journal) := by
  have hnotices : noticesOf c (⟨time, .changed c e change verdict⟩ :: journal) = [] := h.silent
  obtain ⟨hnew, honce⟩ := List.nodup_cons.mp h.once
  cases verdict with
  | none => exact ⟨hnotices, honce, h.nodup, h.changed⟩
  | some status =>
    have houtcomes : outcomesIn c (⟨time, .changed c e change (some status)⟩ :: journal) =
        (e, status) :: outcomesIn c journal := by
      simp [outcomesIn, Happening.outcomeIn?]
    have hunchanged : e ∉ changed := by
      intro hin
      obtain ⟨status', hout, -⟩ := (h.changed e).mp hin
      exact hnew (List.mem_append_right _ (List.mem_map.mpr ⟨_, hout, rfl⟩))
    constructor
    · exact hnotices
    · rw [houtcomes, List.map_cons]
      exact (List.nodup_middle.mpr h.once)
    · simp only [Node.withChanged, Option.any_some]
      split
      · refine List.nodup_append.mpr ⟨h.nodup, List.nodup_singleton e, ?_⟩
        rintro v hv w hw rfl
        exact hunchanged (List.mem_singleton.mp hw ▸ hv)
      · exact h.nodup
    · intro v
      rw [houtcomes]
      simp only [Node.withChanged, Option.any_some, List.mem_cons, Prod.mk.injEq]
      constructor
      · intro hv
        split at hv
        · rename_i hchanged
          rcases List.mem_append.mp hv with hv | hv
          · obtain ⟨status', hout, his⟩ := (h.changed v).mp hv
            exact ⟨status', .inr hout, his⟩
          · exact ⟨status, .inl ⟨List.mem_singleton.mp hv, rfl⟩, hchanged⟩
        · obtain ⟨status', hout, his⟩ := (h.changed v).mp hv
          exact ⟨status', .inr hout, his⟩
      · rintro ⟨status', ⟨rfl, rfl⟩ | hout, his⟩
        · rw [if_pos his]
          exact List.mem_append_right _ (List.mem_singleton_self v)
        · have hv := (h.changed v).mpr ⟨status', hout, his⟩
          split
          · exact List.mem_append_left _ hv
          · exact hv

/-- What the change tells at last is what it did. -/
theorem reckoned (h : Tally c changed [] journal) {watcher? : Option Watcher}
    (houtcomes : outcomesIn c lines = [])
    (hnotices : noticesOf c lines = noticeFor watcher? changed) :
    Reckoned c watcher? (lines ++ journal) := by
  have hsame : outcomesIn c (lines ++ journal) = outcomesIn c journal := by
    rw [outcomesIn_append, houtcomes, List.nil_append]
  constructor
  · rw [hsame]
    exact h.once
  · refine ⟨changed, h.nodup, ?_, ?_⟩
    · rw [hsame]
      exact h.changed
    · rw [noticesOf_append, hnotices, h.silent, List.append_nil]

end Tally

/-- An account is kept while others do something and while members report to a pass. -/
theorem Errand.Kept.append {d : Errand} (h : d.Kept c journal)
    (hl : ∀ l ∈ lines, l.what.charged? = some c → d = .pass ∧ l.what.ReportsTo c) :
    d.Kept c (lines ++ journal) := by
  have apart (hd : d ≠ .pass) : ∀ l ∈ lines, l.what.charged? ≠ some c :=
    fun l hmem hcharged => hd (hl l hmem hcharged).1
  cases d with
  | none => trivial
  | unbegun =>
    intro l hmem
    rcases List.mem_append.mp hmem with hmem | hmem
    · exact apart nofun l hmem
    · exact h l hmem
  | pass =>
    intro l hmem hcharged
    rcases List.mem_append.mp hmem with hmem | hmem
    · exact (hl l hmem hcharged).2
    · exact h l hmem hcharged
  | spread changed todo =>
    have hnew := apart nofun
    constructor
    · rw [noticesOf_append, noticesOf_eq_nil hnew]
      exact h.silent
    · rw [outcomesIn_append, outcomesIn_eq_nil hnew]
      exact h.once
    · exact h.nodup
    · rw [outcomesIn_append, outcomesIn_eq_nil hnew]
      exact h.changed

/-- A line on nobody's account changes no account. -/
theorem Errand.Kept.cons {d : Errand} (h : d.Kept c journal) {line : JournalLine}
    (hl : line.what.charged? = Option.none) : d.Kept c (line :: journal) := by
  show d.Kept c ([line] ++ journal)
  apply h.append
  intro l hmem hcharged
  rw [List.mem_singleton.mp hmem, hl] at hcharged
  cases hcharged

end Accounts

/-! ### What a pass tells -/

/-- The outcomes of a pass are what its members reported. -/
theorem OnlyReports.verdictsFor {c : CallId} {journal : List JournalLine}
    (h : OnlyReports c journal) (e : EntryId) :
    verdictsFor c e journal = ((outcomesIn c journal).filter (·.1 == e)).map (·.2) := by
  induction journal with
  | nil => rfl
  | cons line before ih =>
    have hbefore := ih fun l hl => h l (List.mem_cons_of_mem _ hl)
    rw [verdictsFor_cons, hbefore]
    show _ = ((outcomesIn c ([line] ++ before)).filter _).map _
    rw [outcomesIn_append]
    by_cases hcharged : line.what.charged? = some c
    · obtain ⟨c', v, o, status, guarded, hwhat⟩ := h line List.mem_cons_self hcharged
      have hline : outcomesIn c [line] = [(v, status)] := by
        simp [outcomesIn, hwhat, Happening.outcomeIn?]
      rw [hline, hwhat]
      by_cases hv : v = e <;> simp [Happening.verdictFor?, hv]
    · have hverdict : line.what.verdictFor? c e = none := by
        rcases line with ⟨time, what⟩
        cases what with
        | refreshed c' v next o status guarded =>
          cases next with
          | member sweep => exact if_neg fun heq => hcharged (congrArg some heq.2)
          | _ => rfl
        | _ => rfl
      have hline : outcomesIn c [line] = [] := outcomesIn_eq_nil (by simpa using hcharged)
      rw [hverdict, hline]
      rfl

/-- What a sweep tells at last is what its members reported. -/
theorem Passing.reckoned {s : Midturn σ} {c : CallId} {members : List Member}
    (h : Passing c members true s) (hr : OnlyReports c s.node.journal)
    {watcher? : Option Watcher} {lines : List JournalLine} (houtcomes : outcomesIn c lines = [])
    (hnotices : noticesOf c lines = noticeFor watcher? (Node.changedMembers members)) :
    Reckoned c watcher? (lines ++ s.node.journal) := by
  have hsame : outcomesIn c (lines ++ s.node.journal) = outcomesIn c s.node.journal := by
    rw [outcomesIn_append, houtcomes, List.nil_append]
  have hmem (e : EntryId) (status : CacheStatus) :
      (e, status) ∈ outcomesIn c s.node.journal ↔ status ∈ verdictsFor c e s.node.journal := by
    rw [hr.verdictsFor]
    simp
  constructor
  · rw [hsame, List.nodup_iff_count_le_one]
    intro e
    have hcount : ((outcomesIn c s.node.journal).map (·.1)).count e =
        (verdictsFor c e s.node.journal).length := by
      rw [hr.verdictsFor, List.length_map, List.count, List.countP_map,
        List.countP_eq_length_filter]
      rfl
    rw [hcount]
    by_cases he : e ∈ members.map (·.entry)
    · obtain ⟨m, hm, rfl⟩ := List.mem_map.mp he
      obtain ⟨status, -, account⟩ := h.reported hm
      rw [account.verdicts]
      exact Nat.le_refl 1
    · rw [(h.others e he).verdicts]
      exact Nat.zero_le 1
  · refine ⟨Node.changedMembers members, ?_, ?_, ?_⟩
    · exact (List.filter_sublist.map _).nodup h.nodup
    · intro e
      rw [hsame]
      simp only [hmem]
      by_cases he : e ∈ members.map (·.entry)
      · obtain ⟨m, hm, rfl⟩ := List.mem_map.mp he
        obtain ⟨status, told, account⟩ := h.reported hm
        rw [h.mem_changedMembers hm told, account.verdicts]
        simp
      · rw [(h.others e he).verdicts]
        refine iff_of_false ?_ (by simp)
        intro hchanged
        obtain ⟨m, hm, rfl⟩ := List.mem_map.mp hchanged
        exact he (List.mem_map_of_mem (List.mem_of_mem_filter hm))
    · rw [noticesOf_append, hnotices, hr.silent, List.append_nil]

/-! ### Every move -/

/-- A call that turns to something else goes on with its errand, unless it begins to go through
    the views, passes one by, or is done. -/
theorem Node.errand_of_turnsTo {n : Node σ} {p p' : Point σ} (h : n.turnsTo p = some p') :
    p'.errand = .none ∨ p'.errand = p.errand ∨
      (∃ change, p = .starting (.change change) ∧
        p' = .spreading change [] n.directory.views) ∨
      ∃ change changed e rest, p = .spreading change changed (e :: rest) ∧
        p' = .spreading change changed rest := by
  unfold turnsTo at h
  split at h
  all_goals first
    | (cases h; exact .inl rfl)
    | (cases h; exact .inr (.inr (.inl ⟨_, rfl, rfl⟩)))
    | (split at h <;> cases h <;> first
        | exact .inl rfl
        | exact .inr (.inl rfl)
        | exact .inr (.inr (.inr ⟨_, _, _, _, rfl, rfl⟩)))
    | cases h

/-- Every call's account is kept. -/
structure AccountsKept (s : Midturn σ) : Prop where
  fresh : ∀ c, s.node.nextCall ≤ c → Untold c s.node.journal
  calls : ∀ {c st}, (c, st) ∈ s.node.calls → st.errand.Kept c s.node.journal
  running : ∀ {c p}, s.running = some (c, p) → p.errand.Kept c s.node.journal

namespace AccountsKept

variable {s s' : Midturn σ} {n : Node σ} {c : CallId} {p : Point σ} {st : Stage σ}
  {k : Option (CallId × Bool × List EntryId)}

/-- Whatever is due to somebody leaves the accounts of resting and of new calls kept. -/
theorem kept (h : AccountsKept s) (ho : Orderly s) {lines : List JournalLine}
    (hl : ∀ l ∈ lines, l.what.Due s) :
    (∀ c, s.node.nextCall ≤ c → Untold c (lines ++ s.node.journal)) ∧
      ∀ {c st}, (c, st) ∈ s.node.calls → st.errand.Kept c (lines ++ s.node.journal) := by
  have known {c : CallId} {l : JournalLine} (hmem : l ∈ lines) (hc : l.what.charged? = some c) :
      c < s.node.nextCall := by
    rcases (hl l hmem).of_charged hc with ⟨a, p, hrun, -⟩ | ⟨forced, members, rests, -⟩
    · exact ho.below c (List.mem_append_left _ (by simp [hrun]))
    · exact ho.lt_nextCall rests
  constructor
  · intro c hle
    refine Errand.Kept.append (d := .unbegun) (h.fresh c hle) ?_
    intro l hmem hcharged
    exact absurd (known hmem hcharged) (Nat.not_lt.mpr hle)
  · intro c st hc
    refine (h.calls hc).append ?_
    intro l hmem hcharged
    rcases (hl l hmem).of_charged hcharged with ⟨a, p, hrun, -⟩ | ⟨forced, members, rests, hreport⟩
    · exact absurd hc (ho.notMem_calls hrun st)
    · cases ho.stage_unique hc rests
      exact ⟨rfl, hreport⟩

section Places

variable (fresh : ∀ c, s.node.nextCall ≤ c → Untold c n.journal)
  (calls : ∀ {c st}, (c, st) ∈ s.node.calls → st.errand.Kept c n.journal)

include fresh calls

theorem of_run (hcalls : n.calls ⊆ s.node.calls) (hnext : s.node.nextCall ≤ n.nextCall)
    (hp : p.errand.Kept c n.journal) : AccountsKept ⟨n, some (c, p), k⟩ where
  fresh c hle := fresh c (Nat.le_trans hnext hle)
  calls hc := calls (hcalls hc)
  running hrun := by
    cases hrun
    exact hp

theorem of_calls (hcalls : n.calls ⊆ s.node.calls) (hnext : s.node.nextCall ≤ n.nextCall) :
    AccountsKept ⟨n, none, k⟩ where
  fresh c hle := fresh c (Nat.le_trans hnext hle)
  calls hc := calls (hcalls hc)
  running := nofun

theorem of_rest (hcalls : n.calls ⊆ s.node.calls) (hnext : s.node.nextCall ≤ n.nextCall)
    (hst : st.errand.Kept c n.journal) : AccountsKept ⟨n.rest c st, none, k⟩ where
  fresh c hle := fresh c (Nat.le_trans hnext hle)
  calls hc := by
    rcases Node.mem_rest.mp hc with hc | ⟨rfl, rfl⟩
    · exact calls (hcalls hc)
    · exact hst
  running := nofun

end Places

/-- A quiet move keeps the account of the call that runs. -/
theorem quiet {n' : Node σ} {p' : Point σ} (q : Quiet c n p n' p')
    (hviews : n.directory.views.Nodup)
    (hp : p.errand.Kept c n.journal) : p'.errand.Kept c n'.journal := by
  cases q with
  | turn h =>
    rcases Node.errand_of_turnsTo h with
      hnone | hsame | ⟨change, rfl, rfl⟩ | ⟨change, _, _, _, rfl, rfl⟩
    · rw [hnone]
      trivial
    · rw [hsame]
      exact hp
    · exact Tally.start hp hviews
    · exact Tally.skip hp
  | sweepFree | forceFree => exact hp
  | sweepNone => exact Errand.Kept.cons (d := .pass) (Untold.onlyReports hp) rfl
  | _ => trivial

/-- **Every move keeps every account.** -/
theorem move [Registry σ] (h : AccountsKept s) (hr : Regular s) (hs : Sweeping s) (m : Move s s') :
    AccountsKept s' := by
  obtain ⟨lines, hj, hdue⟩ := m.due hs
  obtain ⟨fresh, calls⟩ := h.kept hr.sound.orderly hdue
  rw [← hj] at fresh calls
  cases m with
  | call n op =>
    exact of_run fresh calls (List.Subset.refl _) (Nat.le_succ _) (fresh _ (Nat.le_refl _))
  | callAfter n wait op =>
    exact of_rest (n := n.newCall.2) fresh calls (List.Subset.refl _) (Nat.le_succ _)
      (fresh _ (Nat.le_refl _))
  | @wake n c st rests awake =>
    refine of_run fresh calls (fun x hx => (Node.mem_unrest.mp hx).1) (Nat.le_refl _) ?_
    rw [Stage.errand_point]
    exact calls (Node.mem_of_stage? rests)
  | quiet q =>
    exact of_run fresh calls (q.still.calls ▸ List.Subset.refl _)
      (Nat.le_of_eq q.still.nextCall.symm) (quiet q hr.filed.nodup_views (h.running rfl))
  | answer | enlisted | stray => exact of_calls fresh calls (List.Subset.refl _) (Nat.le_refl _)
  | protect | protectView | create | endFirst | askNow | hear | apply | forget | beginFirst =>
    exact of_run fresh calls (List.Subset.refl _) (Nat.le_refl _) trivial
  | enlist => exact of_run fresh calls (List.Subset.refl _) (Nat.le_succ _) trivial
  | @sleep n c k ms h =>
    exact of_rest (n := n) fresh calls (List.Subset.refl _) (Nat.le_refl _) trivial
  | @awaitFirst n c k e next h =>
    exact of_rest (n := n) fresh calls (List.Subset.refl _) (Nat.le_refl _) trivial
  | @ask n c k e next h =>
    exact of_rest (n := n.asked c e next) fresh calls (List.Subset.refl _) (Nat.le_refl _) trivial
  | lock =>
    refine of_run fresh calls (List.Subset.refl _) (Nat.le_refl _) ?_
    rw [Job.errand_point]
    exact h.running rfl
  | @wait n c k e job hbusy =>
    refine of_rest (n := n.queueWriter c e) fresh calls (List.Subset.refl _) (Nat.le_refl _) ?_
    rw [Job.errand_stage]
    exact h.running rfl
  | @forceWait n c k hbusy =>
    exact of_rest (n := n.queueSweeper c) fresh calls (List.Subset.refl _) (Nat.le_refl _)
      (h.running rfl)
  | startPuller n c k interval =>
    refine ⟨fun c' hle => fresh c' (Nat.le_trans ?_ hle), ?_, ?_⟩
    · simp only [n.startPuller_eq]
      exact Nat.le_succ _
    · intro c' st hc
      rcases Node.mem_startPuller.mp hc with hc | ⟨-, -, rfl⟩
      · exact calls (Node.mem_stopPuller.mp hc).1
      · trivial
    · intro c' p hrun
      cases hrun
      trivial
  | stopPuller n c k =>
    exact of_run fresh calls (fun x hx => (Node.mem_stopPuller.mp hx).1) (Nat.le_refl _) trivial
  | tick n c k due interval =>
    refine ⟨fun c' hle => fresh c' (Nat.le_trans (Nat.le_succ _) hle), ?_, nofun⟩
    intro c' st hc
    rcases Node.mem_rest.mp hc with hc | ⟨rfl, rfl⟩
    · rcases Node.mem_rest.mp hc with hc | ⟨-, rfl⟩
      · exact calls hc
      · trivial
    · exact fresh _ (Nat.le_refl _)
  | @sweepSome n c forced hsome =>
    refine of_rest (n := n.note (.sweepBegan c n.directory.initialized)) fresh calls
      (List.Subset.refl _) (Nat.le_refl _) ?_
    exact Errand.Kept.cons (d := .pass) (Untold.onlyReports (h.running rfl)) rfl
  | @member n c k e status sweep forced members rests hmore =>
    have hpass : Errand.pass.Kept sweep n.journal := calls (Node.mem_of_stage? rests)
    exact of_rest (n := n.unrest sweep) fresh calls (fun x hx => (Node.mem_unrest.mp hx).1)
      (Nat.le_refl _) hpass
  | @lastMember n c k e status sweep forced members rests hall =>
    exact of_run fresh calls (fun x hx => (Node.mem_unrest.mp hx).1) (Nat.le_refl _)
      (calls (Node.mem_of_stage? rests))
  | applyNext n c k e change rest changed =>
    exact of_run fresh calls (List.Subset.refl _) (Nat.le_refl _)
      (Tally.next (h.running rfl) n.time change _)

end AccountsKept

end ServiceFinder
