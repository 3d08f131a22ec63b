/-
  ServiceFinder/Proofs/Node/SweepJournal.lean
  ===========================================
  **What a journal says about sweeps.**

  The journal of sweeps has a simple grammar, `Swept`.  Passes follow each other.  A pass is
  about exactly the views that are cached and initialized when it begins, and until it ends
  each of these is asked for once and answered once.  For nobody else is the registry asked on
  behalf of a sweep.
-/
import ServiceFinder.Proofs.Node.First
import ServiceFinder.Proofs.Node.Members

namespace ServiceFinder

/-! ### Sweeps in a journal -/

/-- The pass that has begun and not ended: who makes it and the views that it is about. -/
def openPass : List JournalLine → Option (CallId × List EntryId)
  | [] => none
  | line :: before =>
    match line.what with
    | .sweepBegan c views => some (c, views)
    | .sweepEnded _ _ => none
    | _ => openPass before

/-- Whether a happening is the beginning of a lookup for the member `e` of the sweep `c`. -/
def Happening.asksFor (c : CallId) (e : EntryId) : Happening → Bool
  | .fetchBegan _ v (.member sweep) => decide (v = e ∧ sweep = c)
  | _ => false

/-- The status that the refresh for the member `e` of the sweep `c` ends with. -/
def Happening.verdictFor? (c : CallId) (e : EntryId) : Happening → Option CacheStatus
  | .refreshed _ v (.member sweep) _ status _ => if v = e ∧ sweep = c then some status else none
  | _ => none

/-- How often the registry was asked for the member `e` of the sweep `c`. -/
def asksFor (c : CallId) (e : EntryId) (journal : List JournalLine) : Nat :=
  journal.countP (·.what.asksFor c e)

/-- How the refreshes ended that were made for the member `e` of the sweep `c`. -/
def verdictsFor (c : CallId) (e : EntryId) (journal : List JournalLine) : List CacheStatus :=
  journal.filterMap (·.what.verdictFor? c e)

/-- A view that is cached and has been refreshed once, as a journal tells it. -/
structure Listed (e : EntryId) (journal : List JournalLine) : Prop where
  created : ∃ l ∈ journal, l.what = .created e
  kept : ∀ l ∈ journal, l.what ≠ .evicted e
  initialized : ∃ l ∈ journal, l.what.endsFirst e = true

/-- What may happen to sweeps after what a journal tells. -/
def SweepStep (before : List JournalLine) : Happening → Prop
  | .sweepBegan c views => openPass before = none ∧
      (∀ l ∈ before, ∀ views, l.what ≠ .sweepBegan c views) ∧ views.Nodup ∧
        ∀ e, e ∈ views ↔ Listed e before
  | .fetchBegan _ e (.member c) => (∃ views, openPass before = some (c, views) ∧ e ∈ views) ∧
      asksFor c e before = 0 ∧ verdictsFor c e before = []
  | .refreshed _ e (.member c) _ _ _ => (∃ views, openPass before = some (c, views) ∧ e ∈ views) ∧
      asksFor c e before = 1 ∧ verdictsFor c e before = []
  | .sweepEnded c changed => ∃ views, openPass before = some (c, views) ∧
      (∀ e ∈ views, asksFor c e before = 1 ∧
        ∃ status, verdictsFor c e before = [status] ∧ (e ∈ changed ↔ status.isChanged = true)) ∧
      ∀ e ∉ views, asksFor c e before = 0 ∧ verdictsFor c e before = [] ∧ e ∉ changed
  | _ => True

/-- Passes follow each other, and each asks once for every view that is listed when it begins
    and for no other. -/
def Swept : List JournalLine → Prop
  | [] => True
  | line :: before => Swept before ∧ SweepStep before line.what

section Journal

variable {c : CallId} {e : EntryId} {lines after before : List JournalLine} {h what : Happening}

theorem Happening.of_sweep?_none (hs : h.sweep? = none) (c : CallId) (e : EntryId)
    (before : List JournalLine) :
    h.asksFor c e = false ∧ h.verdictFor? c e = none ∧ SweepStep before h ∧
      (∀ c views, h ≠ .sweepBegan c views) ∧ ∀ c changed, h ≠ .sweepEnded c changed := by
  cases h with
  | fetchBegan c' v next =>
    cases next with
    | member sweep => cases hs
    | _ => exact ⟨rfl, rfl, trivial, nofun, nofun⟩
  | refreshed c' v next o status guarded =>
    cases next with
    | member sweep => cases hs
    | _ => exact ⟨rfl, rfl, trivial, nofun, nofun⟩
  | sweepBegan | sweepEnded => cases hs
  | _ => exact ⟨rfl, rfl, trivial, nofun, nofun⟩

theorem openPass_cons {line : JournalLine} (began : ∀ c views, line.what ≠ .sweepBegan c views)
    (ended : ∀ c changed, line.what ≠ .sweepEnded c changed) :
    openPass (line :: before) = openPass before := by
  rcases line with ⟨time, what⟩
  cases what with
  | sweepBegan c views => exact absurd rfl (began c views)
  | sweepEnded c changed => exact absurd rfl (ended c changed)
  | _ => rfl

theorem openPass_append (h : ∀ l ∈ lines, l.what.sweep? = none) :
    openPass (lines ++ before) = openPass before := by
  induction lines with
  | nil => rfl
  | cons line lines ih =>
    obtain ⟨-, -, -, began, ended⟩ :=
      Happening.of_sweep?_none (h line List.mem_cons_self) 0 0 []
    rw [List.cons_append, openPass_cons began ended]
    exact ih fun l hl => h l (List.mem_cons_of_mem _ hl)

theorem asksFor_append (h : ∀ l ∈ lines, l.what.sweep? = none) :
    asksFor c e (lines ++ before) = asksFor c e before := by
  have hnone : lines.countP (·.what.asksFor c e) = 0 := by
    apply List.countP_eq_zero.mpr
    intro l hl
    rw [(Happening.of_sweep?_none (h l hl) c e []).1]
    exact Bool.false_ne_true
  rw [asksFor, List.countP_append, hnone, Nat.zero_add]
  rfl

theorem verdictsFor_append (h : ∀ l ∈ lines, l.what.sweep? = none) :
    verdictsFor c e (lines ++ before) = verdictsFor c e before := by
  have hnone : lines.filterMap (·.what.verdictFor? c e) = [] := by
    apply List.filterMap_eq_nil_iff.mpr
    intro l hl
    exact (Happening.of_sweep?_none (h l hl) c e []).2.1
  rw [verdictsFor, List.filterMap_append, hnone, List.nil_append]
  rfl

theorem Swept.append (hs : Swept before) (h : ∀ l ∈ lines, l.what.sweep? = none) :
    Swept (lines ++ before) := by
  induction lines with
  | nil => exact hs
  | cons line lines ih =>
    constructor
    · exact ih fun l hl => h l (List.mem_cons_of_mem _ hl)
    · exact (Happening.of_sweep?_none (h line List.mem_cons_self) 0 0 _).2.2.1

theorem Swept.of_append (h : Swept (after ++ before)) : Swept before := by
  induction after with
  | nil => exact h
  | cons line after ih => exact ih h.1

/-- A pass that has not ended has begun. -/
theorem exists_of_openPass {views : List EntryId} (h : openPass before = some (c, views)) :
    ∃ between began earlier, before = between ++ ⟨began, .sweepBegan c views⟩ :: earlier := by
  induction before with
  | nil => cases h
  | cons line before ih =>
    rcases line with ⟨time, what⟩
    cases what with
    | sweepBegan c' views' =>
      cases h
      exact ⟨[], time, before, rfl⟩
    | sweepEnded c' changed => cases h
    | _ =>
      obtain ⟨between, began, earlier, rfl⟩ := ih h
      exact ⟨_ :: between, began, earlier, rfl⟩

theorem mem_of_openPass {views : List EntryId} (h : openPass before = some (c, views)) :
    ∃ l ∈ before, l.what = .sweepBegan c views := by
  obtain ⟨between, began, earlier, rfl⟩ := exists_of_openPass h
  exact ⟨_, List.mem_append_right _ List.mem_cons_self, rfl⟩

/-- For a sweep whose pass is not on its way nobody is asked. -/
theorem SweepStep.apart (h : SweepStep before what) (e : EntryId)
    (closed : ∀ views, openPass before ≠ some (c, views)) :
    what.asksFor c e = false ∧ what.verdictFor? c e = none := by
  cases what with
  | fetchBegan c' v next =>
    cases next with
    | member sweep =>
      obtain ⟨⟨views, hopen, -⟩, -⟩ := h
      have hne : sweep ≠ c := fun heq => closed views (heq ▸ hopen)
      exact ⟨decide_eq_false fun heq => hne heq.2, rfl⟩
    | _ => exact ⟨rfl, rfl⟩
  | refreshed c' v next o status guarded =>
    cases next with
    | member sweep =>
      obtain ⟨⟨views, hopen, -⟩, -⟩ := h
      have hne : sweep ≠ c := fun heq => closed views (heq ▸ hopen)
      exact ⟨rfl, if_neg fun heq => hne heq.2⟩
    | _ => exact ⟨rfl, rfl⟩
  | _ => exact ⟨rfl, rfl⟩

theorem asksFor_cons_of_apart {line : JournalLine} (h : line.what.asksFor c e = false) :
    asksFor c e (line :: before) = asksFor c e before :=
  List.countP_cons_of_neg (by simp [h])

theorem verdictsFor_cons_of_apart {line : JournalLine} (h : line.what.verdictFor? c e = none) :
    verdictsFor c e (line :: before) = verdictsFor c e before :=
  List.filterMap_cons_none h

/-- For a sweep that has not begun nobody was asked. -/
theorem Swept.of_unbegun (h : Swept before)
    (unbegun : ∀ l ∈ before, ∀ views, l.what ≠ .sweepBegan c views) :
    asksFor c e before = 0 ∧ verdictsFor c e before = [] := by
  induction before with
  | nil => exact ⟨rfl, rfl⟩
  | cons line before ih =>
    have hbefore : ∀ l ∈ before, ∀ views, l.what ≠ .sweepBegan c views :=
      fun l hl => unbegun l (List.mem_cons_of_mem _ hl)
    have hclosed : ∀ views, openPass before ≠ some (c, views) := by
      intro views hopen
      obtain ⟨l, hl, hwhat⟩ := mem_of_openPass hopen
      exact hbefore l hl views hwhat
    obtain ⟨hasks, hverdicts⟩ := ih h.1 hbefore
    obtain ⟨hask, hverdict⟩ := h.2.apart e hclosed
    rw [asksFor_cons_of_apart hask, verdictsFor_cons_of_apart hverdict]
    exact ⟨hasks, hverdicts⟩

/-- Once the pass of a sweep is over nobody is asked for it any more. -/
theorem Swept.of_closed (h : Swept (after ++ before))
    (closed : ∀ views, openPass before ≠ some (c, views))
    (begun : ∃ l ∈ before, ∃ views, l.what = .sweepBegan c views) :
    (∀ views, openPass (after ++ before) ≠ some (c, views)) ∧
      ∀ e, asksFor c e (after ++ before) = asksFor c e before ∧
        verdictsFor c e (after ++ before) = verdictsFor c e before := by
  induction after with
  | nil => exact ⟨closed, fun _ => ⟨rfl, rfl⟩⟩
  | cons line after ih =>
    obtain ⟨hswept, hstep⟩ := h
    obtain ⟨hclosed, hsame⟩ := ih hswept
    constructor
    · intro views hopen
      rcases line with ⟨time, what⟩
      cases what with
      | sweepBegan c' views' =>
        cases hopen
        obtain ⟨l, hl, views', hwhat⟩ := begun
        exact hstep.2.1 l (List.mem_append_right _ hl) views' hwhat
      | sweepEnded c' changed => cases hopen
      | _ => exact hclosed views hopen
    · intro e
      obtain ⟨hask, hverdict⟩ := hstep.apart e hclosed
      rw [List.cons_append, asksFor_cons_of_apart hask, verdictsFor_cons_of_apart hverdict]
      exact hsame e

end Journal

/-! ### Whole passes -/

/-- Whether a happening is the beginning of the pass of `c`. -/
def Happening.isPassOf (c : CallId) : Happening → Bool
  | .sweepBegan sweep _ => decide (sweep = c)
  | _ => false

/-- How many passes `c` has begun. -/
def passesOf (c : CallId) (journal : List JournalLine) : Nat :=
  journal.countP (·.what.isPassOf c)

/-- A journal tells of the one pass of the sweep `c`, from its beginning to its end.  It was about
    the views that were cached and initialized when it began; the registry was asked once for each
    of them, and for no other, and each time there was an end to it. -/
structure ToldPass (c : CallId) (views : List EntryId) (journal : List JournalLine) : Prop where
  whole : ∃ after ended changed between began before, journal = after ++
    ⟨ended, .sweepEnded c changed⟩ :: (between ++ ⟨began, .sweepBegan c views⟩ :: before) ∧
      ∀ e, e ∈ views ↔ Listed e before
  once : passesOf c journal = 1
  asks : ∀ e, asksFor c e journal = if e ∈ views then 1 else 0
  verdicts : ∀ e, (verdictsFor c e journal).length = if e ∈ views then 1 else 0

section WholePasses

variable {c : CallId} {journal : List JournalLine}

theorem Happening.isPassOf_iff {h : Happening} :
    h.isPassOf c = true ↔ ∃ views, h = .sweepBegan c views := by
  cases h with
  | sweepBegan sweep views =>
    simp [isPassOf]
  | _ => simp [isPassOf]

theorem passesOf_eq_zero :
    passesOf c journal = 0 ↔ ∀ l ∈ journal, ∀ views, l.what ≠ .sweepBegan c views := by
  simp [passesOf, List.countP_eq_zero, Happening.isPassOf_iff]

/-- No sweep makes two passes. -/
theorem Swept.passesOf_le_one (h : Swept journal) : passesOf c journal ≤ 1 := by
  induction journal with
  | nil => exact Nat.zero_le 1
  | cons line before ih =>
    by_cases hline : line.what.isPassOf c = true
    · obtain ⟨views, hwhat⟩ := Happening.isPassOf_iff.mp hline
      have hstep : SweepStep before (.sweepBegan c views) := hwhat ▸ h.2
      have hnone : passesOf c before = 0 := passesOf_eq_zero.mpr hstep.2.1
      simp only [passesOf] at hnone
      simp [passesOf, hline, hnone]
    · have hbefore := ih h.1
      simp only [passesOf] at hbefore
      simpa [passesOf, hline] using hbefore

/-- **A pass that has ended was whole.** -/
theorem Swept.toldPass (h : Swept journal) {l : JournalLine} (hl : l ∈ journal)
    {changed : List EntryId} (hwhat : l.what = .sweepEnded c changed) :
    ∃ views, ToldPass c views journal := by
  obtain ⟨after, rest, rfl⟩ := List.append_of_mem hl
  rcases l with ⟨ended, what⟩
  cases hwhat
  have hrest : Swept (⟨ended, .sweepEnded c changed⟩ :: rest) := h.of_append
  obtain ⟨views, hopen, hmembers, hothers⟩ := hrest.2
  obtain ⟨between, began, before, rfl⟩ := exists_of_openPass hopen
  have hbegan : Swept (⟨began, .sweepBegan c views⟩ :: before) := hrest.1.of_append
  let line : JournalLine := ⟨ended, .sweepEnded c changed⟩
  let pass := line :: (between ++ ⟨began, .sweepBegan c views⟩ :: before)
  have hbegun : ∃ l ∈ pass, ∃ views, l.what = .sweepBegan c views :=
    ⟨_, List.mem_cons_of_mem _ (List.mem_append_right _ List.mem_cons_self), views, rfl⟩
  have hwhole : Swept (after ++ pass) := h
  obtain ⟨-, hsame⟩ := hwhole.of_closed nofun hbegun
  refine ⟨views, ⟨after, ended, changed, between, began, before, rfl, hbegan.2.2.2.2⟩, ?_, ?_, ?_⟩
  · apply Nat.le_antisymm h.passesOf_le_one
    obtain ⟨l, hmem, views', hwhat⟩ := hbegun
    exact List.countP_pos_iff.mpr
      ⟨l, List.mem_append_right _ hmem, Happening.isPassOf_iff.mpr ⟨views', hwhat⟩⟩
  · intro e
    rw [(hsame e).1]
    show asksFor c e (line :: _) = _
    rw [asksFor_cons_of_apart rfl]
    split
    · rename_i he
      exact (hmembers e he).1
    · rename_i he
      exact (hothers e he).1
  · intro e
    rw [(hsame e).2]
    show (verdictsFor c e (line :: _)).length = _
    rw [verdictsFor_cons_of_apart rfl]
    split
    · rename_i he
      obtain ⟨-, status, hverdicts, -⟩ := hmembers e he
      rw [hverdicts]
      rfl
    · rename_i he
      rw [(hothers e he).2.1]
      rfl

/-- The views of a pass were listed when it began. -/
theorem Swept.listed_of_openPass (h : Swept journal) {views : List EntryId}
    (hopen : openPass journal = some (c, views)) {e : EntryId} (he : e ∈ views) :
    ∃ before, before <:+ journal ∧ Listed e before := by
  obtain ⟨between, began, before, rfl⟩ := exists_of_openPass hopen
  have hbegan : Swept (⟨began, .sweepBegan c views⟩ :: before) := h.of_append
  refine ⟨before, ?_, (hbegan.2.2.2.2 e).mp he⟩
  exact (List.suffix_cons _ _).trans (List.suffix_append _ _)

/-- A pass that is on its way now was on its way at any time since it began. -/
theorem Swept.open_before {newer older : List JournalLine} (h : Swept (newer ++ older))
    {views : List EntryId} (hopen : openPass (newer ++ older) = some (c, views))
    (begun : ∃ l ∈ older, ∃ views, l.what = .sweepBegan c views) :
    ∃ views, openPass older = some (c, views) := by
  by_contra hclosed
  have hclosed' : ∀ views, openPass older ≠ some (c, views) :=
    fun views hopen => hclosed ⟨views, hopen⟩
  exact (h.of_closed hclosed' begun).1 views hopen

/-- Who reports to a pass is one of its members. -/
theorem Swept.of_report {report : JournalLine} {older : List JournalLine} {e : EntryId}
    {status : CacheStatus} (h : Swept (report :: older))
    (hreport : report.what.verdictFor? c e = some status) :
    ∃ views, openPass older = some (c, views) ∧ e ∈ views := by
  obtain ⟨-, hstep⟩ := h
  rcases report with ⟨time, what⟩
  cases what with
  | refreshed c' v next o status guarded =>
    cases next with
    | member sweep =>
      obtain ⟨⟨rfl, rfl⟩, -⟩ := Option.ite_none_right_eq_some.mp hreport
      exact hstep.1
    | _ => cases hreport
  | _ => cases hreport

end WholePasses

end ServiceFinder
