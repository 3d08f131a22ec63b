/-
  ServiceFinder/Proofs/Node/Updates.lean
  ======================================
  **No update of a view is lost.**

  Refreshes and pushed changes of a view overlap: a lookup at the registry takes time,
  and meanwhile others want the view.  What comes of it is nevertheless as if they had
  come one after the other.  A refresh takes in its answer with nothing in between, so
  neither a change nor a newer answer can be overwritten by an older one, and a change
  that arrives during a lookup is applied to what the lookup brought.
-/
import ServiceFinder.Proofs.Node.History
import ServiceFinder.Registry.Script

namespace ServiceFinder

variable {σ : Type}

/-- Every lookup for the view `e` that a journal saw begin, it saw end. -/
def AllEnded (e : EntryId) (journal : List JournalLine) : Prop :=
  ∀ later time c next earlier, journal = later ++ ⟨time, .fetchBegan c e next⟩ :: earlier →
    ∃ l ∈ later, ∃ o status guarded, l.what = .refreshed c e next o status guarded

theorem Serial.allEnded {e : EntryId} {journal : List JournalLine} (h : Serial e journal)
    (hopen : openFetch e journal = none) : AllEnded e journal := by
  rintro later time c next earlier rfl
  rcases h.ended_or_open with hended | hopen'
  · exact hended
  · cases hopen.symm.trans hopen'

/-- The view `e` has been updated by one call after the other. -/
structure UpdatedInOrder (n : Node σ) (e : EntryId) : Prop where
  /-- At most one lookup is in flight. -/
  single : ∀ {c c' due due' o o' next next'}, (c, .fetching e due o next) ∈ n.calls →
    (c', .fetching e due' o' next') ∈ n.calls →
    c = c' ∧ due = due' ∧ o = o' ∧ next = next'
  /-- The call that made it has the write lock, and the journal knows it. -/
  holder : ∀ {c due o next}, (c, .fetching e due o next) ∈ n.calls →
    n.writes c e = true ∧ openFetch e n.journal = some (c, next)
  /-- From the beginning of the lookup to its end no other call has had the lock, and
      whatever had it before had ended when the lookup began. -/
  refresh : ∀ {after time c next o status guarded before},
    n.journal = after ++ ⟨time, .refreshed c e next o status guarded⟩ :: before →
    ∃ between began earlier, before = between ++ ⟨began, .fetchBegan c e next⟩ :: earlier ∧
      (∀ l ∈ between, l.what.locks? ≠ some e) ∧ AllEnded e earlier
  /-- A change is applied when no lookup is in flight. -/
  change : ∀ {after time c change verdict before},
    n.journal = after ++ ⟨time, .changed c e change verdict⟩ :: before → AllEnded e before
  /-- The list is what answers, changes and forgotten revisions make of it in the order in
      which they were taken in. -/
  listing : (n.entry e).listing = listingAfter (n.entry e).key e n.journal

theorem Sound.updatedInOrder {n : Node σ} (h : Sound (⟨n, none, none⟩ : Midturn σ))
    (e : EntryId) : UpdatedInOrder n e where
  single {c c' due due' o o' next next'} hc hc' := by
    have hsame : c = c' := h.inLine.exclusive hc hc' rfl rfl
    subst hsame
    have hstage := h.orderly.stage_unique hc hc'
    cases hstage
    exact ⟨rfl, rfl, rfl, rfl⟩
  holder {c due o next} hc :=
    ⟨beq_iff_eq.mpr (h.inLine.resting hc rfl), (h.told e).fetch.mpr (.inl ⟨due, o, hc⟩)⟩
  refresh {after time c next o status guarded before} hj := by
    have hserial : Serial e (⟨time, .refreshed c e next o status guarded⟩ :: before) :=
      Serial.of_append (hj ▸ (h.told e).serial)
    have hopen : openFetch e before = some (c, next) := hserial.2 rfl
    obtain ⟨between, began, earlier, rfl, hbetween, hearlier⟩ :=
      hserial.1.began_of_openFetch hopen
    have hserial' : Serial e (⟨began, .fetchBegan c e next⟩ :: earlier) := hserial.1.of_append
    exact ⟨between, began, earlier, rfl, hbetween, hserial'.1.allEnded hearlier⟩
  change {after time c change verdict before} hj := by
    have hserial : Serial e (⟨time, .changed c e change verdict⟩ :: before) :=
      Serial.of_append (hj ▸ (h.told e).serial)
    exact hserial.1.allEnded (hserial.2 rfl)
  listing := (h.told e).listing

/-- **On every course, every view is updated by one call after the other.** -/
theorem updates_never_lost [Registry σ] {start n : Node σ} (untouched : start.Untouched)
    (course : start.Course n) (e : EntryId) : UpdatedInOrder n e :=
  (course.sound untouched).updatedInOrder e

/-! ### A change that arrives during a lookup -/

namespace Overlap

def key : ServiceKey := ⟨"shop", "store", "orders", everyVersion⟩

def server (id : String) : Instance := { instanceId := id, serviceId := "v1", endpoints := [] }

/-- A view of a registry that takes 50 milliseconds for every answer. -/
def start : Node Script :=
  .holding ⟨[(key, [⟨.found ⟨[server "a"], some "1"⟩, 50⟩, ⟨.found ⟨[server "b"], some "2"⟩, 50⟩])]⟩
    {} false key

/-- Two refreshes and a change of the view overlap; the change comes between them. -/
def crowd : Node Script :=
  start.follow
    [.call (.refresh 0), .pass 10,
     .call (.changeView 0 (.about "store" "orders" .create (server "c"))), .call (.refresh 0),
     .pass 40, .resume 0, .resume 1, .resume 2]

end Overlap

/-- The change stays until the second lookup ends, which began after it. -/
theorem overlap_updatedInOrder :
    (Overlap.start.Untouched ∧ Overlap.start.Course Overlap.crowd) ∧
      UpdatedInOrder Overlap.crowd 0 ∧
      (Overlap.crowd.entry 0).listing = ⟨[Overlap.server "a", Overlap.server "c"], some "1"⟩ ∧
      openFetch 0 Overlap.crowd.journal = some (2, .status) := by
  have untouched : Overlap.start.Untouched := Node.untouched_holding ..
  have course : Overlap.start.Course Overlap.crowd := Node.course_follow ..
  refine ⟨⟨untouched, course⟩, updates_never_lost untouched course 0, ?_, ?_⟩
  · decide
  · decide

end ServiceFinder
