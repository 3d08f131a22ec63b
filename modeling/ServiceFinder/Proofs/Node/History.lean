/-
  ServiceFinder/Proofs/Node/History.lean
  ======================================
  **The journal tells the truth about every view.**

  On every course the list of a view is what its journal makes of it, and a lookup is
  open in the journal just when some call is waiting for its answer.  The write lock is
  what makes this so: whoever looks up or applies a change stands first in line, and
  `InLine` leaves no room for a second lookup beside it.
-/
import ServiceFinder.Node.Assembly
import ServiceFinder.Proofs.Node.Journal
import ServiceFinder.Proofs.Node.Line

namespace ServiceFinder

variable {σ : Type}

/-- The call `c` has asked the registry about the view `e` and has not yet taken in the
    answer. -/
def Midturn.Fetches (s : Midturn σ) (e : EntryId) (c : CallId) (next : AfterRefresh) : Prop :=
  (∃ due o, (c, .fetching e due o next) ∈ s.node.calls) ∨
    ∃ o, s.running = some (c, .heard e o next)

theorem fetches_iff {s s' : Midturn σ} {e : EntryId} {c : CallId} {next : AfterRefresh}
    (hcalls : ∀ {c st e}, Stage.line? st = some e → st.holds? = some e →
      ((c, st) ∈ s'.node.calls ↔ (c, st) ∈ s.node.calls))
    (hrun : ∀ o, s'.running = some (c, .heard e o next) ↔ s.running = some (c, .heard e o next)) :
    s'.Fetches e c next ↔ s.Fetches e c next :=
  or_congr (exists_congr fun _ => exists_congr fun _ => hcalls rfl rfl) (exists_congr hrun)

/-! ### Journal and view -/

/-- What the journal tells about the view `e` is so. -/
structure Told (e : EntryId) (s : Midturn σ) : Prop where
  listing : (s.node.entry e).listing = listingAfter (s.node.entry e).key e s.node.journal
  truthful : Truthful s.node.directory.options.policy (s.node.entry e).key e s.node.journal
  serial : Serial e s.node.journal
  fetch : ∀ {c next}, openFetch e s.node.journal = some (c, next) ↔ s.Fetches e c next
  /-- Of a view that was not made yet, only the revision can have been forgotten. -/
  unmade : s.node.directory.entries.length ≤ e →
    ∀ l ∈ s.node.journal, l.what.view? = some e → l.what = .forgot e

namespace Told

variable {e : EntryId} {s s' : Midturn σ}

theorem of_eq (h : Told e s) (hkey : (s'.node.entry e).key = (s.node.entry e).key)
    (hlisting : (s'.node.entry e).listing = (s.node.entry e).listing)
    (hoptions : s'.node.directory.options = s.node.directory.options)
    (hlen : s.node.directory.entries.length ≤ s'.node.directory.entries.length)
    (hfetch : ∀ {c next}, s'.Fetches e c next ↔ s.Fetches e c next)
    (hjournal : ∃ lines, s'.node.journal = lines ++ s.node.journal ∧
      ∀ l ∈ lines, l.what.view? ≠ some e) : Told e s' := by
  obtain ⟨lines, hj, hl⟩ := hjournal
  constructor
  · rw [hlisting, hkey, hj, listingAfter_append _ hl]
    exact h.listing
  · rw [hoptions, hkey, hj]
    exact h.truthful.append hl
  · rw [hj]
    exact h.serial.append hl
  · intro c next
    rw [hj, openFetch_append hl, hfetch]
    exact h.fetch
  · intro hmade l hmem hv
    rw [hj] at hmem
    rcases List.mem_append.mp hmem with hmem | hmem
    · exact absurd hv (hl l hmem)
    · exact h.unmade (Nat.le_trans hlen hmade) l hmem hv

theorem of_apart (h : Told e s) (ha : Apart s s') : Told e s' := by
  refine h.of_eq (ha.key e) (ha.listing e) ha.options (Nat.le_of_eq ha.length.symm)
    (fun {c next} => fetches_iff (fun hline _ => ha.calls hline) ?_) ?_
  · intro o
    constructor
    · intro hrun
      have hnone := ha.aside'.hold
      simp [Midturn.hold?, hrun, Point.holds?] at hnone
    · intro hrun
      have hnone := ha.aside.hold
      simp [Midturn.hold?, hrun, Point.holds?] at hnone
  · obtain ⟨lines, hj, hl⟩ := ha.journal
    exact ⟨lines, hj, fun l hmem hv => by rw [hl l hmem] at hv; cases hv⟩

end Told

/-! ### The moves that touch a view -/

namespace Node

variable (n : Node σ)

theorem key_forget (v e : EntryId) : ((n.forget v).entry e).key = (n.entry e).key :=
  n.entry_modifyEntry_congr Entry.key v e rfl

theorem listing_forget (v e : EntryId) :
    ((n.forget v).entry e).listing =
      if v = e then { (n.entry e).listing with revision := none } else (n.entry e).listing := by
  show ((n.modifyEntry v Entry.forgetRevision).entry e).listing = _
  by_cases hv : v = e
  · subst hv
    rw [if_pos rfl]
    by_cases hlt : v < n.directory.entries.length
    · rw [entry_modifyEntry_self _ hlt]
      rfl
    · have hdefault : n.entry v = default := Directory.entry_of_length_le (Nat.le_of_not_lt hlt)
      rw [entry_modifyEntry, if_neg fun h => hlt h.2, hdefault]
      rfl
  · rw [entry_modifyEntry_of_ne _ fun h => hv h.symm, if_neg hv]

theorem listing_created (key : ServiceKey) (e : EntryId) :
    ((n.created key).entry e).listing = (n.entry e).listing := by
  show ((n.directory.create key).entry e).listing = _
  rw [Directory.entry_create]
  split
  · rename_i h
    rw [Node.entry, Directory.entry_of_length_le (Nat.le_of_eq h.symm)]
    rfl
  · rfl

end Node

/-- Waking up with the answer is still waiting for it to be taken in. -/
theorem fetches_wake {n : Node σ} {c : CallId} {st : Stage σ} (rests : n.stage? c = some st)
    (ho : Orderly (⟨n, none, none⟩ : Midturn σ)) {e : EntryId} {c' : CallId}
    {next : AfterRefresh} :
    Midturn.Fetches ⟨n.unrest c, some (c, st.point), none⟩ e c' next ↔
      Midturn.Fetches ⟨n, none, none⟩ e c' next := by
  constructor
  · rintro (⟨due, o, hc⟩ | ⟨o, hrun⟩)
    · exact .inl ⟨due, o, (Node.mem_unrest.mp hc).1⟩
    · simp only [Option.some.injEq, Prod.mk.injEq] at hrun
      obtain ⟨rfl, hpoint⟩ := hrun
      cases st with
      | fetching v due o' next' =>
        cases hpoint
        exact .inl ⟨due, o, Node.mem_of_stage? rests⟩
      | _ => cases hpoint
  · rintro (⟨due, o, hc⟩ | ⟨o, hrun⟩)
    · by_cases hne : c' = c
      · subst hne
        have heq := ho.stage_unique hc (Node.mem_of_stage? rests)
        exact .inr ⟨o, by rw [← heq]; rfl⟩
      · exact .inl ⟨due, o, Node.mem_unrest.mpr ⟨hc, hne⟩⟩
    · cases hrun

namespace Told

variable {e : EntryId}

theorem forget {n : Node σ} {r r' : Option (CallId × Point σ)}
    {k : Option (CallId × Bool × List EntryId)} {v : EntryId} (h : Told e ⟨n, r, k⟩)
    (hfetch : ∀ {c next}, Midturn.Fetches ⟨n.forget v, r', k⟩ e c next ↔
      Midturn.Fetches ⟨n, r, k⟩ e c next) : Told e ⟨n.forget v, r', k⟩ := by
  by_cases hv : v = e
  · subst hv
    have hlisting := n.listing_forget v v
    rw [if_pos rfl] at hlisting
    have hkey := n.key_forget v v
    constructor
    · show ((n.forget v).entry v).listing = listingAfter ((n.forget v).entry v).key v _
      rw [hlisting, hkey, h.listing]
      exact (if_pos rfl).symm
    · show Truthful n.directory.options.policy ((n.forget v).entry v).key v _
      rw [hkey]
      exact ⟨h.truthful, trivial⟩
    · exact ⟨h.serial, trivial⟩
    · intro c next
      rw [hfetch]
      exact h.fetch
    · intro hmade l hmem hl
      rcases List.mem_cons.mp hmem with rfl | hmem
      · rfl
      · have hlen := n.length_modifyEntry v Entry.forgetRevision
        exact h.unmade (Nat.le_trans (Nat.le_of_eq hlen.symm) hmade) l hmem hl
  · refine h.of_eq (n.key_forget v e) ?_ rfl (Nat.le_of_eq (n.length_modifyEntry v _).symm) hfetch
      ⟨[⟨n.time, .forgot v⟩], rfl, ?_⟩
    · exact (n.listing_forget v e).trans (if_neg hv)
    · intro l hmem hl
      rw [List.mem_singleton.mp hmem] at hl
      exact hv (Option.some.inj hl)

theorem create {n : Node σ} {r r' : Option (CallId × Point σ)}
    {k : Option (CallId × Bool × List EntryId)} {key : ServiceKey} {m : Measurement}
    (h : Told e ⟨n, r, k⟩)
    (hfetch : ∀ {c next}, Midturn.Fetches ⟨(n.created key).measure m, r', k⟩ e c next ↔
      Midturn.Fetches ⟨n, r, k⟩ e c next) : Told e ⟨(n.created key).measure m, r', k⟩ := by
  have hlen : (n.created key).directory.entries.length = n.directory.entries.length + 1 :=
    n.directory.length_create key
  have hlisting := n.listing_created key e
  by_cases he : e = n.directory.entries.length
  · have hforgot := h.unmade (Nat.le_of_eq he.symm)
    have hne : (Happening.created n.directory.entries.length).view? = some e :=
      congrArg some he.symm
    constructor
    · show ((n.created key).entry e).listing = listingAfter ((n.created key).entry e).key e _
      rw [hlisting, h.listing, listingAfter_of_forgot _ hforgot]
      exact (listingAfter_of_forgot _ hforgot).symm
    · exact ⟨truthful_of_forgot _ _ hforgot, trivial⟩
    · exact ⟨h.serial, trivial⟩
    · intro c next
      rw [hfetch]
      exact h.fetch
    · intro hmade
      replace hmade : (n.created key).directory.entries.length ≤ e := hmade
      rw [hlen, he] at hmade
      exact absurd hmade (Nat.not_succ_le_self _)
  · refine h.of_eq ?_ hlisting rfl (Nat.le_of_lt (hlen ▸ Nat.lt_succ_self _)) hfetch
      ⟨[⟨n.time, .created n.directory.entries.length⟩], rfl, ?_⟩
    · exact congrArg Entry.key ((n.directory.entry_create key e).trans (if_neg he))
    · intro l hmem hl
      rw [List.mem_singleton.mp hmem] at hl
      exact he (Option.some.inj hl).symm

theorem begin [Registry σ] {n n' : Node σ} {c : CallId} {v : EntryId} {next : AfterRefresh}
    {r : Option (CallId × Point σ)} {k : Option (CallId × Bool × List EntryId)}
    (h : Told e ⟨n, some (c, .asking v next), k⟩)
    (hl : InLine (⟨n, some (c, .asking v next), k⟩ : Midturn σ))
    (ho : Orderly (⟨n, some (c, .asking v next), k⟩ : Midturn σ))
    (hviews : n'.directory = n.directory)
    (hjournal : n'.journal = ⟨n.time, .fetchBegan c v next⟩ :: n.journal)
    (hfetch : ∀ {c' next'}, Midturn.Fetches ⟨n', r, k⟩ e c' next' ↔
      (v = e ∧ c' = c ∧ next' = next) ∨
        Midturn.Fetches ⟨n, some (c, .asking v next), k⟩ e c' next') :
    Told e ⟨n', r, k⟩ := by
  have hentry : n'.entry e = n.entry e := by simp only [Node.entry, hviews]
  by_cases hv : v = e
  · subst hv
    have hnone {c' next'} :
        ¬ Midturn.Fetches ⟨n, some (c, .asking v next), k⟩ v c' next' := by
      rintro (⟨due, o, hc⟩ | ⟨o, hrun⟩)
      · exact hl.alone ho rfl rfl hc rfl
      · cases hrun
    have hopen : openFetch v n.journal = none := by
      cases hopen : openFetch v n.journal with
      | none => rfl
      | some x => exact absurd (h.fetch.mp hopen) hnone
    constructor
    · simp only [hentry, hjournal]
      exact h.listing
    · simp only [hentry, hjournal, hviews]
      exact ⟨h.truthful, trivial⟩
    · simp only [hjournal]
      exact ⟨h.serial, fun _ => hopen⟩
    · intro c' next'
      simp only [hjournal, hfetch, hnone, or_false, true_and]
      unfold openFetch
      simp only [if_true, Option.some.injEq, Prod.mk.injEq, eq_comm]
    · intro hmade
      replace hmade : n'.directory.entries.length ≤ v := hmade
      have hlt : v < n.directory.entries.length := hl.lt_length rfl
      rw [hviews] at hmade
      exact absurd hlt (Nat.not_lt.mpr hmade)
  · refine h.of_eq (congrArg Entry.key hentry) (congrArg Entry.listing hentry)
      (congrArg Directory.options hviews) (Nat.le_of_eq (by simp only [hviews]))
      (hfetch.trans (or_iff_right fun hc => hv hc.1))
      ⟨[⟨n.time, .fetchBegan c v next⟩], hjournal, ?_⟩
    intro l hmem hl'
    rw [List.mem_singleton.mp hmem] at hl'
    exact hv (Option.some.inj hl')

theorem hear {n : Node σ} {c : CallId} {v : EntryId} {o : Outcome} {next : AfterRefresh}
    {p : Point σ} {k : Option (CallId × Bool × List EntryId)}
    (h : Told e ⟨n, some (c, .heard v o next), k⟩)
    (hl : InLine (⟨n, some (c, .heard v o next), k⟩ : Midturn σ))
    (ho : Orderly (⟨n, some (c, .heard v o next), k⟩ : Midturn σ)) (hp : p.holds? = none) :
    Told e ⟨n.settled c v o next, some (c, p), k⟩ := by
  have hlt : v < n.directory.entries.length := hl.lt_length rfl
  have r := n.revised_settled c o next hlt
  have hquiet {c' next'} (hrun : ∃ o', (some (c, p) : Option (CallId × Point σ)) =
      some (c', .heard e o' next')) : False := by
    obtain ⟨o', hrun⟩ := hrun
    cases hrun
    cases hp
  by_cases hv : v = e
  · subst hv
    have hlisting : ((n.settled c v o next).entry v).listing =
        (Happening.refreshed c v next o (n.outcomeOn v o).2 (n.entry v).protection).relist
          (n.entry v).key v (n.entry v).listing := by
      rw [n.entry_settled c o next hlt]
      exact Entry.listing_afterRefresh _ (n.entry v) c v next o _
    have hopen : openFetch v n.journal = some (c, next) := h.fetch.mpr (.inr ⟨o, rfl⟩)
    constructor
    · refine hlisting.trans ?_
      simp only [r.key]
      rw [h.listing]
      rfl
    · simp only [r.key]
      refine ⟨h.truthful, ?_⟩
      intro _
      have hlist : (n.entry v).listing = listingAfter (n.entry v).key v n.journal := h.listing
      have hverdict := Entry.verdict_afterRefresh n.directory.options.policy (n.entry v) o
      rw [hlist] at hverdict
      exact hverdict
    · exact ⟨h.serial, fun _ => hopen⟩
    · intro c' next'
      have hnone : openFetch v (n.settled c v o next).journal = none := if_pos rfl
      simp only [hnone, reduceCtorEq, false_iff]
      rintro (⟨due, o', hc⟩ | hrun)
      · exact hl.alone ho rfl rfl hc rfl
      · exact hquiet hrun
    · intro hmade
      replace hmade : (n.settled c v o next).directory.entries.length ≤ v := hmade
      exact absurd hlt (Nat.not_lt.mpr (r.length ▸ hmade))
  · have hother := r.other fun heq : e = v => hv heq.symm
    refine h.of_eq (r.key_eq e) (congrArg Entry.listing hother) rfl (Nat.le_of_eq r.length.symm) ?_
      ⟨[⟨n.time, .refreshed c v next o (n.outcomeOn v o).2 (n.entry v).protection⟩], rfl, ?_⟩
    · intro c' next'
      refine or_congr .rfl ⟨fun hrun => (hquiet hrun).elim, ?_⟩
      rintro ⟨o', hrun⟩
      cases hrun
      exact absurd rfl hv
    · intro l hmem hl'
      rw [List.mem_singleton.mp hmem] at hl'
      exact hv (Option.some.inj hl')

theorem apply {n : Node σ} {c : CallId} {v : EntryId} {change : InstanceChange}
    {next : AfterChange} {p : Point σ} {k : Option (CallId × Bool × List EntryId)}
    (h : Told e ⟨n, some (c, .applying v change next), k⟩)
    (hl : InLine (⟨n, some (c, .applying v change next), k⟩ : Midturn σ))
    (ho : Orderly (⟨n, some (c, .applying v change next), k⟩ : Midturn σ))
    (hp : p.holds? = none) : Told e ⟨(n.applyChange c v change).2, some (c, p), k⟩ := by
  have hlt : v < n.directory.entries.length := hl.lt_length rfl
  have r := n.revised_applyChange c change hlt
  have hfetch {c' next'} :
      Midturn.Fetches ⟨(n.applyChange c v change).2, some (c, p), k⟩ e c' next' ↔
      Midturn.Fetches ⟨n, some (c, .applying v change next), k⟩ e c' next' := by
    refine or_congr .rfl ⟨?_, ?_⟩
    · rintro ⟨o', hrun⟩
      cases hrun
      cases hp
    · rintro ⟨o', hrun⟩
      cases hrun
  by_cases hv : v = e
  · subst hv
    have hlisting : ((n.applyChange c v change).2.entry v).listing =
        (Happening.changed c v change (n.changeOn v change).2).relist
          (n.entry v).key v (n.entry v).listing := by
      rw [n.entry_applyChange c change hlt]
      exact Entry.listing_afterChange _ (n.entry v) c v change
    have hopen : openFetch v n.journal = none := by
      cases hopen : openFetch v n.journal with
      | none => rfl
      | some x =>
        rcases h.fetch.mp hopen with ⟨due, o, hc⟩ | ⟨o, hrun⟩
        · exact absurd rfl (hl.alone ho rfl rfl hc)
        · cases hrun
    constructor
    · refine hlisting.trans ?_
      simp only [r.key]
      rw [h.listing]
      rfl
    · simp only [r.key]
      exact ⟨h.truthful, trivial⟩
    · exact ⟨h.serial, fun _ => hopen⟩
    · intro c' next'
      rw [hfetch]
      exact h.fetch
    · intro hmade
      replace hmade : (n.applyChange c v change).2.directory.entries.length ≤ v := hmade
      exact absurd hlt (Nat.not_lt.mpr (r.length ▸ hmade))
  · have hother := r.other fun heq : e = v => hv heq.symm
    refine h.of_eq (r.key_eq e) (congrArg Entry.listing hother) rfl
      (Nat.le_of_eq r.length.symm) hfetch
      ⟨[⟨n.time, .changed c v change (n.changeOn v change).2⟩], rfl, ?_⟩
    intro l hmem hl'
    rw [List.mem_singleton.mp hmem] at hl'
    exact hv (Option.some.inj hl')

/-- The view keeps its key and its list, and no lookup begins or ends. -/
theorem of_modify {n : Node σ} {f : Entry → Entry} {v : EntryId}
    {r r' : Option (CallId × Point σ)} {k : Option (CallId × Bool × List EntryId)}
    (h : Told e ⟨n, r, k⟩) (hkey : (f (n.entry v)).key = (n.entry v).key)
    (hlisting : (f (n.entry v)).listing = (n.entry v).listing)
    (hfetch : ∀ {c next}, Midturn.Fetches ⟨n.modifyEntry v f, r', k⟩ e c next ↔
      Midturn.Fetches ⟨n, r, k⟩ e c next) : Told e ⟨n.modifyEntry v f, r', k⟩ :=
  h.of_eq (n.entry_modifyEntry_congr Entry.key v e hkey)
    (n.entry_modifyEntry_congr Entry.listing v e hlisting) rfl
    (Nat.le_of_eq (n.length_modifyEntry v f).symm) hfetch ⟨[], rfl, by simp⟩

theorem touch [Registry σ] {s s' : Midturn σ} (h : Told e s) (hl : InLine s) (ho : Orderly s)
    (t : Touch s s') : Told e s' := by
  -- a call that runs neither with an answer in hand before nor after
  have idle {n n' : Node σ} {c : CallId} {p p' : Point σ}
      {k : Option (CallId × Bool × List EntryId)} {c' : CallId} {next : AfterRefresh}
      (hcalls : n'.calls = n.calls) (hp : ∀ v o next, p ≠ .heard v o next)
      (hp' : ∀ v o next, p' ≠ .heard v o next) :
      Midturn.Fetches ⟨n', some (c, p'), k⟩ e c' next ↔
        Midturn.Fetches ⟨n, some (c, p), k⟩ e c' next := by
    refine fetches_iff (fun _ _ => by simp only [hcalls]) fun o => ⟨?_, ?_⟩
    · rintro ⟨⟩
      exact absurd rfl (hp' e o next)
    · rintro ⟨⟩
      exact absurd rfl (hp e o next)
  cases t with
  | wake rests awake hline =>
    exact h.of_eq rfl rfl rfl (Nat.le_refl _) (fetches_wake rests ho) ⟨[], rfl, by simp⟩
  | forget n c k v es r => exact h.forget (idle rfl (by simp) (by simp))
  | create valid hfind => exact h.create (idle rfl (by simp) (by simp))
  | beginFirst hfirst => exact h.of_modify rfl rfl (idle rfl (by simp) (by simp))
  | endFirst n c k v status next => exact h.of_modify rfl rfl (idle rfl (by simp) (by simp))
  | @lock n c k v job hfree =>
    refine h.of_modify rfl rfl (idle rfl (by simp) ?_)
    cases job <;> simp [Job.point]
  | @wait n c k v job hbusy =>
    have hlined : Told e ⟨n.queueWriter c v, none, k⟩ := by
      refine h.of_modify rfl rfl (or_congr .rfl ⟨?_, ?_⟩)
      · rintro ⟨o, hrun⟩
        cases hrun
      · rintro ⟨o, hrun⟩
        cases hrun
    refine hlined.of_eq rfl rfl rfl (Nat.le_refl _)
      (fetches_iff ?_ fun o => .rfl) ⟨[], rfl, by simp⟩
    intro c' st v' hline hholds
    rw [Node.mem_rest, or_iff_left]
    rintro ⟨rfl, rfl⟩
    simp at hholds
  | @askNow n c k v next hwait =>
    refine h.begin hl ho rfl rfl fun {c' next'} => ⟨?_, ?_⟩
    · rintro (hc | ⟨o, hrun⟩)
      · exact .inr (.inl hc)
      · cases hrun
        exact .inl ⟨rfl, rfl, rfl⟩
    · rintro (⟨rfl, rfl, rfl⟩ | hc | ⟨o, hrun⟩)
      · exact .inr ⟨_, rfl⟩
      · exact .inl hc
      · cases hrun
  | @ask n c k v next hwait =>
    refine h.begin hl ho rfl rfl fun {c' next'} => ⟨?_, ?_⟩
    · rintro (⟨due, o, hc⟩ | ⟨o, hrun⟩)
      · rcases Node.mem_rest.mp hc with hc | ⟨rfl, heq⟩
        · exact .inr (.inl ⟨due, o, hc⟩)
        · cases heq
          exact .inl ⟨rfl, rfl, rfl⟩
      · cases hrun
    · rintro (⟨rfl, rfl, rfl⟩ | ⟨due, o, hc⟩ | ⟨o, hrun⟩)
      · exact .inl ⟨_, _, Node.mem_rest.mpr (.inr ⟨rfl, rfl⟩)⟩
      · exact .inl ⟨due, o, Node.mem_rest.mpr (.inl hc)⟩
      · cases hrun
  | hear n c k v o next => exact h.hear hl ho rfl
  | apply n c k v change next hold first => exact h.apply hl ho hold

theorem move [Registry σ] {s s' : Midturn σ} (h : Told e s) (hl : InLine s) (ho : Orderly s)
    (m : Move s s') : Told e s' := by
  rcases m.apart_or_touch ho with ha | ht
  · exact h.of_apart ha
  · exact h.touch hl ho ht

end Told

/-! ### Courses from a node that nobody has used -/

namespace Node

/-- Nothing has been asked of the node yet. -/
structure Untouched (n : Node σ) : Prop where
  calls : n.calls = []
  replies : n.replies = []
  journal : n.journal = []
  cached : n.directory.cached = []
  sweepers : n.directory.sweepers = []
  entry : ∀ e, (n.entry e).listing = {} ∧ (n.entry e).status = .initial ∧
    (n.entry e).firstRefresh = .pending ∧ (n.entry e).writers = []

theorem untouched_of_nil {n : Node σ} (calls : n.calls = []) (replies : n.replies = [])
    (journal : n.journal = []) (cached : n.directory.cached = [])
    (sweepers : n.directory.sweepers = []) (entries : n.directory.entries = []) :
    n.Untouched where
  calls := calls
  replies := replies
  journal := journal
  cached := cached
  sweepers := sweepers
  entry e := by
    rw [Node.entry, Directory.entry_of_length_le (by simp [entries])]
    exact ⟨rfl, rfl, rfl, rfl⟩

theorem untouched_caching (registry : σ) (c : RegistryConfig) (policy : EmptyListPolicy) :
    (caching registry c policy).Untouched :=
  untouched_of_nil rfl rfl rfl rfl rfl rfl

theorem untouched_balancing (registry : σ) (c : Config) (policy : EmptyListPolicy)
    (now : Millis) (draws : Draws) : (balancing registry c policy now draws).Untouched :=
  untouched_of_nil rfl rfl rfl rfl rfl rfl

theorem untouched_holding (registry : σ) (options : Options) (protection : Bool)
    (key : ServiceKey) : (holding registry options protection key).Untouched where
  calls := rfl
  replies := rfl
  journal := rfl
  cached := rfl
  sweepers := rfl
  entry e := by
    cases e with
    | zero => exact ⟨rfl, rfl, rfl, rfl⟩
    | succ e =>
      rw [Node.entry, Directory.entry_of_length_le (by simp [holding])]
      exact ⟨rfl, rfl, rfl, rfl⟩

end Node

/-- Calls are in order, lines are in order, and the journal is right. -/
structure Sound (s : Midturn σ) : Prop where
  orderly : Orderly s
  inLine : InLine s
  told : ∀ e, Told e s

namespace Sound

theorem of_untouched {n : Node σ} (h : n.Untouched) : Sound ⟨n, none, none⟩ where
  orderly := ⟨by simp [Midturn.ids, Node.ids, h.calls, h.replies],
    by simp [Midturn.ids, Node.ids, h.calls, h.replies]⟩
  inLine := by
    constructor
    · intro e
      simp [h.entry e]
    · intro c st e hc
      simp [h.calls] at hc
    · intro c e hc
      cases hc
    · intro c e hc
      simp [h.entry e] at hc
  told e := by
    constructor
    · rw [h.journal, (h.entry e).1]
      rfl
    · rw [h.journal]
      trivial
    · rw [h.journal]
      trivial
    · intro c next
      simp [h.journal, openFetch, Midturn.Fetches, h.calls]
    · intro _ l hmem
      simp [h.journal] at hmem

theorem move [Registry σ] {s s' : Midturn σ} (h : Sound s) (m : Move s s') : Sound s' where
  orderly := h.orderly.move m
  inLine := h.inLine.move h.orderly m
  told e := (h.told e).move h.inLine h.orderly m

theorem pass {n : Node σ} (time : Nat) (h : Sound (⟨n, none, none⟩ : Midturn σ)) :
    Sound (⟨{ n with time }, none, none⟩ : Midturn σ) where
  orderly := ⟨h.orderly.nodup, h.orderly.below⟩
  inLine := h.inLine.of_eq (fun _ => rfl) (fun _ _ _ _ => .rfl) rfl
  told e := (h.told e).of_eq rfl rfl rfl (Nat.le_refl _) .rfl ⟨[], rfl, by simp⟩

end Sound

/-- The list of a view, once its journal is known up to lines about other views. -/
theorem Told.listing_of_latest {n : Node σ} {e : EntryId}
    {after before : List JournalLine} (h : Told e (⟨n, none, none⟩ : Midturn σ))
    (hj : n.journal = after ++ before) (latest : ∀ l ∈ after, l.what.view? ≠ some e) :
    (n.entry e).listing = listingAfter (n.entry e).key e before := by
  refine h.listing.trans ?_
  show listingAfter (n.entry e).key e n.journal = _
  rw [hj, listingAfter_append _ latest]

/-- The status of a refresh that the journal tells of. -/
theorem Told.verdict {n : Node σ} {e : EntryId} {after before : List JournalLine} {time : Nat}
    {c : CallId} {next : AfterRefresh} {o : Outcome} {status : CacheStatus} {guarded : Bool}
    (h : Told e (⟨n, none, none⟩ : Midturn σ))
    (hj : n.journal = after ++ ⟨time, .refreshed c e next o status guarded⟩ :: before) :
    status = verdictOn n.directory.options.policy (n.entry e).key
      (listingAfter (n.entry e).key e before) guarded o := by
  have htruthful : Truthful n.directory.options.policy (n.entry e).key e n.journal := h.truthful
  rw [hj] at htruthful
  exact htruthful.of_append.2 rfl

theorem Node.Course.sound [Registry σ] {start n : Node σ} (h : start.Untouched)
    (course : Course start n) : Sound ⟨n, none, none⟩ :=
  course.keeps Sound.move (fun {_ time} _ hs => hs.pass time) (.of_untouched h)

/-- What moves keep on sound nodes, and time does not spoil, holds on every course. -/
theorem Node.Course.keeps_of_sound [Registry σ] {I : Midturn σ → Prop} {start n : Node σ}
    (sound : Sound (⟨start, none, none⟩ : Midturn σ)) (course : Course start n)
    (move : ∀ {s s'}, Sound s → I s → Move s s' → I s')
    (pass : ∀ {n : Node σ} {time}, n.time ≤ time → I ⟨n, none, none⟩ →
      I ⟨{ n with time }, none, none⟩)
    (h : I ⟨start, none, none⟩) : Sound (⟨n, none, none⟩ : Midturn σ) ∧ I ⟨n, none, none⟩ := by
  refine Course.keeps (I := fun s => Sound s ∧ I s) course ?_ ?_ ⟨sound, h⟩
  · intro s s' hs m
    exact ⟨hs.1.move m, move hs.1 hs.2 m⟩
  · intro n time hle hs
    exact ⟨hs.1.pass _, pass hle hs.2⟩

end ServiceFinder
