/-
  ServiceFinder/Proofs/Node/Passes.lean
  =====================================
  **One pass after the other, and in each one refresh for every member.**

  That sweeps keep to the grammar of their journal rests on an account of every member.  What
  the journal tells of a member and what its refresh has left to do fit together at every
  moment (`Member.Tracked`), and for anyone else nothing was told and nothing is left to do.
  A move of a refresh brings it from one leg to the next, and the journal with it; a pass ends
  when no member has a leg left.
-/
import ServiceFinder.Proofs.Node.Asking
import ServiceFinder.Proofs.Node.Punctual
import ServiceFinder.Proofs.Node.SweepJournal
import ServiceFinder.Proofs.Node.SweepLine

namespace ServiceFinder

variable {σ : Type}

/-! ### What is known while a node is used -/

/-- Calls, lines, journal, first refreshes and the cache are in order. -/
structure Regular (s : Midturn σ) : Prop where
  sound : Sound s
  first : AllFirst s
  filed : Filed s.node

theorem Steady.regular {s : Midturn σ} (h : Steady s) : Regular s := ⟨h.sound, h.first, h.filed⟩

namespace Regular

variable {s s' : Midturn σ}

theorem move [Registry σ] (h : Regular s) (m : Move s s') : Regular s' where
  sound := h.sound.move m
  first := h.first.move h.sound m
  filed := h.filed.move m

theorem pass {n : Node σ} {time : Nat} (h : Regular (⟨n, none, none⟩ : Midturn σ))
    (hle : n.time ≤ time) : Regular (⟨{ n with time }, none, none⟩ : Midturn σ) where
  sound := h.sound.pass time
  first e he := (h.first e he).pass hle
  filed := h.filed.of_views rfl rfl rfl

/-- While nobody runs but a sweep, the journal tells which views are initialized. -/
theorem initialized_iff (h : Regular s)
    (hsweep : ∀ {c p}, s.running = some (c, p) → p.isSweep = true) {e : EntryId}
    (he : e < s.node.directory.entries.length) :
    (s.node.entry e).isInitialized = true ↔ ∃ l ∈ s.node.journal, l.what.endsFirst e = true := by
  have hfirst := h.first e he
  constructor
  · intro hover
    obtain ⟨l, hl, -, hended⟩ := (hfirst.ended_of_over (beq_iff_eq.mp hover)).2
    exact ⟨l, hl, hended⟩
  · rintro ⟨l, hl, hended⟩
    have hends : 0 < firstEnds e s.node.journal := List.countP_pos_iff.mpr ⟨l, hl, hended⟩
    cases hfirst with
    | past flag => exact beq_iff_eq.mpr flag
    | @fetching c' due o next rests flag idle only asks =>
      -- a first refresh whose lookup is open has not ended
      have hopen : openFetch e s.node.journal = some (c', .first next) :=
        (h.sound.told e).fetch.mpr (.inl ⟨due, o, rests⟩)
      have hadd := Serial.firstEnds_add (h.sound.told e).serial
      rw [opensFirst, hopen, asks] at hadd
      replace hadd : firstEnds e s.node.journal + 1 = 1 := hadd
      omega
    | made run => cases hsweep run
    | lining run => cases hsweep run
    | asking run => cases hsweep run
    | heard run => cases hsweep run
    | refreshed run => cases hsweep run

/-- The views that a pass would be about are those that the journal lists. -/
theorem mem_initialized (h : Regular s)
    (hsweep : ∀ {c p}, s.running = some (c, p) → p.isSweep = true) (e : EntryId) :
    e ∈ s.node.directory.initialized ↔ Listed e s.node.journal := by
  constructor
  · intro hmem
    obtain ⟨hview, hover⟩ := List.mem_filter.mp hmem
    obtain ⟨⟨key, v⟩, hcached, rfl⟩ := List.mem_map.mp hview
    obtain ⟨hlt, -, hkept⟩ := h.filed.made hcached
    exact ⟨h.filed.created hlt, hkept, (h.initialized_iff hsweep hlt).mp hover⟩
  · rintro ⟨⟨l, hl, hwhat⟩, kept, ended⟩
    have hlt : e < s.node.directory.entries.length := by
      apply Nat.lt_of_not_le
      intro hle
      have hforgot := (h.sound.told e).unmade hle l hl (by rw [hwhat]; rfl)
      cases hwhat.symm.trans hforgot
    have hview : e ∈ s.node.directory.views :=
      List.mem_map.mpr ⟨_, h.filed.kept hlt kept, rfl⟩
    exact List.mem_filter.mpr ⟨hview, (h.initialized_iff hsweep hlt).mpr ended⟩

end Regular

/-- No view is cached twice. -/
theorem Filed.nodup_views {n : Node σ} (h : Filed n) : n.directory.views.Nodup := by
  have hkeys : n.directory.cached.map (·.1) = n.directory.views.map fun e => (n.entry e).key := by
    rw [Directory.views, List.map_map]
    apply List.map_congr_left
    rintro ⟨key, e⟩ hmem
    exact (h.made hmem).2.1.symm
  exact List.Nodup.of_map _ (hkeys ▸ h.keys)

/-! ### The account of a member -/

def Leg.asks : Leg → Nat
  | .toAsk => 0
  | _ => 1

def Leg.verdicts : Leg → List CacheStatus
  | .toReport status => [status]
  | _ => []

/-- What is left to do for the member `e` of the sweep `c`, and what the journal tells of it. -/
structure Midturn.Account (s : Midturn σ) (c : CallId) (e : EntryId) (legs : List Leg) (asks : Nat)
    (verdicts : List CacheStatus) : Prop where
  legs : (s.legs c e).Perm legs
  asks : asksFor c e s.node.journal = asks
  verdicts : verdictsFor c e s.node.journal = verdicts

/-- How far the refresh of a member of the sweep `c` has come. -/
inductive Member.Tracked (c : CallId) (s : Midturn σ) (m : Member) : Prop where
  | pending {leg : Leg} (waits : m.status = none)
      (account : s.Account c m.entry [leg] leg.asks leg.verdicts)
  | reported {status : CacheStatus} (told : m.status = some status)
      (account : s.Account c m.entry [] 1 [status])

/-- The sweep `c` makes its pass, at rest or, once all members have reported, on its way to the
    end. -/
inductive Midturn.Pass (s : Midturn σ) (c : CallId) (members : List Member) : Bool → Prop where
  | resting {forced} (rests : (c, .pass forced members) ∈ s.node.calls) : s.Pass c members false
  | closing {forced} (run : s.running = some (c, .closing forced members)) : s.Pass c members true

/-- A pass with these members is on its way. -/
structure Passing (c : CallId) (members : List Member) (all : Bool) (s : Midturn σ) : Prop where
  nodup : (members.map (·.entry)).Nodup
  tracked : ∀ m ∈ members, m.Tracked c s
  others : ∀ e ∉ members.map (·.entry), s.Account c e [] 0 []
  begun : openPass s.node.journal = some (c, members.map (·.entry))
  all : members.all (·.status.isSome) = all

/-- The call `c` has answered or is about to. -/
def Midturn.Over (s : Midturn σ) (c : CallId) : Prop :=
  (∃ r ∈ s.node.replies, r.call = c) ∨ ∃ r, s.running = some (c, .replying r)

/-- All sweeps are in order. -/
structure Sweeping (s : Midturn σ) : Prop where
  line : SweepLine s
  passing : ∀ {c members all}, s.Pass c members all → Passing c members all s
  made : ∀ {c views}, openPass s.node.journal = some (c, views) →
    ∃ members all, s.Pass c members all
  idle : ∀ {c}, (∀ members all, ¬ s.Pass c members all) → ∀ e, s.legs c e = []
  begun : ∀ l ∈ s.node.journal, ∀ c views, l.what = .sweepBegan c views →
    (∃ members all, s.Pass c members all) ∨ s.Over c
  swept : Swept s.node.journal

section Accounts

variable {s s' : Midturn σ} {c : CallId} {e : EntryId}

theorem asksFor_cons (line : JournalLine) (before : List JournalLine) :
    asksFor c e (line :: before) = (line.what.asksFor c e).toNat + asksFor c e before := by
  rw [asksFor, List.countP_cons]
  cases line.what.asksFor c e
  · exact (Nat.zero_add _).symm
  · exact Nat.add_comm ..

theorem verdictsFor_cons (line : JournalLine) (before : List JournalLine) :
    verdictsFor c e (line :: before) =
      (line.what.verdictFor? c e).toList ++ verdictsFor c e before := by
  rw [verdictsFor, List.filterMap_cons]
  cases line.what.verdictFor? c e <;> rfl

theorem Midturn.Account.keep {legs : List Leg} {asks : Nat} {verdicts : List CacheStatus}
    (h : s.Account c e legs asks verdicts) (hlegs : (s'.legs c e).Perm (s.legs c e))
    (hjournal : ∃ lines, s'.node.journal = lines ++ s.node.journal ∧
      ∀ l ∈ lines, l.what.asksFor c e = false ∧ l.what.verdictFor? c e = none) :
    s'.Account c e legs asks verdicts := by
  obtain ⟨lines, hj, hl⟩ := hjournal
  constructor
  · exact hlegs.trans h.legs
  · have hnone : lines.countP (·.what.asksFor c e) = 0 :=
      List.countP_eq_zero.mpr fun l hmem => by simp [(hl l hmem).1]
    rw [hj, asksFor, List.countP_append, hnone, Nat.zero_add]
    exact h.asks
  · have hnone : lines.filterMap (·.what.verdictFor? c e) = [] :=
      List.filterMap_eq_nil_iff.mpr fun l hmem => (hl l hmem).2
    rw [hj, verdictsFor, List.filterMap_append, hnone, List.nil_append]
    exact h.verdicts

theorem Member.Tracked.keep {m : Member} (h : m.Tracked c s)
    (hlegs : (s'.legs c m.entry).Perm (s.legs c m.entry))
    (hjournal : ∃ lines, s'.node.journal = lines ++ s.node.journal ∧
      ∀ l ∈ lines, l.what.asksFor c m.entry = false ∧ l.what.verdictFor? c m.entry = none) :
    m.Tracked c s' := by
  cases h with
  | pending waits account => exact .pending waits (account.keep hlegs hjournal)
  | reported told account => exact .reported told (account.keep hlegs hjournal)

/-- What is left to do for a member that has something left to do. -/
theorem Member.Tracked.of_leg {m : Member} (h : m.Tracked c s) {leg : Leg} {rest : List Leg}
    (hlegs : (s.legs c m.entry).Perm (leg :: rest)) :
    rest = [] ∧ m.status = none ∧ s.Account c m.entry [leg] leg.asks leg.verdicts := by
  cases h with
  | pending waits account =>
    have heq := List.perm_singleton.mp (hlegs.symm.trans account.legs)
    cases heq
    exact ⟨rfl, waits, account⟩
  | reported told account =>
    cases List.perm_nil.mp (hlegs.symm.trans account.legs)

theorem Passing.keep {members : List Member} {all : Bool} (h : Passing c members all s)
    (hlegs : ∀ e, (s'.legs c e).Perm (s.legs c e))
    (hjournal : ∃ lines, s'.node.journal = lines ++ s.node.journal ∧
      ∀ l ∈ lines, l.what.sweep? = none) : Passing c members all s' := by
  obtain ⟨lines, hj, hl⟩ := hjournal
  have hlines (e : EntryId) : ∃ lines, s'.node.journal = lines ++ s.node.journal ∧
      ∀ l ∈ lines, l.what.asksFor c e = false ∧ l.what.verdictFor? c e = none := by
    refine ⟨lines, hj, ?_⟩
    intro l hmem
    obtain ⟨hasks, hverdict, -⟩ := Happening.of_sweep?_none (hl l hmem) c e []
    exact ⟨hasks, hverdict⟩
  constructor
  · exact h.nodup
  · intro m hm
    exact (h.tracked m hm).keep (hlegs m.entry) (hlines m.entry)
  · intro e he
    exact (h.others e he).keep (hlegs e) (hlines e)
  · rw [hj, openPass_append hl]
    exact h.begun
  · exact h.all

/-- A refresh that is made for a sweep is made for a member of a pass that is on its way. -/
theorem Sweeping.member_of_leg (h : Sweeping s) {leg : Leg} {rest : List Leg}
    (hlegs : (s.legs c e).Perm (leg :: rest)) :
    ∃ members all m, s.Pass c members all ∧ m ∈ members ∧ m.entry = e := by
  by_cases hpass : ∃ members all, s.Pass c members all
  · obtain ⟨members, all, hpass⟩ := hpass
    have hin : e ∈ members.map (·.entry) := by
      by_contra hout
      have hnil := (h.passing hpass).others e hout
      cases List.perm_nil.mp (hlegs.symm.trans hnil.legs)
    obtain ⟨m, hm, rfl⟩ := List.mem_map.mp hin
    exact ⟨members, all, m, hpass, hm, rfl⟩
  · have hnil := h.idle (fun members all hp => hpass ⟨members, all, hp⟩) e
    rw [hnil] at hlegs
    cases List.perm_nil.mp hlegs.symm

end Accounts

/-! ### Moves that leave the passes alone -/

theorem Midturn.Over.move [Registry σ] {s s' : Midturn σ} {c : CallId} (h : s.Over c)
    (m : Move s s') : s'.Over c := by
  rcases h with ⟨r, hr, rfl⟩ | ⟨r, hrun⟩
  · exact .inl ⟨r, m.replies_subset hr, rfl⟩
  · rcases s with ⟨n, run, k⟩
    cases hrun
    rw [m.of_replying]
    exact .inl ⟨_, List.mem_cons_self, rfl⟩

theorem Clear.pass_iff {s s' : Midturn σ} (h : Clear s s') (c : CallId) (members : List Member)
    (all : Bool) : s'.Pass c members all ↔ s.Pass c members all := by
  constructor
  · rintro (rests | run)
    · exact .resting ((h.calls rfl).mp rests)
    · cases h.running' run
  · rintro (rests | run)
    · exact .resting ((h.calls rfl).mpr rests)
    · cases h.running run

namespace Sweeping

variable {s s' : Midturn σ}

/-- Nothing happens that is about a pass. -/
theorem of_same (h : Sweeping s) (hline : SweepLine s')
    (hpass : ∀ c members all, s'.Pass c members all ↔ s.Pass c members all)
    (hlegs : ∀ c e, (s'.legs c e).Perm (s.legs c e))
    (hjournal : ∃ lines, s'.node.journal = lines ++ s.node.journal ∧
      ∀ l ∈ lines, l.what.sweep? = none) (hover : ∀ c, s.Over c → s'.Over c) : Sweeping s' := by
  obtain ⟨lines, hj, hl⟩ := hjournal
  constructor
  · exact hline
  · intro c members all hp
    exact (h.passing ((hpass c members all).mp hp)).keep (hlegs c) ⟨lines, hj, hl⟩
  · intro c views hopen
    rw [hj, openPass_append hl] at hopen
    obtain ⟨members, all, hp⟩ := h.made hopen
    exact ⟨members, all, (hpass c members all).mpr hp⟩
  · intro c hno e
    have hnil := h.idle (fun members all hp => hno members all ((hpass c members all).mpr hp)) e
    exact List.perm_nil.mp (hnil ▸ hlegs c e)
  · intro l hmem c views hwhat
    rw [hj] at hmem
    rcases List.mem_append.mp hmem with hmem | hmem
    · cases (hwhat ▸ hl l hmem : (Happening.sweepBegan c views).sweep? = none)
    · rcases h.begun l hmem c views hwhat with ⟨members, all, hp⟩ | hdone
      · exact .inl ⟨members, all, (hpass c members all).mpr hp⟩
      · exact .inr (hover c hdone)
  · rw [hj]
    exact h.swept.append hl

/-- One refresh for a sweep gets from one leg to the next, and the journal tells it. -/
theorem pace (h : Sweeping s) {c : CallId} {e : EntryId} {leg leg' : Leg}
    (hp : Paces c e leg leg' s s') {line : JournalLine}
    (hjournal : s'.node.journal = line :: s.node.journal)
    (hother : ∀ c' e', ¬ (c' = c ∧ e' = e) →
      line.what.asksFor c' e' = false ∧ line.what.verdictFor? c' e' = none)
    (hasks : (line.what.asksFor c e).toNat + leg.asks = leg'.asks)
    (hverdicts : (line.what.verdictFor? c e).toList ++ leg.verdicts = leg'.verdicts)
    (hbegan : ∀ c views, line.what ≠ .sweepBegan c views)
    (hended : ∀ c changed, line.what ≠ .sweepEnded c changed)
    (hstep : (∃ views, openPass s.node.journal = some (c, views) ∧ e ∈ views) →
      asksFor c e s.node.journal = leg.asks → verdictsFor c e s.node.journal = leg.verdicts →
        SweepStep s.node.journal line.what)
    (hover : ∀ c, s.Over c → s'.Over c) : Sweeping s' := by
  -- the refresh is made for a member of the pass that is on its way, and it has no other leg
  obtain ⟨rest, hlegs, hlegs'⟩ := hp.legs
  obtain ⟨members, all, m, hpass, hm, rfl⟩ := h.member_of_leg hlegs
  have hpassing := h.passing hpass
  obtain ⟨rfl, hwaits, account⟩ := (hpassing.tracked m hm).of_leg hlegs
  have hpass_iff := hp.toClear.pass_iff
  have hlines {c' : CallId} {e' : EntryId} (hne : ¬ (c' = c ∧ e' = m.entry)) :
      ∃ lines, s'.node.journal = lines ++ s.node.journal ∧
        ∀ l ∈ lines, l.what.asksFor c' e' = false ∧ l.what.verdictFor? c' e' = none :=
    ⟨[line], hjournal, by simpa using hother c' e' hne⟩
  have hopen : openPass s'.node.journal = openPass s.node.journal := by
    rw [hjournal, openPass_cons hbegan hended]
  constructor
  · exact h.line.of_clear hp.toClear
  · intro c' members' all' hp'
    have hold := h.passing ((hpass_iff c' members' all').mp hp')
    constructor
    · exact hold.nodup
    · intro m' hm'
      by_cases heq : c' = c ∧ m'.entry = m.entry
      · obtain ⟨rfl, hentry⟩ := heq
        obtain ⟨-, hwaits', -⟩ := (hold.tracked m' hm').of_leg (hentry ▸ hlegs)
        have haccount : s'.Account c' m'.entry [leg'] leg'.asks leg'.verdicts := by
          rw [hentry]
          constructor
          · exact hlegs'
          · rw [hjournal, asksFor_cons, account.asks]
            exact hasks
          · rw [hjournal, verdictsFor_cons, account.verdicts]
            exact hverdicts
        exact .pending hwaits' haccount
      · exact (hold.tracked m' hm').keep (hp.others heq) (hlines heq)
    · intro e' he'
      have hne : ¬ (c' = c ∧ e' = m.entry) := by
        rintro ⟨rfl, rfl⟩
        cases List.perm_nil.mp (hlegs.symm.trans (hold.others _ he').legs)
      exact (hold.others e' he').keep (hp.others hne) (hlines hne)
    · rw [hopen]
      exact hold.begun
    · exact hold.all
  · intro c' views hopen'
    rw [hopen] at hopen'
    obtain ⟨members', all', hp'⟩ := h.made hopen'
    exact ⟨members', all', (hpass_iff c' members' all').mpr hp'⟩
  · intro c' hno e'
    have hne : ¬ (c' = c ∧ e' = m.entry) := by
      rintro ⟨rfl, -⟩
      exact hno members all ((hpass_iff c' members all).mpr hpass)
    have hnil := h.idle (fun members' all' hp' =>
      hno members' all' ((hpass_iff c' members' all').mpr hp')) e'
    exact List.perm_nil.mp (hnil ▸ hp.others hne)
  · intro l hmem c' views hwhat
    rw [hjournal] at hmem
    rcases List.mem_cons.mp hmem with rfl | hmem
    · exact absurd hwhat (hbegan c' views)
    · rcases h.begun l hmem c' views hwhat with ⟨members', all', hp'⟩ | hdone
      · exact .inl ⟨members', all', (hpass_iff c' members' all').mpr hp'⟩
      · exact .inr (hover c' hdone)
  · rw [hjournal]
    refine ⟨h.swept, hstep ⟨_, hpassing.begun, List.mem_map_of_mem hm⟩ ?_ ?_⟩
    · exact account.asks
    · exact account.verdicts

/-- No two passes are on their way. -/
theorem only (h : Sweeping s) {c c' : CallId} {members members' : List Member} {all all' : Bool}
    (hp : s.Pass c members all) (hp' : s.Pass c' members' all') : c = c' := by
  have broom {c members all} (hp : s.Pass c members all) : s.HasBroom c := by
    cases hp with
    | resting rests => exact .inl ⟨_, _, rests⟩
    | closing run => exact .inr ⟨_, run, rfl⟩
  exact h.line.unique (broom hp) (broom hp')

/-- While a call is about to begin a pass, none is on its way. -/
theorem not_pass (h : Sweeping s) (ho : Orderly s) {c : CallId} {forced : Bool}
    (hrun : s.running = some (c, .sweeping forced)) (c' : CallId) (members : List Member)
    (all : Bool) : ¬ s.Pass c' members all := by
  intro hp
  have broom : s.HasBroom c := .inr ⟨_, hrun, rfl⟩
  cases hp with
  | resting rests =>
    cases h.line.unique broom (.inl ⟨_, _, rests⟩)
    exact ho.notMem_calls hrun _ rests
  | closing run =>
    rw [hrun] at run
    cases run

/-- Nor has this call begun one before. -/
theorem unbegun (h : Sweeping s) (ho : Orderly s) {c : CallId} {forced : Bool}
    (hrun : s.running = some (c, .sweeping forced)) :
    ∀ l ∈ s.node.journal, ∀ views, l.what ≠ .sweepBegan c views := by
  intro l hl views hwhat
  rcases h.begun l hl c views hwhat with ⟨members, all, hp⟩ | ⟨r, hr, hcall⟩ | ⟨r, hrun'⟩
  · exact h.not_pass ho hrun c members all hp
  · exact ho.notMem_replies hrun hr hcall
  · rw [hrun] at hrun'
    cases hrun'

end Sweeping

/-! ### Reports -/

theorem Node.entries_reported (members : List Member) (e : EntryId) (status : CacheStatus) :
    (reported members e status).map (·.entry) = members.map (·.entry) := by
  rw [reported, List.map_map]
  apply List.map_congr_left
  intro m _
  simp only [Function.comp_apply]
  split <;> rfl

/-- A member reports, and nothing is left to do for it. -/
theorem Passing.report {s s' : Midturn σ} {c : CallId} {members : List Member} {all : Bool}
    (h : Passing c members all s) {e : EntryId} {status : CacheStatus}
    (hlegs : (s.legs c e).Perm (.toReport status :: s'.legs c e))
    (hother : ∀ e' ≠ e, (s'.legs c e').Perm (s.legs c e'))
    (hjournal : s'.node.journal = s.node.journal) :
    Passing c (Node.reported members e status)
      ((Node.reported members e status).all (·.status.isSome)) s' := by
  have hlines (e' : EntryId) : ∃ lines, s'.node.journal = lines ++ s.node.journal ∧
      ∀ l ∈ lines, l.what.asksFor c e' = false ∧ l.what.verdictFor? c e' = none :=
    ⟨[], hjournal, by simp⟩
  constructor
  · rw [Node.entries_reported]
    exact h.nodup
  · intro m' hm'
    obtain ⟨m, hm, rfl⟩ := List.mem_map.mp hm'
    by_cases hentry : m.entry = e
    · subst hentry
      obtain ⟨hrest, -, account⟩ := (h.tracked m hm).of_leg hlegs
      have hdone : s'.Account c m.entry [] 1 [status] := by
        constructor
        · rw [hrest]
        · rw [hjournal]
          exact account.asks
        · rw [hjournal]
          exact account.verdicts
      rw [if_pos rfl]
      exact .reported rfl hdone
    · rw [if_neg hentry]
      exact (h.tracked m hm).keep (hother _ hentry) (hlines _)
  · intro e' he'
    rw [Node.entries_reported] at he'
    have hne : e' ≠ e := by
      rintro rfl
      cases List.perm_nil.mp (hlegs.symm.trans (h.others _ he').legs)
    exact (h.others e' he').keep (hother e' hne) (hlines e')
  · rw [Node.entries_reported, hjournal]
    exact h.begun
  · rfl

namespace Sweeping

variable {s s' : Midturn σ}

/-- The pass of which a member reports is the one that is left. -/
theorem report (h : Sweeping s) (hline : SweepLine s') {c : CallId} {members : List Member}
    {all : Bool} (e : EntryId) (status : CacheStatus) (hpass : s.Pass c members all)
    (hin : s'.Pass c (Node.reported members e status)
      ((Node.reported members e status).all (·.status.isSome)))
    (hthis : ∀ {c' members' all'}, s'.Pass c' members' all' → c' = c ∧
      members' = Node.reported members e status ∧
        all' = (Node.reported members e status).all (·.status.isSome))
    (hlegs : ∀ c' e', (s.legs c' e').Perm
      (((AfterRefresh.member c).leg? c' e' e (.toReport status)).toList ++ s'.legs c' e'))
    (hjournal : s'.node.journal = s.node.journal) (hover : ∀ c, s.Over c → s'.Over c) :
    Sweeping s' := by
  constructor
  · exact hline
  · intro c' members' all' hp
    obtain ⟨rfl, rfl, rfl⟩ := hthis hp
    refine (h.passing hpass).report ?_ ?_ hjournal
    · have hself := hlegs c' e
      rwa [AfterRefresh.leg?_member_self] at hself
    · intro e' hne
      have hother := hlegs c' e'
      rw [AfterRefresh.leg?_member_of_ne fun heq => hne heq.2] at hother
      exact hother.symm
  · intro c' views hopen
    rw [hjournal] at hopen
    obtain ⟨members', all', hp⟩ := h.made hopen
    cases h.only hpass hp
    exact ⟨_, _, hin⟩
  · intro c' hno e'
    have hne : c' ≠ c := by
      rintro rfl
      exact hno _ _ hin
    have hnil := h.idle (fun members' all' hp => hne (h.only hp hpass)) e'
    have hsame := hlegs c' e'
    rw [AfterRefresh.leg?_member_of_ne fun heq => hne heq.1, hnil] at hsame
    exact List.perm_nil.mp hsame.symm
  · intro l hmem c' views hwhat
    rw [hjournal] at hmem
    rcases h.begun l hmem c' views hwhat with ⟨members', all', hp⟩ | hdone
    · cases h.only hpass hp
      exact .inl ⟨_, _, hin⟩
    · exact .inr (hover c' hdone)
  · rw [hjournal]
    exact h.swept

theorem member {n : Node σ} {c sweep : CallId} {k : Option (CallId × Bool × List EntryId)}
    {e : EntryId} {status : CacheStatus} {forced : Bool} {members : List Member}
    (h : Sweeping (⟨n, some (c, .refreshed e status (.member sweep)), k⟩ : Midturn σ))
    (ho : Orderly (⟨n, some (c, .refreshed e status (.member sweep)), k⟩ : Midturn σ))
    (rests : n.stage? sweep = some (.pass forced members))
    (hmore : (Node.reported members e status).all (·.status.isSome) = false)
    (hline : SweepLine ⟨(n.unrest sweep).rest sweep (.pass forced (Node.reported members e status)),
      none, k⟩)
    (hover : ∀ c', Midturn.Over ⟨n, some (c, .refreshed e status (.member sweep)), k⟩ c' →
      Midturn.Over ⟨(n.unrest sweep).rest sweep (.pass forced (Node.reported members e status)),
        none, k⟩ c') :
    Sweeping ⟨(n.unrest sweep).rest sweep (.pass forced (Node.reported members e status)),
      none, k⟩ := by
  have hpass : Midturn.Pass ⟨n, some (c, .refreshed e status (.member sweep)), k⟩ sweep members
      false := .resting (Node.mem_of_stage? rests)
  refine h.report hline e status hpass ?_ ?_ ?_ rfl hover
  · rw [hmore]
    exact .resting (Node.mem_rest_self ..)
  · intro c' members' all' hp
    rw [hmore]
    cases hp with
    | closing run => cases run
    | resting hc' =>
      rcases Node.mem_rest.mp hc' with hc' | ⟨rfl, heq⟩
      · obtain ⟨hold, hne⟩ := Node.mem_unrest.mp hc'
        exact absurd (h.only (.resting hold) hpass) hne
      · cases heq
        exact ⟨rfl, rfl, rfl⟩
  · intro c' e'
    have hunrest := Node.legs_unrest (c := c') (e := e') rests ho.nodup_calls
    have hrest : ((n.unrest sweep).rest sweep (.pass forced (Node.reported members e status))).legs
        c' e' = (n.unrest sweep).legs c' e' := by
      rw [Node.legs_rest]
      exact List.append_nil _
    simp only [Midturn.legs, Option.bind_some, Option.bind_none, Option.toList_none,
      List.nil_append, hrest]
    exact (hunrest.append_right _).append_left _

theorem lastMember {n : Node σ} {c sweep : CallId} {k : Option (CallId × Bool × List EntryId)}
    {e : EntryId} {status : CacheStatus} {forced : Bool} {members : List Member}
    (h : Sweeping (⟨n, some (c, .refreshed e status (.member sweep)), k⟩ : Midturn σ))
    (ho : Orderly (⟨n, some (c, .refreshed e status (.member sweep)), k⟩ : Midturn σ))
    (rests : n.stage? sweep = some (.pass forced members))
    (hall : (Node.reported members e status).all (·.status.isSome) = true)
    (hline : SweepLine ⟨n.unrest sweep,
      some (sweep, .closing forced (Node.reported members e status)), k⟩)
    (hover : ∀ c', Midturn.Over ⟨n, some (c, .refreshed e status (.member sweep)), k⟩ c' →
      Midturn.Over ⟨n.unrest sweep,
        some (sweep, .closing forced (Node.reported members e status)), k⟩ c') :
    Sweeping ⟨n.unrest sweep, some (sweep, .closing forced (Node.reported members e status)), k⟩ := by
  have hpass : Midturn.Pass ⟨n, some (c, .refreshed e status (.member sweep)), k⟩ sweep members
      false := .resting (Node.mem_of_stage? rests)
  refine h.report hline e status hpass ?_ ?_ ?_ rfl hover
  · rw [hall]
    exact .closing rfl
  · intro c' members' all' hp
    rw [hall]
    cases hp with
    | closing run =>
      cases run
      exact ⟨rfl, rfl, rfl⟩
    | resting hc' =>
      obtain ⟨hold, hne⟩ := Node.mem_unrest.mp hc'
      exact absurd (h.only (.resting hold) hpass) hne
  · intro c' e'
    have hunrest := Node.legs_unrest (c := c') (e := e') rests ho.nodup_calls
    simp only [Midturn.legs, Option.bind_some]
    exact (hunrest.append_right _).append_left _

end Sweeping

/-! ### The end of a pass -/

namespace Passing

variable {s : Midturn σ} {c : CallId} {members : List Member}

/-- Once all members have reported, each has had one refresh and told its status. -/
theorem reported (h : Passing c members true s) {m : Member} (hm : m ∈ members) :
    ∃ status, m.status = some status ∧ s.Account c m.entry [] 1 [status] := by
  have hsome := List.all_eq_true.mp h.all m hm
  cases h.tracked m hm with
  | pending waits =>
    rw [waits] at hsome
    cases hsome
  | reported told account => exact ⟨_, told, account⟩

theorem mem_changedMembers (h : Passing c members true s) {m : Member} (hm : m ∈ members)
    {status : CacheStatus} (told : m.status = some status) :
    m.entry ∈ Node.changedMembers members ↔ status.isChanged = true := by
  rw [Node.changedMembers, List.mem_map]
  constructor
  · rintro ⟨m', hm', hentry⟩
    obtain ⟨hm', hchanged⟩ := List.mem_filter.mp hm'
    cases List.inj_on_of_nodup_map h.nodup hm' hm hentry
    rw [told] at hchanged
    exact hchanged
  · intro hchanged
    exact ⟨m, List.mem_filter.mpr ⟨hm, by rw [told]; exact hchanged⟩, rfl⟩

/-- Then nothing is left to do for anyone. -/
theorem legs_eq_nil (h : Passing c members true s) (e : EntryId) : s.legs c e = [] := by
  by_cases he : e ∈ members.map (·.entry)
  · obtain ⟨m, hm, rfl⟩ := List.mem_map.mp he
    obtain ⟨status, -, account⟩ := h.reported hm
    exact List.perm_nil.mp account.legs
  · exact List.perm_nil.mp (h.others e he).legs

/-- Then the pass may end. -/
theorem sweepStep (h : Passing c members true s) {lines : List JournalLine}
    (hl : ∀ l ∈ lines, l.what.sweep? = none) :
    SweepStep (lines ++ s.node.journal) (.sweepEnded c (Node.changedMembers members)) := by
  refine ⟨members.map (·.entry), ?_, ?_, ?_⟩
  · rw [openPass_append hl]
    exact h.begun
  · intro e he
    obtain ⟨m, hm, rfl⟩ := List.mem_map.mp he
    obtain ⟨status, told, account⟩ := h.reported hm
    rw [asksFor_append hl, verdictsFor_append hl]
    exact ⟨account.asks, status, account.verdicts, h.mem_changedMembers hm told⟩
  · intro e he
    rw [asksFor_append hl, verdictsFor_append hl]
    refine ⟨(h.others e he).asks, (h.others e he).verdicts, ?_⟩
    intro hchanged
    obtain ⟨m, hm, rfl⟩ := List.mem_map.mp hchanged
    exact he (List.mem_map_of_mem (List.mem_of_mem_filter hm))

end Passing

theorem Sweeping.close {n : Node σ} {c : CallId} {forced : Bool} {members : List Member}
    {k : Option (CallId × Bool × List EntryId)} {r : Reply}
    (h : Sweeping (⟨n, some (c, .closing forced members), k⟩ : Midturn σ))
    (ho : Orderly (⟨n, some (c, .closing forced members), k⟩ : Midturn σ))
    (hline : SweepLine ⟨n.closed c members, some (c, .replying r), k⟩)
    (hover : ∀ c', Midturn.Over ⟨n, some (c, .closing forced members), k⟩ c' →
      Midturn.Over ⟨n.closed c members, some (c, .replying r), k⟩ c') :
    Sweeping ⟨n.closed c members, some (c, .replying r), k⟩ := by
  have hpass : Midturn.Pass ⟨n, some (c, .closing forced members), k⟩ c members true := .closing rfl
  have hpassing := h.passing hpass
  have hpublish := n.unswept_publish c (Node.changedMembers members)
  have hcalls : (n.closed c members).calls = n.calls := hpublish.calls
  obtain ⟨lines, hj, hl⟩ := hpublish.journal
  replace hj : (n.closed c members).journal =
      ⟨(n.publish c (Node.changedMembers members)).time,
        .sweepEnded c (Node.changedMembers members)⟩ :: (lines ++ n.journal) :=
    congrArg (List.cons _) hj
  have hlegs (c' e') : Midturn.legs ⟨n.closed c members, some (c, .replying r), k⟩ c' e' =
      Midturn.legs ⟨n, some (c, .closing forced members), k⟩ c' e' := by
    simp only [Midturn.legs, Option.bind_some, Node.legs_congr hcalls]
    rfl
  have hno (c' members' all') :
      ¬ Midturn.Pass ⟨n.closed c members, some (c, .replying r), k⟩ c' members' all' := by
    intro hp
    cases hp with
    | closing run => cases run
    | resting rests =>
      have hold : (c', .pass _ members') ∈ n.calls := hcalls ▸ rests
      cases h.only (.resting hold) hpass
      exact ho.notMem_calls rfl _ hold
  constructor
  · exact hline
  · intro c' members' all' hp
    exact absurd hp (hno c' members' all')
  · intro c' views hopen
    replace hopen : openPass (n.closed c members).journal = some (c', views) := hopen
    rw [hj] at hopen
    cases hopen
  · intro c' _ e
    rw [hlegs]
    by_cases hc : c' = c
    · subst hc
      exact hpassing.legs_eq_nil e
    · exact h.idle (fun members' all' hp => hc (h.only hp hpass)) e
  · intro l hmem c' views hwhat
    replace hmem : l ∈ (n.closed c members).journal := hmem
    rw [hj] at hmem
    rcases List.mem_cons.mp hmem with rfl | hmem
    · cases hwhat
    · rcases List.mem_append.mp hmem with hmem | hmem
      · cases (hwhat ▸ hl l hmem : (Happening.sweepBegan c' views).sweep? = none)
      · rcases h.begun l hmem c' views hwhat with ⟨members', all', hp⟩ | hdone
        · cases h.only hp hpass
          exact .inr (.inr ⟨r, rfl⟩)
        · exact .inr (hover c' hdone)
  · show Swept (n.closed c members).journal
    rw [hj]
    exact ⟨h.swept.append hl, hpassing.sweepStep hl⟩

/-! ### The beginning of a pass -/

theorem enlistedLegs_of_nodup {c c' : CallId} {forced : Bool} {views : List EntryId}
    (hn : views.Nodup) (e : EntryId) :
    enlistedLegs c' e (some (c, forced, views)) = if c' = c ∧ e ∈ views then [.toAsk] else [] := by
  induction views with
  | nil => simp [enlistedLegs]
  | cons v views ih =>
    obtain ⟨hv, hn⟩ := List.nodup_cons.mp hn
    have htail := ih hn
    simp only [enlistedLegs] at htail ⊢
    rw [List.filterMap_cons]
    by_cases hself : c' = c ∧ e = v
    · obtain ⟨rfl, rfl⟩ := hself
      rw [AfterRefresh.leg?_member_self, htail, if_neg fun heq => hv heq.2]
      simp
    · rw [AfterRefresh.leg?_member_of_ne hself, htail]
      by_cases hc : c' = c
      · have hne : e ≠ v := fun heq => hself ⟨hc, heq⟩
        simp [hc, hne]
      · simp [hc]

namespace Sweeping

variable {s s' : Midturn σ}

/-- A pass begins, with a refresh to be made for each view that is initialized. -/
theorem begin (h : Sweeping s) (hr : Regular s) {c : CallId} {forced : Bool}
    (members : List Member) (hrun : s.running = some (c, .sweeping forced)) (hline : SweepLine s')
    (hmembers : members = s.node.directory.initialized.map ({ entry := · }))
    (hin : s'.Pass c members (members.all (·.status.isSome)))
    (hthis : ∀ {c' members' all'}, s'.Pass c' members' all' → s.Pass c' members' all' ∨
      c' = c ∧ members' = members ∧ all' = members.all (·.status.isSome))
    (hlegs : ∀ c' e, s'.legs c' e =
      s.legs c' e ++ enlistedLegs c' e (some (c, forced, s.node.directory.initialized)))
    (hjournal : s'.node.journal =
      ⟨s.node.time, .sweepBegan c s.node.directory.initialized⟩ :: s.node.journal)
    (hover : ∀ c, s.Over c → s'.Over c) : Sweeping s' := by
  have ho := hr.sound.orderly
  have hno := h.not_pass ho hrun
  have hunbegun := h.unbegun ho hrun
  have hnodup : s.node.directory.initialized.Nodup := hr.filed.nodup_views.filter _
  -- nobody makes a pass, so nothing was told of this one and nothing is left to do for it
  have hentries : members.map (·.entry) = s.node.directory.initialized := by
    rw [hmembers, List.map_map]
    exact List.map_id _
  have hstart (e : EntryId) (legs : List Leg) (hl : s'.legs c e = legs) :
      s'.Account c e legs 0 [] := by
    obtain ⟨hasks, hverdicts⟩ := h.swept.of_unbegun (e := e) hunbegun
    constructor
    · rw [hl]
    · rw [hjournal, asksFor_cons, hasks]
      rfl
    · rw [hjournal, verdictsFor_cons, hverdicts]
      rfl
  have hlegs' (c' : CallId) (e : EntryId) : s'.legs c' e =
      if c' = c ∧ e ∈ s.node.directory.initialized then [.toAsk] else [] := by
    rw [hlegs, h.idle (hno c'), enlistedLegs_of_nodup hnodup, List.nil_append]
  constructor
  · exact hline
  · intro c' members' all' hp
    obtain ⟨rfl, rfl, rfl⟩ := (hthis hp).resolve_left (hno c' members' all')
    constructor
    · rw [hentries]
      exact hnodup
    · intro m hm
      have hentry : m.entry ∈ s.node.directory.initialized := hentries ▸ List.mem_map_of_mem hm
      have hwaits : m.status = none := by
        rw [hmembers] at hm
        obtain ⟨e, -, rfl⟩ := List.mem_map.mp hm
        rfl
      have haccount := hstart m.entry [.toAsk] ((hlegs' c' m.entry).trans (if_pos ⟨rfl, hentry⟩))
      exact .pending hwaits haccount
    · intro e he
      rw [hentries] at he
      exact hstart e [] ((hlegs' c' e).trans (if_neg fun heq => he heq.2))
    · rw [hjournal, hentries]
      rfl
    · rfl
  · intro c' views hopen
    rw [hjournal] at hopen
    cases hopen
    exact ⟨_, _, hin⟩
  · intro c' hno' e
    have hne : c' ≠ c := by
      rintro rfl
      exact hno' _ _ hin
    exact (hlegs' c' e).trans (if_neg fun heq => hne heq.1)
  · intro l hmem c' views hwhat
    rw [hjournal] at hmem
    rcases List.mem_cons.mp hmem with rfl | hmem
    · cases hwhat
      exact .inl ⟨_, _, hin⟩
    · rcases h.begun l hmem c' views hwhat with ⟨members', all', hp⟩ | hdone
      · exact absurd hp (hno c' members' all')
      · exact .inr (hover c' hdone)
  · rw [hjournal]
    refine ⟨h.swept, ?_, hunbegun, hnodup, ?_⟩
    · cases hopen : openPass s.node.journal with
      | none => rfl
      | some x =>
        obtain ⟨members', all', hp⟩ := h.made hopen
        exact absurd hp (hno _ members' all')
    · intro e
      refine hr.mem_initialized ?_ e
      intro c' p hrun'
      rw [hrun] at hrun'
      cases hrun'
      rfl

/-! ### Every move -/

theorem stroke [Registry σ] (h : Sweeping s) (hr : Regular s) (t : Stroke s s')
    (hover : ∀ c, s.Over c → s'.Over c) : Sweeping s' := by
  have ho := hr.sound.orderly
  have hline := h.line.stroke ho t
  cases t with
  | aloof ha => exact h.of_same hline ha.toClear.pass_iff ha.legs ha.journal hover
  | @ask s s' c c' e hp hjournal =>
    refine h.pace hp hjournal ?_ ?_ rfl nofun nofun ?_ hover
    · intro x v hne
      exact ⟨decide_eq_false fun heq => hne ⟨heq.2.symm, heq.1.symm⟩, rfl⟩
    · show (decide (e = e ∧ c = c)).toNat + 0 = 1
      simp
    · intro hopen hasks hverdicts
      exact ⟨hopen, hasks, hverdicts⟩
  | @hear s s' c c' e o status guarded hp hjournal =>
    refine h.pace hp hjournal ?_ rfl ?_ nofun nofun ?_ hover
    · intro x v hne
      exact ⟨rfl, if_neg fun heq => hne ⟨heq.2.symm, heq.1.symm⟩⟩
    · show (if e = e ∧ c = c then some status else none).toList ++ [] = [status]
      simp
    · intro hopen hasks hverdicts
      exact ⟨hopen, hasks, hverdicts⟩
  | take hfree =>
    refine h.of_same hline ?_ (fun _ _ => .refl _) ⟨[], rfl, by simp⟩ hover
    intro c' members all
    constructor
    · rintro (rests | run)
      · exact .resting rests
      · cases run
    · rintro (rests | run)
      · exact .resting rests
      · cases run
  | @queue n c k op hbusy =>
    refine h.of_same hline ?_ ?_ ⟨[], rfl, by simp⟩ hover
    · intro c' members all
      constructor
      · rintro (rests | run)
        · rcases Node.mem_rest.mp rests with rests | ⟨-, hst⟩
          · exact .resting rests
          · cases hst
        · cases run
      · rintro (rests | run)
        · exact .resting (Node.mem_rest.mpr (.inl rests))
        · cases run
    · intro c' e
      refine List.Perm.of_eq ?_
      simp only [Midturn.legs, Node.legs_rest, Stage.leg?, Point.leg?, Option.bind_some,
        Option.bind_none, Option.toList_none, List.append_nil]
      rfl
  | @wake n c rests hfirst =>
    refine h.of_same hline ?_ ?_ ⟨[], rfl, by simp⟩ hover
    · intro c' members all
      constructor
      · rintro (hc' | run)
        · exact .resting (Node.mem_unrest.mp hc').1
        · cases run
      · rintro (hc' | run)
        · refine .resting (Node.mem_unrest.mpr ⟨hc', ?_⟩)
          rintro rfl
          cases ho.stage_unique hc' (Node.mem_of_stage? rests)
        · cases run
    · intro c' e
      have hunrest := Node.legs_unrest (c := c') (e := e) rests ho.nodup_calls
      simpa [Midturn.legs, enlistedLegs, Stage.leg?, Point.leg?] using hunrest.symm
  | close n c k forced members => exact h.close ho hline hover
  | @beginNone n c k forced hnone =>
    refine h.begin hr [] rfl hline ?_ (.closing rfl) ?_ ?_ ?_ hover
    · show [] = n.directory.initialized.map _
      rw [hnone]
      rfl
    · rintro c' members' all' (rests | run)
      · exact .inl (.resting rests)
      · cases run
        exact .inr ⟨rfl, rfl, rfl⟩
    · intro c' e
      show _ = _ ++ enlistedLegs c' e (some (c, forced, n.directory.initialized))
      rw [hnone]
      exact (List.append_nil _).symm
    · show _ = ⟨n.time, .sweepBegan c n.directory.initialized⟩ :: n.journal
      rw [hnone]
      rfl
  | @beginSome n c forced hsome =>
    have hall : (n.directory.initialized.map fun e => ({ entry := e } : Member)).all
        (·.status.isSome) = false := by
      cases hviews : n.directory.initialized with
      | nil => exact absurd hviews hsome
      | cons e views => rfl
    refine h.begin hr _ rfl hline rfl ?_ ?_ ?_ rfl hover
    · rw [hall]
      exact .resting (Node.mem_rest_self ..)
    · rintro c' members' all' (rests | run)
      · rcases Node.mem_rest.mp rests with rests | ⟨rfl, heq⟩
        · exact .inl (.resting rests)
        · cases heq
          exact .inr ⟨rfl, rfl, hall.symm⟩
      · cases run
    · intro c' e
      have hrest : ((n.note (.sweepBegan c n.directory.initialized)).rest c
          (.pass forced (n.directory.initialized.map ({ entry := · })))).legs c' e =
            n.legs c' e := by
        rw [Node.legs_rest]
        exact List.append_nil _
      simp only [Midturn.legs, hrest, Option.bind_some, Option.bind_none, Point.leg?,
        Option.toList_none, List.nil_append]
      simp [enlistedLegs]
  | member rests hmore => exact h.member ho rests hmore hline hover
  | lastMember rests hall => exact h.lastMember ho rests hall hline hover
  | @stray n c k e status sweep hno =>
    -- whoever reports is a member of a pass that rests
    obtain ⟨members, all, m, hp, -⟩ := h.member_of_leg (Midturn.legs_of_refreshed rfl)
    cases hp with
    | resting rests => exact absurd (ho.stage?_eq rests) (hno _ members)
    | closing run => cases run

/-- **Every move leaves all sweeps in order.** -/
theorem move [Registry σ] (h : Sweeping s) (hr : Regular s) (m : Move s s') : Sweeping s' :=
  h.stroke hr (m.stroke hr.sound.orderly) fun _ hover => hover.move m

theorem pass {n : Node σ} (time : Nat) (h : Sweeping (⟨n, none, none⟩ : Midturn σ)) :
    Sweeping (⟨{ n with time }, none, none⟩ : Midturn σ) := by
  have hclear : Clear (⟨n, none, none⟩ : Midturn σ) ⟨{ n with time }, none, none⟩ :=
    ⟨rfl, fun _ => .rfl, nofun, nofun⟩
  exact h.of_same (h.line.of_clear hclear) hclear.pass_iff (fun _ _ => .refl _) ⟨[], rfl, by simp⟩
    fun _ hover => hover

theorem of_untouched {n : Node σ} (untouched : n.Untouched) :
    Sweeping (⟨n, none, none⟩ : Midturn σ) where
  line := by
    constructor
    · simp [untouched.sweepers]
    · simp [untouched.sweepers, untouched.calls, Midturn.Sweeps]
    · simp [untouched.calls, Midturn.HasBroom]
  passing := by
    rintro c members all (rests | run)
    · simp [untouched.calls] at rests
    · cases run
  made hopen := by
    rw [untouched.journal] at hopen
    cases hopen
  idle _ e := by simp [Midturn.legs, Node.legs, untouched.calls, enlistedLegs]
  begun l hl := by simp [untouched.journal] at hl
  swept := by
    rw [untouched.journal]
    trivial

end Sweeping

theorem Regular.of_untouched {n : Node σ} (untouched : n.Untouched)
    (empty : n.directory.entries = []) : Regular (⟨n, none, none⟩ : Midturn σ) :=
  (Steady.of_untouched untouched empty).regular

/-- On every course of a node all sweeps are in order. -/
theorem Node.Course.sweeping [Registry σ] {start n : Node σ} (untouched : start.Untouched)
    (empty : start.directory.entries = []) (course : start.Course n) :
    Regular (⟨n, none, none⟩ : Midturn σ) ∧ Sweeping (⟨n, none, none⟩ : Midturn σ) := by
  refine course.keeps (I := fun s => Regular s ∧ Sweeping s) ?_ ?_
    ⟨.of_untouched untouched empty, .of_untouched untouched⟩
  · intro s s' ⟨hr, h⟩ m
    exact ⟨hr.move m, h.move hr m⟩
  · intro n time hle ⟨hr, h⟩
    exact ⟨hr.pass hle, h.pass time⟩

end ServiceFinder
