/-
  ServiceFinder/Proofs/Node/Phases.lean
  =====================================
  **The phases of a sweep that runs alone.**

  A sweep goes through three phases (`Midturn.Phase`): with the sweep lock in hand, with its
  members on their way, and over.  At its end it drops those views whose service its refreshes
  have found gone (`Node.cached_publish`), and by then the slowest lookup has ended.  Between two
  turns every member that has not reported waits for the registry, so if time only passes when
  nobody can take a turn, it never gets past that moment (`Midturn.UnderWay.nextDue_le`).
-/
import ServiceFinder.Proofs.Node.Sweeps
import ServiceFinder.Proofs.Node.Unison

namespace ServiceFinder

variable {σ : Type}

/-! ### How long a sweep takes -/

namespace Node

variable [Registry σ]

/-- How long the slowest of the lookups takes that a sweep would make now. -/
def longestWait (n : Node σ) : Nat := (n.directory.initialized.map n.waitFor).max?.getD 0

section Waits

variable {n : Node σ} {e : EntryId} {ms : Nat}

theorem waitFor_le_longestWait (he : e ∈ n.directory.initialized) :
    n.waitFor e ≤ n.longestWait := by
  have hin : n.waitFor e ∈ n.directory.initialized.map n.waitFor := List.mem_map_of_mem he
  unfold longestWait
  cases hmax : (n.directory.initialized.map n.waitFor).max? with
  | none =>
    rw [List.max?_eq_none_iff.mp hmax] at hin
    cases hin
  | some longest => exact (List.max?_eq_some_iff.mp hmax).2 _ hin

theorem longestWait_le (h : ∀ e ∈ n.directory.initialized, n.waitFor e ≤ ms) :
    n.longestWait ≤ ms := by
  unfold longestWait
  cases hmax : (n.directory.initialized.map n.waitFor).max? with
  | none => exact Nat.zero_le ms
  | some longest =>
    obtain ⟨e, he, rfl⟩ := List.mem_map.mp (List.max?_eq_some_iff.mp hmax).1
    exact h e he

end Waits

end Node

/-! ### Evictions at the end of a sweep -/

section Evictions

variable {n : Node σ}

/-- No other view has the key of the one that is dropped. -/
theorem Node.cached_evict (h : Filed n) (e : EntryId) :
    (n.evict e).directory.cached = n.directory.cached.filter fun x => x.2 != e := by
  have hfind {x : ServiceKey × EntryId} (hx : x ∈ n.directory.cached) :
      n.directory.find? x.1 = some x.2 := h.find?_eq_some_iff.mpr (h.made hx)
  unfold evict
  split
  · rename_i hholds
    have hheld : n.directory.find? (n.entry e).key = some e := beq_iff_eq.mp hholds
    apply List.filter_congr
    intro x hx
    have hsame : x.1 = (n.entry e).key ↔ x.2 = e := by
      constructor
      · intro hkey
        have hx' := hfind hx
        rw [hkey, hheld] at hx'
        exact (Option.some.inj hx').symm
      · rintro rfl
        exact (h.made hx).2.1.symm
    exact Bool.eq_iff_iff.mpr (bne_iff_ne.trans (hsame.not.trans bne_iff_ne.symm))
  · rename_i hholds
    refine (List.filter_eq_self.mpr ?_).symm
    intro x hx
    apply bne_iff_ne.mpr
    rintro rfl
    have hheld := hfind hx
    rw [← (h.made hx).2.1] at hheld
    exact hholds (beq_iff_eq.mpr hheld)

theorem Node.cached_evictIfGone (h : Filed n) (e : EntryId) :
    (n.evictIfGone e).directory.cached = n.directory.cached.filter fun x =>
      !decide (x.2 = e ∧ (n.entry x.2).status = .serviceNotFound) := by
  unfold evictIfGone
  split
  · rename_i hgone
    rw [n.cached_evict h]
    apply List.filter_congr
    intro x _
    by_cases hxe : x.2 = e
    · simp [hxe, hgone]
    · simp [hxe]
  · rename_i hstays
    refine (List.filter_eq_self.mpr ?_).symm
    intro x _
    by_cases hxe : x.2 = e
    · simp [hxe, hstays]
    · simp [hxe]

/-- **The changed views whose service is gone are dropped, and no others.** -/
theorem Node.cached_publish (h : Filed n) (c : CallId) (changed : List EntryId) :
    (n.publish c changed).directory.cached = n.directory.cached.filter fun x =>
      !decide (x.2 ∈ changed ∧ (n.entry x.2).status = .serviceNotFound) := by
  rw [publish, directory_notify]
  induction changed generalizing n with
  | nil => simp
  | cons e rest ih =>
    have hstill := n.still_evictIfGone e
    rw [List.foldl_cons, ih (h.evictIfGone e), n.cached_evictIfGone h, List.filter_filter]
    apply List.filter_congr
    intro x _
    have hiff : x.2 ∈ e :: rest ∧ (n.entry x.2).status = .serviceNotFound ↔
        x.2 ∈ rest ∧ (n.entry x.2).status = .serviceNotFound ∨
          x.2 = e ∧ (n.entry x.2).status = .serviceNotFound := by
      rw [List.mem_cons, or_and_right, or_comm]
    rw [hstill.entry, ← Bool.not_or, ← Bool.decide_or, decide_eq_decide.mpr hiff]

end Evictions

/-! ### The phases of a sweep -/

section Phases

variable [Registry σ]

/-- The sweep `c` has the sweep lock, and is about to begin its pass at `n`. -/
structure Midturn.Outset (n : Node σ) (c : CallId) (forced : Bool) (s : Midturn σ) : Prop where
  run : s.running = some (c, .sweeping forced)
  enlisting : s.enlisting = none
  entries : s.node.directory.entries = n.directory.entries
  cached : s.node.directory.cached = n.directory.cached
  options : s.node.directory.options = n.directory.options
  registry : s.node.registry = n.registry
  time : s.node.time = n.time
  calls : ∀ {x st}, (x, st) ∈ s.node.calls → st.isDormant = true

/-- The sweep `c`, which began at `n`, may answer at this time; and if it was `prompt`, no
    later. -/
def Node.EndsAt (n : Node σ) (prompt : Prop) (time : Nat) : Prop :=
  n.time + n.longestWait ≤ time ∧ (prompt → time ≤ n.time + n.longestWait)

/-- The sweep `c`, which began at `n`, is over. -/
structure Midturn.Dismissed (n : Node σ) (c : CallId) (forced : Bool) (prompt : Prop)
    (s : Midturn σ) : Prop where
  views : ∀ e, s.node.entry e =
    if e ∈ n.directory.initialized then (n.renewed forced e).1 else n.entry e
  cached : s.node.directory.cached = n.directory.cached.filter fun x =>
    !decide (x.2 ∈ n.directory.initialized ∧ (n.renewed forced x.2).2 = .serviceNotFound)
  answer : s.running = some (c, .replying (.ofSweep forced)) ∧ n.EndsAt prompt s.node.time ∨
    ∃ r ∈ s.node.replies, r.call = c ∧ r.reply = .ofSweep forced ∧ n.EndsAt prompt r.time

/-- Where the sweep `c` has come that began at `n`. -/
inductive Midturn.Phase (n : Node σ) (c : CallId) (forced : Bool) (prompt : Prop)
    (s : Midturn σ) : Prop where
  | outset (h : s.Outset n c forced)
  | underWay (h : s.UnderWay n c forced) (now : prompt → s.node.time ≤ n.time + n.longestWait)
  | dismissed (h : s.Dismissed n c forced prompt)

variable {n : Node σ} {s s' : Midturn σ} {c : CallId} {forced : Bool} {prompt : Prop}

/-- When the pass begins, nobody has been asked for. -/
theorem Midturn.Outset.abreast (h : s.Outset n c forced) (ha : Audited s)
    (free : ∀ e, (n.entry e).writers = []) (views : List EntryId) :
    n.Abreast c forced (s.node.note (.sweepBegan c views)) := by
  have hentry (e : EntryId) : (s.node.entry e).unlined = n.entry e := by
    rw [Node.entry, Directory.entry, h.entries]
    exact Entry.unlined_of_free (free e)
  have hunbegun := ha.sweeping.unbegun ha.orderly h.run
  refine ⟨Nat.le_of_eq h.time.symm, h.cached, h.options, ?_, fun {e} _ => hentry e⟩
  intro e _
  obtain ⟨hasks, hverdicts⟩ := ha.sweeping.swept.of_unbegun (e := e) hunbegun
  have hasks' : asksFor c e (s.node.note (.sweepBegan c views)).journal = 0 :=
    (asksFor_cons_of_apart rfl).trans hasks
  have hverdicts' : verdictsFor c e (s.node.note (.sweepBegan c views)).journal = [] :=
    (verdictsFor_cons_of_apart rfl).trans hverdicts
  rw [hasks', hverdicts']
  refine .unasked h.time ?_ (.inl (hentry e))
  show (Registry.lookup _ s.node.registry).1 = _
  rw [h.registry]

theorem Stage.KeepsUp.of_dormant {st : Stage σ} (h : st.isDormant = true) :
    st.KeepsUp n forced := by
  cases st with
  | scheduled | sleeping | pulling => trivial
  | _ => cases h

/-- The pass begins. -/
theorem Midturn.Outset.move (h : s.Outset n c forced) (ha : Audited s)
    (free : ∀ e, (n.entry e).writers = []) (m : Move s s') : s'.UnderWay n c forced := by
  have hinitialized : s.node.directory.initialized = n.directory.initialized := by
    simp only [Directory.initialized, Directory.views, Directory.entry, h.cached, h.entries]
  have hcalls {x : CallId} {st : Stage σ} (hc : (x, st) ∈ s.node.calls) : st.KeepsUp n forced :=
    .of_dormant (h.calls hc)
  have habreast := h.abreast ha free
  obtain ⟨k, r, enlisting⟩ := s
  obtain ⟨rfl, rfl, -⟩ := h
  cases m with
  | quiet q =>
    cases q with
    | turn hturn => cases hturn
    | sweepNone hnone =>
      refine ⟨⟨[], true, .closing rfl, ?_⟩, habreast [], hcalls, ?_, ?_⟩
      · exact hnone.symm.trans hinitialized
      · rintro x p ⟨⟩
        rfl
      · intro x f views hmore
        cases hmore
  | sweepSome hsome =>
    refine .of_idle ⟨_, false, .resting (Node.mem_rest_self ..), ?_⟩
      ((habreast _).same rfl rfl rfl rfl) ?_ ?_
    · rw [List.map_map]
      exact (List.map_id _).trans hinitialized
    · intro x st hc
      rcases Node.mem_rest.mp hc with hc | ⟨-, rfl⟩
      · exact hcalls hc
      · rfl
    · rintro x f views ⟨⟩
      rfl

/-- What a member has come to that has reported. -/
theorem Midturn.UnderWay.of_reported (h : s.UnderWay n c forced) {e : EntryId}
    (he : e ∈ n.directory.initialized) {status : CacheStatus}
    (account : s.Account c e [] 1 [status]) :
    status = (n.renewed forced e).2 ∧ n.time + n.waitFor e ≤ s.node.time ∧
      (s.node.entry e).unlined = (n.renewed forced e).1 := by
  have hkeeps := h.views.members he
  rw [account.asks, account.verdicts] at hkeeps
  cases hkeeps with
  | ended late view => exact ⟨rfl, late, view⟩

section Closing

variable {k : Node σ} {enlisting : Option (CallId × Bool × List EntryId)} {members : List Member}

/-- The members of a pass that is at its end are the views that it is about, and each has come to
    its end. -/
theorem Midturn.UnderWay.of_closing
    (h : UnderWay n c forced ⟨k, some (c, .closing forced members), enlisting⟩)
    (ha : Audited (⟨k, some (c, .closing forced members), enlisting⟩ : Midturn σ)) :
    members.map (·.entry) = n.directory.initialized ∧ ∀ e ∈ n.directory.initialized,
      (e ∈ Node.changedMembers members ↔ (n.renewed forced e).2.isChanged = true) ∧
        n.time + n.waitFor e ≤ k.time ∧ (k.entry e).unlined = (n.renewed forced e).1 := by
  have hentries : members.map (·.entry) = n.directory.initialized := by
    obtain ⟨members', all, hpass, hentries⟩ := h.pass
    cases hpass with
    | resting rests => exact absurd rests (ha.orderly.notMem_calls rfl _)
    | closing run => cases run; exact hentries
  refine ⟨hentries, ?_⟩
  intro e he
  have hpassing := ha.sweeping.passing (.closing rfl)
  rw [← hentries] at he
  obtain ⟨m, hm, rfl⟩ := List.mem_map.mp he
  obtain ⟨status, told, account⟩ := hpassing.reported hm
  obtain ⟨rfl, hended⟩ := h.of_reported (hentries ▸ he) account
  exact ⟨hpassing.mem_changedMembers hm told, hended⟩

/-- Nobody stands in line any more, and the views are what the refreshes have made of them. -/
theorem Midturn.UnderWay.entry_of_closing
    (h : UnderWay n c forced ⟨k, some (c, .closing forced members), enlisting⟩)
    (ha : Audited (⟨k, some (c, .closing forced members), enlisting⟩ : Midturn σ))
    (alone : Alone c (⟨k, some (c, .closing forced members), enlisting⟩ : Midturn σ))
    (e : EntryId) : k.entry e =
      if e ∈ n.directory.initialized then (n.renewed forced e).1 else n.entry e := by
  have hlegs := (List.append_eq_nil_iff.mp
    ((ha.sweeping.passing (.closing rfl)).legs_eq_nil e)).2
  have hfree : (k.entry e).writers = [] :=
    alone.free ha.regular.sound.inLine (fun hc => absurd hc (ha.orderly.notMem_calls rfl _)) rfl
      (List.append_eq_nil_iff.mp hlegs).1
  rw [← Entry.unlined_of_free hfree]
  split
  · rename_i he
    exact ((h.of_closing ha).2 e he).2.2
  · rename_i he
    exact h.views.others he

/-- **All members have reported, and the sweep ends.** -/
theorem Midturn.UnderWay.close
    (h : UnderWay n c forced ⟨k, some (c, .closing forced members), enlisting⟩)
    (ha : Audited (⟨k, some (c, .closing forced members), enlisting⟩ : Midturn σ))
    (alone : Alone c (⟨k, some (c, .closing forced members), enlisting⟩ : Midturn σ))
    (now : prompt → k.time ≤ n.time + n.longestWait) :
    Dismissed n c forced prompt
      ⟨k.closed c members, some (c, .replying (.ofSweep forced)), enlisting⟩ := by
  obtain ⟨hentries, hmember⟩ := h.of_closing ha
  have hviews := h.entry_of_closing ha alone
  have hstill := (Quiet.close (c := c) k forced members).still
  refine ⟨fun e => (hstill.entry e).trans (hviews e), ?_, .inl ⟨rfl, ?_, ?_⟩⟩
  · show (k.publish c (Node.changedMembers members)).directory.cached = _
    rw [k.cached_publish ha.regular.filed, h.views.cached]
    apply List.filter_congr
    intro x _
    have hiff : x.2 ∈ Node.changedMembers members ∧ (k.entry x.2).status = .serviceNotFound ↔
        x.2 ∈ n.directory.initialized ∧ (n.renewed forced x.2).2 = .serviceNotFound := by
      constructor
      · rintro ⟨hchanged, hgone⟩
        obtain ⟨m, hm, hx⟩ := List.mem_map.mp hchanged
        have he : x.2 ∈ n.directory.initialized :=
          hentries ▸ hx ▸ List.mem_map_of_mem (List.mem_of_mem_filter hm)
        rw [hviews, if_pos he] at hgone
        exact ⟨he, hgone⟩
      · rintro ⟨he, hgone⟩
        refine ⟨(hmember _ he).1.mpr (by rw [hgone]; rfl), ?_⟩
        rw [hviews, if_pos he]
        exact hgone
    rw [decide_eq_decide.mpr hiff]
  · have hsince : n.time ≤ k.time := h.views.since
    have hwaits : n.longestWait ≤ k.time - n.time :=
      Node.longestWait_le fun e he => Nat.le_sub_of_add_le' (hmember e he).2.1
    rw [hstill.time]
    omega
  · rw [hstill.time]
    exact now

end Closing

/-- Once the sweep is over, nothing happens to the views any more. -/
theorem Midturn.Dismissed.move (h : s.Dismissed n c forced prompt) (ha : Audited s)
    (alone : s.Alone c) (m : Move s s') : s'.Dismissed n c forced prompt := by
  have hover : s.Over c := by
    rcases h.answer with ⟨hrun, -⟩ | ⟨r, hr, hcall, -⟩
    · exact .inr ⟨_, hrun⟩
    · exact .inl ⟨r, hr, hcall⟩
  obtain ⟨hdirectory, -⟩ := alone.still_of_over hover ha.orderly ha.sweeping m
  refine ⟨?_, ?_, .inr ?_⟩
  · intro e
    rw [Node.entry, hdirectory]
    exact h.views e
  · rw [hdirectory]
    exact h.cached
  · rcases h.answer with ⟨hrun, hends⟩ | ⟨r, hr, hanswer⟩
    · rcases s with ⟨k, run, enlisting⟩
      cases hrun
      rw [m.of_replying]
      exact ⟨_, List.mem_cons_self, rfl, rfl, hends⟩
    · exact ⟨r, m.replies_subset hr, hanswer⟩

/-- **Every move beside no others takes the sweep on its way.** -/
theorem Midturn.Phase.move (h : s.Phase n c forced prompt) (hn : Filed n)
    (apart : Registry.AnswersByKey σ) (free : ∀ e, (n.entry e).writers = []) (ha : Audited s)
    (alone : s.Alone c) (m : Move s s') (hstarts : ∀ x op, s'.running ≠ some (x, .starting op)) :
    s'.Phase n c forced prompt := by
  have htime := m.time ha.orderly
  cases h with
  | outset h =>
    refine .underWay (h.move ha free m) fun _ => ?_
    rw [htime, h.time]
    exact Nat.le_add_right ..
  | underWay h now =>
    obtain ⟨members, all, hpass, -⟩ := h.pass
    cases hpass with
    | resting rests =>
      exact .underWay (h.move_of_resting hn apart ha alone rests m hstarts) (htime ▸ now)
    | closing run =>
      obtain rfl : _ = forced := h.running run
      rcases s with ⟨k, r, enlisting⟩
      cases run
      cases m with
      | quiet q =>
        cases q with
        | turn hturn => cases hturn
        | close => exact .dismissed (h.close ha alone now)
  | dismissed h => exact .dismissed (h.move ha alone m)

/-! ### Between two turns -/

/-- Between two turns, whoever has something left to do for a member waits for the registry. -/
theorem Midturn.UnderWay.fetching {k : Node σ}
    (h : UnderWay n c forced (⟨k, none, none⟩ : Midturn σ)) {e : EntryId} {leg : Leg}
    (hlegs : (Midturn.legs ⟨k, none, none⟩ c e).Perm [leg]) :
    leg = .toEnd ∧ ∃ x o, (x, .fetching e (n.time + n.waitFor e) o (.member c)) ∈ k.calls := by
  have hleg : leg ∈ k.legs c e := by
    have hmem := hlegs.symm.subset List.mem_cons_self
    simpa [Midturn.legs, enlistedLegs] using hmem
  obtain ⟨⟨x, st⟩, hc, hst⟩ := List.mem_filterMap.mp hleg
  have hkeeps := h.calls hc
  rcases Stage.of_leg?_eq_some hst with rfl | ⟨due, o, rfl⟩
  · cases hkeeps
  · obtain ⟨rfl, -⟩ := hkeeps
    exact ⟨(Option.some.inj ((AfterRefresh.leg?_member_self).symm.trans hst)).symm, x, o, hc⟩

/-- Between two turns the registry has been asked for every member. -/
theorem Midturn.UnderWay.asks_ne_zero {k : Node σ}
    (h : UnderWay n c forced (⟨k, none, none⟩ : Midturn σ))
    (hs : Sweeping (⟨k, none, none⟩ : Midturn σ)) {e : EntryId}
    (he : e ∈ n.directory.initialized) : asksFor c e k.journal ≠ 0 := by
  obtain ⟨members, all, hpass, hentries⟩ := h.pass
  rw [← hentries] at he
  obtain ⟨m, hm, rfl⟩ := List.mem_map.mp he
  have hasks : asksFor c m.entry k.journal = 1 := by
    cases (hs.passing hpass).tracked m hm with
    | pending waits account =>
      obtain ⟨rfl, -⟩ := h.fetching account.legs
      exact account.asks
    | reported told account => exact account.asks
  rw [hasks]
  exact Nat.one_ne_zero

/-- Nobody waits for longer than the slowest lookup takes. -/
theorem Midturn.UnderWay.nextDue_le {k : Node σ}
    (h : UnderWay n c forced (⟨k, none, none⟩ : Midturn σ))
    (hs : Sweeping (⟨k, none, none⟩ : Midturn σ)) {due : Nat} (hdue : k.nextDue = some due) :
    due ≤ n.time + n.longestWait := by
  obtain ⟨members, all, hpass, hentries⟩ := h.pass
  have hpassing := hs.passing hpass
  cases hpass with
  | closing run => cases run
  | resting rests =>
    obtain ⟨m, hm, hwaits⟩ := List.all_eq_false.mp hpassing.all
    have he : m.entry ∈ n.directory.initialized := hentries ▸ List.mem_map_of_mem hm
    cases hpassing.tracked m hm with
    | reported told => exact absurd (by rw [told]; rfl) hwaits
    | pending waits account =>
      obtain ⟨-, x, o, hc⟩ := h.fetching account.legs
      exact (Node.nextDue_le hdue hc rfl).trans
        (Nat.add_le_add_left (Node.waitFor_le_longestWait he) _)

/-- Time passes. -/
theorem Midturn.Phase.pass {k : Node σ} {time : Nat}
    (h : Phase n c forced prompt (⟨k, none, none⟩ : Midturn σ))
    (hs : Sweeping (⟨k, none, none⟩ : Midturn σ)) (hle : k.time ≤ time)
    (hdue : prompt → k.nextDue = some time) :
    Phase n c forced prompt (⟨{ k with time }, none, none⟩ : Midturn σ) := by
  cases h with
  | outset h => cases h.run
  | underWay h now =>
    refine .underWay (.of_idle ?_ ?_ h.calls h.enlisting) fun hp => h.nextDue_le hs (hdue hp)
    · obtain ⟨members, all, hpass, hentries⟩ := h.pass
      cases hpass with
      | resting rests => exact ⟨members, _, .resting rests, hentries⟩
      | closing run => cases run
    · refine ⟨h.views.since.trans hle, h.views.cached, h.views.options, ?_, h.views.others⟩
      intro e he
      exact (h.views.members he).pass (h.asks_ne_zero hs he) hle
  | dismissed h =>
    refine .dismissed ⟨h.views, h.cached, ?_⟩
    rcases h.answer with ⟨hrun, -⟩ | hanswer
    · cases hrun
    · exact .inr hanswer

/-- Between two turns the sweep makes its pass, or it has answered. -/
theorem Midturn.Phase.at_rest {k : Node σ}
    (h : Phase n c forced prompt (⟨k, none, none⟩ : Midturn σ)) :
    (∃ members, (c, .pass forced members) ∈ k.calls) ∨
      Dismissed n c forced prompt (⟨k, none, none⟩ : Midturn σ) ∧
        ∃ r ∈ k.replies, r.call = c ∧ r.reply = .ofSweep forced ∧ n.EndsAt prompt r.time := by
  cases h with
  | outset h => cases h.run
  | underWay h now =>
    obtain ⟨members, all, hpass, -⟩ := h.pass
    cases hpass with
    | resting rests =>
      obtain rfl : _ = forced := h.calls rests
      exact .inl ⟨members, rests⟩
    | closing run => cases run
  | dismissed h =>
    rcases h.answer with ⟨hrun, -⟩ | hanswer
    · cases hrun
    · exact .inr ⟨h, hanswer⟩

end Phases

end ServiceFinder
