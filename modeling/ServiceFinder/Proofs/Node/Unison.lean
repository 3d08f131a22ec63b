/-
  ServiceFinder/Proofs/Node/Unison.lean
  =====================================
  **The refreshes of a sweep do not get in each other's way.**

  A sweep that runs alone starts one refresh for each member.  How far a member has come can be
  told from the journal, and what that says of its view never depends on the other members
  (`Node.Keeps`): the view is the one of the node that the sweep began at until the registry is
  asked, and the one that its refresh alone would leave once it has ended.  A move of one member
  leaves the others where they are, since no two members have the same view or the same key
  (`Midturn.UnderWay.move_of_resting`).
-/
import ServiceFinder.Proofs.Keyed
import ServiceFinder.Proofs.Node.Pruning
import ServiceFinder.Proofs.Node.Shuffling
import ServiceFinder.Proofs.Node.Solo
import ServiceFinder.Registry.Source

namespace ServiceFinder

variable {σ : Type}

/-! ### Registries that answer by key -/

/-- What a registry answers for one key does not depend on whether it is asked for others. -/
def Registry.AnswersByKey (σ : Type) [Registry σ] : Prop :=
  ∀ {key key' : ServiceKey} (r : σ), key ≠ key' →
    (Registry.lookup key (Registry.lookup key' r).2).1 = (Registry.lookup key r).1

theorem Script.lookup_serve {key key' : ServiceKey} (hne : key ≠ key')
    (deliveries : List Delivery) (s : Script) :
    (s.serve key' deliveries).lines.lookup key = s.lines.lookup key := by
  rw [serve, List.lookup_cons, beq_false_of_ne hne]
  exact (lookup_filter_fst (· != key') s.lines key).trans (if_pos (bne_iff_ne.mpr hne))

theorem Script.answersByKey : Registry.AnswersByKey Script := by
  intro key key' s hne
  have hnext : ((s.next key').2.next key).1 = (s.next key).1 := by
    have hlines : (s.next key').2.lines.lookup key = s.lines.lookup key := by
      conv_lhs => rw [next]
      split
      · rfl
      · rfl
      · rfl
      · exact lookup_serve hne ..
    unfold next at hlines ⊢
    rw [hlines]
    split <;> rfl
  exact congrArg (fun d : Delivery => { d with delay := Timer.run d.delay }) hnext

/-- So does whatever registry a node may have. -/
theorem Source.answersByKey : Registry.AnswersByKey Source := by
  intro key key' r hne
  cases r with
  | scripted s => exact Script.answersByKey s hne
  | inProcess r => rfl

/-! ### How far a member has come -/

section Keeping

variable [Registry σ]

namespace Node

/-- The view `e` at `m`, if a sweep that began at `n` has asked the registry so often for it, and
    its refresh has ended with these results. -/
inductive Keeps (n : Node σ) (forced : Bool) (e : EntryId) (m : Node σ) :
    Nat → List CacheStatus → Prop where
  | unasked (now : m.time = n.time)
      (next : (Registry.lookup (n.entry e).key m.registry).1 =
        (Registry.lookup (n.entry e).key n.registry).1)
      (view : (m.entry e).unlined = n.entry e ∨ (m.entry e).unlined = n.primed forced e) :
      Keeps n forced e m 0 []
  | asked (view : (m.entry e).unlined = n.primed forced e) : Keeps n forced e m 1 []
  | ended (late : n.time + n.waitFor e ≤ m.time)
      (view : (m.entry e).unlined = (n.renewed forced e).1) :
      Keeps n forced e m 1 [(n.renewed forced e).2]

/-- Of the sweep `c` that began at `n`, each member has come as far as the journal of `m` tells,
    and nothing has happened to the other views. -/
structure Abreast (n : Node σ) (c : CallId) (forced : Bool) (m : Node σ) : Prop where
  since : n.time ≤ m.time
  cached : m.directory.cached = n.directory.cached
  options : m.directory.options = n.directory.options
  members : ∀ {e}, e ∈ n.directory.initialized →
    n.Keeps forced e m (asksFor c e m.journal) (verdictsFor c e m.journal)
  others : ∀ {e}, e ∉ n.directory.initialized → (m.entry e).unlined = n.entry e

/-- The member `e` has come so far. -/
structure Stands (n : Node σ) (c : CallId) (forced : Bool) (e : EntryId) (m : Node σ)
    (asks : Nat) (verdicts : List CacheStatus) : Prop where
  initialized : e ∈ n.directory.initialized
  lt_length : e < m.directory.entries.length
  asked : asksFor c e m.journal = asks
  told : verdictsFor c e m.journal = verdicts
  keeps : n.Keeps forced e m asks verdicts

section Keeps

variable {n m m' : Node σ} {c : CallId} {forced : Bool} {e : EntryId}

theorem Keeps.frame {asks : Nat} {verdicts : List CacheStatus}
    (h : n.Keeps forced e m asks verdicts) (htime : m'.time = m.time)
    (hnext : (Registry.lookup (n.entry e).key m'.registry).1 =
      (Registry.lookup (n.entry e).key m.registry).1)
    (hview : (m'.entry e).unlined = (m.entry e).unlined) : n.Keeps forced e m' asks verdicts := by
  cases h with
  | unasked now next view => exact .unasked (htime.trans now) (hnext.trans next) (hview ▸ view)
  | asked view => exact .asked (hview ▸ view)
  | ended late view => exact .ended (htime ▸ late) (hview ▸ view)

/-- Time may pass once the registry has been asked. -/
theorem Keeps.pass {asks : Nat} {verdicts : List CacheStatus} {time : Nat}
    (h : n.Keeps forced e m asks verdicts) (asked : asks ≠ 0) (hle : m.time ≤ time) :
    n.Keeps forced e { m with time } asks verdicts := by
  cases h with
  | unasked => exact absurd rfl asked
  | asked view => exact .asked view
  | ended late view => exact .ended (late.trans hle) view

/-- Nothing happens to any view but to the lines. -/
theorem Abreast.frame (h : n.Abreast c forced m) (htime : m'.time = m.time)
    (hregistry : m'.registry = m.registry) (hcached : m'.directory.cached = m.directory.cached)
    (hoptions : m'.directory.options = m.directory.options)
    (hview : ∀ e, (m'.entry e).unlined = (m.entry e).unlined)
    (hjournal : ∀ e, asksFor c e m'.journal = asksFor c e m.journal ∧
      verdictsFor c e m'.journal = verdictsFor c e m.journal) : n.Abreast c forced m' where
  since := htime ▸ h.since
  cached := hcached.trans h.cached
  options := hoptions.trans h.options
  members {e} he := by
    rw [(hjournal e).1, (hjournal e).2]
    exact (h.members he).frame htime (by rw [hregistry]) (hview e)
  others {e} he := (hview e).trans (h.others he)

/-- Nothing happens that the views have to do with. -/
theorem Abreast.same (h : n.Abreast c forced m) (hdirectory : m'.directory = m.directory)
    (hregistry : m'.registry = m.registry) (htime : m'.time = m.time)
    (hjournal : m'.journal = m.journal) : n.Abreast c forced m' := by
  refine h.frame htime hregistry ?_ ?_ ?_ ?_
  · rw [hdirectory]
  · rw [hdirectory]
  · intro e
    rw [entry, entry, hdirectory]
  · intro e
    rw [hjournal]
    exact ⟨rfl, rfl⟩

/-- One member gets on, and all other views are left alone. -/
theorem Abreast.revise (h : n.Abreast c forced m) (he : e ∈ n.directory.initialized)
    (hkeeps : n.Keeps forced e m' (asksFor c e m'.journal) (verdictsFor c e m'.journal))
    (htime : m'.time = m.time) (hcached : m'.directory.cached = m.directory.cached)
    (hoptions : m'.directory.options = m.directory.options)
    (hnext : ∀ {v}, v ∈ n.directory.initialized → v ≠ e →
      (Registry.lookup (n.entry v).key m'.registry).1 =
        (Registry.lookup (n.entry v).key m.registry).1)
    (hother : ∀ {v}, v ≠ e → (m'.entry v).unlined = (m.entry v).unlined ∧
      asksFor c v m'.journal = asksFor c v m.journal ∧
      verdictsFor c v m'.journal = verdictsFor c v m.journal) : n.Abreast c forced m' where
  since := htime ▸ h.since
  cached := hcached.trans h.cached
  options := hoptions.trans h.options
  members {v} hv := by
    by_cases hve : v = e
    · exact hve ▸ hkeeps
    · obtain ⟨hview, hasks, hverdicts⟩ := hother hve
      rw [hasks, hverdicts]
      exact (h.members hv).frame htime (hnext hv hve) hview
  others {v} hv := by
    have hve : v ≠ e := by
      rintro rfl
      exact hv he
    exact (hother hve).1.trans (h.others hv)

end Keeps

end Node

/-! ### The calls of a sweep that began at a node -/

/-- What is known of a call that rests while the sweep makes its pass. -/
def Stage.KeepsUp (n : Node σ) (forced : Bool) : Stage σ → Prop
  | .fetching e due o _ => due = n.time + n.waitFor e ∧ o = n.outcomeFor e
  | .refreshing _ _ => False
  | .pass forced' _ => forced' = forced
  | _ => True

/-- What is known of a call that runs at `m` while the sweep makes its pass. -/
def Point.KeepsUp (n : Node σ) (forced : Bool) (m : Node σ) : Point σ → Prop
  | .forgetting es (.refresh e _) =>
    es = [e] ∧ forced = true ∨ es = [] ∧ (m.entry e).unlined = n.primed forced e
  | .lining e _ | .asking e _ => (m.entry e).unlined = n.primed forced e
  | .heard e o _ => o = n.outcomeFor e ∧ n.time + n.waitFor e ≤ m.time
  | .closing forced' _ => forced' = forced
  | _ => True

/-- The sweep `c` makes a pass over these views. -/
def Midturn.PassesOver (s : Midturn σ) (c : CallId) (views : List EntryId) : Prop :=
  ∃ members all, s.Pass c members all ∧ members.map (·.entry) = views

/-- The sweep `c`, which began at `n`, makes its pass. -/
structure Midturn.UnderWay (n : Node σ) (c : CallId) (forced : Bool) (s : Midturn σ) : Prop where
  pass : s.PassesOver c n.directory.initialized
  views : n.Abreast c forced s.node
  calls : ∀ {x st}, (x, st) ∈ s.node.calls → st.KeepsUp n forced
  running : ∀ {x p}, s.running = some (x, p) → p.KeepsUp n forced s.node
  enlisting : ∀ {x forced' views}, s.enlisting = some (x, forced', views) → forced' = forced

end Keeping

/-! ### Nobody waits for a write lock -/

/-- Beside a sweep that makes its pass, who stands in the line of a view is one of its
    refreshes. -/
theorem Midturn.Alone.free {s : Midturn σ} {c : CallId} {e : EntryId} (h : s.Alone c)
    (hl : InLine s) (hc : ∀ {st}, (c, st) ∈ s.node.calls → st.line? = none)
    (hhold : s.hold? = none) (hlegs : s.node.legs c e = []) : (s.node.entry e).writers = [] := by
  apply List.eq_nil_iff_forall_not_mem.mpr
  intro w hw
  rcases hl.present hw with ⟨st, hst, hline⟩ | hrun
  · cases h.calls hst with
    | dormant hdormant =>
      cases st with
      | scheduled | sleeping | pulling => cases hline
      | _ => cases hdormant
    | own hx _ =>
      subst hx
      rw [hc hst] at hline
      cases hline
    | @member v leg hleg =>
      have hve : v = e := by
        rcases Stage.of_leg?_eq_some hleg with rfl | ⟨due, o, rfl⟩ <;> exact Option.some.inj hline
      have hin : leg ∈ s.node.legs c e := List.mem_filterMap.mpr ⟨_, hst, hve ▸ hleg⟩
      rw [hlegs] at hin
      cases hin
  · rw [hhold] at hrun
    cases hrun

/-- No two cached views have the same key. -/
theorem Filed.key_inj {n : Node σ} (h : Filed n) {e v : EntryId} (he : e ∈ n.directory.views)
    (hv : v ∈ n.directory.views) (hkey : (n.entry e).key = (n.entry v).key) : e = v := by
  obtain ⟨⟨key, e⟩, hmem, rfl⟩ := List.mem_map.mp he
  obtain ⟨⟨key', v⟩, hmem', rfl⟩ := List.mem_map.mp hv
  have hfind := h.find?_eq_some_iff.mpr (h.made hmem)
  have hfind' := h.find?_eq_some_iff.mpr (h.made hmem')
  have hsame : key = key' := (h.made hmem).2.1.symm.trans (hkey.trans (h.made hmem').2.1)
  rw [hsame, hfind'] at hfind
  exact (Option.some.inj hfind).symm

/-! ### Members on their way -/

section Members

variable {s s' : Midturn σ} {c x : CallId} {p : Point σ} {e : EntryId} {leg : Leg}

/-- Who runs beside a sweep that rests is nothing in flight or one of its members. -/
theorem Midturn.Alone.member_of_running (h : s.Alone c) (ho : Orderly s) {st : Stage σ}
    (rests : (c, st) ∈ s.node.calls) (hrun : s.running = some (x, p)) :
    p.isDormant = true ∨ ∃ e leg, p.leg? c e = some leg := by
  cases h.running hrun with
  | dormant hp => exact .inl hp
  | own hx hp =>
    subst hx
    exact absurd rests (ho.notMem_calls hrun st)
  | member hp => exact .inr ⟨_, _, hp⟩

theorem Midturn.legs_of_running (hrun : s.running = some (x, p)) (hp : p.leg? c e = some leg) :
    s.legs c e = leg :: (s.node.legs c e ++ enlistedLegs c e s.enlisting) := by
  simp [legs, hrun, hp]

variable [Registry σ] {n : Node σ} {forced : Bool}

namespace Midturn.UnderWay

/-- Nobody runs. -/
theorem of_idle {m : Node σ} {enlisting : Option (CallId × Bool × List EntryId)}
    (pass : Midturn.PassesOver ⟨m, none, enlisting⟩ c n.directory.initialized)
    (views : n.Abreast c forced m)
    (calls : ∀ {x st}, (x, st) ∈ m.calls → st.KeepsUp n forced)
    (enlists : ∀ {x forced' views}, enlisting = some (x, forced', views) → forced' = forced) :
    UnderWay n c forced ⟨m, none, enlisting⟩ where
  pass := pass
  views := views
  calls := calls
  running hrun := by cases hrun
  enlisting := enlists

/-- A member that has something left to do has come as far as that tells, and has nothing else
    left to do. -/
theorem of_leg (h : s.UnderWay n c forced) (ha : Audited s) {rest : List Leg}
    (hlegs : (s.legs c e).Perm (leg :: rest)) :
    rest = [] ∧ n.Stands c forced e s.node leg.asks leg.verdicts := by
  obtain ⟨members, all, hpass, hentries⟩ := h.pass
  have hpassing := ha.sweeping.passing hpass
  have hin : e ∈ members.map (·.entry) := by
    by_contra hout
    have hnil := (hpassing.others e hout).legs
    cases List.perm_nil.mp (hlegs.symm.trans hnil)
  have he : e ∈ n.directory.initialized := hentries ▸ hin
  have hlt := ha.sweeping.lt_length_of_leg ha.regular.sound hlegs
  obtain ⟨m, hm, rfl⟩ := List.mem_map.mp hin
  obtain ⟨hrest, -, account⟩ := (hpassing.tracked m hm).of_leg hlegs
  have hkeeps := h.views.members he
  rw [account.asks, account.verdicts] at hkeeps
  exact ⟨hrest, he, hlt, account.asks, account.verdicts, hkeeps⟩

/-- Nobody else works for the member that runs. -/
theorem of_running (h : s.UnderWay n c forced) (ha : Audited s)
    (hrun : s.running = some (x, p)) (hp : p.leg? c e = some leg) :
    s.node.legs c e = [] ∧ n.Stands c forced e s.node leg.asks leg.verdicts := by
  obtain ⟨hrest, hstands⟩ := h.of_leg ha (List.Perm.of_eq (Midturn.legs_of_running hrun hp))
  exact ⟨(List.append_eq_nil_iff.mp hrest).1, hstands⟩

/-- While the sweep rests, it goes on resting or closes. -/
theorem pass_of_move (h : s.UnderWay n c forced) (ho : Orderly s) (m : Move s s')
    {forced' : Bool} {members : List Member} (rests : (c, .pass forced' members) ∈ s.node.calls) :
    s'.PassesOver c n.directory.initialized := by
  obtain ⟨members', all, hpass, hentries⟩ := h.pass
  have hsame : members' = members := by
    cases hpass with
    | resting rests' => cases ho.stage_unique rests rests'; rfl
    | closing run => exact absurd rests (ho.notMem_calls run _)
  subst hsame
  obtain ⟨later, hlater, hpass⟩ := (m.stroke ho).of_pass ho rests
  have hviews : later.map (·.entry) = n.directory.initialized := by
    rcases hlater with rfl | ⟨-, e, status, -, rfl⟩
    · exact hentries
    · exact (Node.entries_reported ..).trans hentries
  rcases hpass with hrests | hrun
  · exact ⟨later, false, .resting hrests, hviews⟩
  · exact ⟨later, true, .closing hrun, hviews⟩

end Midturn.UnderWay

end Members

/-! ### The moves of one member -/

section Steps

variable [Registry σ] {n m : Node σ} {c x : CallId} {forced : Bool} {e v : EntryId}

namespace Node

omit [Registry σ] in
theorem unlined_queueWriter (m : Node σ) (x : CallId) (e v : EntryId) :
    ((m.queueWriter x e).entry v).unlined = (m.entry v).unlined :=
  m.entry_modifyEntry_congr Entry.unlined e v rfl

/-- A member that has not been asked for yet forgets its revision. -/
theorem Abreast.forget (h : n.Abreast c true m) (hm : n.Stands c true e m 0 []) :
    n.Abreast c true (m.forget e) ∧ ((m.forget e).entry e).unlined = n.primed true e := by
  cases hm.keeps with
  | unasked now next view =>
    have hview : ((m.forget e).entry e).unlined = n.primed true e := by
      have hforgot : ((m.forget e).entry e).unlined = (m.entry e).unlined.forgetRevision :=
        congrArg Entry.unlined (entry_modifyEntry_self _ hm.lt_length)
      rw [hforgot]
      rcases view with view | view <;> rw [view] <;> rfl
    refine ⟨h.revise hm.initialized ?_ rfl rfl rfl (fun _ _ => rfl) ?_, hview⟩
    · have hasks : asksFor c e (m.forget e).journal = 0 :=
        (asksFor_cons_of_apart rfl).trans hm.asked
      have hverdicts : verdictsFor c e (m.forget e).journal = [] :=
        (verdictsFor_cons_of_apart rfl).trans hm.told
      rw [hasks, hverdicts]
      exact .unasked now next (.inr hview)
    · intro v hv
      exact ⟨congrArg Entry.unlined (entry_modifyEntry_of_ne _ hv), asksFor_cons_of_apart rfl,
        verdictsFor_cons_of_apart rfl⟩

/-- The lookup for a member that has not been asked for yet is the one that would be made
    for it alone. -/
theorem Abreast.lookup_eq (h : n.Abreast c forced m) (hm : n.Stands c forced e m 0 []) :
    m.time = n.time ∧ (m.entry e).key = (n.entry e).key ∧ m.waitFor e = n.waitFor e ∧
      m.outcomeFor e = n.outcomeFor e := by
  cases hm.keeps with
  | unasked now next view =>
    have hkey : (m.entry e).key = (n.entry e).key := by
      show (m.entry e).unlined.key = _
      rcases view with view | view
      · rw [view]
      · rw [view]
        cases forced <;> rfl
    refine ⟨now, hkey, ?_, ?_⟩
    · rw [waitFor, hkey, next, h.options, waitFor]
    · rw [outcomeFor, hkey, next, h.options, outcomeFor]

/-- A member asks the registry, and what the others will be answered stays the same. -/
theorem Abreast.asked (h : n.Abreast c forced m) (hn : Filed n)
    (apart : Registry.AnswersByKey σ) (hm : n.Stands c forced e m 0 [])
    (view : (m.entry e).unlined = n.primed forced e) :
    n.Abreast c forced (m.asked x e (.member c)) := by
  obtain ⟨-, hkey, -⟩ := h.lookup_eq hm
  have he := hm.initialized
  refine h.revise he ?_ rfl rfl rfl ?_ ?_
  · have hasks : asksFor c e (m.asked x e (.member c)).journal = 1 := by
      refine (asksFor_cons _ m.journal).trans ?_
      rw [hm.asked]
      simp [Happening.asksFor]
    have hverdicts : verdictsFor c e (m.asked x e (.member c)).journal = [] :=
      (verdictsFor_cons_of_apart rfl).trans hm.told
    rw [hasks, hverdicts]
    exact .asked view
  · intro v hv hne
    have hkeys : (n.entry v).key ≠ (m.entry e).key := by
      rw [hkey]
      intro heq
      exact hne (hn.key_inj (List.mem_filter.mp hv).1 (List.mem_filter.mp he).1 heq)
    exact apart m.registry hkeys
  · intro v hv
    refine ⟨rfl, asksFor_cons_of_apart ?_, verdictsFor_cons_of_apart rfl⟩
    exact decide_eq_false fun heq => hv heq.1.symm

/-- A member's lookup ends as it would have ended for it alone. -/
theorem Abreast.settled (h : n.Abreast c forced m) (hm : n.Stands c forced e m 1 [])
    (late : n.time + n.waitFor e ≤ m.time) :
    n.Abreast c forced (m.settled x e (n.outcomeFor e) (.member c)) := by
  cases hm.keeps with
  | asked view =>
    have hrenewed : (m.entry e).unlined.afterRefresh m.directory.options.policy
        (n.outcomeFor e) = n.renewed forced e := by
      rw [view, h.options]
      rfl
    have hstatus : (m.outcomeOn e (n.outcomeFor e)).2 = (n.renewed forced e).2 := by
      rw [m.outcomeOn_unlined, hrenewed]
    refine h.revise hm.initialized ?_ rfl rfl rfl (fun _ _ => rfl) ?_
    · have hasks : asksFor c e (m.settled x e (n.outcomeFor e) (.member c)).journal = 1 :=
        (asksFor_cons_of_apart rfl).trans hm.asked
      have hverdicts : verdictsFor c e (m.settled x e (n.outcomeFor e) (.member c)).journal =
          [(n.renewed forced e).2] := by
        refine (verdictsFor_cons _ m.journal).trans ?_
        rw [← hstatus]
        simp [Happening.verdictFor?, hm.told]
      rw [hasks, hverdicts]
      refine .ended late ?_
      rw [m.unlined_settled x _ _ hm.lt_length, hrenewed]
    · intro v hv
      refine ⟨congrArg Entry.unlined (m.entry_settled_of_ne x _ _ hv), asksFor_cons_of_apart rfl,
        verdictsFor_cons_of_apart ?_⟩
      exact if_neg fun heq => hv heq.1.symm

end Node

end Steps

/-! ### Every move -/

section Moves

variable [Registry σ] {n : Node σ} {s s' : Midturn σ} {c : CallId} {forced : Bool}

theorem Point.KeepsUp.turn {m : Node σ} {p p' : Point σ} (h : p.KeepsUp n forced m)
    (hp : p.isDormant = true ∨ ∃ e leg, p.leg? c e = some leg) (hturn : m.turnsTo p = some p') :
    p'.KeepsUp n forced m := by
  cases p with
  | forgetting es next =>
    cases next with
    | answer => rcases hp with hp | ⟨e, leg, hp⟩ <;> cases hp
    | refresh e sweep? =>
      cases es with
      | nil =>
        cases hturn
        rcases h with ⟨hes, -⟩ | ⟨-, view⟩
        · cases hes
        · exact view
      | cons => cases hturn
  | refreshed e status next =>
    cases next with
    | status =>
      cases hturn
      trivial
    | _ => cases hturn
  | lining | asking | heard | ticking | replying | closing | sweeping => cases hturn
  | _ => rcases hp with hp | ⟨e, leg, hp⟩ <;> cases hp

namespace Midturn.UnderWay

variable {k : Node σ} {x : CallId} {v : EntryId}
  {enlisting : Option (CallId × Bool × List EntryId)}

/-- A call wakes that does not begin. -/
theorem wake (h : UnderWay n c forced (⟨k, none, none⟩ : Midturn σ)) {st : Stage σ}
    (pass : PassesOver ⟨k.unrest x, some (x, st.point), none⟩ c n.directory.initialized)
    (rests : k.stage? x = some st) (awake : k.awake x st = true)
    (hstart : ∀ due op, st ≠ .scheduled due op) :
    UnderWay n c forced (⟨k.unrest x, some (x, st.point), none⟩ : Midturn σ) := by
  have hkeeps := h.calls (Node.mem_of_stage? rests)
  refine ⟨pass, h.views.same rfl rfl rfl rfl, ?_, ?_, h.enlisting⟩
  · intro x st hc
    exact h.calls (Node.mem_unrest.mp hc).1
  · rintro x p ⟨⟩
    cases st with
    | scheduled due op => exact absurd rfl (hstart due op)
    | fetching e due o next =>
      obtain ⟨rfl, rfl⟩ := hkeeps
      exact ⟨rfl, of_decide_eq_true awake⟩
    | refreshing => cases hkeeps
    | pass => exact hkeeps
    | _ => trivial

/-- The next member sets out. -/
theorem enlist {rest : List EntryId}
    (h : UnderWay n c forced (⟨k, none, some (c, forced, v :: rest)⟩ : Midturn σ))
    (ha : Audited (⟨k, none, some (c, forced, v :: rest)⟩ : Midturn σ))
    (pass : PassesOver ⟨k.newCall.2,
      some (x, .forgetting (if forced then [v] else []) (.refresh v (some c))),
      some (c, forced, rest)⟩ c n.directory.initialized) :
    UnderWay n c forced ⟨k.newCall.2,
      some (x, .forgetting (if forced then [v] else []) (.refresh v (some c))),
      some (c, forced, rest)⟩ := by
  have hlegs : (Midturn.legs ⟨k, none, some (c, forced, v :: rest)⟩ c v).Perm
      (.toAsk :: (k.legs c v ++ enlistedLegs c v (some (c, forced, rest)))) := by
    simp only [Midturn.legs, enlistedLegs, Option.bind_none, Option.toList_none,
      List.nil_append, List.filterMap_cons, AfterRefresh.leg?_member_self]
    exact List.perm_middle
  obtain ⟨-, hm⟩ := h.of_leg ha hlegs
  refine ⟨pass, h.views.same rfl rfl rfl rfl, h.calls, ?_, ?_⟩
  · rintro x p ⟨⟩
    cases forced with
    | true => exact .inl ⟨rfl, rfl⟩
    | false =>
      cases hm.keeps with
      | unasked now next view => exact .inr ⟨rfl, view.elim id id⟩
  · rintro x f views ⟨⟩
    rfl

/-- A member forgets its revision. -/
theorem forget {es : List EntryId} {e : EntryId}
    (h : UnderWay n c forced ⟨k, some (x, .forgetting (v :: es) (.refresh e (some c))), enlisting⟩)
    (ha : Audited (⟨k, some (x, .forgetting (v :: es) (.refresh e (some c))), enlisting⟩ :
      Midturn σ))
    (pass : PassesOver ⟨k.forget v, some (x, .forgetting es (.refresh e (some c))), enlisting⟩ c
      n.directory.initialized) :
    UnderWay n c forced
      ⟨k.forget v, some (x, .forgetting es (.refresh e (some c))), enlisting⟩ := by
  rcases h.running rfl with ⟨hes, rfl⟩ | ⟨hes, -⟩
  · cases hes
    obtain ⟨-, hm⟩ := h.of_running ha rfl AfterRefresh.leg?_member_self
    obtain ⟨hviews, hview⟩ := h.views.forget hm
    refine ⟨pass, hviews, h.calls, ?_, h.enlisting⟩
    rintro x p ⟨⟩
    exact .inr ⟨rfl, hview⟩
  · cases hes

/-- A member never waits for a write lock, for the line is empty when it gets there. -/
theorem locks_at_once
    (h : UnderWay n c forced ⟨k, some (x, .lining v (.refresh (.member c))), enlisting⟩)
    (ha : Audited (⟨k, some (x, .lining v (.refresh (.member c))), enlisting⟩ : Midturn σ))
    (alone : Alone c (⟨k, some (x, .lining v (.refresh (.member c))), enlisting⟩ : Midturn σ))
    {forced' : Bool} {members : List Member} (rests : (c, .pass forced' members) ∈ k.calls) :
    (k.queueWriter x v).writes x v = true := by
  obtain ⟨hlegs, hm⟩ := h.of_running ha rfl AfterRefresh.leg?_member_self
  have hline {st : Stage σ} (hc : (c, st) ∈ k.calls) : st.line? = none := by
    rw [ha.orderly.stage_unique hc rests]
    rfl
  have hfree := alone.free ha.regular.sound.inLine hline rfl hlegs
  rw [Node.writes, Node.writers_queueWriter, if_pos ⟨rfl, hm.lt_length⟩, hfree]
  exact beq_self_eq_true _

/-- A member asks the registry as it would alone. -/
theorem asked (h : UnderWay n c forced ⟨k, some (x, .asking v (.member c)), enlisting⟩)
    (ha : Audited (⟨k, some (x, .asking v (.member c)), enlisting⟩ : Midturn σ)) (hn : Filed n)
    (apart : Registry.AnswersByKey σ) : n.Abreast c forced (k.asked x v (.member c)) ∧
      k.time = n.time ∧ k.waitFor v = n.waitFor v ∧ k.outcomeFor v = n.outcomeFor v := by
  obtain ⟨-, hm⟩ := h.of_running ha rfl AfterRefresh.leg?_member_self
  obtain ⟨hnow, -, hwaits, houtcome⟩ := h.views.lookup_eq hm
  exact ⟨h.views.asked hn apart hm (h.running rfl), hnow, hwaits, houtcome⟩

/-- A member hears what it would have heard alone. -/
theorem hear {o : Outcome}
    (h : UnderWay n c forced ⟨k, some (x, .heard v o (.member c)), enlisting⟩)
    (ha : Audited (⟨k, some (x, .heard v o (.member c)), enlisting⟩ : Midturn σ)) :
    n.Abreast c forced (k.settled x v o (.member c)) := by
  obtain ⟨-, hm⟩ := h.of_running ha rfl AfterRefresh.leg?_member_self
  obtain ⟨rfl, hlate⟩ := h.running rfl
  exact h.views.settled hm hlate

end Midturn.UnderWay

/-- **While the sweep waits for its members, no move of one gets in the way of another.** -/
theorem Midturn.UnderWay.move_of_resting (h : s.UnderWay n c forced) (hn : Filed n)
    (apart : Registry.AnswersByKey σ) (ha : Audited s) (alone : s.Alone c) {forced' : Bool}
    {members : List Member} (rests : (c, .pass forced' members) ∈ s.node.calls) (m : Move s s')
    (hstarts : ∀ x op, s'.running ≠ some (x, .starting op)) : s'.UnderWay n c forced := by
  have ho := ha.orderly
  have hpass := h.pass_of_move ho m rests
  have hmember {x : CallId} {p : Point σ} (hrun : s.running = some (x, p)) :=
    alone.member_of_running ho rests hrun
  -- who runs is no other call than one of the members, or has no part in it
  have hnobody {x : CallId} {p : Point σ} (hrun : s.running = some (x, p))
      (hp : p.isDormant = false) (hleg : ∀ e, p.leg? c e = none) : s'.UnderWay n c forced := by
    rcases hmember hrun with hdormant | ⟨e, leg, hsome⟩
    · cases hp.symm.trans hdormant
    · cases (hleg e).symm.trans hsome
  cases m with
  | call k op => exact absurd rfl (hstarts _ _)
  | callAfter k wait op =>
    refine .of_idle hpass (h.views.same rfl rfl rfl rfl) ?_ h.enlisting
    intro x st hc
    rcases Node.mem_rest.mp hc with hc | ⟨-, rfl⟩
    · exact h.calls hc
    · trivial
  | wake hstage awake =>
    refine h.wake hpass hstage awake ?_
    rintro due op rfl
    exact hstarts _ _ rfl
  | @quiet k k' x enlisting p p' q =>
    cases q with
    | turn hturn =>
      refine ⟨hpass, h.views, h.calls, ?_, h.enlisting⟩
      rintro x p ⟨⟩
      exact (h.running rfl).turn (hmember rfl) hturn
    | _ => exact hnobody rfl rfl fun _ => rfl
  | answer k x enlisting r =>
    exact .of_idle hpass (h.views.same rfl rfl rfl rfl) h.calls h.enlisting
  | protect | protectView | sleep | startPuller | stopPuller | forceWait | create | awaitFirst
  | beginFirst | sweepSome | apply | applyNext =>
    exact hnobody rfl rfl fun _ => rfl
  | endFirst => exact hnobody rfl rfl fun _ => AfterRefresh.leg?_first
  | tick k x enlisting due interval =>
    have hviews : n.Abreast c forced (k.tick x due interval) :=
      h.views.frame rfl rfl rfl rfl (fun _ => rfl) fun _ =>
        ⟨asksFor_cons_of_apart rfl, verdictsFor_cons_of_apart rfl⟩
    refine .of_idle hpass hviews ?_ h.enlisting
    intro x st hc
    rcases Node.mem_rest.mp hc with hc | ⟨-, rfl⟩
    · rcases Node.mem_rest.mp hc with hc | ⟨-, rfl⟩
      · exact h.calls hc
      · trivial
    · trivial
  | forget k x enlisting v es next =>
    cases next with
    | answer => exact hnobody rfl rfl fun _ => rfl
    | refresh e sweep? =>
      cases sweep? with
      | none => exact hnobody rfl rfl fun _ => AfterRefresh.leg?_status
      | some sweep =>
        cases (alone.running rfl).eq_member rfl rfl fun _ => rfl
        exact h.forget ha hpass
  | @lock k x enlisting v job hfree =>
    refine ⟨hpass, h.views.frame rfl rfl rfl rfl (k.unlined_queueWriter x v) fun _ => ⟨rfl, rfl⟩,
      h.calls, ?_, h.enlisting⟩
    rintro x p ⟨⟩
    cases job with
    | refresh next => exact (k.unlined_queueWriter x v v).trans (h.running rfl)
    | change => trivial
  | @wait k x enlisting v job hbusy =>
    cases job with
    | change => exact hnobody rfl rfl fun _ => rfl
    | refresh next =>
      cases (alone.running rfl).eq_member rfl rfl fun _ => rfl
      cases hbusy.symm.trans (h.locks_at_once ha alone rests)
  | @askNow k x enlisting v next hwait =>
    cases (alone.running rfl).eq_member rfl rfl fun _ => rfl
    obtain ⟨hviews, hnow, hwaits, houtcome⟩ := h.asked ha hn apart
    refine ⟨hpass, hviews, h.calls, ?_, h.enlisting⟩
    rintro x p ⟨⟩
    refine ⟨houtcome, ?_⟩
    rw [← hwaits, hwait]
    exact Nat.le_of_eq hnow.symm
  | @ask k x enlisting v next hwait =>
    cases (alone.running rfl).eq_member rfl rfl fun _ => rfl
    obtain ⟨hviews, hnow, hwaits, houtcome⟩ := h.asked ha hn apart
    refine .of_idle hpass (hviews.same rfl rfl rfl rfl) ?_ h.enlisting
    intro x st hc
    rcases Node.mem_rest.mp hc with hc | ⟨-, rfl⟩
    · exact h.calls hc
    · refine ⟨?_, houtcome⟩
      rw [hwaits, hnow]
  | hear k x enlisting v o next =>
    cases (alone.running rfl).eq_member rfl rfl fun _ => rfl
    refine ⟨hpass, h.hear ha, h.calls, ?_, h.enlisting⟩
    rintro x p ⟨⟩
    trivial
  | enlist k sweep f v rest =>
    obtain rfl : sweep = c := alone.enlisting rfl
    obtain rfl : f = forced := h.enlisting rfl
    exact h.enlist ha hpass
  | enlisted k sweep f =>
    refine .of_idle hpass h.views h.calls ?_
    intro x f' views hmore
    cases hmore
  | @member k x enlisting v status sweep f members' hstage hmore =>
    have hforced := h.calls (Node.mem_of_stage? hstage)
    refine .of_idle hpass (h.views.same rfl rfl rfl rfl) ?_ h.enlisting
    intro x st hc
    rcases Node.mem_rest.mp hc with hc | ⟨-, rfl⟩
    · exact h.calls (Node.mem_unrest.mp hc).1
    · exact hforced
  | @lastMember k x enlisting v status sweep f members' hstage hall =>
    have hforced := h.calls (Node.mem_of_stage? hstage)
    refine ⟨hpass, h.views.same rfl rfl rfl rfl, ?_, ?_,
      h.enlisting⟩
    · intro x st hc
      exact h.calls (Node.mem_unrest.mp hc).1
    · rintro x p ⟨⟩
      exact hforced
  | stray hno =>
    exact .of_idle hpass h.views h.calls h.enlisting

end Moves

end ServiceFinder
