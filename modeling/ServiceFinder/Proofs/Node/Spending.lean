/-
  ServiceFinder/Proofs/Node/Spending.lean
  =======================================
  **A call that is to choose touches the balancer once, when it chooses.**

  Until then it looks its key up and waits, and leaves the balancer alone
  (`Onward.balancer_or_answered`).  So if nobody else moves from its beginning to its answer,
  what the balancer has become is what one choice among the servers of the view makes of it:
  the permit is spent on the probe that is returned, if one is, and on nothing else.
-/
import ServiceFinder.Proofs.Balance.Spending
import ServiceFinder.Proofs.Node.Rotating

namespace ServiceFinder

variable {σ : Type}

/-- The answer is a server to be probed. -/
def Reply.isProbe : Reply → Bool
  | .selected s => s.probe
  | _ => false

/-! ### On the way to a choice -/

theorem Node.chooses?_or_replying_of_turnsTo {n : Node σ} {p p' : Point σ}
    (h : n.turnsTo p = some p') (hp : p.chooses?.isSome) :
    p'.chooses?.isSome ∨ ∃ r, p' = .replying r := by
  cases p with
  | starting op =>
    cases op with
    | choose key i =>
      cases h
      exact .inl rfl
    | _ => cases hp
  | looking key next =>
    simp only [turnsTo] at h
    split at h
    · cases h
      exact .inr ⟨_, rfl⟩
    · cases h
  | ensuring e next =>
    simp only [turnsTo] at h
    split at h
    · cases h
      exact .inl hp
    · cases h
  | refreshed e status next =>
    cases next with
    | status => cases hp
    | _ => cases h
  | passed e next =>
    cases next with
    | done => cases hp
    | _ => cases h
  | lining | asking | heard => cases h
  | _ => cases hp

theorem Quiet.balancer_or_replying {c : CallId} {n n' : Node σ} {p p' : Point σ}
    (q : Quiet c n p n' p') (hp : p.chooses?.isSome) :
    n'.balancer = n.balancer ∧ p'.chooses?.isSome ∨ ∃ r, p' = .replying r := by
  cases q with
  | turn h =>
    rcases Node.chooses?_or_replying_of_turnsTo h hp with hchooses | hreplying
    · exact .inl ⟨rfl, hchooses⟩
    · exact .inr hreplying
  | find => exact .inl ⟨rfl, hp⟩
  | aside | view | choose | sweepTaken | close | publish => exact .inr ⟨_, rfl⟩
  | sweepFree | forceFree | sweepNone => cases hp

/-- The call `c` is on its way to a choice and has left the balancer of `n` alone, or it is about
    to answer, or has answered. -/
inductive Midturn.Choosing (n : Node σ) (c : CallId) : Midturn σ → Prop where
  | runs {m : Node σ} {p : Point σ} (same : m.balancer = n.balancer) (chooses : p.chooses?.isSome) :
      Choosing n c ⟨m, some (c, p), none⟩
  | rests {m : Node σ} (same : m.balancer = n.balancer) : Choosing n c ⟨m, none, none⟩
  | replying (m : Node σ) (r : Reply) : Choosing n c ⟨m, some (c, .replying r), none⟩
  | answered {m : Node σ} {r : Replied} (reply : r ∈ m.replies) (own : r.call = c) :
      Choosing n c ⟨m, none, none⟩

theorem Midturn.Choosing.move [Registry σ] {n : Node σ} {c : CallId} {s s' : Midturn σ}
    (h : Midturn.Choosing n c s) (busy : s.busy = true) (m : Move s s') :
    Midturn.Choosing n c s' := by
  cases h with
  | rests | answered => cases busy
  | replying k r =>
    cases m with
    | quiet q =>
      cases q with
      | turn h => cases h
    | answer => exact .answered List.mem_cons_self rfl
  | runs same chooses =>
    cases m with
    | quiet q =>
      rcases q.balancer_or_replying chooses with ⟨hsame, hchooses⟩ | ⟨r, rfl⟩
      · exact .runs (hsame.trans same) hchooses
      · exact .replying _ r
    | @lock _ _ _ e job h =>
      refine .runs same ?_
      rwa [job.chooses?_point e]
    | create | beginFirst | endFirst | askNow | hear => exact .runs same chooses
    | wait | awaitFirst | ask => exact .rests same
    | _ => cases chooses

/-- **A call that is to choose leaves the balancer alone until it answers.** -/
theorem Onward.balancer_or_answered [Registry σ] {n n' : Node σ} {c : CallId} {p : Point σ}
    (onward : Onward ⟨n, some (c, p), none⟩ ⟨n', none, none⟩) (hp : p.chooses?.isSome) :
    n'.balancer = n.balancer ∨ ∃ r ∈ n'.replies, r.call = c := by
  have hend : Midturn.Choosing n c ⟨n', none, none⟩ :=
    onward.keeps (fun busy h m => h.move busy m) (.runs rfl hp)
  cases hend with
  | rests same => exact .inl same
  | answered reply own => exact .inr ⟨_, reply, own⟩

theorem Begins.balancer_or_answered [Registry σ] {n n' : Node σ} {key : ServiceKey} {c : CallId}
    {i : Invocation} (h : Begins (.choose key i) c n n') :
    n'.balancer = n.balancer ∨ ∃ r ∈ n'.replies, r.call = c := by
  cases h with
  | now h =>
    subst h
    exact (moves_starting n.newCall.2 n.nextCall (.choose key i)).balancer_or_answered rfl
  | later rests hdue =>
    have hresume : n.resume c = (n.unrest c).start c (.choose key i) := by
      rw [Node.resume, rests]
    rw [hresume]
    exact (moves_starting (n.unrest c) c (.choose key i)).balancer_or_answered rfl

/-- A choice for an invalid key is refused at once. -/
theorem Begins.choose_invalid [Registry σ] {n n' : Node σ} {key : ServiceKey} {c : CallId}
    {i : Invocation} {cause : LookupFailure} (h : Begins (.choose key i) c n n')
    (invalid : key.check = .error cause) :
    n'.balancer = n.balancer ∧ ⟨c, n.time, .refused (.lookup cause)⟩ ∈ n'.replies := by
  have hstart (k : Node σ) :
      k.start c (.choose key i) = k.answer c (.refused (.lookup cause)) := by
    simp only [Node.start, Node.lookup, invalid]
  cases h with
  | now h =>
    subst h
    rw [show (n.call (.choose key i)).2 = _ from hstart n.newCall.2]
    exact ⟨rfl, List.mem_cons_self⟩
  | later rests hdue =>
    have hresume : n.resume c = (n.unrest c).start c (.choose key i) := by
      rw [Node.resume, rests]
    rw [hresume, hstart]
    exact ⟨rfl, List.mem_cons_self⟩

namespace Node

variable {n m : Node σ} {c : CallId} {e : EntryId} {i : Invocation}

/-! ### The choice of a call -/

/-- The call `c` waits and has left the balancer of `n` alone, or it has answered, and the balancer
    is as one choice among the servers of the view `e` makes it. -/
inductive Spends (n : Node σ) (c : CallId) (e : EntryId) (i : Invocation) (m : Node σ) : Prop where
  | waits (waits : m.Waits c e (.choose i)) (same : m.balancer = n.balancer)
  | answered {r : Replied} (reply : r ∈ m.replies) (own : r.call = c)
      (monitor : n.balancer.monitor.Spends i (m.entry e).listing.instances r.reply.isProbe
        m.balancer.monitor)
      (rule : (∀ s, r.reply = .selected s → s.probe = true) →
        m.balancer.rule = n.balancer.rule)

theorem Returns.spends {n' : Node σ} (h : n.Returns c e (.choose i) n')
    (apart : n.balancer.monitor.tracker.Apart) : n.Spends c e i n' := by
  obtain ⟨hbalancer, time, hreply⟩ := h.choice
  have hspends := n.balancer.spends_choose (n'.entry e).listing.instances i
  have hrule := Balancer.rule_choose apart (n'.entry e).listing.instances i
  have hmem {r : Replied} (hr : n'.reply? c = some r) : r ∈ n'.replies :=
    List.mem_of_find?_eq_some hr
  rw [← hbalancer] at hspends hrule
  cases hfound : (n.balancer.choose (n'.entry e).listing.instances i).1 with
  | some s =>
    rw [hfound] at hreply hspends hrule
    refine .answered (hmem hreply) rfl hspends ?_
    intro hprobe
    simpa [hprobe s rfl] using hrule
  | none =>
    rw [hfound] at hreply hspends hrule
    obtain ⟨cause, hreply⟩ := hreply
    exact .answered (hmem hreply) rfl hspends fun _ => hrule

/-- Whoever goes on has left the balancer alone so far, or has chosen now. -/
theorem GoesOn.spends {n' : Node σ} (h : n.GoesOn c e (.choose i) n')
    (apart : n.balancer.monitor.tracker.Apart) (ho : Orderly (⟨n', none, none⟩ : Midturn σ))
    (hbalancer : n'.balancer = n.balancer ∨ ∃ r ∈ n'.replies, r.call = c) :
    n.Spends c e i n' := by
  rcases h with hwaits | hreturns
  · refine .waits hwaits ?_
    rcases hbalancer with hsame | ⟨r, hr, hc⟩
    · exact hsame
    · obtain ⟨st, rests, -⟩ := hwaits
      exact absurd hc (ho.not_answered rests hr)
  · exact hreturns.spends apart

/-! ### Turns of one call alone -/

/-- The turn goes on with the call `c`, or lets time pass. -/
def Act.isFor (c : CallId) : Act σ → Bool
  | .resume c' => c' == c
  | .pass _ => true
  | _ => false

variable [Registry σ] {a : Act σ}

/-- Once a call has answered, going on with it only lets time pass. -/
theorem act_of_answered (ho : Orderly (⟨m, none, none⟩ : Midturn σ)) {r : Replied}
    (reply : r ∈ m.replies) (own : r.call = c) (ha : a.isFor c = true) :
    ∃ time, m.act a = { m with time } := by
  cases a with
  | call | callAfter => cases ha
  | pass ms => exact ⟨_, rfl⟩
  | resume c' =>
    have hc : c' = c := beq_iff_eq.mp ha
    have hrests : m.isAwake c' = false := by
      unfold isAwake
      cases hstage : m.stage? c' with
      | none => rfl
      | some st =>
        rw [hc] at hstage
        exact absurd own (ho.not_answered (mem_of_stage? hstage) reply)
    exact ⟨m.time, by simp [act, hrests]⟩

theorem Waits.balancer_or_answered (h : m.Waits c e (.choose i))
    (ho : Orderly (⟨m, none, none⟩ : Midturn σ)) (hawake : m.isAwake c = true) :
    (m.resume c).balancer = m.balancer ∨ ∃ r ∈ (m.resume c).replies, r.call = c := by
  obtain ⟨st, rests, hst⟩ := h
  obtain ⟨st', rests', -, onward⟩ := moves_resume m c hawake
  cases (ho.stage?_eq rests).symm.trans rests'
  refine onward.balancer_or_answered ?_
  rw [Stage.chooses?_point]
  cases st with
  | refreshing v after | fetching v due o after =>
    cases after <;> cases hst
    rfl
  | awaitingFirst v next =>
    cases hst
    rfl
  | _ => cases hst

theorem Spends.act (h : n.Spends c e i m) (apart : n.balancer.monitor.tracker.Apart)
    (ho : Orderly (⟨m, none, none⟩ : Midturn σ))
    (he : e < m.directory.entries.length) (ha : a.isFor c = true) :
    n.Spends c e i (m.act a) := by
  cases h with
  | answered reply own monitor rule =>
    obtain ⟨time, hact⟩ := act_of_answered ho reply own ha
    rw [hact]
    exact .answered reply own monitor rule
  | waits waits same =>
    cases a with
    | call | callAfter => cases ha
    | pass ms => exact .waits waits same
    | resume c' =>
      cases beq_iff_eq.mp ha
      cases hawake : m.isAwake c with
      | false =>
        have hact : m.act (.resume c) = m := by simp [Node.act, hawake]
        rw [hact]
        exact .waits waits same
      | true =>
        have hact : m.act (.resume c) = m.resume c := by simp [Node.act, hawake]
        have turn : LooseTurn m (m.resume c) := .resume m c hawake
        have hspends := (waits.turn ho he turn).spends (same ▸ apart)
          (Course.orderly (.single turn) ho) (waits.balancer_or_answered ho hawake)
        rw [hact]
        -- what the turn finds is what there was at the beginning
        cases hspends with
        | waits waits' same' => exact .waits waits' (same'.trans same)
        | answered reply own monitor rule =>
          rw [same] at monitor rule
          exact .answered reply own monitor rule

variable {acts : List (Act σ)}

/-- Whenever the call goes on by itself, it spends what one choice spends. -/
theorem Spends.follow {key : ServiceKey} (h : n.Spends c e i m)
    (apart : n.balancer.monitor.tracker.Apart) (ho : Orderly (⟨m, none, none⟩ : Midturn σ))
    (made : m.MadeFor key e) (alone : ∀ a ∈ acts, a.isFor c = true) :
    n.Spends c e i (m.follow acts) := by
  induction acts using List.reverseRecOn with
  | nil => exact h
  | append_singleton acts a ih =>
    obtain ⟨hacts, ha⟩ := List.forall_mem_append.mp alone
    have course := course_follow m acts
    rw [follow_concat]
    exact (ih hacts).act apart (course.orderly ho) (course.madeFor ho made).lt_length
      (ha a (List.mem_singleton_self a))

/-- Once a call has answered, it only lets time pass however often it is to go on. -/
theorem follow_of_answered (ho : Orderly (⟨m, none, none⟩ : Midturn σ)) {r : Replied}
    (reply : r ∈ m.replies) (own : r.call = c) (alone : ∀ a ∈ acts, a.isFor c = true) :
    ∃ time, m.follow acts = { m with time } := by
  induction acts using List.reverseRecOn with
  | nil => exact ⟨m.time, rfl⟩
  | append_singleton acts a ih =>
    obtain ⟨hacts, ha⟩ := List.forall_mem_append.mp alone
    obtain ⟨time, hfollow⟩ := ih hacts
    have ho' := (course_follow m acts).orderly ho
    rw [follow_concat]
    rw [hfollow] at ho' ⊢
    exact act_of_answered ho' reply own (ha a (List.mem_singleton_self a))

end Node

/-! ### Every choice -/

/-- **A choice spends the permit on the probe it returns, and touches nothing else.**

    From its beginning on nobody but the call itself moves, at whatever times.  As long as it has
    not answered, the balancer is as it was.  For a key that is not valid it is refused, and the
    balancer stays as it was.  When it has answered, the permit is that of its invocation if the
    answer is a probe, with the time at hand and one application granted, and else as it was with
    none granted; no statistics have changed, and those that are new are of servers of the view
    that could have been chosen; and the rule has moved on only if a server was selected that is
    not to be probed. -/
theorem choice_spends_only_on_its_probe [Registry σ] (registry : σ) (conf : Config)
    (policy : EmptyListPolicy) (now : Millis) (draws : Draws) {n n' : Node σ} {key : ServiceKey}
    {c : CallId} {i : Invocation} {acts : List (Node.Act σ)}
    (course : (Node.balancing registry conf policy now draws).Course n)
    (begins : Begins (.choose key i) c n n') (alone : ∀ a ∈ acts, a.isFor c = true) :
    let m := n'.follow acts
    ((∀ r ∈ m.replies, r.call ≠ c) → m.balancer = n.balancer) ∧
    (∀ cause, key.check = .error cause → m.balancer = n.balancer ∧
      ∃ r ∈ m.replies, r.call = c ∧ r.reply = .refused (.lookup cause)) ∧
    ∀ r ∈ m.replies, r.call = c →
      n.balancer.monitor.Spends i (m.entry (n.viewFor key)).listing.instances r.reply.isProbe
        m.balancer.monitor ∧
      ((∀ s, r.reply = .selected s → s.probe = true) → m.balancer.rule = n.balancer.rule) := by
  have untouched := Node.untouched_balancing registry conf policy now draws
  have ho := course.orderly (Sound.of_untouched untouched).orderly
  have ho' := begins.course.orderly ho
  have ho'' := (Node.course_follow n' acts).orderly ho'
  cases hcheck : key.check with
  | ok =>
    have apart : n.balancer.monitor.tracker.Apart :=
      (course.keeps_monitor (fun h => h.perform _) (Monitor.obeys_monitor conf now)).apart
    obtain ⟨hgoes, made⟩ := begins.goesOn_choose ho (course.booked untouched rfl).filed hcheck
    have hspends : n.Spends c (n.viewFor key) i (n'.follow acts) :=
      (hgoes.spends apart ho' begins.balancer_or_answered).follow apart ho' made alone
    refine ⟨?_, by simp, ?_⟩
    · intro hnone
      cases hspends with
      | waits _ same => exact same
      | answered reply own => exact absurd own (hnone _ reply)
    · intro r hr hc
      cases hspends with
      | waits hwaits =>
        obtain ⟨st, rests, -⟩ := hwaits
        exact absurd hc (ho''.not_answered rests hr)
      | answered reply own monitor rule =>
        cases ho''.reply_unique hr reply (hc.trans own.symm)
        exact ⟨monitor, rule⟩
  | error cause =>
    obtain ⟨hsame, hreply⟩ := begins.choose_invalid hcheck
    obtain ⟨time, hfollow⟩ := Node.follow_of_answered ho' hreply rfl alone
    have hkept : (n'.follow acts).balancer = n.balancer := by
      rw [hfollow]
      exact hsame
    have hreplied : (⟨c, n.time, .refused (.lookup cause)⟩ : Replied) ∈
        (n'.follow acts).replies := by
      rw [hfollow]
      exact hreply
    refine ⟨fun _ => hkept, ?_, ?_⟩
    · rintro cause' hcause
      cases hcause
      exact ⟨hkept, _, hreplied, rfl, rfl⟩
    · intro r hr hc
      cases ho''.reply_unique hr hreplied hc
      rw [hkept]
      exact ⟨.refl i _ _, fun _ => rfl⟩

namespace Screened

/-- As before, but nobody has come to probe `a` yet. -/
def rested : Node Script :=
  start.follow [.call (.choose key "1"), .pass 50, .resume 0, .call (.finish "1" false),
    .call (.choose key "2"), .call (.choose key "3"), .call (.finish "3" false),
    .call (.advanceClock 60001)]

def probe : Node Script := (rested.call (.choose key "p")).2

end Screened

/-- The next invocation takes the permit, which was free, to probe `a`. -/
theorem choice_spends_only_on_its_probe_of_a :
    Screened.start.Course Screened.rested ∧
      Begins (.choose Screened.key "p") 6 Screened.rested Screened.probe ∧
      (∀ a ∈ [Node.Act.pass 1, .resume 6], a.isFor (σ := Script) 6 = true) ∧
      Screened.rested.balancer.monitor.permit.token = none ∧
      Screened.rested.balancer.monitor.Spends "p" [Screened.a, Screened.b] true
        (Screened.probe.follow [.pass 1, .resume 6]).balancer.monitor := by
  have course : Screened.start.Course Screened.rested := Node.course_follow ..
  have begins : Begins (.choose Screened.key "p") 6 Screened.rested Screened.probe :=
    .now _ (by decide)
  have alone : ∀ a ∈ [Node.Act.pass 1, .resume 6], a.isFor (σ := Script) 6 = true := by decide
  have reply : ⟨6, 50, .selected (.of Screened.a "p" true)⟩ ∈
      (Screened.probe.follow [.pass 1, .resume 6]).replies := by decide
  obtain ⟨-, -, hspends⟩ := choice_spends_only_on_its_probe _ Screened.config .retainNonEmpty 0
    default course begins alone
  exact ⟨course, begins, alone, by decide, (hspends _ reply rfl).1⟩

end ServiceFinder
