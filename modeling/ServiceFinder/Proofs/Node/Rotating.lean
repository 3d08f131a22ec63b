/-
  ServiceFinder/Proofs/Node/Rotating.lean
  =======================================
  **How evenly a node's calls are spread over the servers of a key.**

  A balancer has one rule for all keys.  Nothing but a choice takes a turn of it, and a choice
  takes one just when it selects a server that is not to be probed.  So with rotation the turns
  are numbered through all keys, in the order in which their choices are made.  What a key gets
  of them decides whether its servers are served evenly, and that is not up to the key: two keys
  with two servers each that take turns always get the same server.
-/
import ServiceFinder.Proofs.Balance.Rotation
import ServiceFinder.Proofs.Node.Selecting

namespace ServiceFinder

variable {σ : Type}

/-! ### What a turn takes of the rule -/

/-- The running call, if it is to choose a server. -/
def Midturn.chooserCall? (s : Midturn σ) : Option CallId :=
  s.running.bind fun run => run.2.chooses?.map fun _ => run.1

theorem Midturn.chooserCall?_some {n : Node σ} {c c' : CallId} {p : Point σ}
    {k : Option (CallId × Bool × List EntryId)}
    (h : Midturn.chooserCall? ⟨n, some (c, p), k⟩ = some c') : c = c' ∧ p.chooses?.isSome := by
  cases hp : p.chooses? with
  | none => simp [chooserCall?, hp] at h
  | some i =>
    refine ⟨?_, rfl⟩
    simpa [chooserCall?, hp] using h

/-- What a move does to the rule: nothing, unless the call that is to choose chooses. -/
inductive Midturn.Rotates (s s' : Midturn σ) : Prop where
  | same (rule : s'.node.balancer.rule = s.node.balancer.rule)
      (chooser : ∀ c, s'.chooserCall? = some c → s.chooserCall? = some c)
  | chosen {c r} (before : s.chooserCall? = some c) (after : s'.running = some (c, .replying r))

theorem Node.rule_publish (n : Node σ) (c : CallId) (changed : List EntryId) :
    (n.publish c changed).balancer.rule = n.balancer.rule := by
  rw [← n.balancer_evictAll changed]
  unfold publish notify
  split
  · rfl
  · rfl
  · split <;> rfl

theorem Quiet.rotates {c : CallId} {n n' : Node σ} {p p' : Point σ} (q : Quiet c n p n' p')
    (k : Option (CallId × Bool × List EntryId)) :
    Midturn.Rotates ⟨n, some (c, p), k⟩ ⟨n', some (c, p'), k⟩ := by
  have hover (hrule : n'.balancer.rule = n.balancer.rule) (hp : p'.chooses? = none) :
      Midturn.Rotates ⟨n, some (c, p), k⟩ ⟨n', some (c, p'), k⟩ := by
    refine .same hrule ?_
    intro c' h
    simp [Midturn.chooserCall?, hp] at h
  cases q with
  | turn h =>
    obtain ⟨-, hsame | hnone⟩ := Node.chooses?_of_turnsTo h
    · refine .same rfl ?_
      intro c' h'
      simpa [Midturn.chooserCall?, hsame] using h'
    · exact hover rfl hnone
  | @aside _ op _ h =>
    refine hover ?_ rfl
    cases hop : op.isDirect with
    | false => exact congrArg Balancer.rule (Node.balancer_of_aside h hop)
    | true =>
      cases op with
      | finish i success =>
        simp only [Node.aside] at h
        split at h <;> cases h <;> rfl
      | applyForPermit | checkAndReleasePermit | releasePermit | setClock | advanceClock =>
        cases h
        rfl
      | _ => cases hop
  | find => exact .same rfl fun _ h => h
  | view e => exact hover (congrArg Balancer.rule (n.balancer_evictIfGone e)) rfl
  | choose e i => exact .chosen rfl rfl
  | sweepFree | sweepTaken | forceFree | sweepNone => exact hover rfl rfl
  | close forced members => exact hover (n.rule_publish c _) rfl
  | publish change changed => exact hover (n.rule_publish c _) rfl

/-- **Nothing but a choice takes a turn of the rule.** -/
theorem Move.rotates [Registry σ] {s s' : Midturn σ} (m : Move s s') (busy : s.busy = true) :
    s.Rotates s' := by
  cases m with
  | call | callAfter | wake => cases busy
  | @quiet n n' c k p p' q => exact q.rotates k
  | @lock n c k e job h =>
    refine .same rfl ?_
    intro c' h'
    rwa [Midturn.chooserCall?, Option.bind_some, job.chooses?_point e] at h'
  | startPuller n c k interval =>
    refine .same ?_ (by simp [Midturn.chooserCall?, Point.chooses?])
    rw [n.startPuller_eq]
  | create | beginFirst | endFirst | askNow | hear => exact .same rfl fun _ h => h
  | _ => exact .same rfl (by simp [Midturn.chooserCall?, Point.chooses?])

/-- A call that runs to its next wait takes a turn only if it is to choose, and then it has
    answered. -/
theorem Onward.rule [Registry σ] {n n' : Node σ} {c : CallId} {p : Point σ}
    (onward : Onward ⟨n, some (c, p), none⟩ ⟨n', none, none⟩)
    (ho : Orderly ⟨n, some (c, p), none⟩) :
    n'.balancer.rule = n.balancer.rule ∨
      p.chooses?.isSome ∧ ∃ r ∈ n'.replies, r.call = c := by
  let I (s : Midturn σ) : Prop := Orderly s ∧
    (s.node.balancer.rule = n.balancer.rule ∧
        (∀ c', s.chooserCall? = some c' → c = c' ∧ p.chooses?.isSome) ∨
      p.chooses?.isSome ∧
        ((∃ r, s.running = some (c, .replying r)) ∨ ∃ r ∈ s.node.replies, r.call = c))
  have hI : I ⟨n', none, none⟩ := by
    refine onward.keeps ?_ ⟨ho, .inl ⟨rfl, fun c' h => Midturn.chooserCall?_some h⟩⟩
    rintro s s' busy ⟨ho, h⟩ m
    refine ⟨ho.move m, ?_⟩
    rcases h with ⟨hrule, hchooser⟩ | ⟨hp, ⟨r, hrun⟩ | ⟨r, hr, hc⟩⟩
    · cases m.rotates busy with
      | same hsame hchooser' =>
        exact .inl ⟨hsame.trans hrule, fun c' h => hchooser c' (hchooser' c' h)⟩
      | @chosen c' r hbefore hafter =>
        obtain ⟨rfl, hp⟩ := hchooser c' hbefore
        exact .inr ⟨hp, .inl ⟨r, hafter⟩⟩
    · -- an answer is all that is left to do
      rcases s with ⟨m₀, running, k⟩
      cases hrun
      cases m with
      | quiet q =>
        cases q with
        | turn h => cases h
      | answer => exact .inr ⟨hp, .inr ⟨_, List.mem_cons_self, rfl⟩⟩
    · exact .inr ⟨hp, .inr ⟨r, m.replies_subset hr, hc⟩⟩
  rcases hI.2 with ⟨hrule, -⟩ | ⟨hp, ⟨r, hrun⟩ | hanswered⟩
  · exact .inl hrule
  · cases hrun
  · exact .inr ⟨hp, hanswered⟩

namespace Node

/-! ### Picks -/

/-- The view that a resting call is to choose a server from, when it goes on now. -/
def choosesFrom? (n : Node σ) : Stage σ → Option EntryId
  | .scheduled _ (.choose key _) => some (n.viewFor key)
  | .refreshing e (.first (.choose _)) | .fetching e _ _ (.first (.choose _))
  | .awaitingFirst e (.choose _) => some e
  | _ => none

theorem exists_choosesFrom? (n : Node σ) {st : Stage σ} (h : st.chooses?.isSome) :
    ∃ e, n.choosesFrom? st = some e := by
  cases st with
  | scheduled due op =>
    cases op with
    | choose key i => exact ⟨_, rfl⟩
    | _ => cases h
  | refreshing e next | fetching e due o next =>
    cases next with
    | first next =>
      cases next with
      | choose i => exact ⟨e, rfl⟩
      | _ => cases h
    | _ => cases h
  | awaitingFirst e next =>
    cases next with
    | choose i => exact ⟨e, rfl⟩
    | _ => cases h
  | _ => cases h

/-- The call that a loose turn goes on with, if it is to choose a server, and from which view. -/
def chooser? (n : Node σ) : Act σ → Option (CallId × EntryId)
  | .call (.choose key _) => some (n.nextCall, n.viewFor key)
  | .resume c =>
    if n.isAwake c then ((n.stage? c).bind n.choosesFrom?).map ((c, ·)) else none
  | _ => none

theorem reply?_eq_some {n : Node σ} {c : CallId} (ho : Orderly (⟨n, none, none⟩ : Midturn σ))
    {r : Replied}
    (hr : r ∈ n.replies) (hc : r.call = c) : n.reply? c = some r := by
  unfold reply?
  cases hfind : n.replies.find? (·.call == c) with
  | none =>
    have hne := List.find?_eq_none.mp hfind r hr
    exact absurd (beq_iff_eq.mpr hc) hne
  | some r' =>
    have hc' : r'.call = c := by simpa using List.find?_some hfind
    rw [ho.reply_unique (List.mem_of_find?_eq_some hfind) hr (hc'.trans hc.symm)]

/-- What a choice that was made in a turn has answered, and what it has made of the rule. -/
theorem Returns.choice {n n' : Node σ} {c : CallId} {e : EntryId} {i : Invocation}
    (h : n.Returns c e (.choose i) n') :
    let chosen := n.balancer.choose (n'.entry e).listing.instances i
    n'.balancer = chosen.2 ∧ ∃ time,
      match chosen.1 with
      | some s => n'.reply? c = some ⟨c, time, .selected s⟩
      | none => ∃ cause, n'.reply? c = some ⟨c, time, .refused cause⟩ := by
  cases h with
  | now m balancer ended =>
    let k := m.evictIfGone e
    have hk : k.balancer = n.balancer := (m.balancer_evictIfGone e).trans balancer
    have hafter : m.afterFirst c e (.choose i) = (k.choice e i).2.answer c (k.choice e i).1 := by
      rw [afterFirst, choose_eq]
    have hentry : ((k.choice e i).2.answer c (k.choice e i).1).entry e = k.entry e := by
      rw [Node.entry, answer, (k.rest_of_choice e i).1]
      rfl
    have hreply : ((k.choice e i).2.answer c (k.choice e i).1).reply? c =
        some ⟨c, (k.choice e i).2.time, (k.choice e i).1⟩ := by
      simp [reply?, answer]
    rw [hafter, hentry, hreply, ← hk]
    unfold Node.choice
    rcases k.balancer.choose (k.entry e).listing.instances i with ⟨_ | s, balancer⟩
    · exact ⟨rfl, _, _, rfl⟩
    · exact ⟨rfl, _, rfl⟩

variable [Registry σ]

/-- The selection that is made in a loose turn, if one is. -/
def pick? (n : Node σ) (a : Act σ) : Option Pick :=
  (n.chooser? a).bind fun (c, e) =>
    let view := (n.act a).entry e
    match (n.act a).reply? c with
    | some ⟨_, _, .selected selection⟩ =>
      some { key := view.key, selection,
             candidates := n.balancer.monitor.candidates view.listing.instances }
    | _ => none

/-- All selections, in the order in which they are made. -/
def picks (n : Node σ) : List (Act σ) → List Pick
  | [] => []
  | a :: acts => (n.pick? a).toList ++ (n.act a).picks acts

/-- The selections that take a turn: all that are not probes. -/
def turns (n : Node σ) (acts : List (Act σ)) : List Pick :=
  (n.picks acts).filter (!·.selection.probe)

/-! ### What a call that is to choose makes of its turn -/

section Turns

variable {n : Node σ} {a : Act σ} {c : CallId} {e : EntryId} {registry : σ} {conf : Config}
  {policy : EmptyListPolicy} {now : Millis} {draws : Draws} {t : Nat}

theorem goesOn_resume {st : Stage σ} {next : AfterFirst} (hl : InLine (⟨n, none, none⟩ : Midturn σ))
    (rests : n.stage? c = some st) (awake : n.awake c st = true)
    (hst : st.errand? = some (e, next)) : n.GoesOn c e next (n.resume c) := by
  unfold Node.resume
  rw [rests]
  cases st with
  | refreshing v after =>
    cases after <;> cases hst
    exact goesOn_fetch (k := n.unrest c) rfl (lt_length_of_writes (beq_iff_eq.mp awake))
  | fetching v due o after =>
    cases after <;> cases hst
    have he : e < n.directory.entries.length :=
      lt_length_of_writes (hl.resting (mem_of_stage? rests) rfl)
    exact goesOn_endFetch (n := n) (k := n.unrest c) (c := c) rfl he o
  | awaitingFirst v next =>
    cases hst
    exact .inr (.now (n.unrest c) rfl (beq_iff_eq.mp awake))
  | _ => cases hst

/-- A turn that goes on with a call that is to choose leaves it waiting, or finds the first
    refresh over, or refuses the key. -/
theorem goesOn_of_chooser? (hs : Sound (⟨n, none, none⟩ : Midturn σ)) (hf : Filed n)
    (h : n.chooser? a = some (c, e)) :
    (∃ i, n.GoesOn c e (.choose i) (n.act a)) ∨
      (n.act a).balancer = n.balancer ∧
        ∃ time cause, (n.act a).replies.head? = some ⟨c, time, .refused cause⟩ := by
  have hbegins {key : ServiceKey} {i : Invocation} (begins : Begins (.choose key i) c n (n.act a))
      (he : n.viewFor key = e) : (∃ i, n.GoesOn c e (.choose i) (n.act a)) ∨
      (n.act a).balancer = n.balancer ∧
        ∃ time cause, (n.act a).replies.head? = some ⟨c, time, .refused cause⟩ := by
    cases hcheck : key.check with
    | ok =>
      rw [← he]
      exact .inl ⟨i, (begins.goesOn_choose hs.orderly hf hcheck).1⟩
    | error cause =>
      have hstart (k : Node σ) :
          k.start c (.choose key i) = k.answer c (.refused (.lookup cause)) := by
        simp only [Node.start, Node.lookup, hcheck]
      generalize n.act a = n' at begins
      cases begins with
      | now hc =>
        subst hc
        rw [show (n.call (.choose key i)).2 = _ from hstart n.newCall.2]
        exact .inr ⟨rfl, _, _, rfl⟩
      | later rests hdue =>
        have hresume : n.resume c = (n.unrest c).start c (.choose key i) := by
          rw [Node.resume, rests]
        rw [hresume, hstart]
        exact .inr ⟨rfl, _, _, rfl⟩
  cases a with
  | call op =>
    cases op with
    | choose key i =>
      cases h
      exact hbegins (.now n rfl) rfl
    | _ => cases h
  | callAfter | pass => cases h
  | resume c' =>
    simp only [chooser?] at h
    split at h
    · rename_i hawake
      obtain ⟨v, hv, heq⟩ := Option.map_eq_some_iff.mp h
      cases heq
      obtain ⟨st, rests, hfrom⟩ := Option.bind_eq_some_iff.mp hv
      have hact : n.act (.resume c) = n.resume c := if_pos hawake
      have hst : n.awake c st = true := by simpa [isAwake, rests] using hawake
      by_cases hscheduled : ∃ due op, st = .scheduled due op
      · obtain ⟨due, op, rfl⟩ := hscheduled
        cases op with
        | choose key i =>
          refine hbegins (i := i) ?_ (Option.some.inj hfrom)
          rw [hact]
          exact .later rests (of_decide_eq_true hst)
        | _ => cases hfrom
      · suffices ∃ i, st.errand? = some (e, .choose i) by
          obtain ⟨i, hi⟩ := this
          rw [hact]
          exact .inl ⟨i, goesOn_resume hs.inLine rests hst hi⟩
        unfold choosesFrom? at hfrom
        split at hfrom
        · exact absurd ⟨_, _, rfl⟩ hscheduled
        all_goals cases hfrom
        all_goals exact ⟨_, rfl⟩
    · cases h

/-- A turn that takes a turn of the rule is one of a call that is to choose, and answers it. -/
theorem rule_act (hs : Sound (⟨n, none, none⟩ : Midturn σ)) (a : Act σ) :
    (n.act a).balancer.rule = n.balancer.rule ∨
      ∃ c e, n.chooser? a = some (c, e) ∧ ∃ r ∈ (n.act a).replies, r.call = c := by
  cases a with
  | call op =>
    have ho := hs.orderly.move (.call n op)
    rcases (moves_starting n.newCall.2 n.nextCall op).rule ho with hrule | ⟨hop, hanswered⟩
    · exact .inl hrule
    · cases op with
      | choose key i => exact .inr ⟨_, _, rfl, hanswered⟩
      | _ => cases hop
  | callAfter | pass => exact .inl rfl
  | resume c =>
    cases hawake : n.isAwake c with
    | false =>
      have hact : n.act (.resume c) = n := by simp [act, hawake]
      rw [hact]
      exact .inl rfl
    | true =>
      obtain ⟨st, rests, awake, onward⟩ := moves_resume n c hawake
      have hact : n.act (.resume c) = n.resume c := if_pos hawake
      rw [hact]
      rcases onward.rule (hs.orderly.move (.wake rests awake)) with hrule | ⟨hst, hanswered⟩
      · exact .inl hrule
      · rw [Stage.chooses?_point] at hst
        obtain ⟨e, he⟩ := n.exists_choosesFrom? hst
        exact .inr ⟨c, e, by simp [chooser?, hawake, rests, he], hanswered⟩

/-- What a turn makes of the rule, by the selection that is made in it. -/
inductive ActTurns (n : Node σ) (a : Act σ) : Prop where
  | idle (none : n.pick? a = none) (rule : (n.act a).balancer.rule = n.balancer.rule)
  | probe {p} (some : n.pick? a = some p) (probe : p.selection.probe = true)
      (rule : (n.act a).balancer.rule = n.balancer.rule)
  | turn {p} (picks : n.pick? a = some p) (plain : p.selection.probe = false)
      (next : n.balancer.rule.next p.candidates = (some p.selection.server, (n.act a).balancer.rule))

/-- **A turn of the rule is taken just when a server is selected that is not to be probed.** -/
theorem actTurns (hs : Sound (⟨n, none, none⟩ : Midturn σ)) (hf : Filed n)
    (apart : n.balancer.monitor.tracker.Apart) (a : Act σ) : n.ActTurns a := by
  have ho : Orderly (⟨n.act a, none, none⟩ : Midturn σ) := (course_act n a).orderly hs.orderly
  have hrule := rule_act hs a
  cases hchooser : n.chooser? a with
  | none =>
    refine .idle (by rw [pick?, hchooser]; rfl) ?_
    rcases hrule with hrule | ⟨c, e, hsome, -⟩
    · exact hrule
    · cases hchooser.symm.trans hsome
  | some run =>
    obtain ⟨c, e⟩ := run
    rcases goesOn_of_chooser? hs hf hchooser with
      ⟨i, ⟨st, rests, -⟩ | hreturns⟩ | ⟨hbalancer, hrefused⟩
    · have hnone : (n.act a).reply? c = none := by
        refine List.find?_eq_none.mpr ?_
        intro r hr
        simpa using ho.not_answered rests hr
      refine .idle (by simp [pick?, hchooser, hnone]) ?_
      rcases hrule with hrule | ⟨c', e', hsome, r, hr, hc⟩
      · exact hrule
      · cases hchooser.symm.trans hsome
        exact absurd hc (ho.not_answered rests hr)
    · obtain ⟨hbalancer, time, hreply⟩ := hreturns.choice
      have hchoose := Balancer.rule_choose apart ((n.act a).entry e).listing.instances i
      cases hfound : (n.balancer.choose ((n.act a).entry e).listing.instances i).1 with
      | none =>
        rw [hfound] at hreply hchoose
        obtain ⟨cause, hreply⟩ := hreply
        exact .idle (by simp [pick?, hchooser, hreply]) (hbalancer ▸ hchoose)
      | some s =>
        rw [hfound] at hreply hchoose
        have hpick : n.pick? a = some
            { key := ((n.act a).entry e).key, selection := s,
              candidates := n.balancer.monitor.candidates
                ((n.act a).entry e).listing.instances } := by
          simp [pick?, hchooser, hreply]
        cases hprobe : s.probe with
        | true =>
          simp only [hprobe, if_true] at hchoose
          exact .probe hpick hprobe (hbalancer ▸ hchoose)
        | false =>
          simp only [hprobe] at hchoose
          exact .turn hpick hprobe (hbalancer ▸ hchoose)
    · obtain ⟨time, cause, hhead⟩ := hrefused
      have hreply := reply?_eq_some ho (List.mem_of_head? hhead) rfl
      exact .idle (by simp [pick?, hchooser, hreply]) (congrArg Balancer.rule hbalancer)

/-- The turns that a course takes are numbered on and on. -/
theorem inTurn_turns (course : (balancing registry conf policy now draws).Course n)
    (rule : n.balancer.rule = .roundRobin ⟨UInt64.ofNat t⟩) (acts : List (Act σ)) :
    (n.follow acts).balancer.rule = .roundRobin ⟨UInt64.ofNat (t + (n.turns acts).length)⟩ ∧
      (t + (n.turns acts).length ≤ UInt64.size → InTurn t (n.turns acts)) := by
  induction acts generalizing n t with
  | nil => exact ⟨rule, fun _ => nofun⟩
  | cons a acts ih =>
    have untouched := untouched_balancing registry conf policy now draws
    have apart : n.balancer.monitor.tracker.Apart :=
      course.keeps_monitor (J := (·.tracker.Apart)) (fun h => Monitor.apart_perform h _)
        Tracker.apart_empty
    have hnext := course.trans (n.course_act a)
    have hskip (hrule : (n.act a).balancer.rule = n.balancer.rule)
        (hturns : n.turns (a :: acts) = (n.act a).turns acts) :
        (n.follow (a :: acts)).balancer.rule =
            .roundRobin ⟨UInt64.ofNat (t + (n.turns (a :: acts)).length)⟩ ∧
          (t + (n.turns (a :: acts)).length ≤ UInt64.size →
            InTurn t (n.turns (a :: acts))) := by
      rw [hturns]
      exact ih hnext (hrule.trans rule)
    cases n.actTurns (course.sound untouched) (course.booked untouched rfl).filed apart a with
    | idle hnone hrule => exact hskip hrule (by simp [turns, picks, hnone])
    | probe hsome hprobe hrule => exact hskip hrule (by simp [turns, picks, hsome, hprobe])
    | @turn p hsome hplain htake =>
      have hturns : n.turns (a :: acts) = p :: (n.act a).turns acts := by
        simp [turns, picks, hsome, hplain]
      rw [rule] at htake
      obtain ⟨hserver, hrule⟩ := Rule.next_roundRobin htake
      rw [← UInt64.ofNat_one, ← UInt64.ofNat_add] at hrule
      obtain ⟨hafter, hrest⟩ := ih hnext hrule
      have hlength : t + (n.turns (a :: acts)).length =
          t + 1 + ((n.act a).turns acts).length := by
        rw [hturns, List.length_cons]
        omega
      rw [hlength]
      refine ⟨hafter, ?_⟩
      intro hwrap
      have hlt : t < UInt64.size := by omega
      rw [UInt64.toNat_ofNat_of_lt' hlt] at hserver
      rw [hturns]
      exact inTurn_cons.mpr ⟨hserver, hrest hwrap⟩

end Turns

/-! ### Whole courses -/

/-- **The turns of all keys are numbered as one, and a key is served evenly if the turns in
    between let it.**

    From any moment on, whatever else is going on, each selection takes the next turn of the
    balancer and with it the position that the number of the turn says, unless it is a probe; and
    nothing else takes one.  A key whose candidates stay the same is gone round evenly if, from
    each of its turns to the next, the number of turns for others is a multiple of the number of
    its candidates. -/
theorem keys_served_evenly (registry : σ) (conf : Config) (policy : EmptyListPolicy)
    (now : Millis) (draws : Draws) (rotates : conf.rule = .roundRobin)
    (earlier acts : List (Act σ)) :
    let start := balancing registry conf policy now draws
    let n := start.follow earlier
    let c := (start.turns earlier).length
    let turns := n.turns acts
    c + turns.length ≤ UInt64.size →
      (n.follow acts).balancer.rule = .roundRobin ⟨UInt64.ofNat (c + turns.length)⟩ ∧
      InTurn c turns ∧ ∀ key servers, (∀ p ∈ turns, p.key = key → p.candidates = servers) →
        Spaced key servers.length c turns →
          let chosen := (picksFor key turns).map (·.selection.server)
          Even servers chosen ∧ (servers.Nodup →
            ∀ s ∈ servers, ∀ s' ∈ servers, chosen.count s ≤ chosen.count s' + 1) := by
  intro start n c turns nowrap
  have hstart : start.balancer.rule = .roundRobin ⟨UInt64.ofNat 0⟩ :=
    congrArg (Rule.ofKind draws) rotates
  have course : start.Course start := .refl
  have hbefore := (inTurn_turns course hstart earlier).1
  rw [Nat.zero_add] at hbefore
  obtain ⟨hafter, hturns⟩ := inTurn_turns (start.course_follow earlier) hbefore acts
  refine ⟨hafter, hturns nowrap, ?_⟩
  intro key servers same spaced chosen
  have heven := (hturns nowrap).even same spaced
  exact ⟨heven, fun nodup s hs s' hs' => heven.count_le nodup hs hs'⟩

end Node

namespace Rotated

def orders : ServiceKey := ⟨"client", "shop", "orders", everyVersion⟩

def stock : ServiceKey := ⟨"client", "shop", "stock", everyVersion⟩

def server (id : String) : Instance :=
  { instanceId := id, serviceId := "v1", endpoints := ["rest://" ++ id] }

/-- Two services with two servers each. -/
def registry : Script :=
  ⟨[(orders, [⟨.found ⟨[server "a", server "b"], some "1"⟩, 0⟩]),
    (stock, [⟨.found ⟨[server "c", server "d"], some "1"⟩, 0⟩])]⟩

def start : Node Script := .balancing registry {} .retainNonEmpty 0 default

def choices (keys : List ServiceKey) : List (Node.Act Script) :=
  keys.map fun key => .call (.choose key "i")

/-- One choice for each service in turn. -/
def alternating : List (Node.Act Script) := choices [orders, stock, orders, stock]

/-- Another choice came before. -/
def before : List (Node.Act Script) := choices [stock]

/-- Two choices for the other service come in between. -/
def spaced : List (Node.Act Script) := choices [orders, stock, stock, orders]

end Rotated

/-- **Two services that take turns always get the same server each.** -/
theorem alternating_keys_starve_servers :
    let picks := Rotated.start.picks Rotated.alternating
    (∀ p ∈ picks, p.selection.probe = false) ∧ picks.length ≤ UInt64.size ∧
      (∀ p ∈ picks, p.key = Rotated.orders →
        p.candidates = [Rotated.server "a", Rotated.server "b"]) ∧
      (∀ p ∈ picks, p.key = Rotated.stock →
        p.candidates = [Rotated.server "c", Rotated.server "d"]) ∧
      (picksFor Rotated.orders picks).map (·.selection.server) =
        [Rotated.server "a", Rotated.server "a"] ∧
      (picksFor Rotated.stock picks).map (·.selection.server) =
        [Rotated.server "d", Rotated.server "d"] := by
  decide

/-- With two choices for another service in between, both servers get one. -/
theorem spaced_keys_served_evenly :
    let c := (Rotated.start.turns Rotated.before).length
    let turns := (Rotated.start.follow Rotated.before).turns Rotated.spaced
    let servers := [Rotated.server "a", Rotated.server "b"]
    let chosen := (picksFor Rotated.orders turns).map (·.selection.server)
    (c + turns.length ≤ UInt64.size ∧
      (∀ p ∈ turns, p.key = Rotated.orders → p.candidates = servers) ∧
      Spaced Rotated.orders servers.length c turns) ∧
    chosen = [Rotated.server "b", Rotated.server "a"] ∧ Even servers chosen ∧
      chosen.count (Rotated.server "a") ≤ chosen.count (Rotated.server "b") + 1 := by
  intro c turns servers chosen
  have nowrap : c + turns.length ≤ UInt64.size := by decide
  have same : ∀ p ∈ turns, p.key = Rotated.orders → p.candidates = servers := by decide
  have spaced : Spaced Rotated.orders servers.length c turns := by decide
  obtain ⟨-, -, hkeys⟩ := Node.keys_served_evenly Rotated.registry {} .retainNonEmpty 0 default rfl
    Rotated.before Rotated.spaced nowrap
  obtain ⟨heven, hcount⟩ := hkeys Rotated.orders servers same spaced
  exact ⟨⟨nowrap, same, spaced⟩, by decide, heven,
    hcount (by decide) _ (by decide) _ (by decide)⟩

end ServiceFinder
