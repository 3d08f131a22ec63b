/-
  ServiceFinder/Proofs/Node/Course.lean
  =====================================
  **The courses that a node can take.**

  First each function that takes a call to its next wait is shown to be a run of
  moves, from the end of a call back to its start.  Then turns and courses follow.

  Two kinds of courses are told apart.  Under `Turn` time stands still while any call
  is awake.  Under `LooseTurn` it may pass at any moment, as on a machine that is too
  busy to resume everyone in time.  What every move keeps and time does not spoil holds
  on every course: `Course.keeps` is the induction that the proofs below go through.
-/
import ServiceFinder.Proofs.Node.Move

namespace ServiceFinder

variable {σ : Type} [Registry σ]

open Node

/-! ### From a point to the next wait -/

section Points

variable (n : Node σ) (c : CallId) (k : Option (CallId × Bool × List EntryId))

theorem moves_replying (r : Reply) :
    Onward ⟨n, some (c, .replying r), k⟩ ⟨n.answer c r, none, k⟩ :=
  .single ⟨rfl, .answer n c k r⟩

theorem moves_passed (e : EntryId) (next : AfterFirst) :
    Onward ⟨n, some (c, .passed e next), k⟩ ⟨n.afterFirst c e next, none, k⟩ := by
  cases next with
  | done => exact .head ⟨rfl, .quiet (.turn rfl)⟩ (moves_replying n c k .done)
  | view => exact .head ⟨rfl, .quiet (.view n e)⟩ (moves_replying ..)
  | choose i =>
    rw [afterFirst, choose_eq]
    exact .head ⟨rfl, .quiet (.choose n e i)⟩ (moves_replying ..)

theorem moves_closing (forced : Bool) (members : List Member) :
    Onward ⟨n, some (c, .closing forced members), k⟩ ⟨n.endPass c forced members, none, k⟩ :=
  .head ⟨rfl, .quiet (.close n forced members)⟩ (moves_replying ..)

theorem moves_memberDone (e : EntryId) (status : CacheStatus) (sweep : CallId) :
    Onward ⟨n, some (c, .refreshed e status (.member sweep)), k⟩
      ⟨n.memberDone sweep e status, none, k⟩ := by
  unfold memberDone
  split
  · rename_i forced members rests
    dsimp only
    split
    · rename_i h
      exact .head ⟨rfl, .lastMember rests h⟩ (moves_closing ..)
    · rename_i h
      exact .single ⟨rfl, .member rests (Bool.eq_false_iff.mpr h)⟩
  · rename_i h
    exact .single ⟨rfl, .stray fun forced members => h forced members⟩

theorem moves_refreshed (e : EntryId) (status : CacheStatus) (next : AfterRefresh) :
    Onward ⟨n, some (c, .refreshed e status next), k⟩
      ⟨n.afterRefresh c e status next, none, k⟩ := by
  cases next with
  | status => exact .head ⟨rfl, .quiet (.turn rfl)⟩ (moves_replying ..)
  | first next => exact .head ⟨rfl, .endFirst n c k e status next⟩ (moves_passed ..)
  | member sweep => exact moves_memberDone ..

theorem moves_heard (e : EntryId) (o : Outcome) (next : AfterRefresh) :
    Onward ⟨n, some (c, .heard e o next), k⟩ ⟨n.endFetch c e o next, none, k⟩ :=
  .head ⟨rfl, .hear n c k e o next⟩ (moves_refreshed ..)

theorem moves_asking (e : EntryId) (next : AfterRefresh) :
    Onward ⟨n, some (c, .asking e next), k⟩ ⟨n.fetch c e next, none, k⟩ := by
  have hfetch : n.fetch c e next =
      if n.waitFor e = 0 then (n.asked c e next).endFetch c e (n.outcomeFor e) next
      else (n.asked c e next).rest c
        (.fetching e (n.time + n.waitFor e) (n.outcomeFor e) next) := rfl
  rw [hfetch]
  split
  · rename_i h
    exact .head ⟨rfl, .askNow h⟩ (moves_heard ..)
  · rename_i h
    exact .single ⟨rfl, .ask h⟩

theorem moves_lining_refresh (e : EntryId) (next : AfterRefresh) :
    Onward ⟨n, some (c, .lining e (.refresh next)), k⟩ ⟨n.refresh c e next, none, k⟩ := by
  unfold Node.refresh
  dsimp only
  split
  · rename_i h
    exact .head ⟨rfl, .lock h⟩ (moves_asking ..)
  · rename_i h
    exact .single ⟨rfl, .wait (Bool.eq_false_iff.mpr h)⟩

theorem moves_ensuring (e : EntryId) (next : AfterFirst) :
    Onward ⟨n, some (c, .ensuring e next), k⟩ ⟨n.ensureFirst c e next, none, k⟩ := by
  unfold ensureFirst
  split
  · rename_i h
    exact .head ⟨rfl, .quiet (.turn (by simp [turnsTo, h]))⟩ (moves_passed ..)
  · rename_i h
    exact .single ⟨rfl, .awaitFirst h⟩
  · rename_i h
    exact .head ⟨rfl, .beginFirst h⟩ (moves_lining_refresh ..)

theorem moves_looking (key : ServiceKey) (next : AfterFirst) :
    Onward ⟨n, some (c, .looking key next), k⟩ ⟨n.lookup c key next, none, k⟩ := by
  unfold Node.lookup
  split
  · rename_i cause h
    exact .head ⟨rfl, .quiet (.turn (by simp [turnsTo, h]))⟩ (moves_replying ..)
  · rename_i valid
    cases h : n.directory.find? key with
    | some e => exact .head ⟨rfl, .quiet (.find valid h)⟩ (moves_ensuring ..)
    | none => exact .head ⟨rfl, .create valid h⟩ (moves_ensuring ..)

theorem moves_forgetting_answer (es : List EntryId) :
    Onward ⟨n, some (c, .forgetting es .answer), k⟩
      ⟨(es.foldl forget n).answer c .done, none, k⟩ := by
  induction es generalizing n with
  | nil => exact .head ⟨rfl, .quiet (.turn rfl)⟩ (moves_replying ..)
  | cons e es ih => exact .head ⟨rfl, .forget n c k e es .answer⟩ (ih _)

theorem moves_forgetting_refresh (es : List EntryId) (e : EntryId) (sweep? : Option CallId) :
    Onward ⟨n, some (c, .forgetting es (.refresh e sweep?)), k⟩
      ⟨(es.foldl forget n).refresh c e (.of sweep?), none, k⟩ := by
  induction es generalizing n with
  | nil => exact .head ⟨rfl, .quiet (.turn rfl)⟩ (moves_lining_refresh ..)
  | cons e' es ih => exact .head ⟨rfl, .forget n c k e' es (.refresh e sweep?)⟩ (ih _)

/-! ### Changes -/

theorem moves_spreading (change : InstanceChange) (changed rest : List EntryId) :
    Onward ⟨n, some (c, .spreading change changed rest), k⟩
      ⟨n.changeViews c change changed rest, none, k⟩ := by
  induction rest generalizing n changed with
  | nil => exact .head ⟨rfl, .quiet (.publish n change changed)⟩ (moves_replying ..)
  | cons e rest ih =>
    unfold changeViews
    split
    · rename_i hconcerns
      have hturn : n.turnsTo (.spreading change changed (e :: rest)) =
          some (.lining e (.change change (.others rest changed))) := by
        simp [turnsTo, hconcerns]
      refine .head ⟨rfl, .quiet (.turn hturn)⟩ ?_
      dsimp only
      split
      · rename_i h
        exact .head ⟨rfl, .lock h⟩ (.head ⟨rfl, .applyNext ..⟩ (ih ..))
      · rename_i h
        exact .single ⟨rfl, .wait (Bool.eq_false_iff.mpr h)⟩
    · rename_i hconcerns
      exact .head ⟨rfl, .quiet (.turn (by simp [turnsTo, hconcerns]))⟩ (ih ..)

theorem moves_changeView (e : EntryId) (change : InstanceChange) :
    Onward ⟨n, some (c, .starting (.changeView e change)), k⟩
      ⟨n.changeView c e change, none, k⟩ := by
  unfold Node.changeView
  split
  · rename_i hconcerns
    have hturn : n.turnsTo (.starting (.changeView e change)) =
        some (.lining e (.change change .verdict)) := by
      simp [turnsTo, hconcerns]
    refine .head ⟨rfl, .quiet (.turn hturn)⟩ ?_
    dsimp only
    split
    · rename_i h
      exact .head ⟨rfl, .lock h⟩ (.head ⟨rfl, .apply ..⟩ (moves_replying ..))
    · rename_i h
      exact .single ⟨rfl, .wait (Bool.eq_false_iff.mpr h)⟩
  · rename_i hconcerns
    exact .head ⟨rfl, .quiet (.turn (by simp [turnsTo, hconcerns]))⟩ (moves_replying ..)

end Points

/-! ### Sweeps -/

theorem moves_startMember (n : Node σ) (sweep : CallId) (forced : Bool) (e : EntryId)
    (rest : List EntryId) :
    Onward ⟨n, none, some (sweep, forced, e :: rest)⟩
      ⟨startMember sweep forced n e, none, some (sweep, forced, rest)⟩ := by
  refine .head ⟨rfl, .enlist n sweep forced e rest⟩ ?_
  have hmember := moves_forgetting_refresh n.newCall.2 n.nextCall (some (sweep, forced, rest))
    (if forced then [e] else []) e (some sweep)
  cases forced <;> exact hmember

theorem moves_enlisting (n : Node σ) (sweep : CallId) (forced : Bool) (views : List EntryId) :
    Onward ⟨n, none, some (sweep, forced, views)⟩
      ⟨views.foldl (startMember sweep forced) n, none, none⟩ := by
  induction views generalizing n with
  | nil => exact .single ⟨rfl, .enlisted n sweep forced⟩
  | cons e views ih => exact (moves_startMember n sweep forced e views).trans (ih _)

theorem moves_sweeping (n : Node σ) (c : CallId) (forced : Bool) :
    Onward ⟨n, some (c, .sweeping forced), none⟩ ⟨n.beginPass c forced, none, none⟩ := by
  unfold beginPass
  cases h : n.directory.initialized with
  | nil => exact .head ⟨rfl, .quiet (.sweepNone h)⟩ (moves_closing ..)
  | cons e views =>
    have hne : n.directory.initialized ≠ [] := by simp [h]
    have hsome : Move ⟨n, some (c, .sweeping forced), none⟩ _ := .sweepSome hne
    rw [h] at hsome
    exact .head ⟨rfl, hsome⟩ (moves_enlisting ..)

/-! ### Starting and resuming -/

theorem moves_aside (n : Node σ) (c : CallId) {op : Operation σ} {r : Reply} {n' : Node σ}
    (h : n.aside op = some (r, n')) :
    Onward ⟨n, some (c, .starting op), none⟩ ⟨n'.answer c r, none, none⟩ :=
  .head ⟨rfl, .quiet (.aside h)⟩ (moves_replying ..)

theorem moves_sweep (n : Node σ) (c : CallId) :
    Onward ⟨n, some (c, .starting .sweep), none⟩ ⟨n.sweep c, none, none⟩ := by
  unfold Node.sweep
  split
  · rename_i h
    exact .head ⟨rfl, .quiet (.sweepFree (List.isEmpty_iff.mp h))⟩ (moves_sweeping ..)
  · rename_i h
    exact .head ⟨rfl, .quiet (.sweepTaken fun hnil => h (List.isEmpty_iff.mpr hnil))⟩
      (moves_replying ..)

theorem moves_forceSweep (n : Node σ) (c : CallId) :
    Onward ⟨n, some (c, .starting .forceSweep), none⟩ ⟨n.forceSweep c, none, none⟩ := by
  unfold Node.forceSweep
  dsimp only
  split
  · rename_i h
    exact .head ⟨rfl, .quiet (.forceFree h)⟩ (moves_sweeping ..)
  · rename_i h
    exact .single ⟨rfl, .forceWait (Bool.eq_false_iff.mpr h)⟩

theorem moves_forgetRevision (n : Node σ) (c : CallId) (key : ServiceKey) :
    Onward ⟨n, some (c, .starting (.forgetRevision key)), none⟩
      ⟨n.start c (.forgetRevision key), none, none⟩ := by
  have hforget := moves_forgetting_answer n c none (n.directory.find? key).toList
  have hstart : n.start c (.forgetRevision key) =
      ((n.directory.find? key).toList.foldl forget n).answer c .done := by
    simp only [Node.start]
    cases n.directory.find? key <;> rfl
  rw [hstart]
  exact .head ⟨rfl, .quiet (.turn rfl)⟩ hforget

theorem moves_finish (n : Node σ) (c : CallId) (i : Invocation) (success : Bool) :
    Onward ⟨n, some (c, .starting (.finish i success)), none⟩
      ⟨n.finish c i success, none, none⟩ := by
  unfold Node.finish
  split
  · rename_i h
    exact moves_aside n c (by simp [Node.aside, h])
  · rename_i s h
    exact moves_aside n c (by simp [Node.aside, h])

theorem moves_sleep (n : Node σ) (c : CallId) (ms : Nat) :
    Onward ⟨n, some (c, .starting (.sleep ms)), none⟩
      ⟨n.start c (.sleep ms), none, none⟩ := by
  by_cases h : ms = 0
  · subst h
    exact moves_aside n c rfl
  · simp only [Node.start, if_neg h]
    exact .single ⟨rfl, .sleep n c none h⟩

theorem moves_starting (n : Node σ) (c : CallId) (op : Operation σ) :
    Onward ⟨n, some (c, .starting op), none⟩ ⟨n.start c op, none, none⟩ := by
  cases op with
  | find key => exact .head ⟨rfl, .quiet (.turn rfl)⟩ (moves_looking ..)
  | choose key i => exact .head ⟨rfl, .quiet (.turn rfl)⟩ (moves_looking ..)
  | get key => exact moves_aside n c rfl
  | inspect e => exact moves_aside n c rfl
  | sweep => exact moves_sweep n c
  | forceSweep => exact moves_forceSweep n c
  | change change => exact .head ⟨rfl, .quiet (.turn rfl)⟩ (moves_spreading ..)
  | safeMode on => exact .head ⟨rfl, .protect n c none on⟩ (moves_replying ..)
  | forgetRevision key => exact moves_forgetRevision n c key
  | forgetRevisions => exact .head ⟨rfl, .quiet (.turn rfl)⟩ (moves_forgetting_answer ..)
  | watch w => exact moves_aside n c rfl
  | ensureFirst e => exact .head ⟨rfl, .quiet (.turn rfl)⟩ (moves_ensuring ..)
  | refresh e => exact .head ⟨rfl, .quiet (.turn rfl)⟩ (moves_lining_refresh ..)
  | forceRefresh e =>
    exact .head ⟨rfl, .quiet (.turn rfl)⟩ (moves_forgetting_refresh n c none [e] e none)
  | changeView e change => exact moves_changeView ..
  | forgetRevisionOf e =>
    exact .head ⟨rfl, .quiet (.turn rfl)⟩ (moves_forgetting_answer n c none [e])
  | protectView e on => exact .head ⟨rfl, .protectView n c none e on⟩ (moves_replying ..)
  | sleep ms => exact moves_sleep n c ms
  | startPuller interval => exact .head ⟨rfl, .startPuller n c none interval⟩ (moves_replying ..)
  | stopPuller => exact .head ⟨rfl, .stopPuller n c none⟩ (moves_replying ..)
  | finish i success => exact moves_finish n c i success
  | statsOf server => exact moves_aside n c rfl
  | applyForPermit i => exact moves_aside n c rfl
  | checkAndReleasePermit i => exact moves_aside n c rfl
  | releasePermit => exact moves_aside n c rfl
  | setClock now => exact moves_aside n c rfl
  | advanceClock d => exact moves_aside n c rfl
  | registry act => exact moves_aside n c rfl

theorem moves_resume (n : Node σ) (c : CallId) (h : n.isAwake c = true) :
    ∃ s, n.stage? c = some s ∧ n.awake c s = true ∧
      Onward ⟨n.unrest c, some (c, s.point), none⟩ ⟨n.resume c, none, none⟩ := by
  unfold isAwake at h
  unfold Node.resume
  cases hs : n.stage? c with
  | none => simp [hs] at h
  | some s =>
    rw [hs, Option.any_some] at h
    refine ⟨s, rfl, h, ?_⟩
    cases s with
    | scheduled due op => exact moves_starting ..
    | sleeping due => exact moves_replying ..
    | pulling due interval => exact .single ⟨rfl, .tick ..⟩
    | refreshing e next => exact moves_asking ..
    | fetching e due o next => exact moves_heard ..
    | changing e change next =>
      cases next with
      | verdict => exact .head ⟨rfl, .apply ..⟩ (moves_replying ..)
      | others rest changed => exact .head ⟨rfl, .applyNext ..⟩ (moves_spreading ..)
    | awaitingFirst e next => exact moves_passed ..
    | awaitingSweep => exact moves_sweeping ..
    | pass forced members => simp [awake] at h

theorem moves_call (n : Node σ) (op : Operation σ) :
    Moves ⟨n, none, none⟩ ⟨(n.call op).2, none, none⟩ :=
  .head (.call n op) (moves_starting ..).moves

theorem moves_callAfter (n : Node σ) (wait : Nat) (op : Operation σ) :
    Moves ⟨n, none, none⟩ ⟨(n.callAfter wait op).2, none, none⟩ :=
  .single (.callAfter n wait op)

theorem moves_awake (n : Node σ) (c : CallId) (h : n.isAwake c = true) :
    Moves ⟨n, none, none⟩ ⟨n.resume c, none, none⟩ := by
  obtain ⟨s, rests, awake, onward⟩ := moves_resume n c h
  exact .head (.wake rests awake) onward.moves

/-! ### Turns and courses -/

theorem Onward.keeps {I : Midturn σ → Prop} {s s' : Midturn σ} (onward : Onward s s')
    (move : ∀ {s s'}, s.busy = true → I s → Move s s' → I s') (h : I s) : I s' := by
  induction onward with
  | refl => exact h
  | tail _ m ih => exact move m.1 ih m.2

/-- What every move keeps, a run of moves keeps. -/
theorem Moves.keeps {I : Midturn σ → Prop} {s s' : Midturn σ}
    (moves : Moves s s') (move : ∀ {s s'}, I s → Move s s' → I s') (h : I s) : I s' := by
  induction moves with
  | refl => exact h
  | tail _ m ih => exact move ih m

namespace Node

/-- What may happen next on a node while time passes as it likes. -/
inductive LooseTurn : Node σ → Node σ → Prop where
  | call (n : Node σ) (op : Operation σ) : LooseTurn n (n.call op).2
  | callAfter (n : Node σ) (wait : Nat) (op : Operation σ) : LooseTurn n (n.callAfter wait op).2
  | resume (n : Node σ) (c : CallId) (h : n.isAwake c = true) : LooseTurn n (n.resume c)
  | pass (n : Node σ) (time : Nat) (h : n.time ≤ time) : LooseTurn n { n with time }

/-- What can become of a node by loose turns. -/
def Course (start n : Node σ) : Prop := Relation.ReflTransGen LooseTurn start n

theorem Course.trans {n m k : Node σ} (h : Course n m) (h' : Course m k) : Course n k :=
  Relation.ReflTransGen.trans h h'

/-- A call makes moves only, and otherwise only time passes. -/
theorem moves_of_looseTurn {n m : Node σ} (h : LooseTurn n m) :
    Moves ⟨n, none, none⟩ ⟨m, none, none⟩ ∨ ∃ time, n.time ≤ time ∧ m = { n with time } := by
  cases h with
  | call op => exact .inl (moves_call n op)
  | callAfter wait op => exact .inl (moves_callAfter n wait op)
  | resume c h => exact .inl (moves_awake n c h)
  | pass time h => exact .inr ⟨time, h, rfl⟩

/-- What every move and the passing of time keep holds on every course. -/
theorem Course.keeps {I : Midturn σ → Prop} {start n : Node σ} (course : Course start n)
    (move : ∀ {s s'}, I s → Move s s' → I s')
    (pass : ∀ {n : Node σ} {time}, n.time ≤ time → I ⟨n, none, none⟩ →
      I ⟨{ n with time }, none, none⟩)
    (h : I ⟨start, none, none⟩) : I ⟨n, none, none⟩ := by
  induction course with
  | refl => exact h
  | tail _ turn ih =>
    rcases moves_of_looseTurn turn with moves | ⟨time, hle, rfl⟩
    · exact moves.keeps move ih
    · exact pass hle ih

/-! ### Definite courses -/

/-- One loose turn, as it is asked for. -/
inductive Act (σ : Type) where
  | call (op : Operation σ)
  | callAfter (wait : Nat) (op : Operation σ)
  | resume (c : CallId)
  | pass (ms : Nat)

/-- Take the turn that is asked for; a call that is not awake is left to rest. -/
def act (n : Node σ) : Act σ → Node σ
  | .call op => (n.call op).2
  | .callAfter wait op => (n.callAfter wait op).2
  | .resume c => if n.isAwake c then n.resume c else n
  | .pass ms => { n with time := n.time + ms }

/-- The operation that a loose turn begins, if it begins one. -/
def begins? (n : Node σ) : Act σ → Option (Operation σ)
  | .call op => some op
  | .resume c =>
    if n.isAwake c then
      match n.stage? c with
      | some (.scheduled _ op) => some op
      | _ => none
    else none
  | _ => none

def follow (n : Node σ) (acts : List (Act σ)) : Node σ := acts.foldl act n

theorem act_eq_or_turn (n : Node σ) (a : Act σ) : n.act a = n ∨ LooseTurn n (n.act a) := by
  cases a with
  | call op => exact .inr (.call n op)
  | callAfter wait op => exact .inr (.callAfter n wait op)
  | resume c =>
    unfold act
    dsimp only
    split
    · rename_i h
      exact .inr (.resume n c h)
    · exact .inl rfl
  | pass ms => exact .inr (.pass n _ (Nat.le_add_right ..))

theorem course_act (n : Node σ) (a : Act σ) : Course n (n.act a) := by
  rcases n.act_eq_or_turn a with hsame | hturn
  · rw [hsame]
    exact .refl
  · exact .single hturn

theorem follow_concat (n : Node σ) (acts : List (Act σ)) (a : Act σ) :
    n.follow (acts ++ [a]) = (n.follow acts).act a :=
  List.foldl_append

theorem course_follow (n : Node σ) (acts : List (Act σ)) : Course n (n.follow acts) := by
  induction acts generalizing n with
  | nil => exact .refl
  | cons a acts ih => exact (course_act n a).trans (ih _)

end Node

end ServiceFinder
