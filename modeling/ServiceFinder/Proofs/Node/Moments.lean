/-
  ServiceFinder/Proofs/Node/Moments.lean
  ======================================
  **Every moment of a run.**

  What holds whenever no turn is under way may fail in the middle of one, where a watcher
  would see it.  `Throughout` looks at every moment of a run, between two turns and within
  them.  What moves keep holds throughout, and it is enough that those moves keep it that the
  run makes: operations of a kind that nobody asks for are never started, neither at once nor
  later.
-/
import ServiceFinder.Proofs.Node.Calls

namespace ServiceFinder

variable {σ : Type}

/-! ### Operations of a kind -/

/-- Whether an operation of this kind is asked for. -/
def Node.Act.asksFor (kind : Operation σ → Bool) : Node.Act σ → Bool
  | .call op | .callAfter _ op => kind op
  | _ => false

/-- No operation of this kind is about to start, now or later. -/
structure Midturn.Lacks (kind : Operation σ → Bool) (s : Midturn σ) : Prop where
  later : ∀ {c due op}, (c, .scheduled due op) ∈ s.node.calls → kind op = false
  now : ∀ {c op}, s.running = some (c, .starting op) → kind op = false

/-- The operation that a running call is about to start. -/
def Point.starts? : Point σ → Option (Operation σ)
  | .starting op => some op
  | _ => none

@[simp] theorem Job.starts?_point (e : EntryId) (job : Job) :
    (job.point e : Point σ).starts? = none := by
  cases job <;> rfl

theorem Node.starts?_of_turnsTo {n : Node σ} {p p' : Point σ} (h : n.turnsTo p = some p') :
    p'.starts? = none := by
  unfold turnsTo at h
  split at h
  all_goals first
    | (cases h; rfl)
    | (split at h <;> cases h <;> rfl)
    | cases h

/-- Only the beginning of a turn starts an operation. -/
theorem Quiet.starts? {c : CallId} {n n' : Node σ} {p p' : Point σ} (q : Quiet c n p n' p') :
    p'.starts? = none := by
  cases q with
  | turn h => exact Node.starts?_of_turnsTo h
  | _ => rfl

namespace Midturn.Lacks

variable {kind : Operation σ → Bool} {s s' : Midturn σ}

theorem of_run (h : s.Lacks kind) {n : Node σ} {c : CallId} {p : Point σ}
    {k : Option (CallId × Bool × List EntryId)} (hcalls : n.calls ⊆ s.node.calls)
    (hp : p.starts? = none) : Midturn.Lacks kind ⟨n, some (c, p), k⟩ where
  later hc := h.later (hcalls hc)
  now hrun := by
    cases hrun
    cases hp

theorem of_calls (h : s.Lacks kind) {n : Node σ} {k : Option (CallId × Bool × List EntryId)}
    (hcalls : n.calls ⊆ s.node.calls) : Midturn.Lacks kind ⟨n, none, k⟩ where
  later hc := h.later (hcalls hc)
  now := nofun

theorem of_rest (h : s.Lacks kind) {n : Node σ} {c : CallId} {st : Stage σ}
    {k : Option (CallId × Bool × List EntryId)} (hcalls : n.calls ⊆ s.node.calls)
    (hst : ∀ {due op}, st = .scheduled due op → kind op = false) :
    Midturn.Lacks kind ⟨n.rest c st, none, k⟩ where
  later hc := by
    rcases Node.mem_rest.mp hc with hc | ⟨-, heq⟩
    · exact h.later (hcalls hc)
    · exact hst heq.symm
  now := nofun

theorem wake {n : Node σ} (h : Midturn.Lacks kind ⟨n, none, none⟩) {c : CallId} {st : Stage σ}
    (rests : n.stage? c = some st) : Midturn.Lacks kind ⟨n.unrest c, some (c, st.point), none⟩ where
  later hc := h.later (Node.mem_unrest.mp hc).1
  now hrun := by
    cases st with
    | scheduled due op =>
      cases hrun
      exact h.later (Node.mem_of_stage? rests)
    | _ => cases hrun

/-- **Within a turn no operation is asked for**, but for the sweeps of the puller. -/
theorem move [Registry σ] (sweeps : kind .sweep = false) (h : s.Lacks kind) (m : Move s s')
    (busy : s.busy = true) : s'.Lacks kind := by
  cases m with
  | call | callAfter | wake => cases busy
  | quiet q => exact h.of_run (q.still.calls ▸ List.Subset.refl _) q.starts?
  | answer | enlisted | stray => exact h.of_calls (List.Subset.refl _)
  | protect | protectView | forget | create | beginFirst | endFirst | askNow | hear | enlist
  | apply | applyNext =>
    exact h.of_run (List.Subset.refl _) rfl
  | lock => exact h.of_run (List.Subset.refl _) (Job.starts?_point ..)
  | sleep | forceWait | sweepSome | awaitFirst | ask => exact h.of_rest (List.Subset.refl _) nofun
  | @wait n c k e job =>
    refine h.of_rest (n := n.queueWriter c e) (List.Subset.refl _) ?_
    cases job <;> nofun
  | startPuller n c k interval =>
    refine ⟨?_, nofun⟩
    intro c' due op hc
    rcases Node.mem_startPuller.mp hc with hc | ⟨-, -, heq⟩
    · exact h.later (Node.mem_stopPuller.mp hc).1
    · cases heq
  | stopPuller n c k => exact h.of_run (fun x hx => (Node.mem_stopPuller.mp hx).1) rfl
  | tick n c k due interval =>
    have hpulling : Midturn.Lacks kind
        ⟨n.rest c (.pulling (due + Timer.run interval) interval), none, k⟩ :=
      h.of_rest (List.Subset.refl _) nofun
    refine hpulling.of_rest (n := ((n.rest c (.pulling _ interval)).newCall.2.note
      (.pulled _))) (List.Subset.refl _) ?_
    rintro _ _ ⟨⟩
    exact sweeps
  | member => exact h.of_rest (fun x hx => (Node.mem_unrest.mp hx).1) nofun
  | lastMember => exact h.of_run (fun x hx => (Node.mem_unrest.mp hx).1) rfl

theorem call {n : Node σ} (h : Midturn.Lacks kind ⟨n, none, none⟩) {op : Operation σ}
    (hop : kind op = false) :
    Midturn.Lacks kind ⟨n.newCall.2, some (n.nextCall, .starting op), none⟩ where
  later hc := h.later hc
  now hrun := by
    cases hrun
    exact hop

theorem callAfter {n : Node σ} (h : Midturn.Lacks kind ⟨n, none, none⟩) {op : Operation σ}
    (hop : kind op = false) (wait : Nat) :
    Midturn.Lacks kind ⟨(n.callAfter wait op).2, none, none⟩ := by
  refine h.of_rest (n := n.newCall.2) (List.Subset.refl _) ?_
  rintro _ _ ⟨⟩
  exact hop

end Midturn.Lacks

/-! ### Moments -/

namespace Node

variable [Registry σ]

/-- A moment of the turn that is asked for next, its beginning and its end included. -/
inductive Amid (n : Node σ) : Act σ → Midturn σ → Prop where
  | before (a) : Amid n a ⟨n, none, none⟩
  | call {op s} (onward : Onward ⟨n.newCall.2, some (n.nextCall, .starting op), none⟩ s) :
      Amid n (.call op) s
  | callAfter (wait op) : Amid n (.callAfter wait op) ⟨(n.callAfter wait op).2, none, none⟩
  | resume {c st s} (rests : n.stage? c = some st) (awake : n.awake c st = true)
      (onward : Onward ⟨n.unrest c, some (c, st.point), none⟩ s) : Amid n (.resume c) s
  | pass (ms) : Amid n (.pass ms) ⟨{ n with time := n.time + ms }, none, none⟩

/-- The end of a turn is a moment of it. -/
theorem amid_act (n : Node σ) (a : Act σ) : n.Amid a ⟨n.act a, none, none⟩ := by
  cases a with
  | call op => exact .call (moves_starting n.newCall.2 n.nextCall op)
  | callAfter wait op => exact .callAfter wait op
  | resume c =>
    unfold act
    dsimp only
    split
    · rename_i hawake
      obtain ⟨st, rests, awake, onward⟩ := moves_resume n c hawake
      exact .resume rests awake onward
    · exact .before _
  | pass ms => exact .pass ms

/-- `P` holds at every moment while these turns are taken. -/
def Throughout (P : Midturn σ → Prop) (n : Node σ) : List (Act σ) → Prop
  | [] => P ⟨n, none, none⟩
  | a :: acts => (∀ s, n.Amid a s → P s) ∧ Throughout P (n.act a) acts

section Keeps

variable {kind : Operation σ → Bool} {Q I : Midturn σ → Prop} (sweeps : kind .sweep = false)
  (move : ∀ {s s'}, s.Lacks kind → Q s' → I s → Move s s' → I s')

include sweeps move

theorem keeps_onward {s₀ s : Midturn σ} (onward : Onward s₀ s)
    (meanwhile : ∀ {s}, Onward s₀ s → Q s) (h : s₀.Lacks kind ∧ I s₀) : s.Lacks kind ∧ I s := by
  induction onward with
  | refl => exact h
  | tail earlier m ih =>
    exact ⟨ih.1.move sweeps m.2 m.1, move ih.1 (meanwhile (.tail earlier m)) ih.2 m.2⟩

variable (pass : ∀ {n : Node σ} {time}, n.time ≤ time → I ⟨n, none, none⟩ →
  I ⟨{ n with time }, none, none⟩)

include pass

/-- What every move keeps, as long as `Q` holds, holds at each moment of a turn. -/
theorem Amid.keeps {n : Node σ} {a : Act σ} {s : Midturn σ} (amid : n.Amid a s)
    (meanwhile : ∀ s, n.Amid a s → Q s) (lacks : Midturn.Lacks kind ⟨n, none, none⟩)
    (unasked : a.asksFor kind = false) (h : I ⟨n, none, none⟩) : s.Lacks kind ∧ I s := by
  cases amid with
  | before => exact ⟨lacks, h⟩
  | @call op _ onward =>
    have hfirst := move lacks (meanwhile _ (.call .refl)) h (.call n op)
    exact keeps_onward sweeps move onward (fun o => meanwhile _ (.call o))
      ⟨lacks.call unasked, hfirst⟩
  | callAfter wait op =>
    have hq := meanwhile _ (.callAfter wait op)
    exact ⟨lacks.callAfter unasked wait, move lacks hq h (.callAfter n wait op)⟩
  | resume rests awake onward =>
    have hfirst := move lacks (meanwhile _ (.resume rests awake .refl)) h (.wake rests awake)
    exact keeps_onward sweeps move onward (fun o => meanwhile _ (.resume rests awake o))
      ⟨lacks.wake rests, hfirst⟩
  | pass ms => exact ⟨lacks.of_calls (List.Subset.refl _), pass (Nat.le_add_right ..) h⟩

/-- **What every move keeps, as long as `Q` holds, holds throughout**; moves that start an
    operation nobody asks for need not keep it. -/
theorem Throughout.keeps {n : Node σ} {acts : List (Act σ)} (meanwhile : n.Throughout Q acts)
    (lacks : Midturn.Lacks kind ⟨n, none, none⟩) (unasked : ∀ a ∈ acts, a.asksFor kind = false)
    (h : I ⟨n, none, none⟩) : n.Throughout (fun s => s.Lacks kind ∧ I s) acts := by
  induction acts generalizing n with
  | nil => exact ⟨lacks, h⟩
  | cons a acts ih =>
    have amid {s : Midturn σ} (hs : n.Amid a s) : s.Lacks kind ∧ I s :=
      hs.keeps sweeps move pass meanwhile.1 lacks (unasked a List.mem_cons_self) h
    refine ⟨fun s hs => amid hs, ?_⟩
    have hafter := amid (n.amid_act a)
    exact ih meanwhile.2 hafter.1 (fun b hb => unasked b (List.mem_cons_of_mem _ hb)) hafter.2

end Keeps

/-- What nobody asks for is not about to start after a turn either. -/
theorem lacks_act {kind : Operation σ → Bool} {n : Node σ} {a : Act σ}
    (sweeps : kind .sweep = false) (lacks : Midturn.Lacks kind ⟨n, none, none⟩)
    (unasked : a.asksFor kind = false) : Midturn.Lacks kind ⟨n.act a, none, none⟩ :=
  ((n.amid_act a).keeps (Q := fun _ => True) (I := fun _ => True) sweeps (fun _ _ _ _ => trivial)
    (fun _ _ => trivial) (fun _ _ => trivial) lacks unasked trivial).1

theorem lacks_follow {kind : Operation σ → Bool} {n : Node σ} {acts : List (Act σ)}
    (sweeps : kind .sweep = false) (lacks : Midturn.Lacks kind ⟨n, none, none⟩)
    (unasked : ∀ a ∈ acts, a.asksFor kind = false) :
    Midturn.Lacks kind ⟨n.follow acts, none, none⟩ := by
  induction acts generalizing n with
  | nil => exact lacks
  | cons a acts ih =>
    exact ih (lacks_act sweeps lacks (unasked a List.mem_cons_self))
      fun b hb => unasked b (List.mem_cons_of_mem _ hb)

theorem throughout_true (n : Node σ) (acts : List (Act σ)) : n.Throughout (fun _ => True) acts := by
  induction acts generalizing n with
  | nil => trivial
  | cons a acts ih => exact ⟨fun _ _ => trivial, ih _⟩

namespace Throughout

variable {P Q : Midturn σ → Prop} {n : Node σ} {acts : List (Act σ)}

theorem mono (h : n.Throughout P acts) (himp : ∀ s, P s → Q s) : n.Throughout Q acts := by
  induction acts generalizing n with
  | nil => exact himp _ h
  | cons a acts ih => exact ⟨fun s amid => himp s (h.1 s amid), ih h.2⟩

theorem first (h : n.Throughout P acts) : P ⟨n, none, none⟩ := by
  cases acts with
  | nil => exact h
  | cons a acts => exact h.1 _ (.before a)

theorem last (h : n.Throughout P acts) : P ⟨n.follow acts, none, none⟩ := by
  induction acts generalizing n with
  | nil => exact h
  | cons a acts ih => exact ih h.2

end Throughout

end Node

end ServiceFinder
