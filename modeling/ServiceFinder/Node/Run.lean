/-
  ServiceFinder/Node/Run.lean
  ===========================
  **How calls on a node take turns.**

  A call that rests is awake once what it waits for has happened.  `Turn` says what
  may happen next on a node: a new call starts, an awake call resumes, or, when no
  call is awake, time jumps to the next moment that some call waits for.  Any order
  of turns is possible, and a statement about every `Reachable` node holds for all
  of them.

  `settle` takes one definite order until some calls are over.  The call that has
  rested longest goes first, but sleepers go last: whoever sleeps until a moment
  finds all done that happens at that moment.  It is given more turns than it needs.
-/
import ServiceFinder.Node.Call

namespace ServiceFinder

namespace Stage

/-- The moment that a stage waits for. -/
def due? {σ : Type} : Stage σ → Option Nat
  | .scheduled due _ | .sleeping due | .pulling due _ | .fetching _ due _ _ => some due
  | _ => none

def isSleeping {σ : Type} : Stage σ → Bool
  | .sleeping _ => true
  | _ => false

end Stage

namespace Node

variable {σ : Type}

/-! ### Turns -/

/-- Whether what a call waits for has happened. -/
def awake (n : Node σ) (c : CallId) : Stage σ → Bool
  | .scheduled due _ | .sleeping due | .pulling due _ | .fetching _ due _ _ => due ≤ n.time
  | .refreshing e _ | .changing e _ _ => n.writes c e
  | .awaitingFirst e _ => (n.entry e).isInitialized
  | .awaitingSweep => n.sweeps c
  | .pass _ _ => false

/-- Whether a call rests and is awake. -/
def isAwake (n : Node σ) (c : CallId) : Bool := (n.stage? c).any (n.awake c)

/-- The awake call that has rested longest, a sleeper only if all that are awake were
    sleeping. -/
def nextAwake (n : Node σ) : Option CallId :=
  let awake := (n.calls.map (·.1)).filter n.isAwake
  (awake.find? fun c => !(n.stage? c).any Stage.isSleeping).or awake.head?

theorem isAwake_of_nextAwake {n : Node σ} {c : CallId} (h : n.nextAwake = some c) :
    n.isAwake c = true := by
  suffices c ∈ (n.calls.map (·.1)).filter n.isAwake from (List.mem_filter.mp this).2
  rcases Option.or_eq_some_iff.mp h with h | ⟨_, h⟩
  · exact List.mem_of_find?_eq_some h
  · exact List.mem_of_head? h

/-- The next moment that some call waits for. -/
def nextDue (n : Node σ) : Option Nat := (n.calls.filterMap (·.2.due?)).min?

/-- Let a new call start. -/
def call [Registry σ] (n : Node σ) (op : Operation σ) : CallId × Node σ :=
  let (c, n) := n.newCall
  (c, n.start c op)

/-- Let a new call start after a while. -/
def callAfter (n : Node σ) (wait : Nat) (op : Operation σ) : CallId × Node σ :=
  let (c, n) := n.newCall
  (c, n.rest c (.scheduled (n.time + Timer.run wait) op))

/-- What may happen next on a node. -/
inductive Turn [Registry σ] : Node σ → Node σ → Prop where
  | call (n : Node σ) (op : Operation σ) : Turn n (n.call op).2
  | callAfter (n : Node σ) (wait : Nat) (op : Operation σ) : Turn n (n.callAfter wait op).2
  | resume (n : Node σ) (c : CallId) (h : n.isAwake c = true) : Turn n (n.resume c)
  | wait (n : Node σ) (due : Nat) (idle : n.nextAwake = none) (h : n.nextDue = some due) :
      Turn n { n with time := due }

/-- What can become of a node, whoever takes turns in whatever order. -/
inductive Reachable [Registry σ] (start : Node σ) : Node σ → Prop where
  | here : Reachable start start
  | turn {n m : Node σ} : Reachable start n → Turn n m → Reachable start m

theorem Reachable.trans [Registry σ] {n m k : Node σ} (h : Reachable n m) (h' : Reachable m k) :
    Reachable n k := by
  induction h' with
  | here => exact h
  | turn _ t ih => exact ih.turn t

/-- No call is in flight. -/
def Quiescent (n : Node σ) : Prop := n.calls = []

/-! ### One order of turns -/

/-- Whether none of these calls is in flight any more. -/
def areOver (n : Node σ) (cs : List CallId) : Bool := cs.all fun c => (n.stage? c).isNone

/-- Take turns until the calls `cs` are over. -/
def settle [Registry σ] (cs : List CallId) : Nat → Node σ → Node σ
  | 0, n => n
  | turns + 1, n =>
    if n.areOver cs then n
    else match n.nextAwake with
      | some c => settle cs turns (n.resume c)
      | none => match n.nextDue with
        | some due => settle cs turns { n with time := due }
        | none => n

/-- What `settle` does is one of the things that may happen. -/
theorem reachable_settle [Registry σ] (cs : List CallId) (turns : Nat) (n : Node σ) :
    Reachable n (settle cs turns n) := by
  induction turns generalizing n with
  | zero => exact .here
  | succ turns ih =>
    unfold settle
    split
    · exact .here
    · split
      · rename_i c hc
        exact (Reachable.here.turn (.resume n c (isAwake_of_nextAwake hc))).trans (ih _)
      · rename_i idle
        split
        · rename_i due hd
          exact (Reachable.here.turn (.wait n due idle hd)).trans (ih _)
        · exact .here

/-- More turns than any call in practice needs. -/
def patience : Nat := Nat.pow 2 60

/-- Make one call and wait for its answer. -/
def ask [Registry σ] (n : Node σ) (op : Operation σ) : Option Replied × Node σ :=
  let (c, n) := n.call op
  let n := n.settle [c] patience
  (n.reply? c, n)

/-- Make several calls, each after its own while, and wait for all answers. -/
def askAll [Registry σ] (n : Node σ) (ops : List (Nat × Operation σ)) :
    List (Option Replied) × Node σ :=
  let (cs, n) := ops.foldl
    (fun (cs, n) (wait, op) => let (c, n) := n.callAfter wait op; (cs ++ [c], n)) ([], n)
  let n := n.settle cs patience
  (cs.map n.reply?, n)

end Node

end ServiceFinder
