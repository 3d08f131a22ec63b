/-
  ServiceFinder/Proofs/Balance/Rounds.lean
  ========================================
  **Going round lists of one length.**

  A rotation may be asked for servers of one list after another.  An empty list costs nothing, so
  the turn of a call is the number of lists before it that are not empty, counted on from the
  turns taken earlier and modulo 2⁶⁴.  If all these lists have one length, the calls go round its
  positions and pick each of them equally often, up to one.  Where the count of turns comes round,
  the positions go on in order if the length divides 2⁶⁴.
-/
import ServiceFinder.Proofs.Balance.Rotation

namespace ServiceFinder

namespace Rotation

variable {α : Type} {r : Rotation} {servers : List α} {lists : List (List α)}

/-! ### Calls on one list after another -/

/-- What is picked from each of the lists, and the rotation afterwards. -/
def serve : List (List α) → Rotation → List (Option α) × Rotation
  | [], r => ([], r)
  | servers :: rest, r =>
    let (pick, r) := r.next servers
    let (picks, r) := serve rest r
    (pick :: picks, r)

/-- The positions that are picked: what would be picked if the servers were their own positions. -/
def positions (lists : List (List α)) (r : Rotation) : List (Option Nat) :=
  (r.serve (lists.map fun servers => List.range servers.length)).1

/-- The number of lists that have a server. -/
def stocked (lists : List (List α)) : Nat := lists.countP (!·.isEmpty)

theorem next_nil (r : Rotation) : r.next ([] : List α) = (none, r) := rfl

theorem next_of_ne_nil (h : servers ≠ []) (r : Rotation) :
    r.next servers = (servers[r.turns.toNat % servers.length]?, ⟨r.turns + 1⟩) := by
  unfold next
  rw [if_neg (by simpa using h)]

theorem serve_append (before after : List (List α)) (r : Rotation) :
    r.serve (before ++ after) =
      ((r.serve before).1 ++ ((r.serve before).2.serve after).1,
        ((r.serve before).2.serve after).2) := by
  induction before generalizing r with
  | nil => rfl
  | cons servers rest ih => simp [serve, ih]

theorem length_serve (lists : List (List α)) (r : Rotation) :
    (r.serve lists).1.length = lists.length := by
  induction lists generalizing r with
  | nil => rfl
  | cons servers rest ih => simp [serve, ih]

/-- Each call is answered by what the calls before it left. -/
theorem getElem?_serve (r : Rotation) (before : List (List α)) (servers : List α)
    (after : List (List α)) :
    (r.serve (before ++ servers :: after)).1[before.length]? =
      some ((r.serve before).2.next servers).1 := by
  rw [serve_append, ← length_serve before r]
  simp [serve]

theorem stocked_append (before after : List (List α)) :
    stocked (before ++ after) = stocked before + stocked after :=
  List.countP_append

theorem stocked_ranges (lists : List (List α)) :
    stocked (lists.map fun servers => List.range servers.length) = stocked lists := by
  unfold stocked
  rw [List.countP_map]
  congr 1
  funext servers
  cases servers <;> simp

/-- Each list that has a server takes a turn. -/
theorem turns_serve (lists : List (List α)) (r : Rotation) :
    (r.serve lists).2.turns.toNat = (r.turns.toNat + stocked lists) % UInt64.size := by
  induction lists using List.reverseRecOn with
  | nil => exact (Nat.mod_eq_of_lt r.turns.toNat_lt_size).symm
  | append_singleton lists servers ih =>
    rw [serve_append, stocked_append]
    cases servers with
    | nil => exact ih
    | cons server rest =>
      show ((r.serve lists).2.turns + 1).toNat = _
      rw [UInt64.toNat_add, ih]
      show (_ % UInt64.size + 1) % UInt64.size = (_ + (_ + 1)) % UInt64.size
      rw [Nat.mod_add_mod, Nat.add_assoc]

/-! ### Positions -/

theorem next_range (h : servers ≠ []) (r : Rotation) :
    (r.next (List.range servers.length)).1 = some (r.turns.toNat % servers.length) := by
  have hpos : 0 < servers.length := List.length_pos_iff.mpr h
  rw [next_of_ne_nil (by simpa using h), List.length_range]
  exact List.getElem?_range (Nat.mod_lt _ hpos)

/-- The position picked by a call is its turn, modulo the length of the list. -/
theorem getElem?_positions (r : Rotation) (before : List (List α)) (h : servers ≠ [])
    (after : List (List α)) :
    (r.positions (before ++ servers :: after))[before.length]? =
      some (some ((r.turns.toNat + stocked before) % UInt64.size % servers.length)) := by
  have hanswer := r.getElem?_serve (before.map fun servers => List.range servers.length)
    (List.range servers.length) (after.map fun servers => List.range servers.length)
  rw [List.length_map, next_range h, turns_serve, stocked_ranges] at hanswer
  unfold positions
  rw [List.map_append, List.map_cons]
  exact hanswer

theorem positions_concat_nil (lists : List (List α)) (r : Rotation) :
    r.positions (lists ++ [[]]) = r.positions lists ++ [none] := by
  unfold positions
  rw [List.map_append, serve_append]
  rfl

theorem positions_concat (lists : List (List α)) (h : servers ≠ []) (r : Rotation) :
    r.positions (lists ++ [servers]) = r.positions lists ++
      [some ((r.turns.toNat + stocked lists) % UInt64.size % servers.length)] := by
  unfold positions
  rw [List.map_append, serve_append, ← stocked_ranges, ← turns_serve]
  exact congrArg _ (congrArg (fun pick => [pick]) (next_range h _))

/-- Of lists of length `n`, a position is picked in those turns that have it as remainder. -/
theorem count_positions {n : Nat} (same : ∀ servers ∈ lists, servers ≠ [] → servers.length = n)
    (r : Rotation) (p : Nat) :
    (r.positions lists).count (some p) =
      Nat.count (fun k => (r.turns.toNat + k) % UInt64.size % n = p) (stocked lists) := by
  induction lists using List.reverseRecOn with
  | nil => rfl
  | append_singleton lists servers ih =>
    have hlists := ih fun servers h => same servers (List.mem_append_left _ h)
    by_cases h : servers = []
    · rw [h, positions_concat_nil, stocked_append, List.count_append, hlists]
      rfl
    · have hstocked : stocked [servers] = 1 := by simp [stocked, h]
      rw [positions_concat lists h, stocked_append, hstocked, Nat.count_succ, List.count_append,
        hlists, same servers (by simp) h, List.count_singleton]
      simp only [beq_iff_eq, Option.some.injEq]

/-- Of three servers the first one is picked twice where the count comes round. -/
example : Rotation.positions (List.replicate 3 ["a", "b", "c"]) ⟨-2⟩ =
    [some 2, some 0, some 0] := by decide

/-! ### Whole rounds -/

/-- The count of turns does not disturb the order of positions before it comes round, or if it
    comes round with them. -/
theorem turn_mod {n c m k : Nat} (steady : c + m ≤ UInt64.size ∨ n ∣ UInt64.size) (hk : k < m) :
    (c + k) % UInt64.size % n = (c + k) % n := by
  rcases steady with fits | whole
  · rw [Nat.mod_eq_of_lt (Nat.lt_of_lt_of_le (Nat.add_lt_add_left hk c) fits)]
  · exact Nat.mod_mod_of_dvd _ whole

theorem count_positions_of_steady {n : Nat}
    (same : ∀ servers ∈ lists, servers ≠ [] → servers.length = n)
    (steady : r.turns.toNat + stocked lists ≤ UInt64.size ∨ n ∣ UInt64.size) (p : Nat) :
    (r.positions lists).count (some p) =
      Nat.count (fun k => (r.turns.toNat + k) % n = p) (stocked lists) := by
  rw [count_positions same]
  refine Nat.le_antisymm (Nat.count_mono_left ?_) (Nat.count_mono_left ?_)
  · intro k hk h
    rwa [← turn_mod steady hk]
  · intro k hk h
    rwa [turn_mod steady hk]

/-- **A rotation is balanced.**  Let all lists that are not empty have length `n`, and let the
    count of turns not come round during the calls, unless `n` divides 2⁶⁴.  Then the `k`-th call
    on a list that is not empty picks position `c + k` of it, modulo `n`, where `c` is the number
    of turns taken before; a call on an empty list picks nothing and takes no turn; and of all
    picks each position gets its `n`-th part, rounded down or up. -/
theorem picks_are_balanced {n : Nat} (r : Rotation) (lists : List (List α))
    (same : ∀ servers ∈ lists, servers ≠ [] → servers.length = n)
    (steady : r.turns.toNat + stocked lists ≤ UInt64.size ∨ n ∣ UInt64.size) :
    (∀ before servers after, lists = before ++ servers :: after → servers ≠ [] →
      (r.positions lists)[before.length]? = some (some ((r.turns.toNat + stocked before) % n)) ∧
      ∃ server ∈ servers, servers[(r.turns.toNat + stocked before) % n]? = some server ∧
        (r.serve lists).1[before.length]? = some (some server)) ∧
    (∀ before after, lists = before ++ [] :: after →
      (r.serve lists).1[before.length]? = some none ∧
      (r.serve (before ++ [[]])).2 = (r.serve before).2) ∧
    ∀ p < n, (r.positions lists).count (some p) = stocked lists / n ∨
      (r.positions lists).count (some p) = stocked lists ⌈/⌉ n := by
  refine ⟨?_, ?_, ?_⟩
  · rintro before servers after rfl h
    have hlength : servers.length = n := same servers (by simp) h
    have hpos : 0 < n := hlength ▸ List.length_pos_iff.mpr h
    have hturn : (r.turns.toNat + stocked before) % UInt64.size % n =
        (r.turns.toNat + stocked before) % n := by
      refine turn_mod steady ?_
      rw [stocked_append]
      exact Nat.lt_add_of_pos_right (List.countP_pos_iff.mpr ⟨servers, by simp, by simpa using h⟩)
    have hlt : (r.turns.toNat + stocked before) % n < servers.length := by
      rw [hlength]
      exact Nat.mod_lt _ hpos
    refine ⟨?_, _, List.getElem_mem hlt, List.getElem?_eq_getElem hlt, ?_⟩
    · rw [getElem?_positions r before h after, hlength, hturn]
    · rw [getElem?_serve, next_of_ne_nil h, turns_serve, hlength, hturn,
        List.getElem?_eq_getElem hlt]
  · rintro before after rfl
    constructor
    · rw [getElem?_serve, next_nil]
    · rw [serve_append]
      rfl
  · intro p hp
    rw [count_positions_of_steady same steady]
    exact count_mod_eq _ _ hp

/-- Four lists of three servers, with an empty one between them. -/
def threes : List (List String) :=
  [["a", "b", "c"], [], ["d", "e", "f"], ["a", "b", "c"], ["c", "a", "b"]]

/-- Three lists of two servers, with an empty one between them. -/
def pairs : List (List String) := [["a", "b"], ["c", "d"], [], ["a", "b"]]

/-- Lists of three use up the last turn, and lists of two go on beyond it. -/
theorem picks_balanced_at_the_last_turn :
    ((∀ servers ∈ threes, servers ≠ [] → servers.length = 3) ∧
      (⟨-4⟩ : Rotation).turns.toNat + stocked threes ≤ UInt64.size ∧
      (positions threes ⟨-4⟩)[4]? = some (some 0) ∧ (serve threes ⟨-4⟩).1[1]? = some none ∧
      ((positions threes ⟨-4⟩).count (some 2) = 1 ∨ (positions threes ⟨-4⟩).count (some 2) = 2)) ∧
    ((∀ servers ∈ pairs, servers ≠ [] → servers.length = 2) ∧ 2 ∣ UInt64.size ∧
      (positions pairs ⟨-1⟩)[1]? = some (some 0) ∧
      ∃ server ∈ ["c", "d"], (serve pairs ⟨-1⟩).1[1]? = some (some server)) := by
  have hthrees : ∀ servers ∈ threes, servers ≠ [] → servers.length = 3 := by decide
  have hfits : (⟨-4⟩ : Rotation).turns.toNat + stocked threes ≤ UInt64.size := by decide
  have hpairs : ∀ servers ∈ pairs, servers ≠ [] → servers.length = 2 := by decide
  have hwhole : 2 ∣ UInt64.size := by decide
  obtain ⟨hpicks, hempty, hcount⟩ := picks_are_balanced ⟨-4⟩ threes hthrees (.inl hfits)
  obtain ⟨hlast, -⟩ := hpicks (threes.take 4) ["c", "a", "b"] [] rfl (by decide)
  obtain ⟨hnone, -⟩ := hempty (threes.take 1) (threes.drop 2) rfl
  obtain ⟨hpicks', -, -⟩ := picks_are_balanced ⟨-1⟩ pairs hpairs (.inr hwhole)
  obtain ⟨hfirst, server, hserver, -, hanswer⟩ :=
    hpicks' (pairs.take 1) ["c", "d"] (pairs.drop 2) rfl (by decide)
  exact ⟨⟨hthrees, hfits, hlast, hnone, hcount 2 (by decide)⟩,
    hpairs, hwhole, hfirst, server, hserver, hanswer⟩

end Rotation

end ServiceFinder
