/-
  ServiceFinder/Failure.lean
  ==========================
  **Why a lookup or a selection fails.**

  Every cause is a constructor; the wording that people read is in `message`.
-/
import ServiceFinder.Service.Key

namespace ServiceFinder

/-- What a registry call or the check of a key can report. -/
inductive LookupFailure where
  | invalidKey (reason : String)
  | fetchFailed (reason : String)
  | timeout (ms : UInt64)
  | serviceNotFound (app service : String)
deriving DecidableEq, Repr

namespace LookupFailure

def message : LookupFailure → String
  | invalidKey reason => "invalid cache key: " ++ reason
  | fetchFailed reason => "fetch failed: " ++ reason
  | timeout ms => "fetch timed out after " ++ toString ms.toNat ++ " ms"
  | serviceNotFound app service => "service " ++ app ++ "/" ++ service ++ " not found"

end LookupFailure

/-- Why no server is chosen: the lookup failed, or none of the servers of the key
    may be used. -/
inductive SelectionFailure where
  | lookup (cause : LookupFailure)
  | noAvailableServer (key : String)
deriving DecidableEq, Repr

namespace SelectionFailure

def message : SelectionFailure → String
  | lookup cause => cause.message
  | noAvailableServer key => "no available server for " ++ key

end SelectionFailure

/-- A key is refused for its first blank field. -/
def ServiceKey.check (k : ServiceKey) : Except LookupFailure Unit :=
  match k.blankField? with
  | some field => .error (.invalidKey (field ++ " is empty in " ++ k.display))
  | none => .ok ()

theorem ServiceKey.check_eq_ok_iff (k : ServiceKey) : k.check = .ok () ↔ k.Valid := by
  rw [← k.blankField?_eq_none_iff]
  unfold ServiceKey.check
  cases k.blankField? <;> simp

theorem ServiceKey.exists_check_eq_error {k : ServiceKey} (h : ¬ k.Valid) :
    ∃ reason, k.check = .error (.invalidKey reason) := by
  rw [← k.blankField?_eq_none_iff] at h
  obtain ⟨field, hfield⟩ := Option.ne_none_iff_exists'.mp h
  exact ⟨field ++ " is empty in " ++ k.display, by rw [check, hfield]⟩

end ServiceFinder
