/-
  ServiceFinder/Registry/Source.lean
  ==================================
  **A registry of either kind.**
-/
import ServiceFinder.Registry.Local
import ServiceFinder.Registry.Script

namespace ServiceFinder

inductive Source where
  | scripted (s : Script)
  | inProcess (r : LocalRegistry)

namespace Source

instance : Registry Source where
  lookup key
    | scripted s => let (d, s) := Registry.lookup key s; (d, scripted s)
    | inProcess r => let (d, r) := Registry.lookup key r; (d, inProcess r)

end Source

end ServiceFinder
