/-
  ServiceFinder/Config/Source.lean
  ================================
  **From the text of a file to what it sets up.**

  A configuration and the definitions of a local registry are TOML texts.  A file
  gives its bytes, if it is there at all; bytes that are no text can not be read.
-/
import ServiceFinder.Config.Reading
import ServiceFinder.Registry.Definitions
import ServiceFinder.Toml.Reading

namespace ServiceFinder

/-- The text of a file. -/
def textOf (content : Option ByteArray) : Except ConfigError String :=
  match content.bind String.fromUTF8? with
  | some text => .ok text
  | none => .error .unreadable

/-- What a TOML text stands for. -/
def readText {α : Type} (read : Reader α) (text : String) : Except ConfigError α :=
  match (Document.ofToml? text).bind read with
  | some value => .ok value
  | none => .error .malformed

def Config.ofText (text : String) : Except ConfigError Config := do
  (← readText (Config.read .settings) text).checked

def Config.ofFile (content : Option ByteArray) : Except ConfigError Config := do
  Config.ofText (← textOf content)

def LocalRegistry.ofText (ids : Nat → String) (text : String) :
    Except ConfigError LocalRegistry := do
  return .ofDefinitions ids (← readText (ServiceDefinition.readAll .settings) text)

def LocalRegistry.ofFile (ids : Nat → String) (content : Option ByteArray) :
    Except ConfigError LocalRegistry := do
  LocalRegistry.ofText ids (← textOf content)

end ServiceFinder
