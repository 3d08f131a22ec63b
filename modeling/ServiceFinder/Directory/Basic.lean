/-
  ServiceFinder/Directory/Basic.lean
  ==================================
  **All cached views.**

  Views are numbered in the order in which they are made and never forgotten, so a
  call can keep working on a view that is no longer cached.  `cached` says which
  view is found under which key.  Protection is a flag of the whole directory that
  new views start with.  At most one sweep over the views runs at a time: `sweepers`
  lists the calls that hold the sweep lock or wait for it, the holder first.
-/
import ServiceFinder.Directory.Entry

namespace ServiceFinder

abbrev EntryId := Nat

/-- What holds for every view of a directory. -/
structure Options where
  /-- How long a lookup at the registry may take, in milliseconds. -/
  fetchTimeout : Nat := 5000
  policy : EmptyListPolicy := .retainNonEmpty

structure Directory where
  options : Options := {}
  entries : List Entry := []
  cached : List (ServiceKey × EntryId) := []
  protection : Bool := false
  sweepers : List CallId := []

namespace Directory

def entry (d : Directory) (e : EntryId) : Entry := d.entries[e]?.getD default

def modify (d : Directory) (e : EntryId) (f : Entry → Entry) : Directory :=
  { d with entries := d.entries.modify e f }

/-- The view cached under a key. -/
def find? (d : Directory) (key : ServiceKey) : Option EntryId := d.cached.lookup key

/-- Whether this very view is the one cached under its key. -/
def holds (d : Directory) (e : EntryId) : Bool := d.find? (d.entry e).key == some e

def size (d : Directory) : Nat := d.cached.length

/-- Every cached view. -/
def views (d : Directory) : List EntryId := d.cached.map (·.2)

/-- The cached views whose first refresh is over. -/
def initialized (d : Directory) : List EntryId :=
  d.views.filter fun e => (d.entry e).isInitialized

/-- Make a new view and cache it under its key. -/
def create (d : Directory) (key : ServiceKey) : Directory :=
  { d with entries := d.entries ++ [{ key, protection := d.protection }],
           cached := d.cached ++ [(key, d.entries.length)] }

/-- Drop what is cached under the key of `e`. -/
def drop (d : Directory) (e : EntryId) : Directory :=
  { d with cached := d.cached.filter (·.1 != (d.entry e).key) }

/-- Switch the protection of the directory and of every cached view. -/
def protect (d : Directory) (on : Bool) : Directory :=
  d.views.foldl (fun d e => d.modify e ({ · with protection := on })) { d with protection := on }

/-- The ids of all instances that some cached view lists. -/
def liveInstances (d : Directory) : List String :=
  d.views.flatMap fun e => (d.entry e).listing.instances.map (·.instanceId)

end Directory

end ServiceFinder
