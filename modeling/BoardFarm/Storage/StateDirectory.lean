import BoardFarm.SortedMap
import BoardFarm.Storage.FileEntry

/-!
# State directories

The state is kept in a directory, which is created when the state is first saved. It can not
be created where a file stands in its way. Files are written one after the other, and each takes
the place of an older one in one go; what is written first is there even if the rest can not be
written.

* `StateDirectory.entry`: what is found under a name.
* `StateDirectory.write`: the directory after files have been written.
-/

namespace BoardFarm

/-- The directory of the state: one that can not be created, one that does not exist yet, or
one with its entries. -/
inductive StateDirectory where
  | blocked
  | absent
  | present (entries : SortedMap String FileEntry)
  deriving DecidableEq, Repr

namespace StateDirectory

def entries : StateDirectory → SortedMap String FileEntry
  | present entries => entries
  | _ => SortedMap.empty

/-- What is found under a name. -/
def entry (d : StateDirectory) (name : String) : FileEntry :=
  (d.entries.get? name).getD .absent

/-- The names of the entries in order. -/
def names (d : StateDirectory) : List String := d.entries.keys

/-- Writes files until a directory stands in the place of one. The result tells whether all of
them are written. -/
def writeEach : List (String × String) → StateDirectory → Bool × StateDirectory
  | [], d => (true, d)
  | f :: rest, d =>
    if d.entry f.1 = .directory then (false, d)
    else writeEach rest (present (d.entries.insert f.1 (.text f.2)))

/-- Writes files into the directory, which is created if it does not exist. -/
def write (files : List (String × String)) (d : StateDirectory) : Bool × StateDirectory :=
  if d = blocked then (false, d) else writeEach files (present d.entries)

end StateDirectory

end BoardFarm
