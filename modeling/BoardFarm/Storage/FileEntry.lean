/-!
# Entries of the file system

What may be found under the name of a file.

* `FileEntry.content?`: the text of an entry that can be read.
-/

namespace BoardFarm

/-- What is found under a name: nothing, a directory, a text, or bytes that are no text. -/
inductive FileEntry where
  | absent
  | directory
  | text (content : String)
  | binary
  deriving DecidableEq, Repr

namespace FileEntry

/-- The text of an entry, if it is one. -/
def content? : FileEntry → Option String
  | text content => some content
  | _ => none

end FileEntry

end BoardFarm
