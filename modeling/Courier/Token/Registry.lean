import Courier.Token.Stream

/-!
# The registry of tokenized files

The streams of the files tokenized so far, by name. A name is tokenized successfully at most once: a stream may be taken out of
the registry, but its name stays seen.
-/

namespace Courier

/-- The streams held, by file name, and every name that was ever tokenized. -/
structure Registry where
  held : List (String × Stream)
  seen : List String
  deriving DecidableEq, Repr, Inhabited

namespace Registry

/-- The registry that has seen nothing. -/
def empty : Registry :=
  ⟨[], []⟩

/-- Whether a name was tokenized. -/
def hasSeen (r : Registry) (file : String) : Bool :=
  r.seen.contains file

/-- The stream held under a name. -/
def stream? (r : Registry) (file : String) : Option Stream :=
  r.held.lookup file

/-- The stream held under a name or, if there is none, the given one, which is held from now on. -/
def holdNew (r : Registry) (file : String) (s : Stream) : Stream × Registry :=
  match r.stream? file with
  | some held => (held, r)
  | none => (s, { r with held := (file, s) :: r.held })

/-- Tokenizes a text under a name and holds the stream. A name that was seen is refused, and a text that cannot be cut into
tokens leaves the name free. -/
def tokenize (r : Registry) (file source : String) : Except LexError (Stream × Registry) :=
  if r.hasSeen file then .error (.alreadyTokenized file)
  else (Stream.tokenize file source).map (fun s => { r with seen := file :: r.seen }.holdNew file s)

/-- The registry with a held stream changed, as its cursor moves. Names that are not held are left alone. -/
def update (r : Registry) (file : String) (s : Stream) : Registry :=
  { r with held := r.held.map (fun entry => if entry.1 == file then (file, s) else entry) }

/-- Takes the stream held under a name out of the registry; the name stays seen. -/
def take (r : Registry) (file : String) : Option (Stream × Registry) :=
  (r.stream? file).map (fun s => (s, { r with held := r.held.filter (fun entry => entry.1 != file) }))

/-- The names held. -/
def files (r : Registry) : List String :=
  r.held.map (·.1)

end Registry

end Courier
