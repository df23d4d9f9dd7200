/-!
# Why a source cannot be read
-/

namespace Courier

/-- Why no text can be read at a path. -/
inductive ReadFault where
  | missing
  | notDirectory
  | isDirectory
  | nameTooLong
  /-- The path holds a NUL, which ends a name. -/
  | nulInName
  /-- The bytes of the file are no UTF-8. -/
  | notText
  /-- No text is held in memory under this name. -/
  | notInMemory (name : String)
  /-- What the system says. -/
  | system (message : String)
  deriving DecidableEq, Repr, Inhabited

/-- The wording of a read fault. -/
def ReadFault.message : ReadFault → String
  | missing => "No such file or directory (os error 2)"
  | notDirectory => "Not a directory (os error 20)"
  | isDirectory => "Is a directory (os error 21)"
  | nameTooLong => "File name too long (os error 36)"
  | nulInName => "file name contained an unexpected NUL byte"
  | notText => "stream did not contain valid UTF-8"
  | notInMemory name => "file not found in memory: " ++ name
  | system message => message

end Courier
