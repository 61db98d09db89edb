/-
Why a file cannot be read or written.

Most errors come from the system and are reported with the path.  A path with a
null character is no path at all (`FileError.invalidPath`).
-/
import Asm256.Text.Quoted

namespace Asm256

/-- What the system says about a path. -/
inductive SystemError
  | notFound
  | notDirectory
  | isDirectory
  | nameTooLong
  | other (text : String)
  deriving DecidableEq, Repr

/-- The wording of the error for a path. -/
def SystemError.message (path : String) : SystemError → String
  | notFound => s!"[Errno 2] No such file or directory: {Text.quoted path}"
  | notDirectory => s!"[Errno 20] Not a directory: {Text.quoted path}"
  | isDirectory => s!"[Errno 21] Is a directory: {Text.quoted path}"
  | nameTooLong => s!"[Errno 36] File name too long: {Text.quoted path}"
  | other text => text

/-- What is wrong with a file or its path. -/
inductive FileError
  | system (e : SystemError)
  | invalidPath
  deriving DecidableEq, Repr

end Asm256
