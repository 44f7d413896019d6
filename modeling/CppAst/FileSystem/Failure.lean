namespace CppAst

inductive FileFailure where
  | notFound
  | permissionDenied
  | alreadyExists
  | notDirectory
  | isDirectory
  | invalidPath
  | nameTooLong
  | tooManyLinks
  | notExecutable
  | noSpace
  | nulInPath
  | nulInArgument
  | notText
  | other (number : Nat) (text : String)
deriving Repr, DecidableEq

def FileFailure.message : FileFailure → String
  | notFound => "No such file or directory (os error 2)"
  | permissionDenied => "Permission denied (os error 13)"
  | alreadyExists => "File exists (os error 17)"
  | notDirectory => "Not a directory (os error 20)"
  | isDirectory => "Is a directory (os error 21)"
  | invalidPath => "Invalid argument (os error 22)"
  | nameTooLong => "File name too long (os error 36)"
  | tooManyLinks => "Too many levels of symbolic links (os error 40)"
  | notExecutable => "Exec format error (os error 8)"
  | noSpace => "No space left on device (os error 28)"
  | nulInPath => "file name contained an unexpected NUL byte"
  | nulInArgument => "nul byte found in provided data"
  | notText => "stream did not contain valid UTF-8"
  | other number text => s!"{text} (os error {number})"

end CppAst
