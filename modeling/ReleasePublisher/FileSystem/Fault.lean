import ReleasePublisher.Path

/-!
Why a file operation fails: the system refuses it for a numbered reason, or what it is asked to do
makes no sense to begin with.
-/
namespace ReleasePublisher

inductive SystemError
  | notPermitted
  | notFound
  | noDevice
  | permissionDenied
  | alreadyExists
  | notADirectory
  | isADirectory
  | noSpace
  | nameTooLong
  | notEmpty
  | tooManyLinks
  deriving DecidableEq, Repr

namespace SystemError

def number : SystemError → Nat
  | .notPermitted => 1
  | .notFound => 2
  | .noDevice => 6
  | .permissionDenied => 13
  | .alreadyExists => 17
  | .notADirectory => 20
  | .isADirectory => 21
  | .noSpace => 28
  | .nameTooLong => 36
  | .notEmpty => 39
  | .tooManyLinks => 40

def reason : SystemError → String
  | .notPermitted => "Operation not permitted"
  | .notFound => "No such file or directory"
  | .noDevice => "No such device or address"
  | .permissionDenied => "Permission denied"
  | .alreadyExists => "File exists"
  | .notADirectory => "Not a directory"
  | .isADirectory => "Is a directory"
  | .noSpace => "No space left on device"
  | .nameTooLong => "File name too long"
  | .notEmpty => "Directory not empty"
  | .tooManyLinks => "Too many levels of symbolic links"

def message (e : SystemError) : String := e.reason ++ " (os error " ++ toString e.number ++ ")"

end SystemError

inductive FileFault
  | system (error : SystemError)
  | zeroByteInPath
  | notText
  | other (text : String)
  deriving DecidableEq, Repr

namespace FileFault

def message : FileFault → String
  | .system error => error.message
  | .zeroByteInPath => "file name contained an unexpected NUL byte"
  | .notText => "stream did not contain valid UTF-8"
  | .other text => text

end FileFault

end ReleasePublisher
