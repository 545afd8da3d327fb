import ParserRelay.Path
/-! Failures of operations on files, with their messages: those that come from what the tree holds or
from the path. A refusal for want of permission or on a read-only file system (EACCES, EPERM, EROFS)
is not among them, so nothing here speaks of trees on which one occurs. -/
namespace ParserRelay

inductive SystemError
  | noEntry
  | exists
  | notDirectory
  | isDirectory
  | nameTooLong
  | tooManyLinks
  deriving DecidableEq

namespace SystemError

def number : SystemError → Nat
  | .noEntry => 2
  | .exists => 17
  | .notDirectory => 20
  | .isDirectory => 21
  | .nameTooLong => 36
  | .tooManyLinks => 40

def wording : SystemError → Text
  | .noEntry => "No such file or directory".toList
  | .exists => "File exists".toList
  | .notDirectory => "Not a directory".toList
  | .isDirectory => "Is a directory".toList
  | .nameTooLong => "File name too long".toList
  | .tooManyLinks => "Too many levels of symbolic links".toList

def message (e : SystemError) : Text := "[Errno ".toList ++ Text.ofNat e.number ++ "] ".toList ++ e.wording

end SystemError

def PathFault.message : PathFault → Text
  | .unencoded run => run.message
  | .nullCharacter => "embedded null byte".toList

inductive FileError
  | system (e : SystemError) (path : WideText)
  | linking (e : SystemError) (target path : WideText)
  | unusable (fault : PathFault)
  | linkLoop (path : WideText)
  deriving DecidableEq

def FileError.message : FileError → Text
  | .system e path => e.message ++ ": ".toList ++ Text.quoted path
  | .linking e target path =>
    e.message ++ ": ".toList ++ Text.quoted target ++ " -> ".toList ++ Text.quoted path
  | .unusable fault => fault.message
  | .linkLoop path => "Symlink loop from ".toList ++ Text.quoted path

end ParserRelay
