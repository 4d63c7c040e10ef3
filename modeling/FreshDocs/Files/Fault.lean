/-!
Why a file could not be read: a kind, which decides whether to try again, and the words of
whoever reported it.
-/

namespace FreshDocs

inductive Fault.Kind where
  | notFound
  | permissionDenied
  | interrupted
  | wouldBlock
  | timedOut
  | other
  deriving DecidableEq

structure Fault where
  kind : Fault.Kind
  text : String
  deriving DecidableEq

namespace Fault

def notFound : Fault := ⟨.notFound, "No such file or directory (os error 2)"⟩
def notADirectory : Fault := ⟨.other, "Not a directory (os error 20)"⟩
def isADirectory : Fault := ⟨.other, "Is a directory (os error 21)"⟩
def nameTooLong : Fault := ⟨.other, "File name too long (os error 36)"⟩
def notText : Fault := ⟨.other, "stream did not contain valid UTF-8"⟩
def nulInName : Fault := ⟨.other, "file name contained an unexpected NUL byte"⟩

def isNotFound (fault : Fault) : Bool :=
  fault.kind = .notFound

/-- Whether the same read may succeed when it is tried again. -/
def isTransient (fault : Fault) : Bool :=
  match fault.kind with
  | .interrupted | .wouldBlock | .timedOut => true
  | _ => false

end Fault
end FreshDocs
