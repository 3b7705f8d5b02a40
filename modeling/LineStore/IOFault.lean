/-!
# Input and output faults

A fault of a read, a write or another request to the operating system has a
kind, by which callers tell faults apart, and a text for people.
-/

namespace LineStore

/-- The kinds of faults that a request to the operating system can meet. -/
inductive IOFault.Kind
  | notFound
  | permissionDenied
  | connectionRefused
  | connectionReset
  | hostUnreachable
  | networkUnreachable
  | connectionAborted
  | notConnected
  | addrInUse
  | addrNotAvailable
  | networkDown
  | brokenPipe
  | alreadyExists
  | wouldBlock
  | notADirectory
  | isADirectory
  | directoryNotEmpty
  | readOnlyFilesystem
  | staleNetworkFileHandle
  | invalidInput
  | invalidData
  | timedOut
  | writeZero
  | storageFull
  | notSeekable
  | quotaExceeded
  | fileTooLarge
  | resourceBusy
  | executableFileBusy
  | deadlock
  | crossesDevices
  | tooManyLinks
  | invalidFilename
  | argumentListTooLong
  | interrupted
  | unsupported
  | unexpectedEof
  | outOfMemory
  | other
  deriving DecidableEq, Repr

/-- A fault met by a request to the operating system. -/
structure IOFault where
  kind : IOFault.Kind
  text : String
  deriving DecidableEq, Repr

namespace IOFault

/-- The fault of reading text from bytes that are not UTF-8. -/
def notText : IOFault :=
  ⟨.invalidData, "stream did not contain valid UTF-8"⟩

/-- The fault with a number that the operating system gives. -/
def numbered (kind : Kind) (text : String) (number : Nat) : IOFault :=
  ⟨kind, s!"{text} (os error {number})"⟩

end IOFault

end LineStore
