import QueryShell.Value.Exception

/-! External programs, seen from outside: what a program answers to its input, or why it did not
start. -/

namespace QueryShell

inductive LaunchFailure where
  | notFound
  | permissionDenied
  | connectionRefused
  | connectionReset
  | hostUnreachable
  | networkUnreachable
  | connectionAborted
  | notConnected
  | addressInUse
  | addressNotAvailable
  | networkDown
  | brokenPipe
  | alreadyExists
  | wouldBlock
  | notADirectory
  | isADirectory
  | directoryNotEmpty
  | readOnlyFilesystem
  | staleFileHandle
  | invalidInput
  | nulInName
  | invalidData
  | timedOut
  | writeZero
  | storageFull
  | notSeekable
  | quotaExceeded
  | fileTooLarge
  | resourceBusy
  | executableFileBusy
  | deadlock
  | crossesDevices
  | tooManyLinks
  | invalidFilename
  | argumentListTooLong
  | interrupted
  | unsupported
  | unexpectedEnd
  | outOfMemory
  | inProgress
  | other
  deriving DecidableEq

def LaunchFailure.message : LaunchFailure → String
  | .notFound => "entity not found"
  | .permissionDenied => "permission denied"
  | .connectionRefused => "connection refused"
  | .connectionReset => "connection reset"
  | .hostUnreachable => "host unreachable"
  | .networkUnreachable => "network unreachable"
  | .connectionAborted => "connection aborted"
  | .notConnected => "not connected"
  | .addressInUse => "address in use"
  | .addressNotAvailable => "address not available"
  | .networkDown => "network down"
  | .brokenPipe => "broken pipe"
  | .alreadyExists => "entity already exists"
  | .wouldBlock => "operation would block"
  | .notADirectory => "not a directory"
  | .isADirectory => "is a directory"
  | .directoryNotEmpty => "directory not empty"
  | .readOnlyFilesystem => "read-only filesystem or storage medium"
  | .staleFileHandle => "stale network file handle"
  | .invalidInput => "invalid input parameter"
  | .nulInName => "nul byte found in provided data"
  | .invalidData => "invalid data"
  | .timedOut => "timed out"
  | .writeZero => "write zero"
  | .storageFull => "no storage space"
  | .notSeekable => "seek on unseekable file"
  | .quotaExceeded => "quota exceeded"
  | .fileTooLarge => "file too large"
  | .resourceBusy => "resource busy"
  | .executableFileBusy => "executable file busy"
  | .deadlock => "deadlock"
  | .crossesDevices => "cross-device link or rename"
  | .tooManyLinks => "too many links"
  | .invalidFilename => "invalid filename"
  | .argumentListTooLong => "argument list too long"
  | .interrupted => "operation interrupted"
  | .unsupported => "unsupported"
  | .unexpectedEnd => "unexpected end of file"
  | .outOfMemory => "out of memory"
  | .inProgress => "in progress"
  | .other => "other error"

def LaunchFailure.exception (program : String) : LaunchFailure → Exception
  | .notFound => .commandNotFound program
  | .permissionDenied => .commandNotPermitted program
  | failure => .internal ("failed to run " ++ program ++ ": " ++ failure.message)

/-- A program's answer to the bytes it is given. -/
abbrev Runner := String → List UInt8 → Except LaunchFailure (List UInt8)

/-- The programs that every shell has: one that repeats its input and one that says nothing. -/
def Runner.system : Runner := fun program input =>
  match program with
  | "cat" | "/bin/cat" | "/usr/bin/cat" => .ok input
  | "true" | "/bin/true" | "/usr/bin/true" => .ok []
  | "/etc/passwd" => .error .permissionDenied
  | _ => if program.toList.contains '\x00' then .error .nulInName else .error .notFound

end QueryShell
