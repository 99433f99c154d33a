import RunLog.Run.Fault

/-!
# Why a command fails

A run that is dropped is no failure. A command fails when a file cannot be read
or written, when a file is too large, when a strict reading meets a fault, or
when there is nothing to do.
-/
namespace RunLog

/-- Why a command failed; paths and reasons are kept as they will be shown. -/
inductive Failure where
  | file (path reason : Text)
  | tooLarge (path : Text) (size limit : Nat)
  | log (source : Text) (fault : Fault)
  | notExported (reason : Text)
  | badInput (reason : Text)
  deriving DecidableEq, Repr

/-- The failure in words; limits are also given in units of 2²⁰ octets. -/
def Failure.message : Failure → Text
  | .file path reason => "I/O error for '".toList ++ path ++ "': ".toList ++ reason
  | .tooLarge path size limit =>
      "File '".toList ++ path ++ "' is too large (".toList ++ Decimal.natural size ++
        " bytes). Maximum allowed: ".toList ++ Decimal.natural limit ++ " bytes (".toList ++
        Decimal.natural (limit / Nat.pow 2 20) ++ " MB)".toList
  | .log source fault => "Parse error: ".toList ++ source ++ ": ".toList ++ fault.message
  | .notExported reason => "Export error: ".toList ++ reason
  | .badInput reason => "Invalid input: ".toList ++ reason

end RunLog
