import Decomment.Text.Digit

/-!
# Failures

What can go wrong, as causes.  The wording of each cause is `Failure.message`; a cause that came
about through another one names it after a colon.
-/

namespace Decomment

/-- Why the file system refused an operation. -/
inductive FsError
  | notFound
  | notADirectory
  | isADirectory
  | alreadyExists
  | notText
deriving DecidableEq, Repr

def FsError.message : FsError → String
  | notFound => "No such file or directory (os error 2)"
  | notADirectory => "Not a directory (os error 20)"
  | isADirectory => "Is a directory (os error 21)"
  | alreadyExists => "File exists (os error 17)"
  | notText => "stream did not contain valid UTF-8"

/-- Flags that do not go together, or a path that is missing. -/
inductive UsageError
  | severalUtilities
  | utilityWithProcessing
  | utilityWithGit
  | severalGitScopes
  | gitWithPath
  | gitWithRecursive
  | noPath
  | inlineAndBlock
deriving DecidableEq, Repr

/-- The wording of a wrong use of the command line. -/
def UsageError.message : UsageError → String
  | severalUtilities =>
      "utility commands (--install-hook, --uninstall-hook, --list-hooks, --hook-status, " ++
        "--config, --create-config) are mutually exclusive"
  | utilityWithProcessing => "hook commands cannot be combined with processing flags"
  | utilityWithGit => "hook commands cannot be combined with git flags"
  | severalGitScopes => "git flags (--changes-only, --staged, --unstaged) are mutually exclusive"
  | gitWithPath => "cannot use git flags with explicit path argument"
  | gitWithRecursive => "cannot use git flags with --recursive (git handles repository scope)"
  | noPath => "path argument is required"
  | inlineAndBlock => "--inline and --block flags are mutually exclusive"

/-- Why a glob is no glob. -/
inductive GlobError
  | unclosedClass
  | invalidRange (low high : Char)
  | unopenedAlternates
  | unclosedAlternates
  | danglingEscape
deriving DecidableEq, Repr

/-- The wording of a glob error. -/
def GlobError.message : GlobError → String
  | unclosedClass => "unclosed character class; missing ']'"
  | invalidRange low high =>
      "invalid range; '" ++ low.toString ++ "' > '" ++ high.toString ++ "'"
  | unopenedAlternates =>
      "unopened alternate group; missing '\x7b' (maybe escape '\x7d' with '[\x7d]'?)"
  | unclosedAlternates =>
      "unclosed alternate group; missing '\x7d' (maybe escape '\x7b' with '[\x7b]'?)"
  | danglingEscape => "dangling '\\'"

/-- The sentence that reports an error in the glob `glob`. -/
def GlobError.report (glob : String) (e : GlobError) : String :=
  "error parsing glob '" ++ glob ++ "': " ++ e.message

/-- Why globs cannot be used together: the expression of one is nested too deep.  It is found
alone, or at its place among others. -/
inductive GlobSetError
  | tooDeep (expression : String)
  | tooDeepAt (place : Nat)
deriving DecidableEq, Repr

/-- The wording of an error among globs. -/
def GlobSetError.message : GlobSetError → String
  | tooDeep expression =>
      "error parsing glob '" ++ expression ++ "': error parsing pattern 0"
  | tooDeepAt place => "error parsing pattern " ++ String.ofList (Text.numeral place)

/-- Why a command did not succeed. -/
inductive Failure
  | noExtension
  | unsupportedExtension (ext : String)
  | notText (label : String)
  | notARepository
  | gitCommand (arguments reason : String)
  | hookAlreadyInstalled (path : String)
  | hookNotFound (path : String)
  | pathNotFound (path : String) (cause : FsError)
  | unreadable (label : String) (cause : FsError)
  | unwritable (label : String) (cause : FsError)
  | backupFailed (label : String) (cause : FsError)
  | configUnreadable (path : String) (cause : FsError)
  | configInvalid (path : String)
  | configExists (path : String)
  | settingsUnreadable (path : String) (cause : FsError)
  | settingsInvalid (path : String)
  | settingsUnwritable (path : String) (cause : FsError)
  | directoryNotCreated (path : String) (cause : FsError)
  | invalidExclude (glob : String) (cause : GlobError)
  | unusableExcludes (cause : GlobSetError)
  | nothingSupported (directory : String)
  | changesUnavailable (cause : Failure)
  | someFilesFailed
  | usage (cause : UsageError)
deriving DecidableEq, Repr

/-- The wording of a failure, with its causes. -/
def Failure.message : Failure → String
  | noExtension => "no file extension found"
  | unsupportedExtension ext => "unsupported file extension: " ++ ext
  | notText label => label ++ " is not valid UTF-8; left untouched"
  | notARepository =>
      "not in a git repository. Use without git flags to process files normally"
  | gitCommand arguments reason => "git " ++ arguments ++ " failed: " ++ reason
  | hookAlreadyInstalled path => "shush hook already installed at " ++ path
  | hookNotFound path => "shush hook not found at " ++ path
  | pathNotFound path cause => "path not found: " ++ path ++ ": " ++ cause.message
  | unreadable label cause => "Failed to read " ++ label ++ ": " ++ cause.message
  | unwritable label cause => "Failed to write " ++ label ++ ": " ++ cause.message
  | backupFailed label cause =>
      "failed to create backup of " ++ label ++ ": " ++ cause.message
  | configUnreadable path cause => "Failed to read config " ++ path ++ ": " ++ cause.message
  | configInvalid path => "Invalid config " ++ path
  | configExists path => path ++ " already exists"
  | settingsUnreadable path cause =>
      "Failed to read settings " ++ path ++ ": " ++ cause.message
  | settingsInvalid path => "Failed to parse settings " ++ path
  | settingsUnwritable path cause =>
      "Failed to write settings " ++ path ++ ": " ++ cause.message
  | directoryNotCreated path cause => "Failed to create " ++ path ++ ": " ++ cause.message
  | invalidExclude glob cause =>
      "Invalid --exclude glob pattern: " ++ glob ++ ": " ++ cause.report glob
  | unusableExcludes cause => "Failed to build exclude glob set: " ++ cause.message
  | nothingSupported directory => "no supported files found in directory: " ++ directory
  | changesUnavailable cause => "failed to get git changes: " ++ cause.message
  | someFilesFailed =>
      "One or more files could not be processed. See stderr for details."
  | usage cause => cause.message

end Decomment
