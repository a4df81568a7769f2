import ProcessAnalyzer.Model.Instances

/-!
# `ProcessAnalyzer.Model.OldFiles`: the deletion for `-j`

`process_snapshot_delete_old_files` of `code/process_snapshot/process_snapshot.c` as one call.
It reads the output directory to its end and removes the entries that it takes for old output
files, until `remove` fails for the first time. (`ProcessAnalyzer.Model.Instances` has the
same loop as single steps of an instance.)

`readdir` gives the names that were in the directory when it was opened. `remove` fails when
there is nothing under its path, and where the file system does not let the path be removed.
-/

set_option autoImplicit false

namespace ProcessAnalyzer

open ProcessAnalyzer.Lib

/-- The answers of the system. -/
structure DeleteEnv where
  /-- `opendir`: the names that `readdir` gives, or whether `errno` is `ENOENT` -/
  opendir : Except Bool (List Bytes)
  /-- the file system lets the path be removed -/
  removable : Bytes → Bool

/-- What a call works on. `calls` is not a variable of the program: it collects the paths that
`remove` is called with. -/
structure Deletion where
  dir : Dir Bytes Unit
  calls : List Bytes := []
  stdout : List Bytes := []
  stderr : List Bytes := []

/-- `remove` of a path, with its result. -/
def Deletion.remove (env : DeleteEnv) (path : Bytes) (s : Deletion) : Deletion × Bool :=
  let s := { s with calls := s.calls ++ [path] }
  if (s.dir path).isSome ∧ env.removable path then ({ s with dir := s.dir.unlink path }, true)
  else (s, false)

/-- The loop over the directory: `false` when a `remove` fails and the function returns. -/
def deleteEntries (config : Config) (env : DeleteEnv) : List Bytes → Deletion → Deletion × Bool
  | [], s => (s, true)
  | name :: names, s =>
      if isOldFile name then
        match s.remove env (deleteFilePath config name) with
        | (s, true) =>
            deleteEntries config env names
              { s with stdout := s.stdout ++ [ascii "Removed old file " ++ name ++ ascii "\n"] }
        | (s, false) =>
            ({ s with stderr := s.stderr ++
                [ascii "process_snapshot_delete_old_files: Failed to remove old file " ++ name
                  ++ ascii "\n"] }, false)
      else deleteEntries config env names s

/-- `process_snapshot_delete_old_files`. -/
def processSnapshotDeleteOldFiles (config : Config) (env : DeleteEnv) (dir : Dir Bytes Unit) :
    Deletion × ProcessSnapshotStatus :=
  match env.opendir with
  | .ok names =>
      match deleteEntries config env names { dir := dir } with
      | (s, true) => (s, .success)
      | (s, false) => (s, .error)
  -- a missing directory is not an error
  | .error true => ({ dir := dir }, .success)
  | .error false =>
      ({ dir := dir, stderr :=
          [ascii "process_snapshot_delete_old_files: Failed to open dir "
            ++ config.configGetOutputDir ++ ascii "\n"] }, .error)

end ProcessAnalyzer
