import ProcessAnalyzer.Model.ConfigFile

/-!
# `ProcessAnalyzer.Model.OutputDirectory`: `mkdir_p` on its buffer

`mkdirP` in `ConfigFile` is the result of `mkdir_p`. This is the function itself: it copies
the path to `tmp[PATH_MAX]`, removes a trailing slash there, and then walks over the buffer.
At each slash it puts a NUL, calls `mkdir` for the string that is left, and puts the slash
back.

An `MkdirRun` keeps the indices of the buffer that are read or written, and the calls of
`mkdir`. The system call is a parameter, on any state of the file system.
-/

set_option autoImplicit false

namespace ProcessAnalyzer

open ProcessAnalyzer.Lib

/-- A run of `mkdir_p` so far. -/
structure MkdirRun (σ : Type) where
  tmp : Bytes
  /-- the indices of `tmp` that have been read or written -/
  accesses : List ℕ
  /-- the paths that `mkdir` has been called for -/
  calls : List Bytes
  fs : σ

section Run
variable {σ : Type} (mkdir : σ → Bytes → σ × MkdirResult)

/-- An access to some indices of the buffer. -/
def MkdirRun.touch (r : MkdirRun σ) (is : List ℕ) : MkdirRun σ :=
  { r with accesses := r.accesses ++ is }

/-- `tmp[i] = b`. A write outside of the buffer does not change it. -/
def MkdirRun.store (r : MkdirRun σ) (i : ℕ) (b : UInt8) : MkdirRun σ :=
  { r.touch [i] with tmp := r.tmp.set i b }

/-- `mkdir(tmp, mode)`, and whether it returned 0 or failed with `EEXIST`. The system call
reads the string up to its NUL. -/
def MkdirRun.mkdirTmp (r : MkdirRun σ) : MkdirRun σ × Bool :=
  let path := cString r.tmp
  let (fs, result) := mkdir r.fs path
  ({ r.touch (List.range (path.length + 1)) with calls := r.calls ++ [path], fs := fs },
    result ≠ .failed)

/-- The loop of `mkdir_p` from index `p` on, and the call behind it: whether the result is 0.
The first argument is the number of bytes that the buffer has from `p` on. Without one, the
loop has left the buffer, and there is no result. -/
def mkdirLoop : ℕ → ℕ → MkdirRun σ → MkdirRun σ × Option Bool
  | 0, p, r => (r.touch [p], none)
  | n + 1, p, r =>
      let c := r.tmp.getD p 0
      let r := r.touch [p]
      if c = 0 then
        let (r, ok) := r.mkdirTmp mkdir
        (r, some ok)
      else if c = 47 then
        let (r, ok) := (r.store p 0).mkdirTmp mkdir
        -- an error leaves the NUL where the slash was
        if ok = false then (r, some false) else mkdirLoop n (p + 1) (r.store p 47)
      else mkdirLoop n (p + 1) r

/-- `mkdir_p`. `stale` are the bytes of the buffer behind the copied string, and `outside` is
the byte that is found at an index that the buffer does not have. -/
def mkdirPRun (outside : UInt8) (stale path : Bytes) (fs : σ) : MkdirRun σ × Option Bool :=
  if path.length ≥ pathMax then (⟨[], [], [], fs⟩, some false)
  else
    -- `strcpy`
    let r : MkdirRun σ := ⟨path ++ [0] ++ stale, List.range (path.length + 1), [], fs⟩
    -- `len - 1` is a `size_t`, which is `SIZE_MAX` for an empty path
    let last := (path.length + 2 ^ 64 - 1) % 2 ^ 64
    let c := r.tmp.getD last outside
    let r := r.touch [last]
    let r := if c = 47 then r.store last 0 else r
    mkdirLoop mkdir (r.tmp.length - 1) 1 r

end Run

/-! ### What the calls are for -/

/-- The outcome of some calls of `mkdir`. -/
structure MkdirCalls (σ : Type) where
  fs : σ
  calls : List Bytes
  ok : Bool

/-- `mkdir` for some paths in turn, up to the first one that is not accepted. -/
def mkdirEach {σ : Type} (mkdir : σ → Bytes → σ × MkdirResult) : List Bytes → σ → MkdirCalls σ
  | [], fs => ⟨fs, [], true⟩
  | path :: paths, fs =>
      let (fs, result) := mkdir fs path
      if result = .failed then ⟨fs, [path], false⟩
      else
        let rest := mkdirEach mkdir paths fs
        ⟨rest.fs, path :: rest.calls, rest.ok⟩

/-- The prefixes of `walked ++ rest` that end in front of a slash of `rest`, from the shortest
one on, and then the whole path. -/
def prefixesFrom (walked : Bytes) : Bytes → List Bytes
  | [] => [walked]
  | b :: rest =>
      if b = 47 then walked :: prefixesFrom (walked ++ [b]) rest
      else prefixesFrom (walked ++ [b]) rest

/-- A path without one trailing slash. -/
def trimSlash (path : Bytes) : Bytes := if path.getLast? = some 47 then path.dropLast else path

/-- The directories on the way to a path. The first byte of a path is never looked at. -/
def pathPrefixes (path : Bytes) : List Bytes :=
  match trimSlash path with
  | [] => [[]]
  | b :: rest => prefixesFrom [b] rest

end ProcessAnalyzer
