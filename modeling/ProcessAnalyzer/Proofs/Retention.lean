import ProcessAnalyzer.Proofs.Records
import ProcessAnalyzer.Proofs.Rotation

/-!
# `ProcessAnalyzer.Proofs.Retention`: which part of the log the files keep

The abstract model of an output is its `History`: the generations that were rotated away,
newest first and none of them ever lost, and the current one. A snapshot appends its block
to the current generation, and a rotation closes the generation. `Retains` connects the
files to it: the active file is the current generation, slot `i` is the `i`-th newest
older one, and no other file of the output exists.

* `retains_handleRotations`: the rotation check keeps the connection, with or without a
  rotation.
* `retains_collectSnapshot`: so does a whole snapshot.
* `uncompressed_rotation_keeps_suffix`: over a whole run the files are a suffix of the
  history, which consists of the initial files and of whole snapshot blocks.
-/

set_option autoImplicit false

namespace ProcessAnalyzer

open ProcessAnalyzer.Lib ProcessAnalyzer.Stats

/-- The generations of an output: the older ones, newest first (`none` for a slot that was
empty at the start), and the current one. -/
structure History where
  older : List (Option Bytes)
  current : Bytes

/-- A block is added to the current generation. -/
def History.append (h : History) (block : Bytes) : History :=
  { h with current := h.current ++ block }

/-- The current generation is closed, and an empty one begins. -/
def History.rotate (h : History) : History := ⟨some h.current :: h.older, []⟩

section Connection
variable (config : Config) (b : LogBase) (M : ℕ)

/-- The files of an output are the newest generations of its history. -/
structure Retains (h : History) (o : Output) : Prop where
  flushed : Flushed config b h.current o
  slots : ∀ i, i < M → o.rotation.dir (fileAt config (b, .plain (i + 1))) = h.older[i]?.join
  only : ∀ n, o.rotation.dir (fileAt config (b, n)) ≠ none →
    n = .active ∨ ∃ i, 1 ≤ i ∧ i ≤ M ∧ n = .plain i

/-- Two states of the program that agree on the files and the stream of an output. -/
structure SameFor (o o' : Output) : Prop where
  files : ∀ n, o'.rotation.dir (fileAt config (b, n)) = o.rotation.dir (fileAt config (b, n))
  stream : o'.streams b = o.streams b

variable {config b M}

/-- The connection depends on the files and the stream of the output only. -/
theorem Retains.congr {h : History} {o o' : Output} (hr : Retains config b M h o)
    (hs : SameFor config b o o') : Retains config b M h o' where
  flushed := ⟨(hs.files .active).trans hr.flushed.file, hs.stream.trans hr.flushed.stream⟩
  slots i hi := (hs.files _).trans (hr.slots i hi)
  only n hn := hr.only n (hs.files n ▸ hn)

/-! ### The other output -/

/-- A path of one output is no path of the other one. -/
theorem fileAt_ne {c : LogBase} (hbc : b ≠ c) (m n : FileName) :
    fileAt config (b, m) ≠ n.render (c.path config) := by
  intro h
  have hpair := fileAt_injective config (show fileAt config (b, m) = fileAt config (c, n) from h)
  exact hbc (congrArg Prod.fst hpair)

theorem SameFor.trans {o o' o'' : Output} (h : SameFor config b o o')
    (h' : SameFor config b o' o'') : SameFor config b o o'' where
  files n := (h'.files n).trans (h.files n)
  stream := h'.stream.trans h.stream

/-- Opening one output leaves the other one alone. -/
theorem sameFor_fopenAppend {c : LogBase} (hbc : b ≠ c) (o : Output) :
    SameFor config b o (o.fopenAppend config c) := by
  constructor
  · intro n
    have hne : fileAt config (b, n) ≠ c.path config := fileAt_ne hbc n .active
    simp only [Output.fopenAppend, Output.withStream, Output.withDir]
    split
    · rw [Dir.store_apply, if_neg hne]
    · rfl
  · simp only [Output.fopenAppend, Output.withStream, Output.withDir]
    rw [Function.update_of_ne hbc]

/-- `acquire_lock` creates the lock file where there is none, and changes no other file. -/
theorem dir_acquireLock {β : Type} (config : Config) (answer : LockAnswer) (empty : β)
    (d : Dir Bytes β) (path : Bytes) :
    (acquireLock config answer empty d).dir path = d path ∨
      (d path = none ∧ (acquireLock config answer empty d).dir path = some empty ∧
        path = lockPath config) := by
  have hopen : (fopenCall d (lockPath config) empty).1 path = d path ∨
      (d path = none ∧ (fopenCall d (lockPath config) empty).1 path = some empty ∧
        path = lockPath config) := by
    unfold fopenCall
    split
    · rename_i hnone
      dsimp only
      rw [Dir.store_apply]
      split
      · rename_i hpath
        exact Or.inr ⟨hpath ▸ Option.isNone_iff_eq_none.mp hnone, rfl, hpath⟩
      · exact Or.inl rfl
    · exact Or.inl rfl
  cases answer with
  | openFailed => exact Or.inl rfl
  | wouldBlock => exact hopen
  | flockFailed _ => exact hopen
  | locked => exact hopen

/-- The lock leaves the outputs alone. -/
theorem sameFor_lock (answer : LockAnswer) (o : Output) :
    SameFor config b o (o.lock config answer) where
  files n := by
    rcases dir_acquireLock config answer [] o.rotation.dir (fileAt config (b, n)) with
      hsame | ⟨-, -, hpath⟩
    · exact hsame
    · exact absurd hpath (fileAt_ne_lockPath config (b, n))
  stream := rfl

/-- Closing one output leaves the other one alone. -/
theorem sameFor_fclose {c : LogBase} (hbc : b ≠ c) (o : Output) :
    SameFor config b o (o.fclose config c) := by
  constructor
  · intro n
    exact dir_fflush config c o (fileAt_ne hbc n .active)
  · show Function.update (o.fflush config c).streams c none b = _
    rw [Function.update_of_ne hbc]
    cases hs : o.streams c with
    | none => simp [Output.fflush, hs]
    | some pending => simp [Output.fflush, hs, Output.withStream, Output.withDir,
        Function.update_of_ne hbc]

/-- No path of one output starts with the active path of the other one. -/
theorem not_path_prefix_fileAt {c : LogBase} (hbc : b ≠ c) (n : FileName) :
    ¬ c.path config <+: fileAt config (b, n) := by
  have hcancel : c.path config <+: fileAt config (b, n)
      ↔ c.fileName <+: b.fileName ++ dotted n.components := by
    rw [fileAt, render_eq]
    show config.configGetOutputDir ++ ascii "/" ++ c.fileName
      <+: config.configGetOutputDir ++ ascii "/" ++ b.fileName ++ dotted n.components ↔ _
    rw [List.append_assoc _ b.fileName]
    exact List.prefix_append_right_inj _
  rw [hcancel]
  -- The file names differ in their seventh letter.
  cases b <;> cases c
  · exact absurd rfl hbc
  · simp [LogBase.fileName, configLogFile, configJsonFile, ascii]
  · simp [LogBase.fileName, configLogFile, configJsonFile, ascii]
  · exact absurd rfl hbc

/-- The rotation check of one output leaves the other output alone. -/
theorem sameFor_handleRotation (config : Config) {c : LogBase} (hbc : b ≠ c) (env : SnapshotEnv)
    (o : Output) :
    SameFor config b o (handleRotation config env c o) := by
  have hrotate : SameFor config b (o.fclose config c)
      { o.fclose config c with
        rotation := rotateLogs config (c.path config) (env.now c) (env.jobMallocOk c)
          (o.fclose config c).rotation } :=
    ⟨fun n => rotateLogs_apply_of_foreign (not_path_prefix_fileAt hbc n) _ _ _ _, rfl⟩
  -- Closing, shifting and reopening use the paths of `c` only.
  have hclosed := (sameFor_fclose hbc o).trans hrotate
  unfold handleRotation
  split
  · split
    · unfold rotateAndReopen
      simp only
      split
      · exact hclosed.trans (sameFor_fopenAppend hbc _)
      · exact ⟨hclosed.files, hclosed.stream⟩
    · exact ⟨fun _ => rfl, rfl⟩
  · exact ⟨fun _ => rfl, rfl⟩

/-! ### The rotation check -/

/-- The configuration keeps `M` rotated files and does not compress them. -/
structure Uncompressed (config : Config) (M : ℕ) : Prop where
  files : config.configGetMaxNumberOfFiles.toInt = M
  pos : 1 ≤ M
  off : config.configGetCompressionEnabled = false

/-- Closing a flushed stream leaves the files as they are. -/
theorem dir_fclose {text : Bytes} {o : Output} (h : Flushed config b text o) :
    (o.fclose config b).rotation.dir = o.rotation.dir := by
  funext q
  simp only [Output.fclose, Output.fflush, h.stream, Output.withStream, Output.withDir, appendFile,
    h.file, List.append_nil]
  rw [Dir.store_apply]
  split
  · rename_i hq
    rw [hq, h.file]
  · rfl

/-- A rotation closes the current generation. -/
theorem retains_rotateAndReopen {h : History} {o : Output} (hr : Retains config b M h o)
    (env : SnapshotEnv) (hu : Uncompressed config M) (hreopen : env.reopenOk b = true) :
    Retains config b M h.rotate (rotateAndReopen config env b o) := by
  have hrot := rotateLogs_uncompressed config (b.path config) (env.now b) (env.jobMallocOk b)
    (o.fclose config b).rotation M hu.files hu.pos hu.off
  rw [dir_fclose hr.flushed] at hrot
  set d' := (rotateLogs config (b.path config) (env.now b) (env.jobMallocOk b)
    (o.fclose config b).rotation).dir with hd'
  -- Reopening creates the new active file and changes nothing else.
  have hdir : ∀ q, (rotateAndReopen config env b o).rotation.dir q
      = if q = b.path config then some [] else d' q := by
    intro q
    unfold rotateAndReopen
    simp only [hreopen, if_true, Output.fopenAppend, Output.withStream, Output.withDir]
    have hnone : d' (b.path config) = none := hrot.active
    rw [← hd', if_pos hnone, Dir.store_apply]
  have hne : ∀ n : FileName, n ≠ .active → fileAt config (b, n) ≠ b.path config := by
    intro n hn hpath
    exact hn (render_injective _ hpath)
  refine ⟨⟨by rw [hdir, if_pos rfl]; rfl, ?_⟩, ?_, ?_⟩
  · unfold rotateAndReopen
    simp [hreopen, Output.fopenAppend, Output.withStream]
  · intro i hi
    rw [hdir, if_neg (hne _ (by simp))]
    cases i with
    | zero =>
        rw [show d' (fileAt config (b, .plain 1)) = _ from hrot.first]
        exact hr.flushed.file
    | succ i =>
        rw [show d' (fileAt config (b, .plain (i + 1 + 1))) = _ from
          hrot.shifted (i + 1) (by omega) hi]
        exact hr.slots i (by omega)
  · intro n hn
    by_cases hact : n = .active
    · exact Or.inl hact
    · right
      rw [hdir, if_neg (hne n hact)] at hn
      by_cases hslot : ∃ i, 1 ≤ i ∧ i ≤ M ∧ n = .plain i
      · exact hslot
      · -- A name outside the slots was there before, or it is the removed compressed file.
        exfalso
        by_cases hgz : n = .gz M
        · exact hn (hgz ▸ hrot.oldestGz)
        · have hother : d' (fileAt config (b, n)) = o.rotation.dir (fileAt config (b, n)) :=
            hrot.other _ (fun h' => hact (render_injective _ h'))
              (fun h' => hgz (render_injective _ h'))
              (fun i h1 hi h' => hslot ⟨i, h1, hi, render_injective _ h'⟩)
          rcases hr.only n (hother ▸ hn) with hact' | hslot'
          · exact hact hact'
          · exact hslot hslot'

/-- The rotation check of an output either leaves it alone or closes its generation. -/
theorem retains_handleRotation {h : History} {o : Output} (hr : Retains config b M h o)
    (env : SnapshotEnv) (hu : Uncompressed config M) (hreopen : env.reopenOk b = true) :
    Retains config b M h (handleRotation config env b o) ∨
    Retains config b M h.rotate (handleRotation config env b o) := by
  unfold handleRotation
  split
  · split
    · exact Or.inr (retains_rotateAndReopen hr env hu hreopen)
    · exact Or.inl hr
  · exact Or.inl hr

/-- The same for the two checks of a snapshot. -/
theorem retains_handleRotations {h : History} {o : Output} (hr : Retains config b M h o)
    (env : SnapshotEnv) (hu : Uncompressed config M) (hreopen : env.reopenOk b = true) :
    Retains config b M h (handleRotations config env o) ∨
    Retains config b M h.rotate (handleRotations config env o) := by
  unfold handleRotations
  cases b with
  | log =>
      have hsame := sameFor_handleRotation config (show LogBase.log ≠ .jsonl by decide) env
        (handleRotation config env .log o)
      exact (retains_handleRotation hr env hu hreopen).imp (·.congr hsame) (·.congr hsame)
  | jsonl =>
      have hsame := sameFor_handleRotation config (show LogBase.jsonl ≠ .log by decide) env o
      exact retains_handleRotation (hr.congr hsame) env hu hreopen

/-- A snapshot appends its block to the current generation, which may be a new one. -/
theorem retains_collectSnapshot {h : History} {o : Output} (hr : Retains config b M h o)
    (env : SnapshotEnv) (w : ApPidWhitelist) (stats : StatsModule) (hu : Uncompressed config M)
    (hreopen : env.reopenOk b = true) :
    Retains config b M (h.append (snapshotBlock config env w b))
      (collectSnapshot config env w o stats).1 ∨
    Retains config b M (h.rotate.append (snapshotBlock config env w b))
      (collectSnapshot config env w o stats).1 := by
  have hbody : ∀ h', Retains config b M h' (handleRotations config env o) →
      Retains config b M (h'.append (snapshotBlock config env w b))
        (collectSnapshot config env w o stats).1 := by
    intro h' hr'
    -- The lines of the snapshot go to the active files, so the slots are those behind the check.
    have hdir : ∀ n : FileName, n ≠ .active →
        (collectSnapshot config env w o stats).1.rotation.dir (fileAt config (b, n))
          = (handleRotations config env o).rotation.dir (fileAt config (b, n)) := by
      intro n hn
      refine dir_collectSnapshot config env w o stats fun c hpath => hn ?_
      exact congrArg Prod.snd
        (fileAt_injective config
          (show fileAt config (b, n) = fileAt config (c, .active) from hpath))
    refine ⟨flushed_collectSnapshot config env w b o stats hr'.flushed, ?_, ?_⟩
    · intro i hi
      rw [hdir _ (by simp)]
      exact hr'.slots i hi
    · intro n hn
      by_cases hact : n = .active
      · exact Or.inl hact
      · exact hr'.only n (hdir n hact ▸ hn)
  exact (retains_handleRotations hr env hu hreopen).imp (hbody h) (hbody h.rotate)

end Connection

/-! ### Whole runs -/

/-- The generations that groups of whole blocks make up: the first group follows the text
that was there at the start. -/
def generations (first : Bytes) : List (List Bytes) → List Bytes
  | [] => []
  | g :: gs => (first ++ g.flatten) :: gs.map List.flatten

/-- A new group is a new generation. -/
theorem generations_concat (first : Bytes) {groups : List (List Bytes)} (h : groups ≠ [])
    (g : List Bytes) :
    generations first (groups ++ [g]) = generations first groups ++ [g.flatten] := by
  cases groups with
  | nil => exact absurd rfl h
  | cons g₀ gs => simp [generations]

/-- A block at the end of the last group is at the end of the last generation. -/
theorem generations_block (first : Bytes) (gs : List (List Bytes)) (last : List Bytes)
    (block : Bytes) {pre : List Bytes} {cur : Bytes}
    (h : generations first (gs ++ [last]) = pre ++ [cur]) :
    generations first (gs ++ [last ++ [block]]) = pre ++ [cur ++ block] := by
  cases gs with
  | nil =>
      have hsingle : [] ++ [first ++ last.flatten] = pre ++ [cur] := h
      obtain ⟨rfl, hcur⟩ := List.append_inj' hsingle rfl
      simp only [List.cons.injEq, and_true] at hcur
      simp [generations, ← hcur]
  | cons g gs =>
      rw [generations_concat first (by simp)] at h ⊢
      obtain ⟨hpre, hcur⟩ := List.append_inj' h rfl
      simp only [List.cons.injEq, and_true] at hcur
      rw [hpre, ← hcur]
      simp

/-- The text of the generations is the text at the start followed by all blocks. -/
theorem flatten_generations (first : Bytes) {groups : List (List Bytes)} (h : groups ≠ []) :
    (generations first groups).flatten = first ++ groups.flatten.flatten := by
  cases groups with
  | nil => exact absurd rfl h
  | cons g gs =>
      have hmap : (gs.map List.flatten).flatten = gs.flatten.flatten := by
        induction gs with
        | nil => rfl
        | cons g' gs ih => simp [ih]
      simp [generations, hmap]

section Run
variable (config : Config) (b : LogBase) (M : ℕ)

/-- The rotated files of an output, newest first, present or absent. -/
def olderFiles (o : Output) : List (Option Bytes) :=
  (List.range M).map fun i => o.rotation.dir (fileAt config (b, .plain (i + 1)))

/-- `base.M`, ..., `base.1`, `base`, present or absent. -/
def filesOf (o : Output) : List (Option Bytes) :=
  (olderFiles config b M o).reverse ++ [o.rotation.dir (fileAt config (b, .active))]

/-- The concatenation of files. -/
def textOf (files : List (Option Bytes)) : Bytes := (files.map (·.getD [])).flatten

/-- The history of an output that started with `o` and has written the groups of blocks. -/
def historyOf (o : Output) (groups : List (List Bytes)) : List (Option Bytes) :=
  (olderFiles config b M o).reverse
    ++ (generations ((o.rotation.dir (fileAt config (b, .active))).getD []) groups).map some

variable {config b M}

/-- A connected output has the newest generations as its files. -/
theorem filesOf_suffix {o : Output} {older : List (Option Bytes)} {current : Bytes}
    (hr : Retains config b M ⟨older, current⟩ o) (hlen : M ≤ older.length) :
    filesOf config b M o <:+ older.reverse ++ [some current] := by
  have hfiles : olderFiles config b M o = older.take M := by
    apply List.ext_getElem
    · simp [olderFiles, hlen]
    · intro i hi hi'
      simp only [olderFiles, List.length_map, List.length_range] at hi
      simp only [olderFiles, List.getElem_map, List.getElem_range, List.getElem_take]
      rw [hr.slots i hi]
      simp [List.getElem?_eq_getElem (show i < older.length by omega)]
  have hactive : o.rotation.dir (fileAt config (b, .active)) = some current := hr.flushed.file
  refine ⟨(older.drop M).reverse, ?_⟩
  rw [filesOf, hfiles, hactive, ← List.append_assoc, ← List.reverse_append, List.take_append_drop]

/-- Over a run the connected history consists of the generations of groups of blocks. -/
theorem retains_collectSnapshots {o : Output} {first : Bytes} {older : List (Option Bytes)}
    (hr : Retains config b M ⟨older, first⟩ o) (w : ApPidWhitelist) (envs : List SnapshotEnv)
    (stats : StatsModule) (hu : Uncompressed config M)
    (hreopen : ∀ env ∈ envs, env.reopenOk b = true) :
    ∃ (gs : List (List Bytes)) (last : List Bytes) (pre : List Bytes) (cur : Bytes),
      (gs ++ [last]).flatten = envs.map (fun env => snapshotBlock config env w b) ∧
      generations first (gs ++ [last]) = pre ++ [cur] ∧
      Retains config b M ⟨(pre.map some).reverse ++ older, cur⟩
        (collectSnapshots config w envs (o, stats)).1 := by
  -- Over the last snapshot: it either joins the last group or begins a new one.
  induction envs using List.reverseRecOn with
  | nil => exact ⟨[], [], [], first, rfl, by simp [generations], hr⟩
  | append_singleton envs env ih =>
      obtain ⟨gs, last, pre, cur, hblocks, hgen, hret⟩ :=
        ih fun e he => hreopen e (List.mem_append_left _ he)
      set s := collectSnapshots config w envs (o, stats) with hs
      have hstep := retains_collectSnapshot hret env w s.2 hu
        (hreopen env (by simp))
      have hrun : (collectSnapshots config w (envs ++ [env]) (o, stats)).1
          = (collectSnapshot config env w s.1 s.2).1 := by
        rw [hs, collectSnapshots, collectSnapshots, List.foldl_append]
        rfl
      rw [hrun]
      rcases hstep with hsame | hnew
      · -- No rotation: the block joins the last group.
        refine ⟨gs, last ++ [snapshotBlock config env w b], pre,
          cur ++ snapshotBlock config env w b, ?_, generations_block first gs last _ hgen, hsame⟩
        rw [List.map_append, ← hblocks]
        simp
      · -- A rotation: the block is the first one of a new group.
        refine ⟨gs ++ [last], [snapshotBlock config env w b], pre ++ [cur],
          snapshotBlock config env w b, ?_, ?_, ?_⟩
        · rw [List.map_append, ← hblocks]
          simp
        · rw [generations_concat first (by simp), hgen]
          simp
        · simpa [History.rotate, History.append] using hnew

/-- Opening an output connects it to the files that are there. -/
theorem retains_fopenAppend {o₀ o : Output} (hsame : SameFor config b o₀ o)
    (honly : ∀ n, o₀.rotation.dir (fileAt config (b, n)) ≠ none →
      n = .active ∨ ∃ i, 1 ≤ i ∧ i ≤ M ∧ n = .plain i) :
    Retains config b M
      ⟨olderFiles config b M o₀, (o₀.rotation.dir (fileAt config (b, .active))).getD []⟩
      (o.fopenAppend config b) := by
  -- The mode `a` keeps a file that is there and creates a missing one.
  have hdir : ∀ n : FileName, (o.fopenAppend config b).rotation.dir (fileAt config (b, n))
      = if n = .active then some ((o₀.rotation.dir (fileAt config (b, .active))).getD [])
        else o₀.rotation.dir (fileAt config (b, n)) := by
    intro n
    have hactive : o.rotation.dir (b.path config) = _ := hsame.files .active
    have hiff : fileAt config (b, n) = b.path config ↔ n = .active :=
      ⟨fun h => render_injective _ h, fun h => h ▸ rfl⟩
    simp only [Output.fopenAppend, Output.withStream, Output.withDir, hactive]
    cases hd : o₀.rotation.dir (fileAt config (b, .active)) with
    | none =>
        rw [if_pos rfl, Dir.store_apply]
        simp only [hiff, hsame.files n, Option.getD_none]
    | some content =>
        rw [if_neg (by simp), hsame.files n]
        split
        · rename_i hn
          rw [hn, hd]
          rfl
        · rfl
  refine ⟨⟨(hdir .active).trans (if_pos rfl), by simp [Output.fopenAppend, Output.withStream]⟩,
    fun i hi => ?_, fun n hn => ?_⟩
  · rw [hdir, if_neg (by simp)]
    simp [olderFiles, hi]
  · by_cases hact : n = .active
    · exact Or.inl hact
    · rw [hdir, if_neg hact] at hn
      exact honly n hn

/-- A start whose calls all succeed connects the output to the files that are there. -/
theorem retains_initialize {o : Output} (env : InitEnv) (hb : b.enabled config = true)
    (hproc : env.procDirOk = true) (hlock : env.lock = .locked) (hfopen : ∀ c, env.fopenOk c = true)
    (honly : ∀ n, o.rotation.dir (fileAt config (b, n)) ≠ none →
      n = .active ∨ ∃ i, 1 ≤ i ∧ i ≤ M ∧ n = .plain i) :
    Retains config b M
      ⟨olderFiles config b M o, (o.rotation.dir (fileAt config (b, .active))).getD []⟩
      (processSnapshotInitialize config env o).2 := by
  have hsame : SameFor config b o (o.lock config env.lock) := sameFor_lock env.lock o
  have hsome : ¬ (config.configGetRawLogEnabled = false ∧
      config.configGetRawJsonlEnabled = false) := by
    rintro ⟨hlog, hjsonl⟩
    cases b with
    | log => exact absurd (hlog.symm.trans hb) (by decide)
    | jsonl => exact absurd (hjsonl.symm.trans hb) (by decide)
  unfold processSnapshotInitialize
  rw [if_neg (by simp [hproc]), if_neg hsome, if_neg (by simp [hlock])]
  simp only [openOutput, hfopen, if_true]
  cases b with
  | log =>
      rw [if_pos hb]
      have hopen := retains_fopenAppend hsame honly
      split
      · exact hopen.congr (sameFor_fopenAppend (by decide) _)
      · exact hopen
  | jsonl =>
      rw [if_pos hb]
      split
      · -- The text log was opened before, which leaves this output as it was.
        exact retains_fopenAppend (hsame.trans (sameFor_fopenAppend (by decide) _)) honly
      · exact retains_fopenAppend hsame honly

end Run

/-- Uncompressed rotation keeps a gap-free suffix of the log. Every rotation shifts the slots,
present or absent, and loses the oldest one only. After a start and any number of snapshots
the files of an output, oldest first, are a suffix of its history: the files at the start,
the active one continued by the first blocks, and then groups of whole blocks in order. The
text of the history is the initial text followed by all blocks, and there is no file with
another index. -/
theorem uncompressed_rotation_keeps_suffix (config : Config) (b : LogBase) (M : ℕ)
    (hM : config.configGetMaxNumberOfFiles.toInt = M) (hpos : 1 ≤ M)
    (hoff : config.configGetCompressionEnabled = false) (hb : b.enabled config = true)
    (o : Output) (honly : ∀ n, o.rotation.dir (fileAt config (b, n)) ≠ none →
      n = .active ∨ ∃ i, 1 ≤ i ∧ i ≤ M ∧ n = .plain i)
    (w : ApPidWhitelist) (stats : StatsModule) (envs : List SnapshotEnv)
    (hreopen : ∀ env ∈ envs, env.reopenOk b = true) :
    (∀ (r : Rotation Bytes) (now : Int64) (mallocOk : Bool),
      Rotated M (b.path config) r.dir (rotateLogs config (b.path config) now mallocOk r).dir) ∧
    ∃ groups : List (List Bytes),
      let start := (processSnapshotInitialize config ⟨true, .locked, fun _ => true⟩ o).2
      let o' := (collectSnapshots config w envs (start, stats)).1
      groups.flatten = envs.map (fun env => snapshotBlock config env w b) ∧
      filesOf config b M o' <:+ historyOf config b M o groups ∧
      textOf (historyOf config b M o groups)
        = textOf (filesOf config b M o)
          ++ (envs.map fun env => snapshotBlock config env w b).flatten ∧
      ∀ n, o'.rotation.dir (fileAt config (b, n)) ≠ none →
        n = .active ∨ ∃ i, 1 ≤ i ∧ i ≤ M ∧ n = .plain i := by
  refine ⟨fun r now mallocOk => rotateLogs_uncompressed config _ now mallocOk r M hM hpos hoff, ?_⟩
  -- The start connects the files to a history, and the run extends it block by block.
  have hstart := retains_initialize ⟨true, .locked, fun _ => true⟩ hb rfl rfl (fun _ => rfl) honly
  obtain ⟨gs, last, pre, cur, hblocks, hgen, hret⟩ :=
    retains_collectSnapshots hstart w envs stats ⟨hM, hpos, hoff⟩ hreopen
  refine ⟨gs ++ [last], hblocks, ?_, ?_, hret.only⟩
  · have hsuffix := filesOf_suffix hret (by simp [olderFiles])
    rw [historyOf, hgen]
    simpa using hsuffix
  · have htext : textOf ((generations ((o.rotation.dir (fileAt config (b, .active))).getD [])
        (gs ++ [last])).map some)
        = (o.rotation.dir (fileAt config (b, .active))).getD [] ++ (gs ++ [last]).flatten.flatten := by
      rw [← flatten_generations _ (by simp), textOf, List.map_map]
      simp [Function.comp_def]
    rw [← hblocks, historyOf, filesOf]
    simp only [textOf, List.map_append, List.flatten_append] at htext ⊢
    rw [htext]
    simp

/-- The default configuration with a limit that the block of one snapshot exceeds. -/
def smallFiles : Config := { configDefault with maxFileSizeBytes := 64 }

/-- An output directory with a second and without a first old file. -/
def outputWithGap : Output where
  rotation :=
    { dir := fun q =>
        if q = fileAt smallFiles (.log, .active) then some (ascii "last\n")
        else if q = fileAt smallFiles (.log, .plain 2) then some (ascii "old\n")
        else none }

/-- The second snapshot and the third one find a file that is too large, so there are two
rotations. The missing file moves up with the others, and the old one is lost in the end. -/
theorem uncompressed_rotation_keeps_suffix_gap :
    let envs := [0, 1, 2].map fun s => { quietEnv with wallClock := ⟨126, 0, 19, 21, 47, s, 677⟩ }
    let block := fun env => snapshotBlock smallFiles env {} .log
    let start :=
      (processSnapshotInitialize smallFiles ⟨true, .locked, fun _ => true⟩ outputWithGap).2
    let o' := (collectSnapshots smallFiles {} envs (start, {})).1
    (∃ groups : List (List Bytes), groups.flatten = envs.map block ∧
      filesOf smallFiles .log 3 o' <:+ historyOf smallFiles .log 3 outputWithGap groups ∧
      textOf (historyOf smallFiles .log 3 outputWithGap groups)
        = textOf (filesOf smallFiles .log 3 outputWithGap) ++ (envs.map block).flatten) ∧
    filesOf smallFiles .log 3 outputWithGap
      = [none, some (ascii "old\n"), none, some (ascii "last\n")] ∧
    filesOf smallFiles .log 3 o'
      = [none, some (ascii "last\n" ++ block envs[0]), some (block envs[1]),
          some (block envs[2])] := by
  intro envs block start o'
  have honly : ∀ n, outputWithGap.rotation.dir (fileAt smallFiles (.log, n)) ≠ none →
      n = .active ∨ ∃ i, 1 ≤ i ∧ i ≤ 3 ∧ n = .plain i := by
    intro n hn
    unfold outputWithGap at hn
    dsimp only at hn
    split at hn
    · rename_i hactive
      exact Or.inl (render_injective _ hactive)
    · split at hn
      · rename_i hsecond
        exact Or.inr ⟨2, by decide, by decide, render_injective _ hsecond⟩
      · exact absurd rfl hn
  obtain ⟨-, groups, hblocks, hsuffix, htext, -⟩ := uncompressed_rotation_keeps_suffix smallFiles
    .log 3 (by decide) (by decide) rfl rfl outputWithGap honly {} {} envs (by simp [envs, quietEnv])
  exact ⟨⟨groups, hblocks, hsuffix, htext⟩, by decide +kernel, by decide +kernel⟩

end ProcessAnalyzer
