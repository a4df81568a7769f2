import ProcessAnalyzer.Model.OldFiles
import ProcessAnalyzer.Proofs.LogNames

/-!
# `ProcessAnalyzer.Proofs.OldFiles`: which files the deletion for `-j` removes

The names that the program gives to its output files are those of `IsToolName`. The deletion
recognises them by their beginning, and it cuts the path of an entry to a buffer of 512 bytes.

* `mem_calls_deleteEntries`, `spec_deleteEntries`: what the loop calls `remove` with, and what
  it has removed when it runs to its end.
* `onlyOwnFiles_iff`: the deletion is about the program's own files, whatever the answers of
  the system are, exactly when every entry that has the beginning is, cut to the rest of the
  buffer, an entry with such a name.
-/

set_option autoImplicit false

namespace ProcessAnalyzer

open ProcessAnalyzer.Lib

/-! ### The names of the tool -/

/-- The part of a name behind `ptime.log` or `ptime.jsonl`, with decimal numbers. -/
inductive ToolSuffix where
  | active
  /-- `.i` -/
  | plain (i : ℕ)
  /-- `.i.gz` -/
  | gz (i : ℕ)
  /-- `.1.t.c` -/
  | unique (t c : ℕ)
  /-- `.1.t.c.gz` -/
  | uniqueGz (t c : ℕ)

/-- The components of a suffix, each of which stands behind a dot. -/
def ToolSuffix.components : ToolSuffix → List Bytes
  | .active => []
  | .plain i => [decNat i]
  | .gz i => [decNat i, ascii "gz"]
  | .unique t c => [ascii "1", decNat t, decNat c]
  | .uniqueGz t c => [ascii "1", decNat t, decNat c, ascii "gz"]

/-- No component has a dot inside. -/
theorem ToolSuffix.dot_notMem_components (s : ToolSuffix) :
    ∀ c ∈ s.components, (46 : UInt8) ∉ c := by
  have hgz : (46 : UInt8) ∉ ascii "gz" := by decide
  have hone : (46 : UInt8) ∉ ascii "1" := by decide
  cases s <;> simp [ToolSuffix.components, dot_notMem_decNat, hgz, hone]

/-- A name that the program gives to an output file. -/
def IsToolName (name : Bytes) : Prop :=
  ∃ (b : LogBase) (s : ToolSuffix), name = b.fileName ++ dotted s.components

/-- The file names of an output have tool names. -/
theorem isToolName_render (b : LogBase) (n : FileName)
    (h : ∀ now counter, n = .unique now counter ∨ n = .uniqueGz now counter → 0 ≤ now.toInt) :
    IsToolName (n.render b.fileName) := by
  have hnat : ∀ i : ℕ, decInt i = decNat i := fun i => if_neg (by omega)
  have htime : ∀ now : Int64, 0 ≤ now.toInt → decInt now.toInt = decNat now.toInt.toNat := by
    intro now hnow
    rw [← hnat, Int.toNat_of_nonneg hnow]
  rw [render_eq]
  cases n with
  | active => exact ⟨b, .active, rfl⟩
  | plain i => exact ⟨b, .plain i, by rw [FileName.components, hnat]; rfl⟩
  | gz i => exact ⟨b, .gz i, by rw [FileName.components, hnat]; rfl⟩
  | unique now counter =>
      refine ⟨b, .unique now.toInt.toNat counter.toNat, ?_⟩
      rw [FileName.components, htime now (h now counter (Or.inl rfl))]
      rfl
  | uniqueGz now counter =>
      refine ⟨b, .uniqueGz now.toInt.toNat counter.toNat, ?_⟩
      rw [FileName.components, htime now (h now counter (Or.inr rfl))]
      rfl

/-- The test of the deletion accepts every tool name. -/
theorem IsToolName.isOldFile {name : Bytes} (h : IsToolName name) : isOldFile name = true := by
  obtain ⟨b, s, rfl⟩ := h
  have happend : ∀ p q : Bytes, p.isPrefixOf (p ++ q) = true :=
    fun p q => List.isPrefixOf_iff_prefix.mpr (List.prefix_append p q)
  unfold ProcessAnalyzer.isOldFile
  cases b with
  | log => exact Bool.or_eq_true_iff.mpr (Or.inl (happend configLogFile _))
  | jsonl => exact Bool.or_eq_true_iff.mpr (Or.inr (happend configJsonFile _))

theorem IsToolName.ne_nil {name : Bytes} (h : IsToolName name) : name ≠ [] := by
  rintro rfl
  have := h.isOldFile
  revert this
  decide

/-! ### The path of an entry -/

section Paths
variable (config : Config)

/-- The path of a name in the output directory. -/
def entryPath (name : Bytes) : Bytes := config.configGetOutputDir ++ ascii "/" ++ name

/-- What the buffer leaves for the name of an entry. -/
def nameRoom : ℕ := 510 - config.configGetOutputDir.length

/-- The path that the deletion uses is that of another name exactly when the buffer cuts the
name to it. -/
theorem deleteFilePath_eq_entryPath_iff {name other : Bytes} (hother : other ≠ []) :
    deleteFilePath config name = entryPath config other ↔ name.take (nameRoom config) = other := by
  have hlen : (config.configGetOutputDir ++ ascii "/").length
      = config.configGetOutputDir.length + 1 := List.length_append
  unfold deleteFilePath entryPath nameRoom
  by_cases hroom : config.configGetOutputDir.length ≤ 510
  · rw [List.take_append, List.take_of_length_le (by omega), hlen,
      show 511 - (config.configGetOutputDir.length + 1)
        = 510 - config.configGetOutputDir.length by omega]
    exact ⟨List.append_cancel_left, fun h => by rw [h]⟩
  · -- Without room for a name, the path is too short and the rest of the name is empty.
    have hpos : 0 < other.length := List.length_pos_of_ne_nil hother
    constructor
    · intro h
      have := congrArg List.length h
      rw [List.length_take, List.length_append, hlen, List.length_append, hlen] at this
      omega
    · intro h
      rw [show 510 - config.configGetOutputDir.length = 0 by omega, List.take_zero] at h
      exact absurd h.symm hother

end Paths

/-! ### The loop -/

section Loop
variable (config : Config) (env : DeleteEnv)

/-- The paths that the loop would call `remove` with if it did not end early. -/
def matchedPaths (names : List Bytes) : List Bytes :=
  (names.filter isOldFile).map (deleteFilePath config)

theorem matchedPaths_cons (name : Bytes) (names : List Bytes) :
    matchedPaths config (name :: names)
      = if isOldFile name then deleteFilePath config name :: matchedPaths config names
        else matchedPaths config names := by
  unfold matchedPaths
  rw [List.filter_cons]
  split
  · rw [List.map_cons]
  · rfl

/-- The two outcomes of `remove`. -/
theorem remove_cases (s : Deletion) (path : Bytes) :
    (s.remove env path
        = ({ s with calls := s.calls ++ [path], dir := s.dir.unlink path }, true) ∧
      (s.dir path).isSome = true) ∨
    s.remove env path = ({ s with calls := s.calls ++ [path] }, false) := by
  unfold Deletion.remove
  by_cases h : (s.dir path).isSome = true ∧ env.removable path = true
  · exact Or.inl ⟨if_pos h, h.1⟩
  · exact Or.inr (if_neg h)

/-- A call that can open the directory is its loop. -/
theorem processSnapshotDeleteOldFiles_of_ok {names : List Bytes} (h : env.opendir = .ok names)
    (dir : Dir Bytes Unit) :
    (processSnapshotDeleteOldFiles config env dir).1
      = (deleteEntries config env names { dir := dir }).1 ∧
    ((processSnapshotDeleteOldFiles config env dir).2 = .success ↔
      (deleteEntries config env names { dir := dir }).2 = true) := by
  unfold processSnapshotDeleteOldFiles
  rw [h]
  simp only
  split
  · rename_i s hloop
    simp [hloop]
  · rename_i s hloop
    simp [hloop]

/-- A call that cannot open the directory removes nothing. -/
theorem processSnapshotDeleteOldFiles_of_error {enoent : Bool} (h : env.opendir = .error enoent)
    (dir : Dir Bytes Unit) :
    (processSnapshotDeleteOldFiles config env dir).1.calls = [] ∧
    (processSnapshotDeleteOldFiles config env dir).1.dir = dir ∧
    ((processSnapshotDeleteOldFiles config env dir).2 = .success ↔ enoent = true) := by
  unfold processSnapshotDeleteOldFiles
  rw [h]
  cases enoent <;> simp

/-- The calls of the loop are on paths of matched entries. -/
theorem mem_calls_deleteEntries {names : List Bytes} {s : Deletion} {path : Bytes}
    (h : path ∈ (deleteEntries config env names s).1.calls) :
    path ∈ s.calls ∨ path ∈ matchedPaths config names := by
  induction names generalizing s with
  | nil => exact Or.inl h
  | cons name names ih =>
      unfold deleteEntries at h
      rw [matchedPaths_cons]
      cases hold : isOldFile name with
      | false =>
          rw [hold] at h
          exact ih h
      | true =>
          rw [hold, if_pos rfl] at h
          rw [if_pos rfl, List.mem_cons]
          -- One call, whether it succeeds or not.
          have hone : ∀ q ∈ s.calls ++ [deleteFilePath config name],
              q ∈ s.calls ∨ q = deleteFilePath config name := fun q hq => by simpa using hq
          rcases remove_cases env s (deleteFilePath config name) with ⟨hremove, -⟩ | hremove
          · rw [hremove] at h
            rcases ih h with hcall | hrest
            · exact (hone path hcall).imp_right Or.inl
            · exact Or.inr (Or.inr hrest)
          · rw [hremove] at h
            exact (hone path h).imp_right Or.inl

/-- A loop that runs to its end has removed the paths of all matched entries, each once. -/
theorem spec_deleteEntries {names : List Bytes} {s s' : Deletion}
    (h : deleteEntries config env names s = (s', true)) :
    (matchedPaths config names).Nodup ∧
    (∀ path ∈ matchedPaths config names, (s.dir path).isSome) ∧
    ∀ path, s'.dir path = if path ∈ matchedPaths config names then none else s.dir path := by
  induction names generalizing s with
  | nil =>
      rw [deleteEntries, Prod.mk.injEq] at h
      rw [← h.1]
      simp [matchedPaths]
  | cons name names ih =>
      unfold deleteEntries at h
      have hcons := matchedPaths_cons config name names
      cases hold : isOldFile name with
      | false =>
          rw [hold] at h hcons
          rw [hcons]
          exact ih h
      | true =>
          rw [hold, if_pos rfl] at h hcons
          rcases remove_cases env s (deleteFilePath config name) with ⟨hremove, hpresent⟩ | hremove
          · rw [hremove] at h
            obtain ⟨hnodup, hsome, hdir⟩ := ih h
            simp only [Dir.unlink_apply] at hsome hdir
            -- The path is gone, so no later entry has it.
            have hnew : deleteFilePath config name ∉ matchedPaths config names := by
              intro hmem
              have := hsome _ hmem
              rw [if_pos rfl] at this
              cases this
            rw [hcons]
            refine ⟨List.nodup_cons.mpr ⟨hnew, hnodup⟩, ?_, ?_⟩
            · intro path hpath
              rcases List.mem_cons.mp hpath with rfl | hpath
              · exact hpresent
              · have hlater := hsome path hpath
                have hne : path ≠ deleteFilePath config name := by
                  rintro rfl
                  exact hnew hpath
                rw [if_neg hne] at hlater
                exact hlater
            · intro path
              rw [hdir path]
              by_cases hp : path = deleteFilePath config name
              · rw [if_pos (List.mem_cons.mpr (Or.inl hp)), if_pos hp, ite_self]
              · simp only [List.mem_cons, hp, false_or, if_false]
          · rw [hremove] at h
            cases h

end Loop

/-! ### The whole deletion -/

/-- The entry is one of the directory and has a tool name. -/
def IsToolEntry (entries : List Bytes) (name : Bytes) : Prop := name ∈ entries ∧ IsToolName name

/-- The answers of the system are about a directory with the given entries: `readdir` gives
them in some order, and a missing directory has none. -/
def DeleteEnv.AnswersFor (env : DeleteEnv) (entries : List Bytes) : Prop :=
  match env.opendir with
  | .ok names => names.Perm entries
  | .error enoent => enoent = true → entries = []

/-- A deletion is about the program's own files: it calls `remove` on paths of tool entries
only, and when it succeeds these are gone and everything else is still there. -/
structure OnlyOwnFiles (config : Config) (entries : List Bytes) (dir : Dir Bytes Unit)
    (r : Deletion × ProcessSnapshotStatus) : Prop where
  calls : ∀ path ∈ r.1.calls, ∃ name, IsToolEntry entries name ∧ path = entryPath config name
  removed : r.2 = .success → ∀ path, (dir path).isSome = true →
    (r.1.dir path = none ↔ ∃ name, IsToolEntry entries name ∧ path = entryPath config name)

section Main
variable (config : Config) (entries : List Bytes)

/-- Every entry that the test accepts is a tool entry once the buffer has cut it. -/
def MatchesToolEntries : Prop :=
  ∀ name ∈ entries, isOldFile name = true → IsToolEntry entries (name.take (nameRoom config))

theorem mem_matchedPaths_iff (names : List Bytes) (path : Bytes) :
    path ∈ matchedPaths config names
      ↔ ∃ name ∈ names, isOldFile name = true ∧ path = deleteFilePath config name := by
  simp only [matchedPaths, List.mem_map, List.mem_filter, and_assoc]
  exact exists_congr fun name => and_congr_right fun _ => and_congr_right fun _ => eq_comm

variable {config entries}

/-- The path of a matched entry is that of a tool entry. -/
theorem MatchesToolEntries.path_eq (h : MatchesToolEntries config entries) {name : Bytes}
    (hname : name ∈ entries) (hold : isOldFile name = true) :
    deleteFilePath config name = entryPath config (name.take (nameRoom config)) :=
  (deleteFilePath_eq_entryPath_iff config (h name hname hold).2.ne_nil).mpr rfl

/-- The paths of the matched entries are those of tool entries. -/
theorem MatchesToolEntries.exists_toolEntry (h : MatchesToolEntries config entries) {path : Bytes}
    (hpath : path ∈ matchedPaths config entries) :
    ∃ name, IsToolEntry entries name ∧ path = entryPath config name := by
  obtain ⟨name, hname, hold, rfl⟩ := (mem_matchedPaths_iff config entries path).mp hpath
  exact ⟨_, h name hname hold, h.path_eq hname hold⟩

/-- Where no two matched entries have one path, the buffer cuts none of them. -/
theorem MatchesToolEntries.take_eq (h : MatchesToolEntries config entries)
    (hnodup : (matchedPaths config entries).Nodup) {name : Bytes} (hname : name ∈ entries)
    (hold : isOldFile name = true) : name.take (nameRoom config) = name := by
  obtain ⟨hcut, htool⟩ := h name hname hold
  -- The cut name is an entry of its own and has the same path.
  have htwice : (name.take (nameRoom config)).take (nameRoom config)
      = name.take (nameRoom config) := List.take_take.trans (by rw [min_self])
  have hpaths : deleteFilePath config (name.take (nameRoom config))
      = deleteFilePath config name := by
    rw [h.path_eq hcut htool.isOldFile, h.path_eq hname hold, htwice]
  exact List.inj_on_of_nodup_map hnodup (List.mem_filter.mpr ⟨hcut, htool.isOldFile⟩)
    (List.mem_filter.mpr ⟨hname, hold⟩) hpaths

/-- A deletion is about the program's own files when every accepted entry is a tool entry. -/
theorem MatchesToolEntries.onlyOwnFiles (h : MatchesToolEntries config entries) {env : DeleteEnv}
    (henv : env.AnswersFor entries) (dir : Dir Bytes Unit) :
    OnlyOwnFiles config entries dir (processSnapshotDeleteOldFiles config env dir) := by
  unfold DeleteEnv.AnswersFor at henv
  cases hopen : env.opendir with
  | error enoent =>
      simp only [hopen] at henv
      obtain ⟨hcalls, hdir, hstatus⟩ := processSnapshotDeleteOldFiles_of_error config env hopen dir
      constructor
      · intro path hpath
        rw [hcalls] at hpath
        cases hpath
      · intro hok path hsome
        rw [hdir, henv (hstatus.mp hok)]
        constructor
        · intro hnone
          rw [hnone] at hsome
          cases hsome
        · rintro ⟨name, ⟨hname, -⟩, -⟩
          cases hname
  | ok names =>
      simp only [hopen] at henv
      obtain ⟨hrun, hstatus⟩ := processSnapshotDeleteOldFiles_of_ok config env hopen dir
      have hperm : (matchedPaths config names).Perm (matchedPaths config entries) :=
        (henv.filter isOldFile).map _
      constructor
      · intro path hpath
        rw [hrun] at hpath
        rcases mem_calls_deleteEntries config env hpath with hnil | hmatched
        · cases hnil
        · exact h.exists_toolEntry (hperm.mem_iff.mp hmatched)
      · intro hok path hsome
        obtain ⟨hnodup, -, hdir⟩ := spec_deleteEntries config env
          (Prod.ext rfl (hstatus.mp hok) :
            deleteEntries config env names { dir := dir } = (_, true))
        have hgone : (processSnapshotDeleteOldFiles config env dir).1.dir path = none
            ↔ path ∈ matchedPaths config entries := by
          rw [hrun, hdir path, ← hperm.mem_iff]
          by_cases hmem : path ∈ matchedPaths config names
          · exact ⟨fun _ => hmem, fun _ => if_pos hmem⟩
          · rw [if_neg hmem]
            exact ⟨fun hnone => absurd hsome (by simp [show dir path = none from hnone]),
              fun hin => absurd hin hmem⟩
        rw [hgone]
        constructor
        · exact h.exists_toolEntry
        · rintro ⟨name, ⟨hname, htool⟩, rfl⟩
          refine (mem_matchedPaths_iff config entries _).mpr ⟨name, hname, htool.isOldFile, ?_⟩
          rw [h.path_eq hname htool.isOldFile,
            h.take_eq (hperm.nodup_iff.mp hnodup) hname htool.isOldFile]

variable (config entries)

/-- The system in which the directory is read in the given order and every path can be
removed. -/
def willingEnv (names : List Bytes) : DeleteEnv := ⟨.ok names, fun _ => true⟩

/-- The loop keeps the calls that were made before. -/
theorem mem_deleteEntries_calls (env : DeleteEnv) {names : List Bytes} {s : Deletion}
    {path : Bytes} (h : path ∈ s.calls) : path ∈ (deleteEntries config env names s).1.calls := by
  induction names generalizing s with
  | nil => exact h
  | cons name names ih =>
      unfold deleteEntries
      cases isOldFile name with
      | false => exact ih h
      | true =>
          rw [if_pos rfl]
          have hadded : path ∈ s.calls ++ [deleteFilePath config name] := List.mem_append_left _ h
          rcases remove_cases env s (deleteFilePath config name) with ⟨hremove, -⟩ | hremove
          · rw [hremove]
            exact ih hadded
          · rw [hremove]
            exact hadded

/-- `remove` is called for the first entry if the test accepts it. -/
theorem mem_calls_of_first {name : Bytes} (hold : isOldFile name = true) (names : List Bytes)
    (dir : Dir Bytes Unit) :
    deleteFilePath config name
      ∈ (processSnapshotDeleteOldFiles config (willingEnv (name :: names)) dir).1.calls := by
  have hopen : (willingEnv (name :: names)).opendir = .ok (name :: names) := rfl
  rw [(processSnapshotDeleteOldFiles_of_ok config _ hopen dir).1, deleteEntries, hold, if_pos rfl]
  have hadded : deleteFilePath config name ∈ ([] : List Bytes) ++ [deleteFilePath config name] :=
    List.mem_singleton_self _
  rcases remove_cases (willingEnv (name :: names)) { dir := dir } (deleteFilePath config name)
    with ⟨hremove, -⟩ | hremove
  · rw [hremove]
    exact mem_deleteEntries_calls config _ hadded
  · rw [hremove]
    exact hadded

/-- Which files `-j` deletes. For every output directory and every content of it, the deletion
is about the program's own files, whatever the order of the entries and the answers of the
system are, exactly when every entry that starts with `ptime.log` or `ptime.jsonl` is, cut to
what the path buffer leaves for it, an entry with a name of the program. -/
theorem onlyOwnFiles_iff (dir : Dir Bytes Unit) :
    (∀ env : DeleteEnv, env.AnswersFor entries →
      OnlyOwnFiles config entries dir (processSnapshotDeleteOldFiles config env dir))
      ↔ MatchesToolEntries config entries := by
  constructor
  · intro h name hname hold
    -- `readdir` may give this entry first.
    have hperm : (name :: entries.erase name).Perm entries := (List.perm_cons_erase hname).symm
    obtain ⟨other, htool, hpath⟩ := (h (willingEnv (name :: entries.erase name)) hperm).calls _
      (mem_calls_of_first config hold (entries.erase name) dir)
    rw [(deleteFilePath_eq_entryPath_iff config htool.2.ne_nil).mp hpath]
    exact htool
  · intro h env henv
    exact h.onlyOwnFiles henv dir

end Main

/-- The condition holds where the accepted entries have tool names that fit into the buffer. -/
theorem matchesToolEntries_of_fit (config : Config) (entries : List Bytes)
    (h : ∀ name ∈ entries, isOldFile name = true →
      IsToolName name ∧ config.configGetOutputDir.length + 1 + name.length ≤ 511) :
    MatchesToolEntries config entries := by
  intro name hname hold
  obtain ⟨htool, hfit⟩ := h name hname hold
  rw [List.take_of_length_le (by unfold nameRoom; omega)]
  exact ⟨hname, htool⟩

/-- A step of an instance in the loop removes what the loop removes for the entry. -/
theorem dir_deleteOldFile {ι : Type} (setup : Setup) (name : Bytes) (w : World ι) :
    (deleteOldFile setup name w).1.dir
      = (deleteEntries setup.config (willingEnv [name]) [name] { dir := w.dir }).1.dir := by
  unfold deleteOldFile deleteEntries
  cases isOldFile name with
  | false => rfl
  | true =>
      by_cases h : (w.dir (deleteFilePath setup.config name)).isSome = true
      · simp [Deletion.remove, willingEnv, deleteEntries, h]
      · simp [Deletion.remove, World.goto, World.withSelf, h]

/-- A copy of the log that someone else has made is not a file of the program. -/
theorem not_isToolName_bak : ¬ IsToolName (ascii "ptime.log.bak") := by
  rintro ⟨b, s, h⟩
  cases b with
  | jsonl => simp [LogBase.fileName, configJsonFile, ascii] at h
  | log =>
      have hsuffix : dotted [ascii "bak"] = dotted s.components :=
        List.append_cancel_left (show configLogFile ++ _ = configLogFile ++ _ from h)
      have hbak : (46 : UInt8) ∉ ascii "bak" := by decide
      have hone := dotted_injective (fun c hc => List.mem_singleton.mp hc ▸ hbak)
        s.dot_notMem_components hsuffix
      -- A name with one component has a number there.
      cases s with
      | plain i =>
          have hnumber : ascii "bak" = decNat i := (List.cons.inj hone).1
          have hdigit := isDigit_decNat i 98 (hnumber ▸ by decide)
          revert hdigit
          decide
      | active => cases hone
      | gz i => simp [ToolSuffix.components] at hone
      | unique t c => simp [ToolSuffix.components] at hone
      | uniqueGz t c => simp [ToolSuffix.components] at hone

/-- A file system with such a copy in the default directory only. -/
def bakDir : Dir Bytes Unit :=
  Dir.store (fun _ => none) (entryPath configDefault (ascii "ptime.log.bak")) ()

/-- The deletion calls `remove` for the copy. -/
theorem not_onlyOwnFiles_bak :
    ¬ ∀ env : DeleteEnv, env.AnswersFor [ascii "ptime.log.bak"] →
      OnlyOwnFiles configDefault [ascii "ptime.log.bak"] bakDir
        (processSnapshotDeleteOldFiles configDefault env bakDir) := by
  intro h
  have hold : isOldFile (ascii "ptime.log.bak") = true := by decide
  obtain ⟨name, ⟨hname, htool⟩, -⟩ :=
    (h (willingEnv [ascii "ptime.log.bak"]) (List.Perm.refl _)).calls _
      (mem_calls_of_first configDefault hold [] bakDir)
  rw [List.mem_singleton.mp hname] at htool
  exact not_isToolName_bak htool

end ProcessAnalyzer
