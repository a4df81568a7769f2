import ProcessAnalyzer.Model.LogFiles

/-!
# `ProcessAnalyzer.Proofs.LogNames`: the names of the output files are distinct

`FileName` lists the names that the program gives to the files of one output, and
`fileAt config (b, n)` is the path of such a file. All these paths are distinct, for one
output (`render_injective`) and for both (`fileAt_injective`). So a directory of paths can
be looked at as a directory of names.

A rendered name is the path of the active file followed by components, each behind a dot
(`components`, `dotted`). No component has a dot inside, so the components can be read
back (`dotted_injective`).
-/

set_option autoImplicit false

namespace ProcessAnalyzer

open ProcessAnalyzer.Lib

/-- The files of one output. -/
inductive FileName where
  | active
  /-- `base.i` -/
  | plain (i : ℕ)
  /-- `base.i.gz` -/
  | gz (i : ℕ)
  /-- `base.1.<time>.<counter>`, a file that waits for its compression -/
  | unique (now : Int64) (counter : UInt32)
  /-- the compressed form of such a file, before it is renamed -/
  | uniqueGz (now : Int64) (counter : UInt32)
  deriving DecidableEq

/-- The path of a file. -/
def FileName.render (filePath : Bytes) : FileName → Bytes
  | .active => filePath
  | .plain i => rotatedPath filePath i
  | .gz i => rotatedGzPath filePath i
  | .unique now counter => uniquePath filePath now counter
  | .uniqueGz now counter => uniquePath filePath now counter ++ ascii ".gz"

/-- The path of a file of one of the outputs. -/
def fileAt (config : Config) (f : LogBase × FileName) : Bytes :=
  f.2.render (f.1.path config)

/-! ### Texts without dots -/

/-- A digit is not a dot. -/
theorem dot_notMem_decNat (n : ℕ) : (46 : UInt8) ∉ decNat n := by
  intro h
  have := isDigit_decNat n 46 h
  revert this
  decide

/-- A number has no dot. -/
theorem dot_notMem_decInt (z : Int) : (46 : UInt8) ∉ decInt z := by
  intro h
  rcases mem_decInt h with h45 | hdigit
  · exact absurd h45 (by decide)
  · exact absurd hdigit (by decide)

/-- Different natural numbers have different texts. -/
theorem decNat_injective : Function.Injective decNat := fun m n h => by
  rw [← decValue_decNat m, h, decValue_decNat]

/-- A text of digits does not start with a minus sign. -/
theorem decNat_ne_minus_cons (n : ℕ) (s : Bytes) : decNat n ≠ 45 :: s := by
  intro h
  have := isDigit_decNat n 45 (h ▸ List.mem_cons_self)
  revert this
  decide

/-- Different integers have different texts. -/
theorem decInt_injective : Function.Injective decInt := by
  intro y z h
  unfold decInt at h
  by_cases hy : y < 0
  · by_cases hz : z < 0
    · rw [if_pos hy, if_pos hz, List.cons.injEq] at h
      have habs := decNat_injective h.2
      omega
    · rw [if_pos hy, if_neg hz] at h
      exact absurd h.symm (decNat_ne_minus_cons _ _)
  · by_cases hz : z < 0
    · rw [if_neg hy, if_pos hz] at h
      exact absurd h (decNat_ne_minus_cons _ _)
    · rw [if_neg hy, if_neg hz] at h
      have habs := decNat_injective h
      omega

/-! ### Components -/

/-- The components, each behind a dot. -/
def dotted (cs : List Bytes) : Bytes := cs.flatMap fun c => 46 :: c

/-- Components without dots can be read back. -/
theorem dotted_injective {cs ds : List Bytes} (hcs : ∀ c ∈ cs, (46 : UInt8) ∉ c)
    (hds : ∀ d ∈ ds, (46 : UInt8) ∉ d) (h : dotted cs = dotted ds) : cs = ds := by
  induction cs generalizing ds with
  | nil =>
      cases ds with
      | nil => rfl
      | cons d ds => cases h
  | cons c cs ih =>
      cases ds with
      | nil => cases h
      | cons d ds =>
          -- A component ends where the next dot stands, or at the end of the text.
          have hread : ∀ (e : Bytes) (es : List Bytes), (46 : UInt8) ∉ e →
              (e ++ dotted es).takeWhile (· ≠ 46) = e := by
            intro e es he
            have hall : ∀ b ∈ e, decide (b ≠ 46) = true := fun b hb =>
              decide_eq_true fun hb46 => he (hb46 ▸ hb)
            have hstop : (dotted es).takeWhile (· ≠ 46) = [] := by
              cases es with
              | nil => rfl
              | cons f fs => rfl
            rw [List.takeWhile_append_of_pos hall, hstop, List.append_nil]
          have htail : c ++ dotted cs = d ++ dotted ds := (List.cons.injEq _ _ _ _ ▸ h).2
          have hcd : c = d := by
            rw [← hread c cs (hcs c List.mem_cons_self), htail,
              hread d ds (hds d List.mem_cons_self)]
          subst hcd
          have hrest := ih (fun x hx => hcs x (List.mem_cons_of_mem _ hx))
            (fun x hx => hds x (List.mem_cons_of_mem _ hx)) (List.append_cancel_left htail)
          rw [hrest]

/-- The components behind the path of the active file. -/
def FileName.components : FileName → List Bytes
  | .active => []
  | .plain i => [decInt i]
  | .gz i => [decInt i, ascii "gz"]
  | .unique now counter => [ascii "1", decInt now.toInt, decNat counter.toNat]
  | .uniqueGz now counter => [ascii "1", decInt now.toInt, decNat counter.toNat, ascii "gz"]

/-- A rendered name is the active path with the components. -/
theorem render_eq (filePath : Bytes) (n : FileName) :
    n.render filePath = filePath ++ dotted n.components := by
  cases n <;> simp [FileName.render, FileName.components, dotted, rotatedPath, rotatedGzPath,
    uniquePath, ascii]

/-- No component has a dot inside. -/
theorem dot_notMem_components (n : FileName) : ∀ c ∈ n.components, (46 : UInt8) ∉ c := by
  have hgz : (46 : UInt8) ∉ ascii "gz" := by decide
  have hone : (46 : UInt8) ∉ ascii "1" := by decide
  cases n <;> simp [FileName.components, dot_notMem_decInt, dot_notMem_decNat, hgz, hone]

/-- Different names have different components. -/
theorem components_injective : Function.Injective FileName.components := by
  intro m n h
  -- The number of components tells the constructors apart.
  have hlen := congrArg List.length h
  cases m <;> cases n <;> simp_all [FileName.components]
  case plain.plain i j => exact_mod_cast decInt_injective h
  case gz.gz i j => exact_mod_cast decInt_injective h
  case unique.unique t c u d =>
    exact ⟨Int64.toInt_inj.mp (decInt_injective h.1), UInt32.toNat_inj.mp (decNat_injective h.2)⟩
  case uniqueGz.uniqueGz t c u d =>
    exact ⟨Int64.toInt_inj.mp (decInt_injective h.1), UInt32.toNat_inj.mp (decNat_injective h.2)⟩

/-- Different files of one output have different paths. -/
theorem render_injective (filePath : Bytes) : Function.Injective (FileName.render filePath) := by
  intro m n h
  rw [render_eq, render_eq] at h
  exact components_injective (dotted_injective (dot_notMem_components m) (dot_notMem_components n)
    (List.append_cancel_left h))

theorem render_ne {filePath : Bytes} {m n : FileName} (h : m ≠ n) :
    m.render filePath ≠ n.render filePath :=
  fun hpath => h (render_injective filePath hpath)

/-- Files of the two outputs have different paths. -/
theorem render_log_ne_render_jsonl (config : Config) (m n : FileName) :
    m.render (LogBase.log.path config) ≠ n.render (LogBase.jsonl.path config) := by
  intro h
  rw [render_eq, render_eq] at h
  simp only [LogBase.path, LogBase.fileName, configLogFile, configJsonFile, List.append_assoc] at h
  have htail := List.append_cancel_left (List.append_cancel_left h)
  -- The file names differ in their seventh letter.
  simp [ascii] at htail

/-- Different files have different paths. -/
theorem fileAt_injective (config : Config) : Function.Injective (fileAt config) := by
  rintro ⟨b, m⟩ ⟨c, n⟩ h
  cases b <;> cases c
  · exact Prod.ext rfl (render_injective _ h)
  · exact absurd h (render_log_ne_render_jsonl config m n)
  · exact absurd h.symm (render_log_ne_render_jsonl config n m)
  · exact Prod.ext rfl (render_injective _ h)

/-! ### The other files of the directory -/

/-- The name of the lock file does not start with the name of an output. -/
theorem not_path_prefix_lockPath (config : Config) (b : LogBase) :
    ¬ b.path config <+: lockPath config := by
  simp only [LogBase.path, lockPath, List.prefix_append_right_inj]
  cases b <;> decide

/-- The lock file is no file of an output. -/
theorem fileAt_ne_lockPath (config : Config) (f : LogBase × FileName) :
    fileAt config f ≠ lockPath config := by
  intro h
  apply not_path_prefix_lockPath config f.1
  rw [← h, fileAt, render_eq]
  exact List.prefix_append _ _

end ProcessAnalyzer
