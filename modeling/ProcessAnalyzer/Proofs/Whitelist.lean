import Mathlib.Data.List.TakeWhile
import ProcessAnalyzer.Model.ArgsParser

/-!
# `ProcessAnalyzer.Proofs.Whitelist`: what the filter options denote

`parse_filter_pid_list` walks over its argument with a cursor. `parseFilterPidList_eq`
states it as a fold over the tokens of the argument: its segments between commas, without
white space at their ends. From there on it is about lists:

* `filterPids_foldlM`, `filterComms_foldlM`: one accepted option adds the values of
  its tokens, and nothing else.
* `whitelist_of_apParseArgs`: after an accepted command line the white list has exactly the
  requested PIDs and names (`requestedPids`, `requestedComms`), whatever the other options
  are.
-/

set_option autoImplicit false

namespace ProcessAnalyzer

open ProcessAnalyzer.Lib ProcessAnalyzer.Stats

/-! ### Tokens -/

/-- The tokens of a filter argument. -/
def tokens (arg : Bytes) : List Bytes := (arg.splitOn 44).map trim

/-- White space in front does not matter to `trim`. -/
theorem trim_cons_of_isSpace {b : UInt8} (hb : isSpace b = true) (s : Bytes) :
    trim (b :: s) = trim s := by
  simp [trim, hb]

/-- White space in front of an argument does not change its tokens. -/
theorem tokens_dropWhile (s : Bytes) : tokens (s.dropWhile isSpace) = tokens s := by
  induction s with
  | nil => rfl
  | cons b s ih =>
      by_cases hb : isSpace b = true
      · -- A space is not a comma, so it belongs to the first segment.
        have hcomma : (b == 44) = false := by
          rw [beq_eq_false_iff_ne]
          rintro rfl
          exact absurd hb (by decide)
        obtain ⟨seg, segs, hsplit⟩ := List.exists_cons_of_ne_nil (List.splitOn_ne_nil 44 s)
        rw [List.dropWhile_cons_of_pos hb, ih, tokens, tokens,
          List.splitOn_cons_eq_if_modifyHead, hcomma, hsplit]
        simp [trim_cons_of_isSpace hb]
      · rw [List.dropWhile_cons_of_neg hb]

/-- An argument without a comma is one token. -/
theorem tokens_of_notMem {s : Bytes} (h : (44 : UInt8) ∉ s) : tokens s = [trim s] := by
  rw [tokens, List.splitOn_eq_singleton h]
  rfl

/-- The first token ends at the first comma. -/
theorem tokens_append_cons {seg : Bytes} (h : (44 : UInt8) ∉ seg) (rest : Bytes) :
    tokens (seg ++ 44 :: rest) = trim seg :: tokens rest := by
  rw [tokens, List.splitOn_append_cons_self_of_not_mem h]
  rfl

/-- A segment has no comma. -/
theorem comma_notMem_takeWhile (s : Bytes) : (44 : UInt8) ∉ s.takeWhile (· ≠ 44) := by
  intro h
  have := List.mem_takeWhile_imp h
  simp at this

/-! ### The scanner is a fold over the tokens -/

section Scanner
variable (alloc : FilterAlloc) (type : FilterParseType)

/-- What the scanner does with one token, the empty one included. -/
def tokenStep (w : ApPidWhitelist) (token : Bytes) : Option ApPidWhitelist :=
  if token = [] then none else appendFilterToken alloc type w token

/-- The loop of the scanner. The recursion is on the length of what is left. -/
theorem parseFilterSegments_eq (n : ℕ) : ∀ (cursor : Bytes) (w : ApPidWhitelist),
    cursor.length ≤ n →
    parseFilterSegments alloc type cursor w = (tokens cursor).foldlM (tokenStep alloc type) w := by
  induction n with
  | zero =>
      intro cursor w hlen
      obtain rfl : cursor = [] := List.eq_nil_of_length_eq_zero (by omega)
      rw [parseFilterSegments]
      rfl
  | succ n ih =>
      intro cursor w hlen
      have hsplit := List.takeWhile_append_dropWhile (p := (· ≠ (44 : UInt8))) (l := cursor)
      have hcomma := comma_notMem_takeWhile cursor
      rw [parseFilterSegments]
      -- The segment is one token. What is left begins with the comma, if there is one.
      generalize cursor.takeWhile (· ≠ 44) = seg at *
      generalize hd : cursor.dropWhile (· ≠ 44) = tail at *
      cases tail with
      | nil =>
          rw [List.append_nil] at hsplit
          rw [← hsplit, tokens_of_notMem hcomma]
          simp only [List.foldlM_cons, List.foldlM_nil, tokenStep]
          split
          · rfl
          · cases appendFilterToken alloc type w (trim seg) <;> rfl
      | cons c rest =>
          have hc : c = 44 := by
            have hhead := List.head?_dropWhile_not (· ≠ (44 : UInt8)) cursor
            rw [hd] at hhead
            simpa using hhead
          subst hc
          rw [← hsplit, tokens_append_cons hcomma, List.foldlM_cons, tokenStep]
          split
          · rfl
          · show Option.bind _ _ = Option.bind _ _
            congr 1
            funext w'
            rw [← tokens_dropWhile rest]
            dsimp only
            have hle := (List.dropWhile_sublist (l := rest) isSpace).length_le
            have hlen' : (seg ++ 44 :: rest).length ≤ n + 1 := hsplit ▸ hlen
            simp only [List.length_append, List.length_cons] at hlen'
            generalize rest.dropWhile isSpace = next at *
            split
            · rename_i hnext
              rw [hnext]
              rfl
            · exact ih next w' (by omega)

/-- `parse_filter_pid_list` handles the tokens of its argument one after the other, and
fails at an empty one. -/
theorem parseFilterPidList_eq (arg : Bytes) (w : ApPidWhitelist) :
    parseFilterPidList alloc type arg w = (tokens arg).foldlM (tokenStep alloc type) w := by
  rw [parseFilterPidList, ← tokens_dropWhile arg]
  generalize arg.dropWhile isSpace = cursor
  split
  · rename_i hnil
    rw [hnil]
    rfl
  · exact parseFilterSegments_eq alloc type cursor.length cursor w le_rfl

end Scanner

/-! ### One token -/

/-- An accepted PID token stands for its decimal value. The loop tests every prefix, so the
value never leaves the range of `int`. -/
theorem toInt_parsePidDigits {digits : Bytes} {value : ℕ} {pid : Int32}
    (hvalue : value ≤ 2147483647) (h : parsePidDigits digits value = some pid) :
    pid.toInt = (digits.foldl (fun acc b => acc * 10 + (b.toNat - 48)) value : ℕ) := by
  induction digits generalizing value with
  | nil =>
      rw [parsePidDigits] at h
      split at h
      · cases h
      · rw [← Option.some.inj h, Int32.toInt_ofNat_of_lt (by omega)]
        rfl
  | cons c rest ih =>
      rw [parsePidDigits] at h
      split at h
      · simp only at h
        split at h
        · cases h
        · have hnext : value * 10 + (c.toNat - 48) ≤ 2147483647 := by omega
          exact ih hnext h
      · cases h

/-- An accepted PID token stands for its decimal value. -/
theorem toInt_parsePidToken {token : Bytes} {pid : Int32} (h : parsePidToken token = some pid) :
    pid.toInt = decValue token := by
  rw [parsePidToken] at h
  split at h
  · cases h
  · exact toInt_parsePidDigits (Nat.zero_le _) h

section Token
variable {alloc : FilterAlloc} {w w' : ApPidWhitelist}

/-- An accepted PID is added to the list, unless it is there already. -/
theorem appendFilterPid_spec {pid : Int32} (h : appendFilterPid alloc w pid = some w') :
    w'.filterComms = w.filterComms ∧
    ∀ x, x ∈ w'.filterPids ↔ x ∈ w.filterPids ∨ x = pid := by
  unfold appendFilterPid at h
  -- A PID that is there already changes nothing.
  by_cases hmem : pid ∈ w.filterPids
  · rw [if_pos hmem, Option.some.injEq] at h
    subst h
    refine ⟨rfl, fun x => ⟨Or.inl, ?_⟩⟩
    rintro (hx | rfl)
    · exact hx
    · exact hmem
  · rw [if_neg hmem] at h
    split at h
    · simp only at h
      split at h
      · rw [← Option.some.inj h]
        exact ⟨rfl, fun x => by simp⟩
      · cases h
    · rw [← Option.some.inj h]
      exact ⟨rfl, fun x => by simp⟩

/-- An accepted name is added to the list, unless it is there already. -/
theorem appendFilterComm_spec {comm : Bytes} (h : appendFilterComm alloc w comm = some w') :
    w'.filterPids = w.filterPids ∧
    ∀ c, c ∈ w'.filterComms ↔ c ∈ w.filterComms ∨ c = comm := by
  unfold appendFilterComm at h
  -- A name that is there already changes nothing.
  by_cases hmem : comm ∈ w.filterComms
  · rw [if_pos hmem, Option.some.injEq] at h
    subst h
    refine ⟨rfl, fun c => ⟨Or.inl, ?_⟩⟩
    rintro (hc | rfl)
    · exact hc
    · exact hmem
  · rw [if_neg hmem] at h
    obtain ⟨grown, hgrown, hadd⟩ := Option.bind_eq_some_iff.mp h
    -- Growing the buffer keeps both lists.
    have hkeep : grown.filterPids = w.filterPids ∧ grown.filterComms = w.filterComms := by
      split at hgrown
      · simp only at hgrown
        split at hgrown
        · rw [← Option.some.inj hgrown]
          exact ⟨rfl, rfl⟩
        · cases hgrown
      · rw [← Option.some.inj hgrown]
        exact ⟨rfl, rfl⟩
    split at hadd
    · rw [← Option.some.inj hadd]
      exact ⟨hkeep.1, fun c => by simp [hkeep.2]⟩
    · cases hadd

end Token

/-! ### One option -/

/-- An accepted `-k` argument adds the values of its tokens to the PIDs. -/
theorem filterPids_foldlM {alloc : FilterAlloc} {ts : List Bytes} {w w' : ApPidWhitelist}
    (h : ts.foldlM (tokenStep alloc .pid) w = some w') :
    w'.filterComms = w.filterComms ∧
    ∀ v : Int, v ∈ w'.filterPids.map Int32.toInt
      ↔ v ∈ w.filterPids.map Int32.toInt ∨ v ∈ ts.map fun t => (decValue t : Int) := by
  induction ts generalizing w with
  | nil =>
      rw [← Option.some.inj h]
      exact ⟨rfl, fun v => by simp⟩
  | cons t ts ih =>
      rw [List.foldlM_cons] at h
      obtain ⟨w₁, hstep, hrest⟩ := Option.bind_eq_some_iff.mp h
      rw [tokenStep] at hstep
      split at hstep
      · cases hstep
      · obtain ⟨pid, hpid, hadd⟩ := Option.bind_eq_some_iff.mp hstep
        obtain ⟨hcomms, hpids⟩ := appendFilterPid_spec hadd
        obtain ⟨hcommsRest, hpidsRest⟩ := ih hrest
        refine ⟨hcommsRest.trans hcomms, fun v => ?_⟩
        -- The token stands for its decimal value, as an integer and as a stored PID.
        have hmap : v ∈ w₁.filterPids.map Int32.toInt
            ↔ v ∈ w.filterPids.map Int32.toInt ∨ v = decValue t := by
          rw [← toInt_parsePidToken hpid]
          simp only [List.mem_map, hpids]
          constructor
          · rintro ⟨x, hx | rfl, rfl⟩
            · exact Or.inl ⟨x, hx, rfl⟩
            · exact Or.inr rfl
          · rintro (⟨x, hx, rfl⟩ | rfl)
            · exact ⟨x, Or.inl hx, rfl⟩
            · exact ⟨pid, Or.inr rfl, rfl⟩
        rw [hpidsRest, hmap, List.map_cons, List.mem_cons, or_assoc]

/-- An accepted `-l` argument adds its tokens to the names. None of them is empty. -/
theorem filterComms_foldlM {alloc : FilterAlloc} {ts : List Bytes} {w w' : ApPidWhitelist}
    (h : ts.foldlM (tokenStep alloc .comm) w = some w') :
    w'.filterPids = w.filterPids ∧ [] ∉ ts ∧
    ∀ c, c ∈ w'.filterComms ↔ c ∈ w.filterComms ∨ c ∈ ts := by
  induction ts generalizing w with
  | nil =>
      rw [← Option.some.inj h]
      exact ⟨rfl, by simp, fun v => by simp⟩
  | cons t ts ih =>
      rw [List.foldlM_cons] at h
      obtain ⟨w₁, hstep, hrest⟩ := Option.bind_eq_some_iff.mp h
      rw [tokenStep] at hstep
      split at hstep
      · cases hstep
      · rename_i hne
        obtain ⟨hpids, hcomms⟩ := appendFilterComm_spec hstep
        obtain ⟨hpidsRest, hnil, hcommsRest⟩ := ih hrest
        refine ⟨hpidsRest.trans hpids, ?_, fun c => ?_⟩
        · rw [List.mem_cons, not_or]
          exact ⟨fun h => hne h.symm, hnil⟩
        · rw [hcommsRest, hcomms, List.mem_cons, or_assoc]

/-! ### The whole command line -/

/-- The PIDs that the `-k` options of a command line ask for. -/
def requestedPids (opts : List ApOption) : List Int :=
  opts.flatMap fun
    | .filterByPid arg => (tokens arg).map fun t => (decValue t : Int)
    | _ => []

/-- The names that the `-l` options of a command line ask for. -/
def requestedComms (opts : List ApOption) : List Bytes :=
  opts.flatMap fun
    | .filterByName arg => tokens arg
    | _ => []

/-- A white list that has exactly the PIDs and names of a command line, besides those of
another white list. -/
structure Denotes (opts : List ApOption) (w w' : ApPidWhitelist) : Prop where
  pids : ∀ v : Int, v ∈ w'.filterPids.map Int32.toInt
    ↔ v ∈ w.filterPids.map Int32.toInt ∨ v ∈ requestedPids opts
  comms : ∀ c, c ∈ w'.filterComms ↔ c ∈ w.filterComms ∨ c ∈ requestedComms opts
  nonempty : [] ∉ requestedComms opts

/-- One accepted option. -/
theorem denotes_parseOption {alloc : FilterAlloc} {s s' : ParseState} {opt : ApOption}
    (h : parseOption alloc s opt = .ok s') :
    Denotes [opt] s.cfg.pidWhitelist s'.cfg.pidWhitelist := by
  cases opt with
  | filterByPid arg =>
      simp only [parseOption, parseFilterPidList_eq] at h
      split at h
      · rename_i w hw
        rw [← Except.ok.inj h]
        obtain ⟨hcomms, hpids⟩ := filterPids_foldlM hw
        exact ⟨fun v => by simp [hpids, requestedPids], fun c => by simp [hcomms, requestedComms],
          by simp [requestedComms]⟩
      · cases h
  | filterByName arg =>
      simp only [parseOption, parseFilterPidList_eq] at h
      split at h
      · rename_i w hw
        rw [← Except.ok.inj h]
        obtain ⟨hpids, hnil, hcomms⟩ := filterComms_foldlM hw
        exact ⟨fun v => by simp [hpids, requestedPids], fun c => by simp [hcomms, requestedComms],
          by simpa [requestedComms] using hnil⟩
      · cases h
  | interval arg =>
      simp only [parseOption] at h
      split at h
      · rw [← Except.ok.inj h]
        constructor <;> simp [requestedPids, requestedComms]
      · cases h
  | count arg =>
      simp only [parseOption] at h
      split at h
      · rw [← Except.ok.inj h]
        constructor <;> simp [requestedPids, requestedComms]
      · cases h
  | metric m arg =>
      simp only [parseOption] at h
      split at h
      · rw [← Except.ok.inj h]
        constructor <;> simp [requestedPids, requestedComms]
      · cases h
  | deleteOldFiles =>
      rw [← Except.ok.inj h]
      constructor <;> simp [requestedPids, requestedComms]
  | version => cases h
  | help => cases h

/-- A sequence of accepted options. -/
theorem denotes_foldlM {alloc : FilterAlloc} {opts : List ApOption} {s s' : ParseState}
    (h : opts.foldlM (parseOption alloc) s = .ok s') :
    Denotes opts s.cfg.pidWhitelist s'.cfg.pidWhitelist := by
  induction opts generalizing s with
  | nil =>
      rw [← Except.ok.inj h]
      constructor <;> simp [requestedPids, requestedComms]
  | cons opt opts ih =>
      rw [List.foldlM_cons] at h
      cases hstep : parseOption alloc s opt with
      | error e =>
          rw [hstep] at h
          cases h
      | ok s₁ =>
          rw [hstep] at h
          have hone := denotes_parseOption hstep
          have hrest := ih h
          have hpidsCons : requestedPids (opt :: opts)
              = requestedPids [opt] ++ requestedPids opts := by simp [requestedPids]
          have hcommsCons : requestedComms (opt :: opts)
              = requestedComms [opt] ++ requestedComms opts := by simp [requestedComms]
          refine ⟨fun v => ?_, fun c => ?_, ?_⟩
          · rw [hrest.pids, hone.pids, hpidsCons, List.mem_append, or_assoc]
          · rw [hrest.comms, hone.comms, hcommsCons, List.mem_append, or_assoc]
          · rw [hcommsCons, List.mem_append, not_or]
            exact ⟨hone.nonempty, hrest.nonempty⟩

/-- After an accepted command line the white list has exactly the requested PIDs and
names. -/
theorem whitelist_of_apParseArgs {config : Config} {alloc : FilterAlloc} {opts : List ApOption}
    {args : ApArguments} {statsOn : Bool}
    (h : apParseArgs config alloc opts = .ok (args, statsOn)) :
    Denotes opts {} args.pidWhitelist := by
  unfold apParseArgs at h
  cases hfold : opts.foldlM (parseOption alloc) {} with
  | error e =>
      rw [hfold] at h
      cases h
  | ok s =>
      rw [hfold] at h
      simp only [bind, Except.bind] at h
      split at h
      · cases h
      · have hargs : s.cfg = args := congrArg Prod.fst (Except.ok.inj h)
        rw [← hargs]
        exact denotes_foldlM hfold

/-- Whether an option is a filter option. -/
def ApOption.isFilter : ApOption → Bool
  | .filterByPid _ => true
  | .filterByName _ => true
  | _ => false

/-- The white list is empty exactly when no filter option was given. -/
theorem Denotes.isEmpty_iff {opts : List ApOption} {w : ApPidWhitelist} (h : Denotes opts {} w) :
    w.filterPids = [] ∧ w.filterComms = [] ↔ ∀ opt ∈ opts, opt.isFilter = false := by
  -- Every filter argument has a token.
  have htokens : ∀ arg, tokens arg ≠ [] := fun arg => by simp [tokens]
  have hpids : w.filterPids = [] ↔ requestedPids opts = [] := by
    rw [← List.map_eq_nil_iff (f := Int32.toInt), List.eq_nil_iff_forall_not_mem,
      List.eq_nil_iff_forall_not_mem]
    exact forall_congr' fun v => not_congr (by simpa using h.pids v)
  have hcomms : w.filterComms = [] ↔ requestedComms opts = [] := by
    rw [List.eq_nil_iff_forall_not_mem, List.eq_nil_iff_forall_not_mem]
    exact forall_congr' fun c => not_congr (by simpa using h.comms c)
  rw [hpids, hcomms, requestedPids, requestedComms, List.flatMap_eq_nil_iff,
    List.flatMap_eq_nil_iff]
  constructor
  · rintro ⟨hp, hc⟩ opt hopt
    have hp' := hp opt hopt
    have hc' := hc opt hopt
    cases opt <;> simp_all [ApOption.isFilter]
  · intro hnone
    refine ⟨fun opt hopt => ?_, fun opt hopt => ?_⟩
    · have := hnone opt hopt
      cases opt <;> simp_all [ApOption.isFilter]
    · have := hnone opt hopt
      cases opt <;> simp_all [ApOption.isFilter]

end ProcessAnalyzer
