import OrderedStore.Proofs.Host.Stored
import OrderedStore.Proofs.Log.Frames

/-!
# Recovery of any log

Whatever bytes a log file holds, recovery gives the records of the longest run of frames at its
front, reports their number and the last of their sequence numbers, and leaves just this run in the
file. So there is nothing to do for a second recovery.

Main definitions:

- `Log.Recovery.counting`: the report on frames in a row.

Main statement: `Log.Recovery.keeps_longest_run`.
-/

namespace OrderedStore.Log

variable {host : Host} {path : Path} {place : Location} {id : Nat} {bytes : Bytes}

namespace Recovery

/-- The report on frames in a row with nothing behind them. -/
def counting (found : List Record) : Recovery where
  recovered := found.length
  lastLsn := (found.getLast?.map (·.lsn)).getD 0

theorem report_eq (bytes : Bytes) :
    report bytes =
      { counting (records bytes) with corrupted := if leftover bytes = [] then 0 else 1 } :=
  rfl

/-- The file under a path is read as a log. -/
theorem ensures_scan_stored {stop : Host → Prop} (sound : host.Sound)
    (stored : host.Stores path place id bytes) (same : stop host) :
    (scan path).Ensures .own stop
      (fun found after => after = host ∧ found.1 = records bytes ∧ found.2.1 = report bytes ∧
        found.2.2 + (leftover bytes).length = bytes.length) (fun _ _ => False) host :=
  ensures_scan_started sound stored.file same
    (Stream.ensures_start_stored Conduct.steady_own stored same)

theorem perform_verify (sound : host.Sound) (stored : host.Stores path place id bytes) :
    (verify path).perform host = (.ok (report bytes), host) := by
  apply Action.perform_of_ensures
  refine Action.Ensures.bind_of (ensures_scan_stored sound stored trivial) ?_ fun _ _ h => h
  rintro ⟨found, recovery, length⟩ _ ⟨rfl, _, hreport, _⟩
  exact ⟨hreport, rfl⟩

/-- A log without leftover is left alone. -/
theorem perform_recover_clean (sound : host.Sound) (stored : host.Stores path place id bytes)
    (clean : leftover bytes = []) :
    (recover path).perform host = (.ok (records bytes, counting (records bytes)), host) := by
  apply Action.perform_of_ensures
  refine Action.Ensures.bind_of (ensures_scan_stored sound stored trivial) ?_ fun _ _ h => h
  rintro ⟨found, recovery, length⟩ _ ⟨rfl, hfound, hreport, _⟩
  simp only at hfound hreport
  subst hfound hreport
  simp only [report_eq, clean, if_true]
  exact ⟨rfl, rfl⟩

/-- A log with a leftover is cut. -/
theorem exists_recover_damaged (sound : host.Sound) (stored : host.Stores path place id bytes)
    (damaged : leftover bytes ≠ []) :
    ∃ after, (recover path).perform host =
        (.ok (records bytes, { report bytes with truncated := true }), after) ∧
      after.Sound ∧ after.Stores path place id (intact bytes) := by
  have hensures : (recover path).Ensures .own (fun _ => True)
      (fun found after => found = (records bytes, { report bytes with truncated := true }) ∧
        after.Sound ∧ after.Stores path place id (intact bytes)) (fun _ _ => False) host := by
    refine Action.Ensures.bind_of (ensures_scan_stored sound stored trivial) ?_ fun _ _ h => h
    rintro ⟨found, recovery, length⟩ scanned ⟨rfl, hfound, hreport, hlength⟩
    simp only at hfound hreport hlength
    subst hfound hreport
    simp only [report_eq, damaged, if_false]
    -- The scan ends where the frames end, and there the file is cut.
    have hsize : intact bytes = bytes.take length := by
      rw [intact]
      congr 1
      omega
    refine Action.Ensures.bind (Action.ensures_openFile_stored (Or.inr rfl) stored trivial ?_ ?_)
    · intro unsteady
      exact absurd Conduct.steady_own unsteady
    apply ensures_cut sound stored.file (by omega) trivial
    · intro unsteady
      exact absurd Conduct.steady_own unsteady
    · intro after hsound hsame hfile
      rw [← hsize] at hfile
      exact ⟨trivial, rfl, hsound, stored.change hsame hfile⟩
  obtain ⟨_, after, hperform, rfl, hafter⟩ := Action.exists_of_ensures hensures
  exact ⟨after, hperform, hafter⟩

/-- A log file of any bytes begins with a longest run of frames. Recovery gives the records of this
run, counts them, and reports one damaged place if more bytes follow; these are cut off, and nothing
else of the file. A mere look reports the same, and a second recovery finds nothing more to do. -/
theorem keeps_longest_run (sound : host.Sound) (content : host.disk.content? path = some bytes) :
    ∃ front back found after, bytes = front ++ back ∧ LongestRun bytes front found ∧
      (recover path).perform host =
        (.ok (found, { counting found with
          corrupted := if back = [] then 0 else 1
          truncated := decide (back ≠ []) }), after) ∧
      after.disk.content? path = some front ∧
      (verify path).perform host =
        (.ok { counting found with corrupted := if back = [] then 0 else 1 }, host) ∧
      (recover path).perform after = (.ok (found, counting found), after) := by
  obtain ⟨place, id, stored⟩ := Host.content?_eq_some_iff.1 content
  have hsplit := (intact_append_leftover bytes).symm
  have hrun := longestRun_intact bytes
  have hverify := perform_verify sound stored
  by_cases hclean : leftover bytes = []
  · have hwhole : intact bytes = bytes := by
      rw [hclean, List.append_nil] at hsplit
      exact hsplit.symm
    have hrecover := perform_recover_clean sound stored hclean
    refine ⟨intact bytes, leftover bytes, records bytes, host, hsplit, hrun, ?_, ?_, hverify,
      hrecover⟩
    · rw [hrecover, hclean]
      rfl
    · rw [hwhole, content]
  · -- What is left of the file reads as before, so a second recovery finds it clean.
    obtain ⟨after, hrecover, hsound, hafter⟩ := exists_recover_damaged sound stored hclean
    have hagain := parse_intact bytes
    refine ⟨intact bytes, leftover bytes, records bytes, after, hsplit, hrun, ?_, ?_, hverify, ?_⟩
    · simpa [hclean, report_eq] using hrecover
    · exact Host.content?_eq_some_iff.2 ⟨place, id, hafter⟩
    · have := perform_recover_clean hsound hafter hagain.2
      rwa [hagain.1] at this

/-- A frame with three more bytes behind it. -/
theorem keeps_longest_run_torn :
    ∃ (host after : Host) (path : Path) (record : Record),
      host.disk.content? path = some (record.frame ++ [1, 2, 3]) ∧
      (recover path).perform host = (.ok ([record],
        { recovered := 1, corrupted := 1, lastLsn := 7, truncated := true }), after) ∧
      after.disk.content? path = some record.frame ∧
      (recover path).perform after = (.ok ([record], { recovered := 1, lastLsn := 7 }), after) := by
  let record : Record := ⟨7, .one (.put [1] [2]), 0⟩
  obtain ⟨host, hsound, hcontent⟩ := @Host.exists_storing (record.frame ++ [1, 2, 3])
    (by decide +kernel)
  obtain ⟨front, back, found, after, hbytes, hrun, hrecover, hkept, _, hagain⟩ :=
    keeps_longest_run hsound hcontent
  have hframe : FrameRun (record.frame ++ []) [record] :=
    .cons (validFrame_frame (by decide +kernel)) .nil
  rw [List.append_nil] at hframe
  have hrest : Frame.split? [1, 2, 3] = none := by decide +kernel
  obtain ⟨hfound, hintact, _⟩ := hframe.parse_before hrest
  obtain ⟨rfl, rfl⟩ := hrun.unique (longestRun_intact _)
  rw [hintact] at hbytes hkept
  rw [hfound] at hrecover hagain
  obtain rfl := List.append_cancel_left hbytes
  exact ⟨host, after, .ofText "file", record, hcontent, hrecover, hkept, hagain⟩

end Recovery

end OrderedStore.Log
