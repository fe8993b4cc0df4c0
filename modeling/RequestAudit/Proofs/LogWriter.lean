import RequestAudit.Log.Writer
import RequestAudit.Proofs.FileStore

/-!
# What a writer adds to its file

The file of a writer and the bytes that the writer has collected make one text, at the end of
which every entry puts its line. A flush moves what is collected to the file.
-/

namespace RequestAudit

namespace Log.Writer

open Files

/-- The writer's log is a file with this content, and no failure is still to be reported. -/
structure Stands (w : Writer) (fs : Files) (content : List UInt8) : Prop where
  file : fs.item? w.target = some (.file content)
  sound : w.failure? = none

variable {w w' : Writer} {fs fs' : Files} {content : List UInt8}

theorem Stands.target_ne_root (h : Stands w fs content) : w.target ≠ [] :=
  ne_root_of_item?_ne fs (by simp [h.file])

/-- The writer and the store once the bytes are handed over. -/
theorem handOver_eq (h : Stands w fs content) (bytes : List UInt8) :
    w.handOver bytes fs = ⟨none, w, fs.put w.target (.file (content ++ bytes))⟩ := by
  obtain ⟨target, collected, failure?⟩ := w
  obtain ⟨hfile, rfl⟩ := h
  simp only [handOver]
  rw [extend_file hfile]

theorem Stands.put (h : Stands w fs content) (content' kept : List UInt8) :
    Stands { w with collected := kept } (fs.put w.target (.file content')) content' where
  file := item?_put_self h.target_ne_root _
  sound := h.sound

/-- A step that keeps the writer standing and adds bytes to its text. -/
structure Adds (w : Writer) (fs : Files) (content bytes : List UInt8) (a : After) : Prop where
  fault? : a.fault? = none
  target : a.writer.target = w.target
  stands : ∃ content', Stands a.writer a.files content' ∧
    content' ++ a.writer.collected = content ++ w.collected ++ bytes

theorem drain_spec (h : Stands w fs content) :
    Adds w fs content [] (w.drain fs) ∧ (w.drain fs).writer.collected = [] := by
  unfold drain
  by_cases hempty : w.collected = []
  · rw [if_pos (by simp [hempty])]
    exact ⟨⟨rfl, rfl, content, h, by simp⟩, hempty⟩
  · rw [if_neg (by simpa using hempty), handOver_eq h]
    refine ⟨⟨rfl, rfl, content ++ w.collected, h.put _ _, ?_⟩, rfl⟩
    simp

/-- What was collected is kept or handed over before the bytes are taken. Bytes that reach the
capacity alone find nothing collected before them. -/
theorem take_drained (h : Stands w fs content) (bytes : List UInt8) :
    ∃ w' fs' content', Stands w' fs' content' ∧ w'.target = w.target ∧
      (content' = content ∧ w'.collected = w.collected ∨
        content' = content ++ w.collected ∧ w'.collected = []) ∧
      (capacity ≤ bytes.length → w'.collected = []) ∧
      w.take bytes fs =
        if capacity ≤ bytes.length then w'.handOver bytes fs'
        else ⟨none, { w' with collected := w'.collected ++ bytes }, fs'⟩ := by
  by_cases hfull : capacity < w.collected.length + bytes.length
  · obtain ⟨⟨hfault, htarget, content', hstands, htext⟩, hempty⟩ := drain_spec h
    rw [hempty, List.append_nil, List.append_nil] at htext
    refine ⟨_, _, content', hstands, htarget, .inr ⟨htext, hempty⟩, fun _ => hempty, ?_⟩
    simp only [take, if_pos hfull, hfault]
  · refine ⟨w, fs, content, h, rfl, .inl ⟨rfl, rfl⟩, fun hlong => ?_, ?_⟩
    · exact List.length_eq_zero_iff.mp (by omega)
    · simp only [take, if_neg hfull]

/-- Bytes that are taken are collected, alone or behind the others, or they are handed over behind
all that was collected. -/
theorem take_whole (h : Stands w fs content) (bytes : List UInt8) :
    ∃ w' fs' content', w.take bytes fs = ⟨none, w', fs'⟩ ∧ w'.target = w.target ∧
      Stands w' fs' content' ∧
      (content' = content ∧ w'.collected = w.collected ++ bytes ∨
        content' = content ++ w.collected ∧ w'.collected = bytes ∨
        content' = content ++ w.collected ++ bytes ∧ w'.collected = []) := by
  obtain ⟨w', fs', content', hstands, htarget, hready, hempty, htake⟩ := take_drained h bytes
  by_cases hlong : capacity ≤ bytes.length
  · have htext : content' = content ++ w.collected := by
      rcases hready with ⟨hcontent, hkept⟩ | ⟨hcontent, -⟩
      · rw [hcontent, ← hkept, hempty hlong, List.append_nil]
      · exact hcontent
    rw [if_pos hlong, handOver_eq hstands] at htake
    refine ⟨w', _, content' ++ bytes, htake, htarget, hstands.put _ _, .inr (.inr ⟨?_, ?_⟩)⟩
    · rw [htext]
    · exact hempty hlong
  · rw [if_neg hlong] at htake
    refine ⟨_, fs', content', htake, htarget, ⟨hstands.file, hstands.sound⟩, ?_⟩
    rcases hready with ⟨hcontent, hkept⟩ | ⟨hcontent, hkept⟩
    · exact .inl ⟨hcontent, by rw [hkept]⟩
    · exact .inr (.inl ⟨hcontent, by rw [hkept, List.nil_append]⟩)

theorem take_spec (h : Stands w fs content) (bytes : List UInt8) :
    Adds w fs content bytes (w.take bytes fs) := by
  obtain ⟨w', fs', content', htake, htarget, hstands, hsplit⟩ := take_whole h bytes
  rw [htake]
  refine ⟨rfl, htarget, content', hstands, ?_⟩
  rcases hsplit with ⟨hcontent, hkept⟩ | ⟨hcontent, hkept⟩ | ⟨hcontent, hkept⟩ <;>
    simp [hcontent, hkept]

/-- A writer whose file stands writes an entry without a fault, as a line behind its text. -/
theorem write_spec (h : Stands w fs content) (e : Entry) :
    ∃ w' fs' content', w.write e fs = (none, w', fs') ∧ w'.target = w.target ∧
      Stands w' fs' content' ∧
      content' ++ w'.collected = content ++ w.collected ++ lineBytes e := by
  obtain ⟨hfault, htarget, content', hstands, htext⟩ := take_spec h (lineBytes e)
  refine ⟨_, _, content', ?_, htarget, hstands, htext⟩
  simp only [write, hfault, Option.map_none]

/-- A flush leaves nothing collected. -/
theorem flush_spec (h : Stands w fs content) :
    ∃ w' fs', w.flush fs = (none, w', fs') ∧ w'.target = w.target ∧
      Stands w' fs' (content ++ w.collected) ∧ w'.collected = [] := by
  obtain ⟨⟨hfault, htarget, content', hstands, htext⟩, hempty⟩ := drain_spec h
  rw [hempty, List.append_nil, List.append_nil] at htext
  subst htext
  refine ⟨(w.drain fs).writer, (w.drain fs).files, ?_, htarget, hstands, hempty⟩
  have hsound := hstands.sound
  simp only [flush, hfault, hsound, Option.map_none]
  rw [← hsound]

/-! ## Opening -/

theorem start_cases {path : String} (h : start fs path = (.ok w, fs')) :
    ∃ gs, fs.makeParent path = (none, gs) ∧ gs.openEnd path = .ok (w.target, fs') ∧
      w = { target := w.target } := by
  unfold start at h
  split at h
  · cases h
  · rename_i gs hparent
    split at h
    · cases h
    · rename_i l gs' hopen
      cases h
      exact ⟨gs, hparent, hopen, rfl⟩

theorem openEnd_of_start {path : String} (h : start fs path = (.ok w, fs')) :
    ∃ gs, MoreFolders fs gs ∧ gs.openEnd path = .ok (w.target, fs') ∧ w.collected = [] ∧
      w.failure? = none := by
  obtain ⟨gs, hparent, hopen, hfresh⟩ := start_cases h
  have hmore := moreFolders_makeParent fs path
  rw [hparent] at hmore
  refine ⟨gs, hmore, hopen, ?_, ?_⟩
  · rw [hfresh]
  · rw [hfresh]

/-- A log that is opened keeps its content; a new one is empty. -/
theorem stands_of_start {path : String} (h : start fs path = (.ok w, fs'))
    (hbefore : fs.BeginsWith w.target content) : Stands w fs' content := by
  obtain ⟨gs, hmore, hopen, _, hsound⟩ := openEnd_of_start h
  obtain ⟨hfolder, hcases⟩ := openEnd_cases hopen
  have hkept : fs.item? w.target = gs.item? w.target := hmore.item?_eq hfolder
  rw [BeginsWith, hkept] at hbefore
  refine ⟨?_, hsound⟩
  rcases hcases with ⟨hsome, rfl⟩ | ⟨hnone, rfl⟩
  · rcases hbefore with hfile | ⟨hnone, _⟩
    · exact hfile
    · exact absurd hnone hsome
  · rcases hbefore with hfile | ⟨_, rfl⟩
    · rw [hnone] at hfile
      cases hfile
    · exact item?_put_self (ne_root_of_item?_ne gs hfolder) _

end Log.Writer

end RequestAudit
