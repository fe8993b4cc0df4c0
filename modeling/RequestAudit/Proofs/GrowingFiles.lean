import Mathlib.Data.List.Basic
import RequestAudit.Proofs.LogWriter

/-!
# Stores in which one file grows

To open a log and to write to it never takes anything away: one file gets longer, and folders are
made where nothing stood. Paths lead in such a store to where they led before, so that a log can
be opened again while others write to it.
-/

namespace RequestAudit

namespace Files

/-- What may become of something. -/
inductive Item.Grows : Item → Item → Prop
  | same (i : Item) : Grows i i
  | longer (content more : List UInt8) : Grows (.file content) (.file (content ++ more))

namespace Item.Grows

variable {i i' i'' : Item}

theorem trans (h : i.Grows i') (h' : i'.Grows i'') : i.Grows i'' := by
  cases h with
  | same => exact h'
  | longer content more =>
      cases h' with
      | same => exact .longer content more
      | longer _ further =>
          rw [List.append_assoc]
          exact .longer content (more ++ further)

theorem folder (h : Item.folder.Grows i) : i = .folder := by
  cases h
  rfl

theorem bytes {content : List UInt8} (h : i.Grows i') (hi : i.bytes = .ok content) :
    ∃ more, i'.bytes = .ok (content ++ more) := by
  cases h with
  | same => exact ⟨[], by rw [List.append_nil, hi]⟩
  | longer content' more =>
      cases hi
      exact ⟨more, rfl⟩

end Item.Grows

/-- The second store differs from the first one by what may have become of the item at a location,
and by folders where nothing stood. -/
structure GrowsAt (l : Location) (fs fs' : Files) : Prop where
  home : fs'.home = fs.home
  there : ∀ i, fs.item? l = some i → ∃ i', fs'.item? l = some i' ∧ i.Grows i'
  elsewhere : ∀ k, k ≠ l → fs'.item? k = fs.item? k ∨
    fs.item? k = none ∧ fs'.item? k = some .folder

namespace GrowsAt

variable {fs fs' fs'' : Files} {l k : Location}

theorem refl (l : Location) (fs : Files) : GrowsAt l fs fs where
  home := rfl
  there := fun i hi => ⟨i, hi, .same i⟩
  elsewhere := fun _ _ => .inl rfl

theorem trans (h : GrowsAt l fs fs') (h' : GrowsAt l fs' fs'') : GrowsAt l fs fs'' where
  home := h'.home.trans h.home
  there := by
    intro i hi
    obtain ⟨i', hi', hgrows⟩ := h.there i hi
    obtain ⟨i'', hi'', hgrows'⟩ := h'.there i' hi'
    exact ⟨i'', hi'', hgrows.trans hgrows'⟩
  elsewhere := by
    intro k hk
    rcases h'.elsewhere k hk with hsame | ⟨hnone, hfolder⟩
    · rw [hsame]
      exact h.elsewhere k hk
    · rcases h.elsewhere k hk with hk | ⟨_, hk⟩
      · exact .inr ⟨hk.symm.trans hnone, hfolder⟩
      · rw [hk] at hnone
        cases hnone

theorem item? (h : GrowsAt l fs fs') {i : Item} (hi : fs.item? k = some i) :
    ∃ i', fs'.item? k = some i' ∧ i.Grows i' := by
  by_cases hk : k = l
  · subst hk
    exact h.there i hi
  · rcases h.elsewhere k hk with hsame | ⟨hnone, -⟩
    · exact ⟨i, hsame.trans hi, .same i⟩
    · rw [hnone] at hi
      cases hi

theorem folder (h : GrowsAt l fs fs') (hk : fs.item? k = some .folder) :
    fs'.item? k = some .folder := by
  obtain ⟨i, hi, hgrows⟩ := h.item? hk
  rw [hi, hgrows.folder]

theorem put_folder (l : Location) (hk : fs.item? k = none) :
    GrowsAt l fs (fs.put k .folder) where
  home := rfl
  there := by
    intro i hi
    have hne : l ≠ k := by
      rintro rfl
      rw [hk] at hi
      cases hi
    rw [item?_put (ne_root_of_item?_ne fs (by simp [hk])), if_neg hne]
    exact ⟨i, hi, .same i⟩
  elsewhere := fun m _ => MoreFolders.put hk m

theorem put_file {i : Item} (hl : l ≠ [])
    (hgrows : ∀ j, fs.item? l = some j → j.Grows i) : GrowsAt l fs (fs.put l i) where
  home := rfl
  there := fun j hj => ⟨i, item?_put_self hl i, hgrows j hj⟩
  elsewhere := by
    intro k hk
    rw [item?_put hl, if_neg hk]
    exact .inl rfl

theorem extend (fs : Files) (l : Location) (bytes : List UInt8) :
    GrowsAt l fs (fs.extend l bytes).2 := by
  unfold Files.extend
  split
  · rename_i content hfile
    refine put_file (ne_root_of_item?_ne fs (by simp [hfile])) fun j hj => ?_
    rw [hfile, Option.some.injEq] at hj
    subst hj
    exact .longer content bytes
  · exact refl l fs
  · exact refl l fs
  · exact refl l fs
  · exact refl l fs

theorem makeParent (l : Location) (fs : Files) (path : String) :
    GrowsAt l fs (fs.makeParent path).2 :=
  makeParent_keeps (refl l) (fun _ _ _ h h' => h.trans h') (fun _ _ h => put_folder l h) fs path

theorem openEnd {path : String} (h : fs.openEnd path = .ok (l, fs')) : GrowsAt l fs fs' := by
  obtain ⟨hfolder, ⟨-, rfl⟩ | ⟨hnone, rfl⟩⟩ := openEnd_cases h
  · exact refl l _
  · refine put_file (ne_root_of_item?_ne fs hfolder) fun j hj => ?_
    rw [hnone] at hj
    cases hj

end GrowsAt

/-! ## Where paths lead -/

variable {fs fs' : Files} {l here there : Location} {name : String} {names names' : List String}

/-- Where a name leads to from a folder. -/
def step (here : Location) (name : String) : Location :=
  if name = "" || name = "." then here
  else if name = ".." then here.dropLast
  else here ++ [name]

theorem walk_cons_iff : fs.walk here (name :: names) = .ok there ↔
    fs.item? here = some .folder ∧ name.utf8ByteSize ≤ 255 ∧
      fs.walk (step here name) names = .ok there := by
  have hstay : (name = "" || name = ".") = true → name.utf8ByteSize ≤ 255 := by
    intro hname
    rcases (by simpa using hname : name = "" ∨ name = ".") with rfl | rfl <;> decide
  rw [walk, step]
  split
  · rename_i hnone
    simp [hnone]
  · rename_i hfolder
    by_cases hempty : (name = "" || name = ".") = true
    · rw [if_pos hempty, if_pos hempty]
      exact ⟨fun h => ⟨hfolder, hstay hempty, h⟩, fun h => h.2.2⟩
    · rw [if_neg hempty, if_neg hempty]
      by_cases hup : name = ".."
      · subst hup
        exact ⟨fun h => ⟨hfolder, by decide, h⟩, fun h => h.2.2⟩
      · rw [if_neg hup, if_neg hup]
        by_cases hlong : 255 < name.utf8ByteSize
        · rw [if_pos hlong]
          exact ⟨fun h => (by cases h), fun h => absurd h.2.1 (Nat.not_le_of_lt hlong)⟩
        · rw [if_neg hlong]
          exact ⟨fun h => ⟨hfolder, Nat.le_of_not_lt hlong, h⟩, fun h => h.2.2⟩
  · rename_i i hi hitem
    rw [hitem]
    exact ⟨fun h => (by cases h), fun h => absurd (Option.some.inj h.1) hi⟩

theorem walk_append_iff : fs.walk here (names ++ names') = .ok there ↔
    ∃ k, fs.walk here names = .ok k ∧ fs.walk k names' = .ok there := by
  induction names generalizing here with
  | nil => simp [walk]
  | cons name names ih =>
      rw [List.cons_append, walk_cons_iff, ih]
      simp only [walk_cons_iff]
      constructor
      · rintro ⟨hfolder, hshort, k, hk, hthere⟩
        exact ⟨k, ⟨hfolder, hshort, hk⟩, hthere⟩
      · rintro ⟨k, ⟨hfolder, hshort, hk⟩, hthere⟩
        exact ⟨hfolder, hshort, k, hk, hthere⟩

theorem walk_snoc_iff : fs.walk here (names ++ [name]) = .ok there ↔
    ∃ k, fs.walk here names = .ok k ∧ fs.item? k = some .folder ∧ name.utf8ByteSize ≤ 255 ∧
      step k name = there := by
  rw [walk_append_iff]
  refine exists_congr fun k => and_congr_right fun _ => ?_
  rw [walk_cons_iff, walk, Except.ok.injEq]

namespace GrowsAt

theorem walk (h : GrowsAt l fs fs') (hwalk : fs.walk here names = .ok there) :
    fs'.walk here names = .ok there := by
  induction names generalizing here with
  | nil => exact hwalk
  | cons name names ih =>
      obtain ⟨hfolder, hshort, hrest⟩ := walk_cons_iff.mp hwalk
      exact walk_cons_iff.mpr ⟨h.folder hfolder, hshort, ih hrest⟩

theorem locate (h : GrowsAt l fs fs') {path : String} (hpath : fs.locate path = .ok there) :
    fs'.locate path = .ok there := by
  simp only [Files.locate] at hpath ⊢
  split_ifs at hpath ⊢
  have hstart : fs'.start (Path.ofText path) = fs.start (Path.ofText path) := by
    rw [start, start, h.home]
  rw [hstart]
  exact h.walk hpath

/-- What can be read can still be read, and more may follow. -/
theorem read (h : GrowsAt l fs fs') {path : String} {content : List UInt8}
    (hread : fs.read path = .ok content) : ∃ more, fs'.read path = .ok (content ++ more) := by
  cases hlocate : fs.locate path with
  | error f => simp [Files.read, find, hlocate, bind, Except.bind] at hread
  | ok k =>
      cases hitem : fs.item? k with
      | none => simp [Files.read, find, hlocate, hitem, bind, Except.bind] at hread
      | some i =>
          simp only [Files.read, find, hlocate, hitem, bind, Except.bind] at hread
          obtain ⟨i', hi', hgrows⟩ := h.item? hitem
          obtain ⟨more, hmore⟩ := hgrows.bytes hread
          refine ⟨more, ?_⟩
          simp only [Files.read, find, h.locate hlocate, hi', bind, Except.bind, hmore]

end GrowsAt

/-! ## Making folders again -/

theorem leadToFolder_iff : fs.leadToFolder here names = true ↔
    ∃ k, fs.walk here names = .ok k ∧ fs.item? k = some .folder := by
  unfold leadToFolder
  cases fs.walk here names <;> simp [hasFolder]

theorem leadToFolder_of_makeFolder (h : fs.makeFolder here names name = .ok fs') :
    fs'.leadToFolder here (names ++ [name]) = true := by
  obtain ⟨k, hwalk, hfolder, hnone, ⟨hdot, hup⟩, hshort, rfl⟩ := makeFolder_cases h
  have hgrows : GrowsAt [] fs (fs.put (k ++ [name]) .folder) := .put_folder [] hnone
  refine leadToFolder_iff.mpr ⟨step k name, ?_, ?_⟩
  · exact walk_snoc_iff.mpr ⟨k, hgrows.walk hwalk, hgrows.folder hfolder, hshort, rfl⟩
  · by_cases hempty : name = ""
    · rw [step, if_pos (by simp [hempty])]
      exact hgrows.folder hfolder
    · rw [step, if_neg (by simp [hempty, hdot]), if_neg hup]
      exact item?_put_self (by simp) .folder

/-- Folders that are made without a fault are there. -/
theorem leadToFolder_of_makeFolders (h : fs.makeFolders here names = (none, fs'))
    (hnames : names ≠ []) : fs'.leadToFolder here names.reverse = true := by
  have hsettle : ∀ (gs : Files) (e : Fault) (above : List String),
      (if gs.leadToFolder here above = true then (none, gs) else (some e, gs)) = (none, fs') →
        fs'.leadToFolder here above = true := by
    intro gs e above hgs
    split_ifs at hgs with hleads
    · cases hgs
      exact hleads
    · cases hgs
  cases names with
  | nil => exact absurd rfl hnames
  | cons name above =>
      rw [List.reverse_cons]
      rw [makeFolders, List.reverse_cons] at h
      split at h
      · rename_i gs hmade
        cases h
        exact leadToFolder_of_makeFolder hmade
      · split at h
        · cases h
        · rename_i gs hgs
          split at h
          · rename_i gs' hmade
            cases h
            exact leadToFolder_of_makeFolder hmade
          · exact hsettle gs _ _ h
      · exact hsettle fs _ _ h

/-- Folders that are there are not made. -/
theorem makeFolders_of_leadToFolder (hnames : "" ∉ names)
    (h : fs.leadToFolder here names.reverse = true) : fs.makeFolders here names = (none, fs) := by
  cases names with
  | nil => rfl
  | cons name above =>
      rw [List.reverse_cons] at h
      obtain ⟨k, hleads, hthere⟩ := leadToFolder_iff.mp h
      obtain ⟨m, hwalk, hfolder, hshort, rfl⟩ := walk_snoc_iff.mp hleads
      have hexists : fs.makeFolder here above.reverse name = .error .exists := by
        simp only [makeFolder, hwalk, bind, Except.bind, hfolder]
        by_cases hdots : (name = "." || name = "..") = true
        · rw [if_pos hdots]
          rfl
        · have hempty : name ≠ "" := fun hname => hnames (by simp [hname])
          obtain ⟨hdot, hup⟩ : name ≠ "." ∧ name ≠ ".." := by simpa using hdots
          rw [step, if_neg (by simp [hempty, hdot]), if_neg hup] at hthere
          rw [if_neg hdots, if_neg (Nat.not_lt_of_le hshort), hthere]
          rfl
      rw [makeFolders, hexists, List.reverse_cons]
      exact if_pos h

theorem empty_notMem_normal (p : Path) : "" ∉ p.normal.names := by
  have htrimmed : ∀ names, "" ∉ Path.trimmed names := by simp [Path.trimmed]
  unfold Path.normal
  split
  · simp [htrimmed]
  · exact htrimmed _

/-- The folders around a path that were made once are there. -/
theorem makeParent_again {path : String} (h : fs.makeParent path = (none, fs'))
    (hgrows : GrowsAt l fs' fs'') : fs''.makeParent path = (none, fs'') := by
  have hmade := GrowsAt.makeParent l fs path
  rw [h] at hmade
  have hempty := empty_notMem_normal (Path.ofText path)
  rw [← List.mem_reverse] at hempty
  simp only [makeParent] at h ⊢
  split
  · rfl
  · rename_i name above hnames
    simp only [hnames] at h hempty
    by_cases hnul : path.toList.contains '\x00' = true
    · rw [if_pos hnul] at h ⊢
      rw [(Prod.mk.inj h).1]
    · rw [if_neg hnul] at h ⊢
      by_cases habove : above = []
      · rw [habove, makeFolders]
      · have hleads := leadToFolder_of_makeFolders h habove
        obtain ⟨k, hwalk, hfolder⟩ := leadToFolder_iff.mp hleads
        have hstart :
            fs''.start (Path.ofText path).normal = fs.start (Path.ofText path).normal := by
          rw [start, start, hgrows.home, hmade.home]
        rw [hstart]
        apply makeFolders_of_leadToFolder
        · exact fun hmem => hempty (List.mem_cons_of_mem _ hmem)
        · exact leadToFolder_iff.mpr ⟨k, hgrows.walk hwalk, hgrows.folder hfolder⟩

theorem locate_of_openEnd {path : String} (h : fs.openEnd path = .ok (l, fs')) :
    fs.locate path = .ok l := by
  simp only [openEnd] at h
  split_ifs at h
  · split at h
    · cases h
    · split at h <;> cases h
  · split at h
    · cases h
    · rename_i k hlocate
      rw [hlocate]
      split at h
      · cases h
      · cases h
        rfl
      · split_ifs at h
        · cases h
          rfl
        · split at h <;> cases h

/-- A path that was opened to be extended can be opened again. -/
theorem openEnd_again {path : String} (h : fs.openEnd path = .ok (l, fs'))
    (hgrows : GrowsAt l fs' fs'') {content : List UInt8}
    (hfile : fs''.item? l = some (.file content)) : fs''.openEnd path = .ok (l, fs'') := by
  have hlocate := ((GrowsAt.openEnd h).trans hgrows).locate (locate_of_openEnd h)
  simp only [openEnd] at h ⊢
  split_ifs at h ⊢
  · split at h
    · cases h
    · split at h <;> cases h
  · simp only [hlocate, hfile]

end Files

namespace Log.Writer

open Files

variable {w w' : Writer} {fs fs' fs'' : Files} {l : Location}

/-- A step that stays at a log and lets the store only grow there. -/
structure After.Extends (l : Location) (fs : Files) (a : After) : Prop where
  target : a.writer.target = l
  grows : GrowsAt l fs a.files

theorem handOver_extends (hw : w.target = l) (hgrows : GrowsAt l fs fs') (bytes : List UInt8) :
    (w.handOver bytes fs').Extends l fs := by
  unfold handOver
  split
  · exact ⟨hw, hgrows⟩
  · refine ⟨hw, hgrows.trans ?_⟩
    rw [← hw]
    exact .extend _ _ _

theorem drain_extends (hw : w.target = l) (hgrows : GrowsAt l fs fs') :
    (w.drain fs').Extends l fs := by
  obtain ⟨htarget, hmore⟩ := handOver_extends hw hgrows w.collected
  simp only [drain]
  split_ifs
  · exact ⟨hw, hgrows⟩
  · split
    · exact ⟨htarget, hmore⟩
    · exact ⟨htarget, hmore⟩

theorem take_extends (hw : w.target = l) (hgrows : GrowsAt l fs fs') (bytes : List UInt8) :
    (w.take bytes fs').Extends l fs := by
  simp only [take]
  generalize hready : (if capacity < w.collected.length + bytes.length then w.drain fs'
    else ⟨none, w, fs'⟩) = a
  obtain ⟨htarget, hmore⟩ : a.Extends l fs := by
    rw [← hready]
    split_ifs
    · exact drain_extends hw hgrows
    · exact ⟨hw, hgrows⟩
  split
  · exact ⟨htarget, hmore⟩
  · split_ifs
    · exact handOver_extends htarget hmore bytes
    · exact ⟨htarget, hmore⟩

/-- A write stays at its log, whether or not it fails, and takes nothing away. -/
theorem write_extends (hw : w.target = l) (hgrows : GrowsAt l fs fs') (e : Entry) :
    (w.write e fs').2.1.target = l ∧ GrowsAt l fs (w.write e fs').2.2 := by
  obtain ⟨htarget, hmore⟩ := take_extends hw hgrows (lineBytes e)
  simp only [write]
  exact ⟨htarget, hmore⟩

theorem flush_extends (hw : w.target = l) (hgrows : GrowsAt l fs fs') :
    (w.flush fs').2.1.target = l ∧ GrowsAt l fs (w.flush fs').2.2 := by
  obtain ⟨htarget, hmore⟩ := drain_extends hw hgrows
  simp only [flush]
  split
  · exact ⟨htarget, hmore⟩
  · exact ⟨htarget, hmore⟩

theorem start_extends {path : String} (h : start fs path = (.ok w, fs')) :
    GrowsAt w.target fs fs' := by
  obtain ⟨gs, hparent, hopen, -⟩ := start_cases h
  have hmade := GrowsAt.makeParent w.target fs path
  rw [hparent] at hmade
  exact hmade.trans (.openEnd hopen)

theorem locate_of_start {path : String} (h : start fs path = (.ok w, fs')) :
    fs'.locate path = .ok w.target := by
  obtain ⟨gs, -, hopen, -⟩ := start_cases h
  exact (GrowsAt.openEnd hopen).locate (locate_of_openEnd hopen)

/-- A start that fails makes folders at most. -/
theorem files_of_start_error {path : String} {f : Fault} (h : start fs path = (.error f, fs')) :
    fs' = (fs.makeParent path).2 := by
  unfold start at h
  split at h
  · rename_i hparent
    rw [hparent]
    exact (Prod.mk.inj h).2.symm
  · rename_i gs hparent
    rw [hparent]
    split at h
    · exact (Prod.mk.inj h).2.symm
    · cases h

/-- A log that was opened can be opened again while it grows. -/
theorem start_again {path : String} (h : start fs path = (.ok w, fs'))
    (hgrows : GrowsAt w.target fs' fs'') {content : List UInt8}
    (hfile : fs''.item? w.target = some (.file content)) :
    start fs'' path = (.ok { target := w.target }, fs'') := by
  obtain ⟨gs, hparent, hopen, -⟩ := start_cases h
  have hsince : GrowsAt w.target gs fs'' := (GrowsAt.openEnd hopen).trans hgrows
  simp only [start, makeParent_again hparent hsince, openEnd_again hopen hgrows hfile]

end Log.Writer

end RequestAudit
