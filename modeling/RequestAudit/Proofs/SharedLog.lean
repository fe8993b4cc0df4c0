import Mathlib.Data.List.Basic
import Mathlib.Logic.Function.Basic
import RequestAudit.Proofs.GrowingFiles
import RequestAudit.Proofs.RecorderRuns
import RequestAudit.Proofs.WholeLines

/-!
# A log with several writers

Any number of writers may be opened on one path, at any time, and take turns in any order. Each of
them collects its own lines, so that the lines do not reach the file in the order of the calls.
The invariant ties three things together for every writer: its lines in the file, the lines that
it has collected, and the entries that it was given. A step of one writer moves the boundary
between the first two for this writer alone.
-/

namespace RequestAudit.Log

open Files (GrowsAt)
open Log.System (callsBy lines)

/-- A log, its writers and the faults that they have reported. -/
structure Shared where
  files : Files
  writers : List Writer := []
  faults : List Fault := []

/-- What is done to a shared log: one more writer is opened, or a writer is used. -/
inductive Use where
  | start
  | write (i : ℕ) (e : Entry)
  | flush (i : ℕ)

namespace Use

/-- How many writers are open after a use. -/
def opened (n : ℕ) : Use → ℕ
  | start => n + 1
  | write _ _ => n
  | flush _ => n

/-- The entry that a use gives to one of so many open writers, with the number of this writer. -/
def given (n : ℕ) : Use → List (ℕ × Entry)
  | start => []
  | write i e => if i < n then [(i, e)] else []
  | flush _ => []

/-- All entries that are given to writers, of which so many are open at first. -/
def allGiven (n : ℕ) : List Use → List (ℕ × Entry)
  | [] => []
  | u :: uses => u.given n ++ allGiven (u.opened n) uses

end Use

namespace Shared

/-- A use of the log at a path. A writer that is not opened yet cannot be used. -/
def step (path : String) (s : Shared) : Use → Shared
  | .start =>
    match Writer.start s.files path with
    | (.error f, fs) => { s with files := fs, faults := s.faults ++ [f] }
    | (.ok w, fs) => { s with files := fs, writers := s.writers ++ [w] }
  | .write i e =>
    match s.writers[i]? with
    | none => s
    | some w =>
      let (f?, w, fs) := w.write e s.files
      { files := fs, writers := s.writers.set i w, faults := s.faults ++ f?.toList }
  | .flush i =>
    match s.writers[i]? with
    | none => s
    | some w =>
      let (f?, w, fs) := w.flush s.files
      { files := fs, writers := s.writers.set i w, faults := s.faults ++ f?.toList }

def run (path : String) (s : Shared) (uses : List Use) : Shared := uses.foldl (step path) s

/-- A writer has not been flushed since it was given an entry. -/
def AwaitsFlush (i : ℕ) (uses : List Use) : Prop :=
  ∃ earlier e later, uses = earlier ++ .write i e :: later ∧ .flush i ∉ later

theorem awaitsFlush_nil {i : ℕ} : ¬AwaitsFlush i [] := by
  rintro ⟨earlier, e, later, huses, -⟩
  exact List.cons_ne_nil _ _ (List.append_eq_nil_iff.mp huses.symm).2

theorem awaitsFlush_cons {i : ℕ} {u : Use} {uses : List Use} : AwaitsFlush i (u :: uses) ↔
    (∃ e, u = .write i e) ∧ .flush i ∉ uses ∨ AwaitsFlush i uses := by
  constructor
  · rintro ⟨earlier, e, later, huses, hflush⟩
    rcases List.cons_eq_append_iff.mp huses with ⟨rfl, hfirst⟩ | ⟨rest, rfl, hrest⟩
    · obtain ⟨rfl, rfl⟩ := List.cons.inj hfirst
      exact .inl ⟨⟨e, rfl⟩, hflush⟩
    · exact .inr ⟨rest, e, later, hrest, hflush⟩
  · rintro (⟨⟨e, rfl⟩, hflush⟩ | ⟨earlier, e, later, rfl, hflush⟩)
    · exact ⟨[], e, uses, rfl, hflush⟩
    · exact ⟨u :: earlier, e, later, rfl, hflush⟩

/-- Behind what stood there before, the file has the lines of the entries that have landed, and
those of every writer are the first ones that it was given. -/
structure Landed (l : Location) (before : List UInt8) (landed given : List (ℕ × Entry))
    (s : Shared) : Prop where
  file : s.files.item? l = some (.file (before ++ lines landed))
  inOrder : ∀ i, callsBy i landed <+: callsBy i given

/-- The entries that a writer was given have landed or are kept by it. -/
structure Fills (path : String) (l : Location) (before : List UInt8)
    (landed given : List (ℕ × Entry)) (kept : ℕ → List Entry) (s : Shared) : Prop where
  silent : s.faults = []
  file : s.files.item? l = some (.file (before ++ lines landed))
  opens : Writer.start s.files path = (.ok { target := l }, s.files)
  writers : ∀ (i : ℕ) (w : Writer), s.writers[i]? = some w →
    w = { target := l, collected := (kept i).flatMap Writer.lineBytes }
  unopened : ∀ i, s.writers[i]? = none → kept i = []
  accounts : ∀ i, callsBy i landed ++ (kept i).map (Prod.mk i) = callsBy i given

theorem callsBy_map_self (i : ℕ) (es : List Entry) :
    callsBy i (es.map (Prod.mk i)) = es.map (Prod.mk i) := by
  simp [callsBy]

theorem callsBy_map_of_ne {i k : ℕ} (hk : k ≠ i) (es : List Entry) :
    callsBy k (es.map (Prod.mk i)) = [] := by
  simp [callsBy, hk.symm]

theorem lines_append_map (landed : List (ℕ × Entry)) (i : ℕ) (es : List Entry) :
    lines (landed ++ es.map (Prod.mk i)) = lines landed ++ es.flatMap Writer.lineBytes := by
  simp [lines, List.flatMap_append, List.flatMap_map]

namespace Fills

variable {s : Shared} {path : String} {l : Location} {before : List UInt8}
  {landed given : List (ℕ × Entry)} {kept : ℕ → List Entry} {i : ℕ}

theorem toLanded (h : s.Fills path l before landed given kept) :
    s.Landed l before landed given where
  file := h.file
  inOrder := fun i => ⟨_, h.accounts i⟩

theorem splits (h : s.Fills path l before landed given kept) {w : Writer}
    (hw : s.writers[i]? = some w) :
    w.target = l ∧ w.Splits s.files (before ++ lines landed) [] (kept i) := by
  obtain rfl := h.writers i w hw
  refine ⟨rfl, ⟨?_, rfl⟩, rfl⟩
  rw [h.file, List.flatMap_nil, List.append_nil]

/-- A writer hands over the first of the entries that it has kept and is given, and keeps the
rest. -/
theorem handOver (h : s.Fills path l before landed given kept) {w w' : Writer} {fs : Files}
    {done rest new : List Entry} (hw : s.writers[i]? = some w) (hgrows : GrowsAt l s.files fs)
    (htarget : w'.target = l) (hsplit : w'.Splits fs (before ++ lines landed) done rest)
    (hnew : done ++ rest = kept i ++ new) :
    Fills path l before (landed ++ done.map (Prod.mk i)) (given ++ new.map (Prod.mk i))
      (Function.update kept i rest) { s with files := fs, writers := s.writers.set i w' } := by
  have hfile : fs.item? l = some (.file (before ++ lines (landed ++ done.map (Prod.mk i)))) := by
    rw [lines_append_map, ← List.append_assoc, ← htarget]
    exact hsplit.stands.file
  have hi : i < s.writers.length := (List.getElem?_eq_some_iff.mp hw).1
  refine ⟨h.silent, hfile, Writer.start_again h.opens hgrows hfile, ?_, ?_, ?_⟩
  · intro k v hv
    by_cases hk : k = i
    · subst hk
      rw [List.getElem?_set_self hi, Option.some.injEq] at hv
      subst hv
      rw [Function.update_self, ← hsplit.collected, ← htarget, ← hsplit.stands.sound]
    · rw [List.getElem?_set_ne (Ne.symm hk)] at hv
      rw [Function.update_of_ne hk]
      exact h.writers k v hv
  · intro k hnone
    have hk : k ≠ i := by
      rintro rfl
      rw [List.getElem?_set_self hi] at hnone
      cases hnone
    rw [List.getElem?_set_ne (Ne.symm hk)] at hnone
    rw [Function.update_of_ne hk]
    exact h.unopened k hnone
  · intro k
    rw [System.callsBy_append, System.callsBy_append, ← h.accounts k]
    by_cases hk : k = i
    · subst hk
      rw [Function.update_self, callsBy_map_self, callsBy_map_self, List.append_assoc,
        List.append_assoc, ← List.map_append, ← List.map_append, hnew]
    · rw [Function.update_of_ne hk, callsBy_map_of_ne hk, callsBy_map_of_ne hk, List.append_nil,
        List.append_nil]

theorem write (h : s.Fills path l before landed given kept) {w : Writer}
    (hw : s.writers[i]? = some w) (e : Entry) : ∃ w' fs added rest,
    s.step path (.write i e) = { s with files := fs, writers := s.writers.set i w' } ∧
      Fills path l before (landed ++ added) (given ++ [(i, e)]) (Function.update kept i rest)
        { s with files := fs, writers := s.writers.set i w' } := by
  obtain ⟨htarget, hsplit⟩ := h.splits hw
  obtain ⟨w', fs, done, rest, hwrite, htarget', hsplit', hnew⟩ := hsplit.write e
  have hgrows := (Writer.write_extends htarget (.refl l s.files) e).2
  rw [hwrite] at hgrows
  refine ⟨w', fs, done.map (Prod.mk i), rest, ?_, ?_⟩
  · simp [step, hw, hwrite]
  · exact h.handOver hw hgrows (htarget'.trans htarget) hsplit' hnew

theorem flush (h : s.Fills path l before landed given kept) {w : Writer}
    (hw : s.writers[i]? = some w) : ∃ w' fs added,
    s.step path (.flush i) = { s with files := fs, writers := s.writers.set i w' } ∧
      Fills path l before (landed ++ added) given (Function.update kept i [])
        { s with files := fs, writers := s.writers.set i w' } := by
  obtain ⟨htarget, hsplit⟩ := h.splits hw
  obtain ⟨w', fs, hflush, htarget', hsplit'⟩ := hsplit.flush
  have hgrows := (Writer.flush_extends htarget (.refl l s.files)).2
  rw [hflush] at hgrows
  refine ⟨w', fs, (kept i).map (Prod.mk i), ?_, ?_⟩
  · simp [step, hw, hflush]
  · have hnew : [] ++ kept i ++ [] = kept i ++ [] := rfl
    have hhanded := h.handOver hw hgrows (htarget'.trans htarget) hsplit' hnew
    rw [List.map_nil, List.append_nil] at hhanded
    exact hhanded

theorem start (h : s.Fills path l before landed given kept) :
    Fills path l before landed given kept
      { s with writers := s.writers ++ [{ target := l }] } := by
  have hnew : kept s.writers.length = [] := by
    apply h.unopened
    exact List.getElem?_eq_none (Nat.le_refl _)
  refine ⟨h.silent, h.file, h.opens, ?_, ?_, h.accounts⟩
  · intro k w hw
    rcases Nat.lt_trichotomy k s.writers.length with hk | rfl | hk
    · rw [List.getElem?_append_left hk] at hw
      exact h.writers k w hw
    · rw [List.getElem?_concat_length, Option.some.injEq] at hw
      rw [hnew, ← hw]
      rfl
    · have hpast : (s.writers ++ [({ target := l } : Writer)]).length ≤ k := by
        rw [List.length_append]
        exact hk
      rw [List.getElem?_eq_none hpast] at hw
      cases hw
  · intro k hnone
    apply h.unopened
    rw [List.getElem?_eq_none_iff, List.length_append] at hnone
    exact List.getElem?_eq_none (Nat.le_trans (Nat.le_add_right _ _) hnone)

/-- A use of the log adds whole lines to it. A writer keeps something only if it kept something
before and is not flushed, or if it is given an entry. -/
theorem step (h : s.Fills path l before landed given kept) (u : Use) : ∃ added kept',
    Fills path l before (landed ++ added) (given ++ u.given s.writers.length) kept'
      (s.step path u) ∧
    (s.step path u).writers.length = u.opened s.writers.length ∧
    ∀ k, kept' k ≠ [] → (kept k ≠ [] ∧ u ≠ .flush k) ∨ ∃ e, u = .write k e := by
  cases u with
  | start =>
      have hstep : s.step path .start = { s with writers := s.writers ++ [{ target := l }] } := by
        simp only [Shared.step, h.opens]
      refine ⟨[], kept, ?_, ?_, fun k hk => .inl ⟨hk, by simp⟩⟩
      · rw [List.append_nil, Use.given, List.append_nil, hstep]
        exact h.start
      · rw [hstep, List.length_append]
        rfl
  | write i e =>
      cases hw : s.writers[i]? with
      | none =>
          have hi : ¬i < s.writers.length := Nat.not_lt_of_le (List.getElem?_eq_none_iff.mp hw)
          have hstep : s.step path (.write i e) = s := by simp only [Shared.step, hw]
          refine ⟨[], kept, ?_, ?_, fun k hk => .inl ⟨hk, by simp⟩⟩
          · rw [List.append_nil, Use.given, if_neg hi, List.append_nil, hstep]
            exact h
          · rw [hstep, Use.opened]
      | some w =>
          have hi : i < s.writers.length := (List.getElem?_eq_some_iff.mp hw).1
          obtain ⟨w', fs, added, rest, hstep, hwritten⟩ := h.write hw e
          refine ⟨added, Function.update kept i rest, ?_, ?_, fun k hk => ?_⟩
          · rw [Use.given, if_pos hi, hstep]
            exact hwritten
          · rw [hstep, List.length_set, Use.opened]
          · by_cases hki : k = i
            · exact .inr ⟨e, by rw [hki]⟩
            · rw [Function.update_of_ne hki] at hk
              exact .inl ⟨hk, by simp⟩
  | flush i =>
      have hother : ∀ k, k ≠ i → Use.flush i ≠ .flush k := by
        rintro k hk ⟨⟩
        exact hk rfl
      rw [Use.given, List.append_nil, Use.opened]
      cases hw : s.writers[i]? with
      | none =>
          have hstep : s.step path (.flush i) = s := by simp only [Shared.step, hw]
          rw [hstep]
          refine ⟨[], kept, ?_, rfl, fun k hk => .inl ⟨hk, hother k ?_⟩⟩
          · rw [List.append_nil]
            exact h
          · rintro rfl
            exact hk (h.unopened k hw)
      | some w =>
          obtain ⟨w', fs, added, hstep, hflushed⟩ := h.flush hw
          rw [hstep]
          refine ⟨added, Function.update kept i [], hflushed, List.length_set, fun k hk => ?_⟩
          by_cases hki : k = i
          · subst hki
            rw [Function.update_self] at hk
            exact absurd rfl hk
          · rw [Function.update_of_ne hki] at hk
            exact .inl ⟨hk, hother k hki⟩

theorem run (h : s.Fills path l before landed given kept) (uses : List Use) : ∃ added kept',
    Fills path l before (landed ++ added) (given ++ Use.allGiven s.writers.length uses) kept'
      (s.run path uses) ∧
    ∀ k, kept' k ≠ [] → (kept k ≠ [] ∧ .flush k ∉ uses) ∨ AwaitsFlush k uses := by
  induction uses generalizing s landed given kept with
  | nil =>
      refine ⟨[], kept, ?_, fun k hk => .inl ⟨hk, List.not_mem_nil⟩⟩
      rw [List.append_nil, Use.allGiven, List.append_nil]
      exact h
  | cons u uses ih =>
      obtain ⟨added, kept₁, hstep, hopened, hkept₁⟩ := h.step u
      obtain ⟨more, kept₂, hrun, hkept₂⟩ := ih hstep
      rw [hopened, List.append_assoc, List.append_assoc] at hrun
      refine ⟨added ++ more, kept₂, hrun, fun k hk => ?_⟩
      rw [awaitsFlush_cons]
      rcases hkept₂ k hk with ⟨hk₁, hflush⟩ | hawaits
      · rcases hkept₁ k hk₁ with ⟨hk₀, hu⟩ | hwrite
        · exact .inl ⟨hk₀, by simp [hu.symm, hflush]⟩
        · exact .inr (.inl ⟨hwrite, hflush⟩)
      · exact .inr (.inr hawaits)

end Fills

theorem run_start {fs fs' : Files} {w : Writer} {path : String}
    (h : Writer.start fs path = (.ok w, fs')) (uses : List Use) :
    run path { files := fs } (.start :: uses) =
      run path { files := fs', writers := [w] } uses := by
  simp only [run, List.foldl_cons, step, h, List.nil_append]

theorem fills_of_start {fs fs' : Files} {w : Writer} {path : String} {before : List UInt8}
    (h : Writer.start fs path = (.ok w, fs')) (hbefore : fs.BeginsWith w.target before) :
    Fills path w.target before [] [] (fun _ => []) { files := fs', writers := [w] } := by
  obtain ⟨-, -, -, hfresh⟩ := Writer.start_cases h
  have hfile := (Writer.stands_of_start h hbefore).file
  refine ⟨rfl, by simpa [lines] using hfile, Writer.start_again h (.refl _ _) hfile, ?_, ?_, ?_⟩
  · intro k v hv
    obtain rfl : v = w := List.mem_singleton.mp (List.mem_of_getElem? hv)
    exact hfresh
  · exact fun _ _ => rfl
  · exact fun _ => rfl

/-- Whatever is done to a log that a first writer has opened, there are no faults, and the file
keeps what stood there before and what has landed since. The lines are whole, and those of a writer
are the first ones that it was given, or all of them if it was flushed after the last one. -/
theorem run_shared {fs fs' : Files} {w : Writer} {path : String} {before : List UInt8}
    (hstart : Writer.start fs path = (.ok w, fs')) (hbefore : fs.BeginsWith w.target before)
    (uses : List Use) :
    let s := run path { files := fs } (.start :: uses)
    let given := Use.allGiven 0 (.start :: uses)
    s.faults = [] ∧ ∃ landed, s.Landed w.target before landed given ∧
      (∀ more, ∃ added, (s.run path more).Landed w.target before (landed ++ added)
        (given ++ Use.allGiven s.writers.length more)) ∧
      (∀ i, ¬AwaitsFlush i uses → callsBy i landed = callsBy i given) ∧
      ((∀ i, ¬AwaitsFlush i uses) → landed.Perm given) := by
  intro s given
  obtain ⟨landed, kept, hfills, hkept⟩ := (fills_of_start hstart hbefore).run uses
  rw [← run_start hstart] at hfills
  change s.Fills path w.target before landed given kept at hfills
  have hflushed : ∀ i, ¬AwaitsFlush i uses → callsBy i landed = callsBy i given := by
    intro i hi
    have hnone : kept i = [] := by
      by_contra hsome
      rcases hkept i hsome with ⟨hinitial, -⟩ | hawaits
      · exact hinitial rfl
      · exact hi hawaits
    have haccounts := hfills.accounts i
    rw [hnone, List.map_nil, List.append_nil] at haccounts
    exact haccounts
  refine ⟨hfills.silent, landed, hfills.toLanded, fun more => ?_, hflushed, fun hall => ?_⟩
  · obtain ⟨added, _, hmore, -⟩ := hfills.run more
    exact ⟨added, hmore.toLanded⟩
  · exact System.perm_of_callsBy fun i => hflushed i (hall i)

/-! ## Two writers -/

def twoFiles : Files := Files.empty.put ["home", "log"] (.file [0x78, 0x0a])

/-- The writer that was opened first is flushed last. -/
def twoUses : List Use :=
  [.write 0 System.probe, .start, .write 1 System.probe, .flush 1, .write 0 System.probe, .flush 0]

theorem run_shared_two :
    (run "log" { files := twoFiles } (.start :: twoUses)).faults = [] ∧
    ∃ landed, (run "log" { files := twoFiles } (.start :: twoUses)).files.item? ["home", "log"] =
        some (.file ([0x78, 0x0a] ++ lines landed)) ∧
      landed.Perm [(0, System.probe), (1, System.probe), (0, System.probe)] := by
  have hstart : Writer.start twoFiles "log" = (.ok { target := ["home", "log"] }, twoFiles) := rfl
  have hflushed : ∀ i, ¬AwaitsFlush i twoUses := by
    intro i
    simp [twoUses, awaitsFlush_cons, awaitsFlush_nil]
    omega
  obtain ⟨hsilent, landed, hlanded, -, -, hperm⟩ := run_shared hstart (.inl rfl) twoUses
  exact ⟨hsilent, landed, hlanded.file, hperm hflushed⟩

end Shared

end RequestAudit.Log
