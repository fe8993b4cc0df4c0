import Mathlib.Data.List.Basic
import RequestAudit.Files

/-!
# What operations leave in a store

A put changes one location. Making folders changes no location at which something stands, and
opening a file to extend it changes none of them either.
-/

namespace RequestAudit

namespace Files

variable {fs fs' fs'' : Files} {l k : Location}

theorem lookup_cons_pair (i : Item) (items : List (Location × Item)) :
    List.lookup k ((l, i) :: items) = if k = l then some i else List.lookup k items := by
  rw [List.lookup_cons]
  by_cases hk : k = l
  · simp [hk]
  · rw [if_neg hk, beq_false_of_ne hk]

theorem lookup_putItem (i : Item) (items : List (Location × Item)) :
    (putItem l i items).lookup k = if k = l then some i else items.lookup k := by
  induction items with
  | nil => exact lookup_cons_pair i []
  | cons entry items ih =>
      obtain ⟨m, j⟩ := entry
      rw [putItem]
      by_cases hm : m = l
      · subst hm
        rw [if_pos rfl, lookup_cons_pair, lookup_cons_pair]
        by_cases hk : k = m
        · rw [if_pos hk, if_pos hk]
        · rw [if_neg hk, if_neg hk, if_neg hk]
      · rw [if_neg hm, lookup_cons_pair, lookup_cons_pair, ih]
        by_cases hk : k = m
        · subst hk
          rw [if_pos rfl, if_neg hm, if_pos rfl]
        · rw [if_neg hk, if_neg hk]

theorem item?_root : fs.item? [] = some .folder := if_pos rfl

theorem ne_root_of_item?_ne (fs : Files) (h : fs.item? l ≠ some .folder) : l ≠ [] := by
  rintro rfl
  exact h item?_root

theorem item?_put (hl : l ≠ []) (i : Item) (k : Location) :
    (fs.put l i).item? k = if k = l then some i else fs.item? k := by
  unfold item? put
  by_cases hk : k = []
  · subst hk
    simp [Ne.symm hl]
  · rw [if_neg hk, if_neg hk, lookup_putItem]

theorem item?_put_self (hl : l ≠ []) (i : Item) : (fs.put l i).item? l = some i := by
  rw [item?_put hl, if_pos rfl]

theorem extend_file {content : List UInt8} (h : fs.item? l = some (.file content))
    (bytes : List UInt8) :
    fs.extend l bytes = (none, fs.put l (.file (content ++ bytes))) := by
  rw [extend, h]

/-! ## Making folders -/

/-- The second store differs from the first one by folders where nothing stood. -/
def MoreFolders (fs fs' : Files) : Prop :=
  ∀ l, fs'.item? l = fs.item? l ∨ fs.item? l = none ∧ fs'.item? l = some .folder

theorem MoreFolders.rfl : MoreFolders fs fs := fun _ => .inl (Eq.refl _)

theorem MoreFolders.trans (h : MoreFolders fs fs') (h' : MoreFolders fs' fs'') :
    MoreFolders fs fs'' := by
  intro l
  rcases h' l with hsame | ⟨hnone, hfolder⟩
  · rw [hsame]
    exact h l
  · rcases h l with hl | ⟨_, hl⟩
    · exact .inr ⟨hl.symm.trans hnone, hfolder⟩
    · rw [hl] at hnone
      cases hnone

theorem MoreFolders.put (hl : fs.item? l = none) : MoreFolders fs (fs.put l .folder) := by
  have hroot : l ≠ [] := ne_root_of_item?_ne fs (by simp [hl])
  intro k
  rw [item?_put hroot]
  by_cases hk : k = l
  · subst hk
    exact .inr ⟨hl, if_pos (Eq.refl _)⟩
  · exact .inl (if_neg hk)

/-- What is no folder stood there before the folders were made. -/
theorem MoreFolders.item?_eq (h : MoreFolders fs fs') (hl : fs'.item? l ≠ some .folder) :
    fs.item? l = fs'.item? l := by
  rcases h l with hsame | ⟨_, hfolder⟩
  · exact hsame.symm
  · exact absurd hfolder hl

/-- A folder is made in a folder, where nothing stood. -/
theorem makeFolder_cases {start : Location} {above : List String} {name : String}
    (h : fs.makeFolder start above name = .ok fs') :
    ∃ here, fs.walk start above = .ok here ∧ fs.item? here = some .folder ∧
      fs.item? (here ++ [name]) = none ∧ (name ≠ "." ∧ name ≠ "..") ∧
      name.utf8ByteSize ≤ 255 ∧ fs' = fs.put (here ++ [name]) .folder := by
  unfold makeFolder at h
  cases hwalk : fs.walk start above with
  | error f => simp [hwalk, bind, Except.bind] at h
  | ok here =>
      simp only [hwalk, bind, Except.bind] at h
      split at h
      · cases h
      · rename_i hfolder
        split_ifs at h with hdots hlong hthere
        cases h
        refine ⟨here, rfl, hfolder, by simpa using hthere, ?_, Nat.le_of_not_lt hlong, rfl⟩
        simpa using hdots
      · cases h

section Making

variable {R : Files → Files → Prop} (hrefl : ∀ fs, R fs fs)
  (htrans : ∀ fs gs hs, R fs gs → R gs hs → R fs hs)
  (hput : ∀ fs l, item? fs l = none → R fs (fs.put l .folder))

include hput in
theorem makeFolder_keeps {start : Location} {above : List String} {name : String}
    (h : fs.makeFolder start above name = .ok fs') : R fs fs' := by
  obtain ⟨here, -, -, hnone, -, -, rfl⟩ := makeFolder_cases h
  exact hput fs _ hnone

include hrefl htrans hput

/-- Making folders keeps what a folder that is put where nothing stood keeps. -/
theorem makeFolders_keeps (fs : Files) (start : Location) (names : List String) :
    R fs (fs.makeFolders start names).2 := by
  induction names generalizing fs with
  | nil => exact hrefl fs
  | cons name above ih =>
      have hsettle : ∀ (gs : Files) (e : Fault) (b : Bool),
          (if b = true then (none, gs) else (some e, gs) : Option Fault × Files).2 = gs := by
        intro gs e b
        cases b <;> simp
      rw [makeFolders]
      split
      · rename_i gs hmade
        exact makeFolder_keeps hput hmade
      · -- the folders above are missing, so that they come first
        have habove := ih fs
        split
        · rename_i e gs hgs
          rw [hgs] at habove
          exact habove
        · rename_i gs hgs
          rw [hgs] at habove
          split
          · rename_i gs' hmade
            exact htrans _ _ _ habove (makeFolder_keeps hput hmade)
          · rw [hsettle]
            exact habove
      · rw [hsettle]
        exact hrefl fs

theorem makeParent_keeps (fs : Files) (path : String) : R fs (fs.makeParent path).2 := by
  simp only [makeParent]
  split
  · exact hrefl fs
  · split_ifs
    · exact hrefl fs
    · exact hrefl fs
    · exact makeFolders_keeps hrefl htrans hput fs _ _

end Making

theorem moreFolders_makeParent (fs : Files) (path : String) :
    MoreFolders fs (fs.makeParent path).2 :=
  makeParent_keeps (fun _ => .rfl) (fun _ _ _ h h' => h.trans h') (fun _ _ h => .put h) fs path

/-! ## Opening -/

/-- What a log at the location begins with: the content of the file there, or nothing. -/
def BeginsWith (fs : Files) (l : Location) (content : List UInt8) : Prop :=
  fs.item? l = some (.file content) ∨ fs.item? l = none ∧ content = []

/-- What is opened to be extended stands there already or is a new, empty file. -/
theorem openEnd_cases {path : String} (h : fs.openEnd path = .ok (l, fs')) :
    fs.item? l ≠ some .folder ∧
      ((fs.item? l ≠ none ∧ fs' = fs) ∨ (fs.item? l = none ∧ fs' = fs.put l (.file []))) := by
  simp only [openEnd] at h
  split_ifs at h with hslash
  · split at h
    · cases h
    · split at h <;> cases h
  · split at h
    · cases h
    · rename_i k hk
      split at h
      · cases h
      · rename_i i hi hitem
        cases h
        refine ⟨?_, .inl ⟨?_, rfl⟩⟩
        · rw [hitem]
          exact fun hfolder => hi (Option.some.inj hfolder)
        · simp [hitem]
      · rename_i hnone
        split_ifs at h with hparent
        · cases h
          exact ⟨by simp [hnone], .inr ⟨hnone, rfl⟩⟩
        · split at h <;> cases h

end Files

end RequestAudit
