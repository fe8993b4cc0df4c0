import RequestAudit.Proofs.YamlCharacters
import RequestAudit.Proofs.YamlScans

/-!
# The tokens of written data

Data become tokens part by part. What follows a part begins a line of its own, and its indentation
tells which of the collections around the part end there.
-/

namespace RequestAudit.Yaml

open Document

/-- A name that is written plain and can be a key. -/
def IsKey (k : String) : Prop :=
  Written.isAmbiguous k = false ∧ Written.fitsPlain k.toList = true ∧ k.toList.length ≤ 1024

instance (k : String) : Decidable (IsKey k) := inferInstanceAs (Decidable (_ ∧ _ ∧ _))

/-- Data without counts in which only fields can be empty lists and every record has fields. -/
inductive Fits : Datum → Prop where
  | flag (b : Bool) : Fits (.flag b)
  | text (s : String) : Fits (.text s)
  | list {ds : List Datum} (h : ∀ d ∈ ds, Fits d) (hne : .list [] ∉ ds) : Fits (.list ds)
  | record {fs : List (String × Datum)} (hne : fs ≠ []) (hkeys : ∀ f ∈ fs, IsKey f.1)
      (h : ∀ f ∈ fs, Fits f.2) : Fits (.record fs)

namespace Token

mutual

/-- The tokens of the value of a field. -/
def ofField : Datum → List Token
  | .flag b => [scalar .plain (toString b)]
  | .number n => [scalar .plain (toString n)]
  | .text s => [scalar (styleOf s) s]
  | .list [] => [flowSequenceStart, flowSequenceEnd]
  | .list (d :: ds) => ofItems (d :: ds)
  | .record fs => mappingStart :: (ofFields fs ++ [blockEnd])

/-- The tokens of an element of a list. -/
def ofItem : Datum → List Token
  | .flag b => [scalar .plain (toString b)]
  | .number n => [scalar .plain (toString n)]
  | .text s => [scalar (styleOf s) s]
  | .list ds => sequenceStart :: (ofItems ds ++ [blockEnd])
  | .record fs => mappingStart :: (ofFields fs ++ [blockEnd])

/-- The tokens of the elements of a list. -/
def ofItems : List Datum → List Token
  | [] => []
  | d :: ds => item :: (ofItem d ++ ofItems ds)

/-- The tokens of the fields of a record. -/
def ofFields : List (String × Datum) → List Token
  | [] => []
  | (k, d) :: fs => key :: scalar .plain k :: value :: (ofField d ++ ofFields fs)

end

namespace State

open Written (spaces fieldBody itemBody items fields)

/-- A line begins here that is indented by at most `n`, and the tokens from it on. -/
def Lines (indent : ℤ) (outer : List ℤ) (n : ℕ) (rest : List Char) (ts : List Token) : Prop :=
  ∃ j ds, rest = spaces j ++ ds ∧ j ≤ n ∧ Stops ds ∧ Scans indent outer true j ds ts

/-- The value of a field of a mapping, and what is around it. -/
def ScansField (d : Datum) : Prop :=
  ∀ (n : ℕ) outer column rest ts, n < column → Lines n outer n rest ts →
    Scans n outer false column (fieldBody n d ++ rest) (ofField d ++ ts)

/-- An element of a sequence, and what is around it. -/
def ScansItem (d : Datum) : Prop :=
  ∀ (n : ℕ) outer rest ts, Lines n outer n rest ts →
    Scans n outer true (n + 2) (itemBody n d ++ rest) (ofItem d ++ ts)

variable {indent : ℤ} {outer : List ℤ} {n : ℕ} {rest : List Char} {ts : List Token}

theorem Lines.scans (h : Lines indent outer n rest ts) : Scans indent outer true 0 rest ts := by
  obtain ⟨j, ds, rfl, -, -, h⟩ := h
  refine Scans.indentation ?_
  rwa [Nat.zero_add]

/-- Less indentation ends the innermost collection. -/
theorem Lines.leave {k : ℕ} (h : Lines indent outer k rest ts) (hk : k < n) :
    Lines n (indent :: outer) n rest (.blockEnd :: ts) := by
  obtain ⟨j, ds, rfl, hj, hds, h⟩ := h
  exact ⟨j, ds, rfl, by omega, hds, Scans.leave hds (by omega) h⟩

/-! ## Sequences -/

theorem lines_items {ds : List Datum} (hds : ∀ d ∈ ds, ScansItem d) (h : Lines n outer n rest ts) :
    Lines n outer n (items n true ds ++ rest) (ofItems ds ++ ts) := by
  induction ds with
  | nil => exact h
  | cons d ds ih =>
      obtain ⟨hd, hds⟩ := List.forall_mem_cons.mp hds
      refine ⟨n, '-' :: ' ' :: (itemBody n d ++ (items n true ds ++ rest)), ?_, Nat.le_refl n,
        stops_cons (by decide), ?_⟩
      · simp [items]
      · have hrest := hd n outer _ _ (ih hds)
        rw [ofItems, List.cons_append, List.append_assoc]
        exact Scans.item hrest

/-- A sequence with its own indentation, up to where it ends. -/
theorem scans_items {d : Datum} {ds : List Datum} (hds : ∀ x ∈ d :: ds, ScansItem x)
    (hn : indent < n) (h : Lines n (indent :: outer) n rest (.blockEnd :: ts)) :
    Scans indent outer true n (items n false (d :: ds) ++ rest) (ofItem (.list (d :: ds)) ++ ts) := by
  obtain ⟨hd, hds⟩ := List.forall_mem_cons.mp hds
  have hrest := hd n (indent :: outer) _ _ (lines_items hds h)
  have htext : items n false (d :: ds) ++ rest =
      '-' :: ' ' :: (itemBody n d ++ (items n true ds ++ rest)) := by
    simp [items]
  rw [htext]
  simpa [ofItem, ofItems] using Scans.firstItem hn hrest

/-! ## Mappings -/

theorem isGap_fieldBody (n : ℕ) (d : Datum) (t : List Char) :
    Written.isGap (fieldBody n d ++ t) = true := by
  cases d with
  | flag | number | text => rfl
  | list ds => cases ds <;> rfl
  | record fs => cases fs <;> rfl

theorem text_of_isKey {k : String} (hk : IsKey k) (n : ℕ) : Written.text n k = k.toList := by
  obtain ⟨hambiguous, hfits, -⟩ := hk
  have hfeed : '\n' ∉ k.toList := by
    intro hmem
    have hbreak := (isPlain_of_not_isAmbiguous hambiguous hfits).oneLine _ hmem
    cases hbreak
  simp [Written.text, hfeed, hambiguous, hfits]

theorem lines_fields {fs : List (String × Datum)} (hkeys : ∀ f ∈ fs, IsKey f.1)
    (hfs : ∀ f ∈ fs, ScansField f.2) (h : Lines n outer n rest ts) :
    Lines n outer n (fields n true fs ++ rest) (ofFields fs ++ ts) := by
  induction fs with
  | nil => exact h
  | cons f fs ih =>
      obtain ⟨k, d⟩ := f
      obtain ⟨hk, hkeys⟩ := List.forall_mem_cons.mp hkeys
      obtain ⟨hd, hfs⟩ := List.forall_mem_cons.mp hfs
      have hplain := isPlain_of_not_isAmbiguous hk.1 hk.2.1
      obtain ⟨c, cs, hcs, -, -, hstops⟩ := hplain.exists_cons
      refine ⟨n, k.toList ++ ':' :: (fieldBody n d ++ (fields n true fs ++ rest)), ?_, Nat.le_refl n,
        ?_, ?_⟩
      · simp [fields, text_of_isKey hk]
      · rw [hcs]
        exact stops_append hstops _
      · have hrest := hd n outer (n + k.toList.length + 1) _ _ (by omega) (ih hkeys hfs)
        rw [ofFields, List.cons_append, List.cons_append, List.cons_append, List.append_assoc]
        exact Scans.key hplain hk.2.2 (isGap_fieldBody n d _) hrest

/-- A mapping with its own indentation, up to where it ends. -/
theorem scans_fields {f : String × Datum} {fs : List (String × Datum)}
    (hkeys : ∀ g ∈ f :: fs, IsKey g.1) (hfs : ∀ g ∈ f :: fs, ScansField g.2) (hn : indent < n)
    (h : Lines n (indent :: outer) n rest (.blockEnd :: ts)) :
    Scans indent outer true n (fields n false (f :: fs) ++ rest)
      (ofItem (.record (f :: fs)) ++ ts) := by
  obtain ⟨k, d⟩ := f
  obtain ⟨hk, hkeys⟩ := List.forall_mem_cons.mp hkeys
  obtain ⟨hd, hfs⟩ := List.forall_mem_cons.mp hfs
  have hplain := isPlain_of_not_isAmbiguous hk.1 hk.2.1
  have hrest := hd n (indent :: outer) (n + k.toList.length + 1) _ _ (by omega)
    (lines_fields hkeys hfs h)
  have htext : fields n false ((k, d) :: fs) ++ rest =
      k.toList ++ ':' :: (fieldBody n d ++ (fields n true fs ++ rest)) := by
    simp [fields, text_of_isKey hk]
  rw [htext]
  simpa [ofItem, ofFields] using Scans.firstKey hplain hk.2.2 (isGap_fieldBody n d _) hn hrest

/-! ## Data -/

theorem scansField_flag (b : Bool) : ScansField (.flag b) := by
  rintro n outer column rest ts hcolumn ⟨j, ds, rfl, hj, hds, h⟩
  have htext : fieldBody n (.flag b) ++ (spaces j ++ ds) =
      ' ' :: ((toString b).toList ++ '\n' :: (spaces j ++ ds)) := by
    simp [fieldBody]
  rw [htext]
  exact Scans.blank (Scans.plain (isPlain_toString b) hds hj (by omega) h)

theorem scansItem_flag (b : Bool) : ScansItem (.flag b) := by
  rintro n outer rest ts ⟨j, ds, rfl, hj, hds, h⟩
  have htext : itemBody n (.flag b) ++ (spaces j ++ ds) =
      (toString b).toList ++ '\n' :: (spaces j ++ ds) := by
    simp [itemBody]
  rw [htext]
  exact Scans.plain (isPlain_toString b) hds hj (by omega) h

theorem scansField_text (s : String) : ScansField (.text s) := by
  rintro n outer column rest ts hcolumn ⟨j, ds, rfl, hj, hds, h⟩
  exact Scans.blank (Scans.text s hds hj (by omega) h)

theorem scansItem_text (s : String) : ScansItem (.text s) := by
  rintro n outer rest ts ⟨j, ds, rfl, hj, hds, h⟩
  exact Scans.text s hds hj (by omega) h

theorem scansField_list {ds : List Datum} (hds : ∀ d ∈ ds, ScansItem d) : ScansField (.list ds) := by
  intro n outer column rest ts hcolumn h
  cases ds with
  | nil =>
      exact Scans.blank (Scans.emptyList (by omega) (Scans.lineEnd h.scans))
  | cons d ds => exact Scans.lineEnd (lines_items hds h).scans

theorem scansItem_list {ds : List Datum} (hne : ds ≠ []) (hds : ∀ d ∈ ds, ScansItem d) :
    ScansItem (.list ds) := by
  intro n outer rest ts h
  obtain ⟨d, ds, rfl⟩ := List.exists_cons_of_ne_nil hne
  have hn : (n : ℤ) < (n + 2 : ℕ) := by omega
  exact scans_items hds hn (h.leave (by omega))

theorem scans_record {fs : List (String × Datum)} (hne : fs ≠ []) (hkeys : ∀ f ∈ fs, IsKey f.1)
    (hfs : ∀ f ∈ fs, ScansField f.2) : ScansField (.record fs) ∧ ScansItem (.record fs) := by
  obtain ⟨f, fs, rfl⟩ := List.exists_cons_of_ne_nil hne
  have hn : ∀ n : ℕ, (n : ℤ) < (n + 2 : ℕ) := by omega
  constructor
  · intro n outer column rest ts hcolumn h
    have hrest := scans_fields hkeys hfs (hn n) (h.leave (by omega))
    have htext : fieldBody n (.record (f :: fs)) ++ rest =
        '\n' :: (spaces (n + 2) ++ (fields (n + 2) false (f :: fs) ++ rest)) := by
      obtain ⟨k, d⟩ := f
      simp [fieldBody, fields]
    rw [htext]
    refine Scans.lineEnd (Scans.indentation ?_)
    rwa [Nat.zero_add]
  · intro n outer rest ts h
    exact scans_fields hkeys hfs (hn n) (h.leave (by omega))

theorem scans_of_fits {d : Datum} (h : Fits d) : ScansField d ∧ (d ≠ .list [] → ScansItem d) := by
  -- Lists ask their parts to be read as elements, and records ask them to be read as fields.
  induction h with
  | flag b => exact ⟨scansField_flag b, fun _ => scansItem_flag b⟩
  | text s => exact ⟨scansField_text s, fun _ => scansItem_text s⟩
  | @list ds _ hne ih =>
      have hitems : ∀ d ∈ ds, ScansItem d := by
        intro d hd
        refine (ih d hd).2 ?_
        rintro rfl
        exact hne hd
      refine ⟨scansField_list hitems, fun hlist => scansItem_list ?_ hitems⟩
      rintro rfl
      exact hlist rfl
  | record hne hkeys _ ih =>
      have hrecord := scans_record hne hkeys fun f hf => (ih f hf).1
      exact ⟨hrecord.1, fun _ => hrecord.2⟩

end State

/-! ## Documents -/

/-- The tokens of a list or a record as a whole document. -/
def ofDocument : Datum → List Token
  | .list [] => [flowSequenceStart, flowSequenceEnd]
  | d => ofItem d

theorem ofText_scans {cs : List Char} {ts : List Token} (hcs : AllPlainly cs)
    (h : State.Scans (-1) [] true 0 cs ts) : ofText cs = ts := by
  rw [ofText_of_allPlainly hcs]
  exact h {} rfl 0 [] (cs.length + 1) (Nat.lt_succ_self _)

theorem lines_end : State.Lines (0 : ℕ) [-1] 0 [] [.blockEnd, .textEnd] :=
  ⟨0, [], rfl, Nat.le_refl 0, stops_nil, State.Scans.atEnd⟩

theorem ofText_list {ds : List Datum} (h : Fits (.list ds)) :
    ofText (Written.document (.list ds)) = ofDocument (.list ds) ++ [.textEnd] := by
  cases ds with
  | nil => cbv
  | cons d ds =>
      refine ofText_scans (Written.allPlainly_document _) ?_
      cases h with
      | list h hne =>
          have hitems : ∀ x ∈ d :: ds, State.ScansItem x := by
            intro x hx
            refine (State.scans_of_fits (h x hx)).2 ?_
            rintro rfl
            exact hne hx
          have hscans := State.scans_items hitems (by decide : (-1 : ℤ) < (0 : ℕ)) lines_end
          rwa [List.append_nil] at hscans

theorem ofText_record {fs : List (String × Datum)} (h : Fits (.record fs)) :
    ofText (Written.document (.record fs)) = ofDocument (.record fs) ++ [.textEnd] := by
  cases h with
  | record hne hkeys h =>
      obtain ⟨f, fs, rfl⟩ := List.exists_cons_of_ne_nil hne
      refine ofText_scans (Written.allPlainly_document _) ?_
      have hscans := State.scans_fields hkeys (fun f hf => (State.scans_of_fits (h f hf)).1)
        (by decide : (-1 : ℤ) < (0 : ℕ)) lines_end
      rwa [List.append_nil] at hscans

end Token

end RequestAudit.Yaml
